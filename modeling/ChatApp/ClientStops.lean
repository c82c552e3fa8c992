import ChatApp.ClientThreads

namespace ChatApp

open Effects Runs

-- how many steps a thread of a client that has been told to stop has before it
def SendPc.stepsToEnd : SendPc → Nat
  | .waiting => 6
  | .reading => 5
  | .naming _ => 4
  | .coloring _ => 3
  | .sending => 2
  | .marking => 2
  | .head => 1
  | .ended => 0

def ReceivePc.stepsToEnd : ReceivePc → Nat
  | .waiting => 9
  | .reading => 8
  | .testing => 7
  | .deciding _ => 6
  | .coloring _ => 5
  | .naming _ => 4
  | .marking => 3
  | .confirming => 2
  | .showing _ => 2
  | .waking => 2
  | .head => 1
  | .ended => 0

-- write to cl_event_fd succeeds
def ClientLabel.wakes : ClientLabel → Prop
  | .send _ => True
  | .receive _ env => env.wakeOk = true

namespace ClientProcess

variable {p q : ClientProcess} {l : ClientLabel}

def stepsToStop (p : ClientProcess) : Nat :=
  if p.crashed then 0 else p.sender.stepsToEnd + p.receiver.stepsToEnd

-- no line, nothing on the socket, and nothing left to do without them
def Idle (p : ClientProcess) : Prop :=
  (∀ env, env.readable = false → p.step (.send env) = none) ∧
    ∀ env, p.step (.receive false env) = none

section Stopping

theorem mayReturn_stepsToEnd {pc : ReceivePc} (h : pc.mayReturn = true) : 2 ≤ pc.stepsToEnd := by
  cases pc <;> simp_all [ReceivePc.mayReturn, ReceivePc.stepsToEnd]

theorem sendTurn_done (hd : p.client.doneRequested = true) (h : SendTurn p q) :
    q.client.doneRequested = true := by
  cases h with
  | quits _ => rfl
  | _ => exact hd

theorem receiveTurn_done {env : ClientEnv} (hd : p.client.doneRequested = true)
    (h : ReceiveTurn p env q) : q.client.doneRequested = true := by
  cases h with
  | closed _ => rfl
  | unwoken _ _ hq | returns _ hq | crashes _ hq =>
    exact (congrArg Client.doneRequested hq.1).trans hd
  | _ => exact hd

theorem step_done (hd : p.client.doneRequested = true) (h : p.step l = some q) :
    q.client.doneRequested = true := by
  obtain ⟨_, ⟨_, _, ht⟩ | ⟨_, _, _, ht⟩⟩ := step_cases h
  · exact sendTurn_done hd ht
  · exact receiveTurn_done hd ht

theorem sendTurn_stepsToStop (hd : p.client.doneRequested = true) (hc : p.crashed = false)
    (h : SendTurn p q) : q.stepsToStop < p.stepsToStop := by
  have less (hq : q.crashed = false) (hr : q.receiver = p.receiver)
      (hlt : q.sender.stepsToEnd < p.sender.stepsToEnd) : q.stepsToStop < p.stepsToStop := by
    simp only [stepsToStop, hq, hc, hr, Bool.false_eq_true, if_false]
    omega
  cases h with
  | idles _ hd' | waits _ hd' _ | greets _ hd' _ | dies _ hd' =>
    rw [hd] at hd'
    cases hd'
  | names hs =>
    refine less hc rfl ?_
    simp only [hs]
    split_ifs <;> simp [SendPc.stepsToEnd]
  | ends hs | marks hs | wakes hs | reads hs | nothing hs | quits hs | types hs | colors hs
  | sends hs | fails hs => exact less hc rfl (by simp [hs, SendPc.stepsToEnd])

theorem receiveTurn_stepsToStop {env : ClientEnv} (hd : p.client.doneRequested = true)
    (hc : p.crashed = false) (h : ReceiveTurn p env q) : q.stepsToStop < p.stepsToStop := by
  have less (hq : q.crashed = false) (hs : q.sender = p.sender)
      (hlt : q.receiver.stepsToEnd < p.receiver.stepsToEnd) : q.stepsToStop < p.stepsToStop := by
    simp only [stepsToStop, hq, hc, hs, Bool.false_eq_true, if_false]
    omega
  have crashed (hq : q.crashed = true) (hpos : 2 ≤ p.receiver.stepsToEnd) :
      q.stepsToStop < p.stepsToStop := by
    simp only [stepsToStop, hq, hc, Bool.false_eq_true, if_false, if_true]
    omega
  cases h with
  | waits _ hd' =>
    rw [hd] at hd'
    cases hd'
  | returns hm _ =>
    refine less hc rfl ?_
    have := mayReturn_stepsToEnd hm
    exact this
  | crashes hm _ => exact crashed rfl (mayReturn_stepsToEnd hm)
  | miscolors hr => exact crashed rfl (by simp [hr, ReceivePc.stepsToEnd])
  | ends hr | wakes hr | closed hr | received hr | woke hr | unwoken hr | decoded hr _ | shows hr
  | answers hr | colors hr | names hr | marks hr =>
    exact less hc rfl (by simp [hr, ReceivePc.stepsToEnd])
  | confirms hr =>
    refine less hc rfl ?_
    change ReceivePc.head.stepsToEnd < _
    rw [hr]
    decide

theorem step_stepsToStop (hd : p.client.doneRequested = true) (h : p.step l = some q) :
    q.stepsToStop < p.stepsToStop := by
  obtain ⟨hc, ⟨_, _, ht⟩ | ⟨_, _, _, ht⟩⟩ := step_cases h
  · exact sendTurn_stepsToStop hd hc ht
  · exact receiveTurn_stepsToStop hd hc ht

theorem stepsToStop_le (p : ClientProcess) : p.stepsToStop ≤ 15 := by
  have hs : p.sender.stepsToEnd ≤ 6 := by cases p.sender <;> simp [SendPc.stepsToEnd]
  have hr : p.receiver.stepsToEnd ≤ 9 := by cases p.receiver <;> simp [ReceivePc.stepsToEnd]
  unfold stepsToStop
  split_ifs <;> omega

-- a send thread in epoll_wait has been woken, or is about to be, once the client must stop
def StopHeard (p : ClientProcess) : Prop :=
  p.client.doneRequested = true → p.sender = .waiting → p.evfd ≠ 0 ∨ p.receiver = .waking

theorem sendTurn_stopHeard (hp : p.StopHeard) (h : SendTurn p q) : q.StopHeard := by
  intro hd hw
  cases h with
  | idles _ _ => exact hp hd hw
  | waits _ hd' _ =>
    have hd : p.client.doneRequested = true := hd
    rw [hd] at hd'
    cases hd'
  | names _ =>
    simp only at hw
    split_ifs at hw
  | dies hs _ =>
    have hw : p.sender = .waiting := hw
    rw [hs] at hw
    cases hw
  | _ => cases hw

theorem receiveTurn_stopHeard {env : ClientEnv} (hp : p.StopHeard) (hwake : env.wakeOk = true)
    (h : ReceiveTurn p env q) : q.StopHeard := by
  intro hd hw
  have stays (hd : p.client.doneRequested = true) (hw : p.sender = .waiting)
      (hne : p.receiver ≠ .waking) : p.evfd ≠ 0 := (hp hd hw).resolve_right hne
  cases h with
  | closed _ => exact .inr rfl
  | woke _ => exact .inl (Nat.succ_ne_zero _)
  | unwoken _ hno _ =>
    rw [hwake] at hno
    cases hno
  | returns hm hq =>
    refine .inl (stays ((congrArg Client.doneRequested hq.1).symm.trans hd) hw fun hr => ?_)
    rw [hr] at hm
    cases hm
  | crashes hm hq =>
    refine .inl (stays ((congrArg Client.doneRequested hq.1).symm.trans hd) hw fun hr => ?_)
    rw [hr] at hm
    cases hm
  | ends hr _ | waits hr _ | wakes hr | received hr _ | decoded hr _ | shows hr | answers hr _
  | colors hr | names hr | marks hr | confirms hr | miscolors hr =>
    exact .inl (stays hd hw (by simp [hr]))

theorem step_stopHeard (hp : p.StopHeard) (hl : l.wakes) (h : p.step l = some q) : q.StopHeard := by
  obtain ⟨_, ⟨_, rfl, ht⟩ | ⟨_, _, rfl, ht⟩⟩ := step_cases h
  · exact sendTurn_stopHeard hp ht
  · exact receiveTurn_stopHeard hp hl ht

-- a receive thread that has left epoll_wait does not come back to it
theorem step_waiting (hd : p.client.doneRequested = true) (h : p.step l = some q)
    (hq : q.receiver = .waiting) : p.receiver = .waiting := by
  obtain ⟨_, ⟨_, rfl, ht⟩ | ⟨_, _, rfl, ht⟩⟩ := step_cases h
  · cases ht <;> exact hq
  · cases ht with
    | waits _ hd' =>
      rw [hd] at hd'
      cases hd'
    | crashes _ _ => exact hq
    | miscolors _ => exact hq
    | _ => cases hq

theorem Idle.sender_ended (h : p.Idle) (hc : p.crashed = false)
    (hd : p.client.doneRequested = true) (hp : p.StopHeard) : p.sender = .ended := by
  have hquiet := h.1 {} rfl
  have hreceive := h.2 { recv := .zero }
  simp only [step, hc, Bool.false_eq_true, if_false] at hquiet hreceive
  cases hs : p.sender with
  | head => simp [sendStep, hs, hd] at hquiet
  | waiting =>
    rcases hp hd hs with he | hr
    · simp [sendStep, hs, he] at hquiet
    · simp [receiveStep, hr] at hreceive
  | ended => rfl
  | _ => simp [sendStep, hs] at hquiet

theorem Idle.receiver_ended (h : p.Idle) (hc : p.crashed = false) :
    p.receiver = .ended ∨ p.receiver = .waiting := by
  have hreceive := h.2 { recv := .zero }
  simp only [step, hc, Bool.false_eq_true, if_false] at hreceive
  cases hr : p.receiver with
  | ended => exact .inl rfl
  | waiting => exact .inr rfl
  | testing =>
    simp only [receiveStep, hr] at hreceive
    split_ifs at hreceive
    split at hreceive <;> cases hreceive
  | deciding m =>
    simp only [receiveStep, hr] at hreceive
    split_ifs at hreceive
  | coloring m =>
    simp only [receiveStep, hr] at hreceive
    split at hreceive
    · cases hreceive
    · split at hreceive <;> cases hreceive
  | showing m =>
    simp only [receiveStep, hr] at hreceive
    split at hreceive <;> cases hreceive
  | _ => simp [receiveStep, hr] at hreceive

end Stopping

-- both threads end: the send thread without another line, and the receive thread unless it was
-- waiting for the server when it was told
theorem client_stops {name : Str} {frame : MessageFrame}
    (hr : Reach step (fun _ l => l.wakes) (init name frame) p)
    (hd : p.client.doneRequested = true) {ls : List ClientLabel} (hls : ∀ l ∈ ls, l.wakes)
    (hrun : run step p ls = some q) :
    ls.length ≤ 15 ∧ (q.crashed = false → q.Idle → q.sender = .ended ∧
      (q.receiver = .ended ∨ q.receiver = .waiting ∧ p.receiver = .waiting)) := by
  constructor
  · have hstep (p : ClientProcess) (l : ClientLabel) (q : ClientProcess)
        (hd : p.client.doneRequested = true) (hs : step p l = some q) :
        q.client.doneRequested = true ∧ q.stepsToStop < p.stepsToStop :=
      ⟨step_done hd hs, step_stepsToStop hd hs⟩
    have hlen := run_length_le (I := fun p => p.client.doneRequested = true) hd hstep hrun
    have := p.stepsToStop_le
    omega
  · intro hc hidle
    have hheard : q.StopHeard := by
      refine (hr.trans (reach_of_run hls hrun)).invariant (fun hd => ?_)
        fun _ _ _ hp hl hs => step_stopHeard hp hl hs
      cases hd
    obtain ⟨hdq, hback⟩ := run_invariant
      (I := fun q => q.client.doneRequested = true ∧
        (q.receiver = .waiting → p.receiver = .waiting)) ⟨hd, id⟩ (fun q l q' hI hs => ⟨step_done hI.1 hs, fun hw =>
        hI.2 (step_waiting hI.1 hs hw)⟩) hrun
    refine ⟨hidle.sender_ended hc hdq hheard, ?_⟩
    exact (hidle.receiver_ended hc).imp id fun hw => ⟨hw, hback hw⟩

theorem idle_of_ended (hs : p.sender = .ended) (hr : p.receiver = .ended) : p.Idle := by
  refine ⟨fun env _ => ?_, fun env => ?_⟩
  · simp only [step, sendStep, hs, ite_self]
  · simp only [step, receiveStep, hr, ite_self]

def untilQuit : List ClientLabel :=
  sends 3 ++ [.receive false { recv := .zero }] ++ typing quitMsg

-- the server takes the farewell up and closes the connection
def untilClosed : List ClientLabel :=
  sends 3 ++ List.replicate 4 (.receive true { recv := .zero })

theorem client_stops_quit : ∃ p q : ClientProcess,
    p.client.doneRequested = true ∧ run step p untilClosed = some q ∧ untilClosed.length ≤ 15 ∧
    q.sender = .ended ∧ (q.receiver = .ended ∨ q.receiver = .waiting ∧ p.receiver = .waiting) := by
  have hwakes : ∀ l ∈ untilQuit, l.wakes := by
    intro l hl
    simp only [untilQuit, sends, typing, List.mem_append, List.mem_replicate, List.mem_cons,
      List.not_mem_nil, or_false] at hl
    rcases hl with (⟨_, rfl⟩ | rfl) | rfl | rfl <;> trivial
  have hcloses : ∀ l ∈ untilClosed, l.wakes := by
    intro l hl
    simp only [untilClosed, sends, List.mem_append, List.mem_replicate] at hl
    rcases hl with ⟨_, rfl⟩ | ⟨_, rfl⟩ <;> trivial
  have hrun : (run step (init "ann".toList freshFrame) untilQuit).any (fun p =>
      p.client.doneRequested && (run step p untilClosed).any fun q =>
        !q.crashed && q.sender = .ended && q.receiver = .ended) = true := by
    decide +kernel
  cases hp : run step (init "ann".toList freshFrame) untilQuit with
  | none =>
    rw [hp] at hrun
    cases hrun
  | some p =>
    rw [hp, Option.any_some, Bool.and_eq_true] at hrun
    obtain ⟨hd, hrun⟩ := hrun
    cases hq : run step p untilClosed with
    | none =>
      rw [hq] at hrun
      cases hrun
    | some q =>
      simp only [hq, Option.any_some, Bool.and_eq_true, decide_eq_true_eq,
        Bool.not_eq_true'] at hrun
      obtain ⟨⟨hc, hs⟩, hr⟩ := hrun
      obtain ⟨hlen, hends⟩ := client_stops (reach_of_run hwakes hp) hd hcloses hq
      obtain ⟨hsender, hreceiver⟩ := hends hc (idle_of_ended hs hr)
      exact ⟨p, q, hd, hq, hlen, hsender, hreceiver⟩

end ClientProcess

end ChatApp
