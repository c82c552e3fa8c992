import ChatApp.FrameReuse
import ChatApp.SystemInvariant

namespace ChatApp

open Effects Runs MessageFrame

variable {cfg : Config}

-- what worker_loop does to its two buffers: a client's turn, with whatever the rest of the server
-- has become, and the messages about those that go
inductive LoopTurn (cfg : Config) where
  | client (ev : Events) (listenerEvfd : Int) (client : Int × Int) (s : Shared cfg)
  | gone (m : ServerMessage)

def chunkOf (ev : Events) (client : Int × Int) : Option Chunk :=
  match ev.pollIn client.1, ev.recv client.1 with
  | true, .chunk c => some c
  | _, _ => none

-- the buffers, and whether a chunk has been received into them
def loopTurn (p : Buffers × Bool) : LoopTurn cfg → Option (Buffers × Bool)
  | .client ev listenerEvfd client s =>
    match handleClient ev listenerEvfd client p.1 s with
    | .ok b _ => some (b, p.2 || (chunkOf ev client).isSome)
    | .error _ _ => none
  | .gone m => some ({ p.1 with serverMsg := m }, p.2)

def Attended (s : Shared cfg) (client : Int × Int) : Prop :=
  0 ≤ s.sv.svSocket ∧ ∃ cl, s.sv.getClientRef client.2 = some cl ∧ 0 ≤ cl.fd

-- construct_from_string is given the bytes received, and the scan for NUL ends in the frame
def TakesBytes (p : Buffers × Bool) : LoopTurn cfg → Prop
  | .client ev _ client s => ∀ c, chunkOf ev client = some c → nul ∉ c.bytes →
      (p.1.msgFrame.recv c).toStdString = .ok c.bytes ∧
      (Attended s client → handleInput ev client p.1 s =
        match ({} : ServerMessage).constructFromString c.bytes with
        | .ok m => .ok (false, ⟨(p.1.msgFrame.recv c).clearMsg, m⟩) s
        | .error e => .error e s)
  | .gone _ => True

-- no chunk fills the frame, and the first one finds a NUL behind it in the uninitialised bytes
def Terminated (frame : MessageFrame) (p : Buffers × Bool) : LoopTurn cfg → Prop
  | .client ev _ client _ => ∀ c, chunkOf ev client = some c → nul ∉ c.bytes →
      if p.2 then c.bytes.length < maxLen else frame.msg[c.bytes.length]? = some nul
  | .gone _ => True

def FrameKnown (frame : MessageFrame) (p : Buffers × Bool) : Prop :=
  p.1.msgFrame = if p.2 then frame.clearMsg else frame

section Steps

variable {s t : Shared cfg} {ev : Events} {client : Int × Int} {b b' : Buffers} {L : Int}

theorem handleOutput_frame (h : handleOutput ev client b s = .ok b' t) :
    b'.msgFrame = b.msgFrame := by
  rcases handleOutput_done h with ⟨_, rfl, _⟩ | ⟨_, _, _, _, _, rfl⟩
  · rfl
  · rfl

theorem handleClient_frame (h : handleClient ev L client b s = .ok b' t) :
    b'.msgFrame = if (chunkOf ev client).isSome then b.msgFrame.clearMsg else b.msgFrame := by
  cases handleClient_done h with
  | silent hin ho =>
    simp only [chunkOf, hin, Option.isSome_none, Bool.false_eq_true, if_false]
    exact handleOutput_frame ho
  | closed hin hr _ =>
    simp only [chunkOf, hin, hr, Option.isSome_none, Bool.false_eq_true, if_false]
  | heard hin hr _ _ _ _ ho =>
    simp only [chunkOf, hin, hr, Option.isSome_some, if_true]
    exact handleOutput_frame ho

theorem loopTurn_known {frame : MessageFrame} {p q : Buffers × Bool} {l : LoopTurn cfg}
    (h : FrameKnown frame p) (hq : loopTurn p l = some q) : FrameKnown frame q := by
  cases l with
  | gone m =>
    cases hq
    exact h
  | client ev L client s =>
    simp only [loopTurn] at hq
    split at hq
    · rename_i b t hb
      cases hq
      rw [FrameKnown, handleClient_frame hb, h]
      cases p.2 <;> cases (chunkOf ev client).isSome <;> rfl
    · cases hq

theorem takesBytes_iff {frame : MessageFrame} {p : Buffers × Bool} {l : LoopTurn cfg}
    (h : FrameKnown frame p) : TakesBytes p l ↔ Terminated frame p l := by
  cases l with
  | gone m => exact Iff.rfl
  | client ev L client s =>
    refine forall_congr' fun c => forall_congr' fun hc => forall_congr' fun hnul => ?_
    have hcond : (if p.2 then c.bytes.length < maxLen
        else frame.msg[c.bytes.length]? = some nul) ↔
        p.1.msgFrame.msg[c.bytes.length]? = some nul := by
      rw [h]
      cases p.2 with
      | false => rfl
      | true =>
        simp only [if_true, clearMsg, List.getElem?_replicate, ite_eq_left_iff, reduceCtorEq,
          imp_false, not_not]
    rw [hcond, ← toStdString_recv_iff hnul]
    refine and_iff_left_of_imp fun hstr => ?_
    rintro ⟨hsv, cl, hcl, hfd⟩
    have hrecv : ev.recv client.1 = .chunk c := by
      unfold chunkOf at hc
      split at hc
      · rename_i hr
        cases hc
        exact hr
      · cases hc
    have hrun := handleInput_chunk (b := p.1) hsv hcl hfd hrecv
    rw [decode, hstr] at hrun
    exact hrun

end Steps

-- the loop of a worker that runs in the system is such a run, from the frame it started with
section Loops

variable {s t : Shared cfg} {ev : Events} {b b' : Buffers} {L : Int} {clients : List (Int × Int)}

theorem handleClients_turns (heard : Bool) (h : handleClients ev L clients b s = .ok b' t) :
    ∃ (ls : List (LoopTurn cfg)) (heard' : Bool),
      run loopTurn (b, heard) ls = some (b', heard') := by
  induction clients generalizing b s heard with
  | nil =>
    cases h
    exact ⟨[], heard, rfl⟩
  | cons client rest ih =>
    obtain ⟨b₁, u, hb, hrest⟩ := bind_ok h
    obtain ⟨ls, heard', hls⟩ := ih (heard || (chunkOf ev client).isSome) hrest
    refine ⟨.client ev L client s :: ls, heard', ?_⟩
    simp only [run, loopTurn, hb, Option.bind_some]
    exact hls

theorem workerIteration_turns {l : Launch} {w w' : WorkerState} (heard : Bool)
    (h : workerIteration ev l w s = .ok w' t) :
    ∃ (ls : List (LoopTurn cfg)) (heard' : Bool),
      run loopTurn (w.buffers, heard) ls = some (w'.buffers, heard') := by
  obtain ⟨q, s₁, _, h₁⟩ := bind_ok h
  obtain ⟨b₁, s₂, hb, h₂⟩ := bind_ok h₁
  obtain ⟨r, s₃, _, h₃⟩ := bind_ok h₂
  obtain ⟨cs, s₄, _, h₄⟩ := bind_ok h₃
  cases h₄
  obtain ⟨ls, heard', hls⟩ := handleClients_turns heard hb
  exact ⟨ls ++ [.gone r.2], heard', run_append hls rfl⟩

end Loops

def Phase.worker : Phase → Option WorkerState
  | .launched => none
  | .head w | .waiting w | .ended w => some w

def Thread.Looped (cfg : Config) (th : Thread) : Prop :=
  ∀ w, th.phase.worker = some w → ∃ (frame : MessageFrame) (ls : List (LoopTurn cfg))
    (heard : Bool), run loopTurn (⟨frame, {}⟩, false) ls = some (w.buffers, heard)

namespace State

variable {s t : State cfg}

theorem mem_threads_listener {l : Label} (h : ListenerTurn s l t) {th : Thread}
    (hth : th ∈ t.threads) : th ∈ s.threads ∨ th.phase = .launched := by
  have hrun {m : Prog cfg Unit} {next : ListenerPc} (hth : th ∈ (s.runListener m next).threads) :
      th ∈ s.threads ∨ th.phase = .launched := by
    rcases runListener_cases s m next with ⟨_, he⟩ | ⟨_, pc, he⟩
    · rw [he] at hth
      exact .inl hth
    · rw [he] at hth
      rcases List.mem_append.mp hth with hth | hth
      · exact .inl hth
      · obtain ⟨l, _, rfl⟩ := List.mem_map.mp hth
        exact .inr rfl
  cases h with
  | moved pc _ _ => exact .inl hth
  | queue _ => exact hrun hth
  | stdin _ _ => exact hrun hth
  | accept _ _ => exact hrun hth

theorem step_looped {l : Label} (h : s.Sound ∧ ∀ th ∈ s.threads, th.Looped cfg)
    (ht : s.step l = some t) : t.Sound ∧ ∀ th ∈ t.threads, th.Looped cfg := by
  refine ⟨step_sound h.1 ht, fun th hth => ?_⟩
  have hold {k : Nat} {old : Thread} {p : Phase} {u : State cfg} (hu : u.threads = s.threads)
      (hp : ∀ w, p.worker = some w → ∃ (frame : MessageFrame) (ls : List (LoopTurn cfg))
        (heard : Bool), run loopTurn (⟨frame, {}⟩, false) ls = some (w.buffers, heard))
      (hth : th ∈ (u.setPhase k old p).threads) : th.Looped cfg := by
    simp only [setPhase, hu] at hth
    rcases List.mem_or_eq_of_mem_set hth with hth | rfl
    · exact h.2 th hth
    · exact hp
  obtain ⟨_, ⟨_, ht⟩ | ⟨k, old, hk, ht⟩⟩ := step_cases ht
  · rcases mem_threads_listener (listenerStep_turn ht) hth with hth | hl
    · exact h.2 th hth
    · intro w hw
      rw [hl] at hw
      cases hw
  · have hbefore := h.2 old (List.mem_of_getElem? hk)
    cases threadStep_turned h.1 hk ht with
    | started hp =>
      refine hold rfl (fun w hw => ?_) hth
      cases hw
      exact ⟨_, [], false, rfl⟩
    | waits hp _ _ => exact hold rfl (fun w hw => hbefore w (by rw [hp]; exact hw)) hth
    | left hp _ => exact hold rfl (fun w hw => hbefore w (by rw [hp]; exact hw)) hth
    | iterated hp hr _ =>
      refine hold rfl (fun w hw => ?_) hth
      cases hw
      obtain ⟨frame, ls, heard, hls⟩ := hbefore _ (by rw [hp]; rfl)
      obtain ⟨ls', heard', hls'⟩ := workerIteration_turns heard hr
      exact ⟨frame, ls ++ ls', heard', run_append hls hls'⟩
    | threw sends => exact h.2 th hth

theorem looped_of_reach {svSocket listenerEvfd : Nat}
    (hr : Reach step (fun _ _ => True) (init cfg svSocket listenerEvfd) s) {th : Thread}
    (hth : th ∈ s.threads) : th.Looped cfg := by
  have hinit : (init cfg svSocket listenerEvfd).Sound ∧
      ∀ th ∈ (init cfg svSocket listenerEvfd).threads, th.Looped cfg :=
    ⟨init_sound cfg svSocket listenerEvfd, fun th h => absurd h List.not_mem_nil⟩
  exact (hr.invariant hinit fun _ _ _ hI _ ht => step_looped hI ht).2 th hth

end State

theorem bytes_taken (frame : MessageFrame) (ls : List (LoopTurn cfg)) :
    Before loopTurn TakesBytes (⟨frame, {}⟩, false) ls ↔
      Before loopTurn (Terminated frame) (⟨frame, {}⟩, false) ls :=
  have hfirst : FrameKnown frame (⟨frame, {}⟩, false) := rfl
  before_iff (D := fun _ => True) hfirst (fun _ _ => trivial) (fun _ _ h _ => takesBytes_iff h)
    fun _ _ _ h _ => loopTurn_known h

section Overrun

def fullChunk : Chunk where
  bytes := List.replicate maxLen 'x'
  nonempty := Nat.lt_of_lt_of_eq (by decide : 0 < maxLen) List.length_replicate.symm
  bounded := Nat.le_of_eq List.length_replicate

theorem shortChunk_bounded : ['x'].length ≤ maxLen := by decide

def shortChunk : Chunk := ⟨['x'], Nat.zero_lt_one, shortChunk_bounded⟩

def usedFrame : MessageFrame where
  msg := 'x' :: 'y' :: List.replicate 510 nul
  size := congrArg (· + 2) List.length_replicate

def oneTurn (c : Chunk) : List (LoopTurn Config.deployed) :=
  [.client (receiving 5 (.chunk c)) 4 (5, 0) (State.init Config.deployed 3 4).shared]

-- a chunk that fills the frame is scanned beyond it, and a first one can be read with old bytes
theorem fullChunk_overruns :
    ((freshFrame.recv fullChunk).toStdString = .error .undefinedBehaviour ∧
      ¬ Before loopTurn TakesBytes (⟨freshFrame, {}⟩, false) (oneTurn fullChunk)) ∧
    (usedFrame.recv shortChunk).toStdString = .ok ['x', 'y'] ∧
      ¬ Before loopTurn TakesBytes (⟨usedFrame, {}⟩, false) (oneTurn shortChunk) := by
  have hfull : (freshFrame.recv fullChunk).toStdString = .error .undefinedBehaviour := by
    decide +kernel
  have hused : (usedFrame.recv shortChunk).toStdString = .ok ['x', 'y'] := by decide +kernel
  refine ⟨⟨hfull, ?_⟩, hused, ?_⟩
  · rintro ⟨h, _⟩
    have hnul : nul ∉ fullChunk.bytes := fun hm =>
      absurd (List.eq_of_mem_replicate hm) (by decide)
    have hread := (h fullChunk rfl hnul).1
    rw [hfull] at hread
    cases hread
  · rintro ⟨h, _⟩
    have hread := (h shortChunk rfl (by decide)).1
    rw [hused] at hread
    cases hread

end Overrun

end ChatApp
