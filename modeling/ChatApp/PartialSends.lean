import ChatApp.SystemInvariant

namespace ChatApp

open Effects Runs

variable {cfg : Config}

-- the kernel takes all of msg
def SendResult.Takes (msg : Str) : SendResult → Prop
  | .whole => True
  | .part n => msg.length ≤ n
  | .failed => False

-- each message of a queue against what the kernel answers for it; with no answer left it takes all
def TakesAll : List Str → List SendResult → Prop
  | msg :: rest, r :: rs => r.Takes msg ∧ TakesAll rest rs
  | _, _ => True

-- what the kernel takes of a queue, none when a send fails
def bytesTaken : List Str → List SendResult → Option (List Str)
  | [], _ => some []
  | msg :: rest, [] => (bytesTaken rest []).map (msg :: ·)
  | msg :: rest, .whole :: rs => (bytesTaken rest rs).map (msg :: ·)
  | msg :: rest, .part n :: rs => (bytesTaken rest rs).map (msg.take n :: ·)
  | _ :: _, .failed :: _ => none

section Taken

variable {queue bytes : List Str} {rs : List SendResult}

theorem bytesTaken_nil (queue : List Str) : bytesTaken queue [] = some queue := by
  induction queue with
  | nil => rfl
  | cons msg rest ih => rw [bytesTaken, ih, Option.map_some]

theorem length_bytesTaken (h : bytesTaken queue rs = some bytes) :
    bytes.flatten.length ≤ queue.flatten.length := by
  induction queue generalizing rs bytes with
  | nil =>
    cases h
    exact le_refl _
  | cons msg rest ih =>
    cases rs with
    | nil =>
      rw [bytesTaken_nil] at h
      cases h
      exact le_refl _
    | cons r rs =>
      cases r with
      | whole =>
        obtain ⟨xs, hxs, rfl⟩ := Option.map_eq_some_iff.mp h
        simpa using ih hxs
      | part n =>
        obtain ⟨xs, hxs, rfl⟩ := Option.map_eq_some_iff.mp h
        have := ih hxs
        simp only [List.flatten_cons, List.length_append, List.length_take]
        omega
      | failed => cases h

-- nothing is lost exactly when every message is taken whole
theorem bytesTaken_iff : (∃ bytes, bytesTaken queue rs = some bytes ∧ bytes.flatten = queue.flatten) ↔
    TakesAll queue rs := by
  induction queue generalizing rs with
  | nil => exact iff_of_true ⟨[], rfl, rfl⟩ trivial
  | cons msg rest ih =>
    cases rs with
    | nil => exact iff_of_true ⟨_, bytesTaken_nil _, rfl⟩ trivial
    | cons r rs =>
      cases r with
      | whole =>
        simp only [TakesAll, SendResult.Takes, true_and, ← ih]
        constructor
        · rintro ⟨bytes, h, he⟩
          obtain ⟨xs, hxs, rfl⟩ := Option.map_eq_some_iff.mp h
          exact ⟨xs, hxs, List.append_cancel_left he⟩
        · rintro ⟨xs, hxs, he⟩
          exact ⟨msg :: xs, Option.map_eq_some_iff.mpr ⟨xs, hxs, rfl⟩, by simp [he]⟩
      | part n =>
        simp only [TakesAll, SendResult.Takes, ← ih]
        constructor
        · rintro ⟨bytes, h, he⟩
          obtain ⟨xs, hxs, rfl⟩ := Option.map_eq_some_iff.mp h
          have hlen := congrArg List.length he
          have hle := length_bytesTaken hxs
          simp only [List.flatten_cons, List.length_append, List.length_take] at hlen
          have hn : msg.length ≤ n := by omega
          rw [List.flatten_cons, List.take_of_length_le hn] at he
          exact ⟨hn, xs, hxs, List.append_cancel_left he⟩
        · rintro ⟨hn, xs, hxs, he⟩
          refine ⟨msg.take n :: xs, Option.map_eq_some_iff.mpr ⟨xs, hxs, rfl⟩, ?_⟩
          rw [List.flatten_cons, List.take_of_length_le hn, he, List.flatten_cons]
      | failed =>
        refine iff_of_false ?_ fun h => h.1
        rintro ⟨_, h, _⟩
        cases h

end Taken

section Flush

variable {s : Shared cfg} {clId : Int} {cl : ClientData} {msg : Str}

def Shared.record (s : Shared cfg) (clId : Int) (bytes : Str) (rest : List SendResult) :
    Shared cfg :=
  { s with
    hist := { s.hist with sent := s.hist.sent ++ [(clId, bytes)] }
    kernel := { s.kernel with sends := rest } }

theorem sendMsg_failed (msg : Str) {rs : List SendResult} (hsv : 0 ≤ s.sv.svSocket)
    (hcl : s.sv.getClientRef clId = some cl) (hfd : 0 ≤ cl.fd)
    (hk : s.kernel.sends = .failed :: rs) : ∃ u, sendMsg msg clId s =
      .error (.runtimeError "Failed to send msg\n") u := by
  rw [sendMsg, bind_of_ok (getSelectedClientFd_run hsv hcl hfd)]
  simp only [get_bind_run, hk, set_bind_run, throw_run]
  exact ⟨_, rfl⟩

theorem sendMsg_took {bytes : Str} {rs : List SendResult} (hsv : 0 ≤ s.sv.svSocket)
    (hcl : s.sv.getClientRef clId = some cl) (hfd : 0 ≤ cl.fd)
    (hk : s.kernel.sends = [] ∧ bytes = msg ∧ rs = [] ∨ s.kernel.sends = .whole :: rs ∧ bytes = msg ∨
      ∃ n, s.kernel.sends = .part n :: rs ∧ bytes = msg.take n) :
    sendMsg msg clId s = .ok () (s.record clId bytes rs) := by
  rw [sendMsg, bind_of_ok (getSelectedClientFd_run hsv hcl hfd)]
  rcases hk with ⟨hk, rfl, rfl⟩ | ⟨hk, rfl⟩ | ⟨n, hk, rfl⟩
  · simp only [get_bind_run, hk, set_run, Shared.record]
    rw [← hk]
  · simp only [get_bind_run, hk, set_run, Shared.record]
  · simp only [get_bind_run, hk, set_run, Shared.record]

-- what a flush that ends well leaves: the queue is empty, what the kernel took is on record
structure Flushed (s : Shared cfg) (clId : Int) (cl : ClientData) (bytes : List Str)
    (u : Shared cfg) : Prop where
  entry : u.sv.getClientRef clId = some { cl with sendQueue := [] }
  socket : u.sv.svSocket = s.sv.svSocket
  sent : u.hist.sent = s.hist.sent ++ bytes.map fun x => (clId, x)

-- the pop before each send of the flush
def Shared.popMessage (s : Shared cfg) (clId : Int) (rest : List Str) : Shared cfg :=
  s.modifyClient clId fun c => { c with sendQueue := rest }

theorem getClientRef_popMessage (hcl : s.sv.getClientRef clId = some cl) (rest : List Str) :
    (s.popMessage clId rest).sv.getClientRef clId = some { cl with sendQueue := rest } :=
  getClientRef_modifyClient hcl fun _ => rfl

theorem flushQueue_cons (rest : List Str) : flushQueue clId (msg :: rest) s =
    (sendMsg msg clId >>= fun _ => flushQueue clId rest) (s.popMessage clId rest) := rfl

theorem flushQueue_run (hsv : 0 ≤ s.sv.svSocket) (hcl : s.sv.getClientRef clId = some cl)
    (hfd : 0 ≤ cl.fd) : match bytesTaken cl.sendQueue s.kernel.sends with
      | some bytes => ∃ u, flushQueue clId cl.sendQueue s = .ok () u ∧ Flushed s clId cl bytes u
      | none => ∃ u, flushQueue clId cl.sendQueue s =
        .error (.runtimeError "Failed to send msg\n") u := by
  obtain ⟨queue, hq⟩ : ∃ queue, cl.sendQueue = queue := ⟨_, rfl⟩
  induction queue generalizing s cl with
  | nil =>
    rw [hq]
    refine ⟨s, rfl, ?_, rfl, by simp⟩
    rw [hcl, ← hq]
  | cons msg rest ih =>
    have hpop := getClientRef_popMessage hcl rest
    rw [hq, flushQueue_cons]
    have step {bytes : Str} {rs : List SendResult}
        (hsend : sendMsg msg clId (s.popMessage clId rest) =
          .ok () ((s.popMessage clId rest).record clId bytes rs)) :
        match (bytesTaken rest rs).map (bytes :: ·) with
        | some bytes => ∃ u, (sendMsg msg clId >>= fun _ => flushQueue clId rest)
            (s.popMessage clId rest) = .ok () u ∧ Flushed s clId cl bytes u
        | none => ∃ u, (sendMsg msg clId >>= fun _ => flushQueue clId rest)
            (s.popMessage clId rest) = .error (.runtimeError "Failed to send msg\n") u := by
      have h := ih (s := (s.popMessage clId rest).record clId bytes rs) hsv hpop hfd rfl
      change (match bytesTaken rest rs with
        | some bytes' => _
        | none => _) at h
      rw [bind_of_ok hsend]
      cases hb : bytesTaken rest rs with
      | none =>
        rw [hb] at h
        exact h
      | some xs =>
        rw [hb] at h
        obtain ⟨u, hu, he, hs, hsent⟩ := h
        refine ⟨u, hu, he, hs, hsent.trans ?_⟩
        simp [Shared.record, Shared.popMessage]
    cases hk : s.kernel.sends with
    | nil => exact step (sendMsg_took hsv hpop hfd (.inl ⟨hk, rfl, rfl⟩))
    | cons r rs =>
      cases r with
      | whole => exact step (sendMsg_took hsv hpop hfd (.inr (.inl ⟨hk, rfl⟩)))
      | part n => exact step (sendMsg_took hsv hpop hfd (.inr (.inr ⟨n, hk, rfl⟩)))
      | failed =>
        obtain ⟨u, hu⟩ := sendMsg_failed (s := s.popMessage clId rest) msg hsv hpop hfd hk
        exact ⟨u, bind_of_error hu⟩

end Flush

-- the server as one client sees it: raised when an exception leaves its worker
structure Outbox (cfg : Config) where
  shared : Shared cfg
  -- how many records of sends are older than the run
  start : Nat
  pushed : List Str
  raised : Bool := false

-- rest is any step of any thread that leaves the client's entry alone and sends it nothing
inductive OutboxLabel (cfg : Config) where
  | push (msg : Str)
  | output (ev : Events) (b : Buffers)
  | rest (u : Shared cfg)

namespace Outbox

def init (s : Shared cfg) (c : ClientData) : Outbox cfg := ⟨s, s.hist.sent.length, c.sendQueue, false⟩

def accepted (o : Outbox cfg) (clId : Int) : Str :=
  (((o.shared.hist.sent.drop o.start).filter fun x => x.1 = clId).map Prod.snd).flatten

def queue (o : Outbox cfg) (clId : Int) : List Str :=
  match o.shared.sv.getClientRef clId with
  | none => []
  | some c => c.sendQueue

def Conserved (clId : Int) (o : Outbox cfg) : Prop :=
  o.accepted clId ++ (o.queue clId).flatten = o.pushed.flatten ∧ o.raised = false

instance (clId : Int) (o : Outbox cfg) : Decidable (o.Conserved clId) :=
  inferInstanceAs (Decidable (_ ∧ _))

def SameOutgoing (clId : Int) (s u : Shared cfg) : Prop :=
  u.sv.getClientRef clId = s.sv.getClientRef clId ∧ u.sv.svSocket = s.sv.svSocket ∧
  s.hist.sent <+: u.hist.sent ∧ ∀ x ∈ u.hist.sent.drop s.hist.sent.length, x.1 ≠ clId

instance (clId : Int) (s u : Shared cfg) : Decidable (SameOutgoing clId s u) :=
  inferInstanceAs (Decidable (_ ∧ _ ∧ _ ∧ _))

def withSends (s : Shared cfg) (sends : List SendResult) : Shared cfg :=
  { s with kernel := { s.kernel with sends := sends } }

def step (client : Int × Int) (o : Outbox cfg) (l : OutboxLabel cfg) : Option (Outbox cfg) :=
  if o.raised then none
  else match l with
    | .push msg =>
      match pushToClient client.2 msg o.shared with
      | .ok true u => some { o with shared := u, pushed := o.pushed ++ [msg] }
      | .ok false u => some { o with shared := u }
      | .error _ _ => none
    | .output ev b =>
      match handleOutput ev client b (withSends o.shared ev.sends) with
      | .ok _ u => some { o with shared := u }
      | .error _ u => some { o with shared := u, raised := true }
    | .rest u => if SameOutgoing client.2 o.shared u then some { o with shared := u } else none

-- when the socket is writable the kernel takes every waiting message whole
def TakesQueue (client : Int × Int) (o : Outbox cfg) : OutboxLabel cfg → Prop
  | .output ev _ => ev.pollOut client.1 = true → TakesAll (o.queue client.2) ev.sends
  | _ => True

structure Tracked (client : Int × Int) (o : Outbox cfg) : Prop where
  entry : ∃ c, o.shared.sv.getClientRef client.2 = some c ∧ c.fd = client.1 ∧
    c.initState = initDone
  fd : 0 ≤ client.1
  socket : 0 ≤ o.shared.sv.svSocket
  start : o.start ≤ o.shared.hist.sent.length
  running : o.raised = false

section Steps

variable {client : Int × Int} {o o' : Outbox cfg} {u : Shared cfg} {c : ClientData}

theorem queue_eq (h : o.shared.sv.getClientRef client.2 = some c) :
    o.queue client.2 = c.sendQueue := by
  rw [queue, h]

theorem accepted_append {more : List (Int × Str)} {clId : Int} (p : List Str) (r : Bool)
    (hs : o.start ≤ o.shared.hist.sent.length) (hu : u.hist.sent = o.shared.hist.sent ++ more) :
    accepted { o with shared := u, pushed := p, raised := r } clId =
      o.accepted clId ++ ((more.filter fun x => x.1 = clId).map Prod.snd).flatten := by
  rw [accepted, accepted, hu, List.drop_append_of_le_length hs, List.filter_append, List.map_append,
    List.flatten_append]

theorem handleOutput_eq (ht : Tracked client o) (h : o.shared.sv.getClientRef client.2 = some c)
    (ev : Events) (b : Buffers) :
    handleOutput ev client b (withSends o.shared ev.sends) =
      if ev.pollOut client.1 then
        (flushQueue client.2 c.sendQueue >>= fun _ => pure b) (withSends o.shared ev.sends)
      else .ok b (withSends o.shared ev.sends) := by
  have hn : ¬ client.1 < 0 := by
    have := ht.fd
    omega
  obtain ⟨c', hc', _, h3⟩ := ht.entry
  rw [h] at hc'
  cases hc'
  have hid := getClientRef_id h
  have h1 : initDone ≠ requestedInit := by decide
  have hderef : derefClient client.2 (withSends o.shared ev.sends) =
      .ok c (withSends o.shared ev.sends) := by
    simp only [derefClient, get_bind_run]
    have h' : (withSends o.shared ev.sends).sv.getClientRef client.2 = some c := h
    rw [h']
    rfl
  rw [handleOutput, checkEvent, if_neg hn, pure_bind_run]
  split_ifs
  · rw [bind_of_ok hderef]
    simp only [processOutput, h3, h1, if_false, if_true, hid]
    rw [bind_run, bind_run, bind_run]
    cases flushQueue client.2 c.sendQueue (withSends o.shared ev.sends) <;> rfl
  · rfl

theorem step_push {msg : Str} (ht : Tracked client o) (hc : o.Conserved client.2)
    (h : o.step client (.push msg) = some o') : o'.Conserved client.2 ∧ Tracked client o' := by
  obtain ⟨c, href, hfd, h3⟩ := ht.entry
  rw [step, if_neg (by simp [ht.running])] at h
  simp only [pushToClient, get_bind_run, href] at h
  cases hr : cfg.hasRoom c.sendQueue with
  | false =>
    simp only [hr, Bool.false_eq_true, if_false, pure_run] at h
    obtain rfl := Option.some.inj h
    exact ⟨hc, ht⟩
  | true =>
    simp only [hr, if_true, set_bind_run, pure_run] at h
    obtain rfl := Option.some.inj h
    have href' := getClientRef_modifyClient (f := fun c => { c with
      sendQueue := c.sendQueue ++ [msg] }) href fun _ => rfl
    refine ⟨⟨?_, hc.2⟩, ⟨_, href', hfd, h3⟩, ht.fd, ht.socket, ht.start, ht.running⟩
    have h := hc.1
    rw [queue_eq href] at h
    rw [queue_eq href', List.flatten_append, List.flatten_append, ← h, ← List.append_assoc]
    rfl

theorem step_rest (ht : Tracked client o) (hc : o.Conserved client.2)
    (h : o.step client (.rest u) = some o') : o'.Conserved client.2 ∧ Tracked client o' := by
  rw [step, if_neg (by simp [ht.running])] at h
  obtain ⟨⟨hentry, hsocket, ⟨more, hmore⟩, hnone⟩, h⟩ := Option.ite_none_right_eq_some.mp h
  obtain rfl := Option.some.inj h
  have hmore := hmore.symm
  rw [hmore, List.drop_left] at hnone
  have hfilter : more.filter (fun x => x.1 = client.2) = [] := by
    rw [List.filter_eq_nil_iff]
    simpa using hnone
  refine ⟨⟨?_, hc.2⟩, hentry ▸ ht.entry, ht.fd, hsocket ▸ ht.socket, ?_, ht.running⟩
  · have hq : queue { o with shared := u } client.2 = o.queue client.2 := by
      simp only [queue, hentry]
    rw [accepted_append o.pushed o.raised ht.start hmore, hfilter, hq]
    simpa using hc.1
  · have hle := ht.start
    change o.start ≤ u.hist.sent.length
    rw [hmore, List.length_append]
    omega

-- a flush that the kernel answers short or not at all loses bytes or raises
theorem step_output {ev : Events} {b : Buffers} (ht : Tracked client o)
    (hc : o.Conserved client.2) (h : o.step client (.output ev b) = some o') :
    (o'.Conserved client.2 ↔ o.TakesQueue client (.output ev b)) ∧
      (o'.Conserved client.2 → Tracked client o') := by
  obtain ⟨c, href, hfd, h3⟩ := ht.entry
  rw [step, if_neg (by simp [ht.running])] at h
  simp only [handleOutput_eq ht href] at h
  cases hp : ev.pollOut client.1 with
  | false =>
    rw [hp] at h
    obtain rfl := Option.some.inj h
    exact ⟨iff_of_true hc fun h => absurd (hp.symm.trans h) (by decide),
      fun _ => ⟨ht.entry, ht.fd, ht.socket, ht.start, ht.running⟩⟩
  | true =>
    have hfd' : 0 ≤ c.fd := hfd ▸ ht.fd
    have hrun := flushQueue_run (s := withSends o.shared ev.sends) ht.socket href hfd'
    have htakes : o.TakesQueue client (.output ev b) ↔ TakesAll c.sendQueue ev.sends := by
      simp only [TakesQueue, hp, true_implies, queue_eq href]
    rw [htakes, ← bytesTaken_iff]
    rw [hp] at h
    cases hb : bytesTaken c.sendQueue ev.sends with
    | none =>
      have hrun : ∃ u, flushQueue client.2 c.sendQueue (withSends o.shared ev.sends) =
          .error (.runtimeError "Failed to send msg\n") u := by
        simpa only [withSends, hb] using hrun
      obtain ⟨u, hu⟩ := hrun
      simp only [if_true, bind_of_error hu] at h
      obtain rfl := Option.some.inj h
      exact ⟨iff_of_false (fun h => by cases h.2) (by simp), fun h => by cases h.2⟩
    | some bytes =>
      have hrun : ∃ u, flushQueue client.2 c.sendQueue (withSends o.shared ev.sends) = .ok () u ∧
          Flushed (withSends o.shared ev.sends) client.2 c bytes u := by
        simpa only [withSends, hb] using hrun
      obtain ⟨u, hu, hf⟩ := hrun
      simp only [if_true, bind_of_ok hu, pure_run] at h
      obtain rfl := Option.some.inj h
      have hq : queue { o with shared := u } client.2 = [] := by
        rw [queue, hf.entry]
      have hacc : accepted { o with shared := u } client.2 =
          o.accepted client.2 ++ bytes.flatten := by
        rw [accepted_append o.pushed o.raised ht.start hf.sent, List.filter_map]
        simp [Function.comp_def]
      have hbefore := hc.1
      rw [queue_eq href] at hbefore
      have hiff : Conserved client.2 { o with shared := u } ↔
          bytes.flatten = c.sendQueue.flatten := by
        rw [Conserved, hq, hacc, ← hbefore, List.flatten_nil, List.append_nil,
          List.append_cancel_left_eq]
        exact and_iff_left hc.2
      refine ⟨hiff.trans (by simp), fun _ => ⟨⟨_, hf.entry, hfd, h3⟩, ht.fd, ?_, ?_, ht.running⟩⟩
      · change 0 ≤ u.sv.svSocket
        rw [hf.socket]
        exact ht.socket
      · have hle := ht.start
        have hlen := congrArg List.length hf.sent
        rw [List.length_append] at hlen
        change o.start ≤ u.hist.sent.length
        change u.hist.sent.length = o.shared.hist.sent.length + _ at hlen
        omega

theorem step_conserved {l : OutboxLabel cfg} (ht : Tracked client o) (hc : o.Conserved client.2)
    (h : o.step client l = some o') : (o'.Conserved client.2 ↔ o.TakesQueue client l) ∧
      (o'.Conserved client.2 → Tracked client o') := by
  cases l with
  | push msg =>
    obtain ⟨hc', ht'⟩ := step_push ht hc h
    exact ⟨iff_of_true hc' trivial, fun _ => ht'⟩
  | output ev b => exact step_output ht hc h
  | rest u =>
    obtain ⟨hc', ht'⟩ := step_rest ht hc h
    exact ⟨iff_of_true hc' trivial, fun _ => ht'⟩

end Steps

theorem init_tracked {s : State cfg} {c : ClientData} (hs : s.Sound)
    (hc : c ∈ s.shared.sv.clients.values) (h3 : c.initState = initDone) :
    Tracked (c.fd, c.personalId) (init s.shared c) ∧
      (init s.shared c).Conserved c.personalId := by
  obtain ⟨accepts, ups, ho, _⟩ := hs.owned
  have href := getClientRef_of_mem ho.nodup hc
  have hfd := (ho.range _ (mem_pairs href)).1.1
  refine ⟨⟨⟨c, href, rfl, h3⟩, hfd, ho.socket, le_refl _, rfl⟩, ?_, rfl⟩
  have hq : (init s.shared c).queue c.personalId = c.sendQueue := by
    rw [queue, init, href]
  rw [hq, accepted, init, List.drop_length]
  rfl

-- in every run of pushes, flushes and anything else beside them
theorem outbox_conserved {svSocket listenerEvfd : Nat} {s : State cfg} {c : ClientData}
    (hr : Reach State.step (fun _ _ => True) (State.init cfg svSocket listenerEvfd) s)
    (hc : c ∈ s.shared.sv.clients.values) (h3 : c.initState = initDone)
    (labels : List (OutboxLabel cfg)) :
    Every (step (c.fd, c.personalId)) (fun _ _ o => o.Conserved c.personalId)
        (init s.shared c) labels ↔
      Every (step (c.fd, c.personalId)) (fun o l _ => o.TakesQueue (c.fd, c.personalId) l)
        (init s.shared c) labels := by
  let I := fun o : Outbox cfg => Tracked (c.fd, c.personalId) o ∧ o.Conserved c.personalId
  have hI : I (init s.shared c) := init_tracked (State.sound_of_reach hr) hc h3
  constructor
  · refine Every.imp (I := I) hI labels fun o l o' hI hs hc' => ?_
    obtain ⟨hiff, hnext⟩ := step_conserved hI.1 hI.2 hs
    exact ⟨hiff.mp hc', hnext hc', hc'⟩
  · refine Every.imp (I := I) hI labels fun o l o' hI hs htakes => ?_
    obtain ⟨hiff, hnext⟩ := step_conserved hI.1 hI.2 hs
    exact ⟨hiff.mpr htakes, hnext (hiff.mpr htakes), hiff.mpr htakes⟩

def writable (sends : List SendResult) : Events where
  pollIn _ := false
  pollOut _ := true
  recv _ := .zero
  sends := sends

-- a message is pushed and the kernel gives one answer to its send
def oneSend (r : SendResult) : List (OutboxLabel cfg) :=
  [.push "hi".toList, .output (writable [r]) ⟨freshFrame, {}⟩]

def joinedOnce : List Label :=
  listenerRound false true (connection 5 6) ++ [.start 0 freshFrame] ++ handshake 0 5

def losesWith (r : SendResult) (s : State Config.deployed) : Bool :=
  s.shared.sv.clients.values.any fun c => c.initState = initDone &&
    (run (step (c.fd, c.personalId)) (init s.shared c) (oneSend r)).any
      fun o => !decide (o.Conserved c.personalId)

theorem joinedOnce_loses {r : SendResult}
    (h : (run State.step (State.init Config.deployed 3 4) joinedOnce).any (losesWith r) = true) :
    ∃ (s : State Config.deployed) (c : ClientData),
      Reach State.step (fun _ _ => True) (State.init Config.deployed 3 4) s ∧
      c ∈ s.shared.sv.clients.values ∧ c.initState = initDone ∧
      ¬ Every (step (c.fd, c.personalId)) (fun _ _ o => o.Conserved c.personalId)
        (init s.shared c) (oneSend r) := by
  obtain ⟨s, hr, hs⟩ := exists_of_run (fun _ _ => trivial) h
  obtain ⟨c, hc, hlose⟩ := List.any_eq_true.mp hs
  simp only [Bool.and_eq_true, decide_eq_true_eq] at hlose
  have hI := init_tracked (State.sound_of_reach hr) hc hlose.1
  refine ⟨s, c, hr, hc, hlose.1, ?_⟩
  exact not_every_of_run (q := fun o => decide (o.Conserved c.personalId))
    (decide_eq_true hI.2) (fun _ _ _ h => decide_eq_true h) hlose.2

theorem shortSend_loses : ¬ ∀ (s : State Config.deployed) (c : ClientData),
    Reach State.step (fun _ _ => True) (State.init Config.deployed 3 4) s →
    c ∈ s.shared.sv.clients.values → c.initState = initDone →
    ∀ labels : List (OutboxLabel Config.deployed),
      Every (step (c.fd, c.personalId)) (fun _ _ o => o.Conserved c.personalId)
        (init s.shared c) labels := by
  intro hall
  have hrun : (run State.step (State.init Config.deployed 3 4) joinedOnce).any
      (losesWith (.part 1)) = true := by decide +kernel
  obtain ⟨s, c, hr, hc, h3, hlose⟩ := joinedOnce_loses hrun
  exact hlose (hall s c hr hc h3 _)

instance (msg : Str) (r : SendResult) : Decidable (r.Takes msg) := by
  cases r <;> unfold SendResult.Takes <;> infer_instance

def takesAll : List Str → List SendResult → Bool
  | msg :: rest, r :: rs => decide (r.Takes msg) && takesAll rest rs
  | _, _ => true

theorem takesAll_iff {queue : List Str} {rs : List SendResult} :
    takesAll queue rs = true ↔ TakesAll queue rs := by
  induction queue generalizing rs with
  | nil => simp [takesAll, TakesAll]
  | cons msg rest ih => cases rs <;> simp [takesAll, TakesAll, ih]

def takesQueue (client : Int × Int) (o : Outbox cfg) : OutboxLabel cfg → Bool
  | .output ev _ => !ev.pollOut client.1 || takesAll (o.queue client.2) ev.sends
  | _ => true

theorem takesQueue_of_check {client : Int × Int} {o : Outbox cfg} {l : OutboxLabel cfg}
    (h : takesQueue client o l = true) : o.TakesQueue client l := by
  cases l with
  | output ev b =>
    intro hp
    simpa [takesQueue, hp, takesAll_iff] using h
  | _ => trivial

-- two messages wait when the socket becomes writable, a third one comes later
def threeSends : List (OutboxLabel cfg) :=
  [.push "hi".toList, .push "there".toList, .output (writable [.whole, .part 9]) ⟨freshFrame, {}⟩,
    .push "!".toList, .output (writable [.part 1]) ⟨freshFrame, {}⟩]

def keeps (labels : List (OutboxLabel Config.deployed)) (s : State Config.deployed) : Bool :=
  s.shared.sv.clients.values.any fun c => c.initState = initDone &&
    (checked (step (c.fd, c.personalId)) (takesQueue (c.fd, c.personalId)) (init s.shared c)
      labels && (run (step (c.fd, c.personalId)) (init s.shared c) labels).isSome)

theorem outbox_conserved_threeSends : ∃ (s : State Config.deployed) (c : ClientData),
    c ∈ s.shared.sv.clients.values ∧ c.initState = initDone ∧
    (run (step (c.fd, c.personalId)) (init s.shared c) threeSends).isSome = true ∧
    Every (step (c.fd, c.personalId)) (fun _ _ o => o.Conserved c.personalId)
      (init s.shared c) threeSends := by
  have hrun : (run State.step (State.init Config.deployed 3 4) joinedOnce).any
      (keeps threeSends) = true := by decide +kernel
  obtain ⟨s, hr, hs⟩ := exists_of_run (fun _ _ => trivial) hrun
  obtain ⟨c, hc, hkeep⟩ := List.any_eq_true.mp hs
  simp only [Bool.and_eq_true, decide_eq_true_eq] at hkeep
  obtain ⟨h3, hchecked, hsome⟩ := hkeep
  exact ⟨s, c, hc, h3, hsome, (outbox_conserved hr hc h3 threeSends).mpr
    (every_of_checked (fun _ _ _ => takesQueue_of_check) hchecked)⟩

end Outbox

end ChatApp
