import ChatApp.ClientLists

namespace ChatApp

open Effects Relation Runs

variable {cfg : Config}

-- what the worker gets when it looks at one client's socket
inductive Reading where
  | silent
  | zero
  | message (m : ServerMessage)
  | fault
  deriving DecidableEq

def reading (ev : Events) (f : MessageFrame) (client : Int × Int) : Reading :=
  if ev.pollIn client.1 then
    match ev.recv client.1 with
    | .zero => .zero
    | .failed => .fault
    | .chunk c =>
      match (f.recv c).decode with
      | .ok m => .message m
      | .error _ => .fault
  else .silent

namespace Reading

-- a message that decodes clears the frame for the next client
def frameAfter (f : MessageFrame) : Reading → MessageFrame
  | .message _ => f.clearMsg
  | _ => f

def IsLeaving : Reading → Prop
  | .zero => True
  | .message m => m.action = getAction .clDisconnected
  | _ => False

end Reading

def readings (ev : Events) : MessageFrame → List (Int × Int) → List ((Int × Int) × Reading)
  | _, [] => []
  | f, client :: rest =>
    (client, reading ev f client) :: readings ev ((reading ev f client).frameAfter f) rest

-- every client that is polled hangs up or sends what decodes
def Readable (ev : Events) (f : MessageFrame) (clients : List (Int × Int)) : Prop :=
  ∀ p ∈ readings ev f clients, p.2 ≠ .fault

instance (ev : Events) (f : MessageFrame) (clients : List (Int × Int)) :
    Decidable (Readable ev f clients) := inferInstanceAs (Decidable (∀ p ∈ _, _))

-- the entry after the two halves of process_client_state
def inputEntry (m : ServerMessage) (c : ClientData) : ClientData :=
  if m.action = getAction .clDisconnected then c.setState disconnectState
  else if c.initState = initialState then
    if m.action = getAction .initReq then { c.incState with name := m.name } else c
  else if c.initState = sentInitConfirmation then
    if m.action = getAction .initDone then c.incState else c
  else c

def outputEntry (writable : Bool) (c : ClientData) : ClientData :=
  if writable then
    if c.initState = requestedInit then c.incState
    else if c.initState = initDone then { c with sendQueue := [] }
    else c
  else c

def visited (writable : Bool) (c : ClientData) : Reading → ClientData
  | .silent => outputEntry writable c
  | .zero => c.setState disconnectState
  | .message m => outputEntry writable (inputEntry m c)
  | .fault => c

-- the pushes to the listener fit, and no send fails
structure Able (k : Nat) (listenerEvfd : Int) (s : Shared cfg) : Prop where
  socket : 0 ≤ s.sv.svSocket
  evfd : 0 ≤ listenerEvfd
  room : ∀ n, cfg.queueSize = some n → s.mgr.qWorkerToListener.length + k ≤ n
  counter : s.kernel.evfd listenerEvfd + k ≤ evfdMax
  sends : .failed ∉ s.kernel.sends

section Able

variable {s : Shared cfg} {k j : Nat} {L clId : Int} {cl : ClientData}

theorem Able.mono (h : Able j L s) (hk : k ≤ j) : Able k L s where
  socket := h.socket
  evfd := h.evfd
  room n hn := by
    have := h.room n hn
    omega
  counter := by
    have := h.counter
    omega
  sends := h.sends

theorem Able.modify (h : Able k L s) (f : ClientData → ClientData) :
    Able k L (s.modifyClient clId f) := ⟨h.socket, h.evfd, h.room, h.counter, h.sends⟩

theorem Able.push (h : Able (k + 1) L s) (m : ServerMessage) :
    workerPush m L s = .ok () (s.pushUp L m) ∧ Able k L (s.pushUp L m) := by
  have hcount := h.counter
  constructor
  · have hroom : cfg.hasRoom s.mgr.qWorkerToListener = true := by
      unfold Config.hasRoom
      split
      · rfl
      · rename_i n hn
        have := h.room n hn
        simp
        omega
    have hlt : s.kernel.evfd L < evfdMax := by omega
    have hneg : ¬ L < 0 := by
      have := h.evfd
      omega
    simp only [workerPush, hneg, if_false]
    rw [bind_of_ok (tryPushWorkerToListener_room hroom)]
    exact writeEvfd_run (s := s.pushWorkerToListener _) hlt _
  · refine ⟨h.socket, h.evfd, fun n hn => ?_, ?_, h.sends⟩
    · have := h.room n hn
      simp only [Shared.pushUp, Shared.pushWorkerToListener, Shared.setEvfd_mgr, List.length_append,
        List.length_singleton]
      omega
    · rw [Shared.pushUp, Shared.setEvfd_self]
      omega

theorem Able.send (h : Able k L s) (hcl : s.sv.getClientRef clId = some cl) (hfd : 0 ≤ cl.fd)
    (msg : Str) : sendMsg msg clId s = .ok () (s.sendDone clId msg) ∧
      Able k L (s.sendDone clId msg) := by
  have hsends := h.sends
  constructor
  · rw [sendMsg, bind_of_ok (getSelectedClientFd_run h.socket hcl hfd)]
    simp only [get_bind_run, Shared.sendDone]
    cases hk : s.kernel.sends with
    | nil => rfl
    | cons r rest =>
      cases r with
      | whole => rfl
      | part n => rfl
      | failed => exact absurd (hk ▸ List.mem_cons_self) hsends
  · refine ⟨?_, h.evfd, ?_, ?_, ?_⟩
    · rw [Shared.sendDone_sv]
      exact h.socket
    · rw [Shared.sendDone_mgr]
      exact h.room
    · rw [Shared.sendDone_evfd]
      exact h.counter
    · unfold Shared.sendDone
      split <;> rename_i hk
      · exact hsends
      all_goals
        rw [hk] at hsends
        exact fun hm => hsends (List.mem_cons_of_mem _ hm)

end Able

-- what serving one client leaves
structure ClientServed (k : Nat) (L clId : Int) (s : Shared cfg) (d : ClientData) (t : Shared cfg) :
    Prop where
  able : Able k L t
  entry : t.sv.getClientRef clId = some d
  others : ∀ x, x ≠ clId → t.sv.getClientRef x = s.sv.getClientRef x
  pairs : t.sv.pairs = s.sv.pairs

section Visit

variable {s t : Shared cfg} {k : Nat} {L clId : Int} {cl d : ClientData} {ev : Events}
variable {client : Int × Int} {b : Buffers}

theorem served_refl (h : Able k L s) (hcl : s.sv.getClientRef clId = some cl) :
    ClientServed k L clId s cl s := ⟨h, hcl, fun _ _ => rfl, rfl⟩

theorem ClientServed.trans {e : ClientData} {u : Shared cfg} {j : Nat}
    (h : ClientServed j L clId s d t)
    (h' : ClientServed k L clId t e u) : ClientServed k L clId s e u :=
  ⟨h'.able, h'.entry, fun x hx => (h'.others x hx).trans (h.others x hx), h'.pairs.trans h.pairs⟩

theorem Able.served_modify (h : Able k L s) (hcl : s.sv.getClientRef clId = some cl)
    (f : ClientData → ClientData)
    (hf : ∀ c, (f c).fd = c.fd ∧ (f c).personalId = c.personalId) :
    ClientServed k L clId s (f cl) (s.modifyClient clId f) where
  able := h.modify f
  entry := getClientRef_modifyClient hcl fun c => (hf c).2
  others _ hx := getClientRef_modifyClient_other hx fun c => (hf c).2
  pairs := Server.pairs_modifyClient hf _ _

theorem ClientServed.send (h : ClientServed k L clId s d t) (hfd : 0 ≤ d.fd) (msg : Str) :
    sendMsg msg clId t = .ok () (t.sendDone clId msg) ∧
      ClientServed k L clId s d (t.sendDone clId msg) := by
  obtain ⟨hrun, hable⟩ := h.able.send h.entry hfd msg
  refine ⟨hrun, hable, ?_, ?_, ?_⟩ <;> rw [Shared.sendDone_sv]
  · exact h.entry
  · exact h.others
  · exact h.pairs

theorem ClientServed.push (h : ClientServed (k + 1) L clId s d t) (m : ServerMessage) :
    workerPush m L t = .ok () (t.pushUp L m) ∧ ClientServed k L clId s d (t.pushUp L m) := by
  obtain ⟨hrun, hable⟩ := h.able.push m
  exact ⟨hrun, hable, h.entry, h.others, h.pairs⟩

theorem ClientServed.mono {j : Nat} (h : ClientServed j L clId s d t) (hk : k ≤ j) :
    ClientServed k L clId s d t :=
  { h with able := h.able.mono hk }

theorem processInput_works (h : Able (k + 1) L s) (hcl : s.sv.getClientRef clId = some cl)
    (hfd : 0 ≤ cl.fd) (m : ServerMessage) :
    ∃ m' t, processInput m cl L s = .ok m' t ∧ ClientServed k L clId s (inputEntry m cl) t := by
  obtain rfl := getClientRef_id hcl
  by_cases ha : m.action = getAction .clDisconnected
  · rw [processInput_clDisconnected ha, inputEntry, if_pos ha]
    exact ⟨m, _, rfl, (h.served_modify hcl (·.setState disconnectState) fun _ => ⟨rfl, rfl⟩).mono
      (Nat.le_succ k)⟩
  · rw [inputEntry, if_neg ha]
    simp only [processInput, ha, if_false]
    split_ifs with h0 hreq h2 hdone h3 hchat
    · exact ⟨_, _, rfl, (h.served_modify hcl (fun c => { c.incState with name := m.name })
        fun _ => ⟨rfl, rfl⟩).mono (Nat.le_succ k)⟩
    · exact ⟨_, _, rfl, (served_refl h hcl).mono (Nat.le_succ k)⟩
    · have hinc := h.served_modify hcl ClientData.incState fun _ => ⟨rfl, rfl⟩
      obtain ⟨hsend, hsent⟩ := hinc.send hfd (helloMsg m cl).getConcatenatedMsg
      obtain ⟨hpush, hpushed⟩ := hsent.push (joinedMsg (helloMsg m cl) cl)
      refine ⟨m.resetMsg, _, ?_, hpushed⟩
      rw [bind_of_ok (show modifyClient cl.personalId ClientData.incState s =
        .ok () (s.modifyClient cl.personalId ClientData.incState) from rfl), bind_of_ok hsend,
        bind_of_ok hpush]
      rfl
    · exact ⟨_, _, rfl, (served_refl h hcl).mono (Nat.le_succ k)⟩
    · obtain ⟨hpush, hpushed⟩ := (served_refl h hcl).push m
      refine ⟨m.resetMsg, _, ?_, hpushed⟩
      rw [bind_of_ok hpush]
      rfl
    · exact ⟨_, _, rfl, (served_refl h hcl).mono (Nat.le_succ k)⟩
    · exact ⟨_, _, rfl, (served_refl h hcl).mono (Nat.le_succ k)⟩

theorem flushQueue_works (h : Able k L s) (hcl : s.sv.getClientRef clId = some cl)
    (hfd : 0 ≤ cl.fd) : ∃ t, flushQueue clId cl.sendQueue s = .ok () t ∧
      ClientServed k L clId s { cl with sendQueue := [] } t := by
  obtain ⟨queue, hq⟩ : ∃ queue, cl.sendQueue = queue := ⟨_, rfl⟩
  induction queue generalizing s cl with
  | nil =>
    rw [hq]
    refine ⟨s, rfl, h, ?_, fun _ _ => rfl, rfl⟩
    rw [hcl, ← hq]
  | cons msg rest ih =>
    have hpop := h.served_modify hcl (fun c => { c with sendQueue := rest }) fun _ => ⟨rfl, rfl⟩
    obtain ⟨hsend, hsent⟩ := hpop.send hfd msg
    obtain ⟨t, hrun, hrest⟩ := ih hsent.able hsent.entry hfd rfl
    refine ⟨t, ?_, hsent.trans hrest⟩
    rw [hq]
    exact (bind_of_ok hsend).trans hrun

theorem processOutput_works (h : Able k L s) (hcl : s.sv.getClientRef clId = some cl)
    (hfd : 0 ≤ cl.fd) (m : ServerMessage) :
    ∃ m' t, processOutput m cl s = .ok m' t ∧ ClientServed k L clId s (outputEntry true cl) t := by
  obtain rfl := getClientRef_id hcl
  simp only [processOutput, outputEntry, if_true]
  split_ifs with h1 h3
  · have hinc := h.served_modify hcl ClientData.incState fun _ => ⟨rfl, rfl⟩
    obtain ⟨hsend, hsent⟩ := hinc.send hfd (initReplyMsg m cl).getConcatenatedMsg
    refine ⟨initReplyMsg m cl, _, ?_, hsent⟩
    rw [bind_of_ok (show modifyClient cl.personalId ClientData.incState s =
      .ok () (s.modifyClient cl.personalId ClientData.incState) from rfl), bind_of_ok hsend]
    rfl
  · obtain ⟨t, hrun, hflush⟩ := flushQueue_works h hcl hfd
    refine ⟨m, t, ?_, hflush⟩
    rw [bind_of_ok hrun]
    rfl
  · exact ⟨m, s, rfl, served_refl h hcl⟩

theorem checkEvent_run {fd : Int} (h : 0 ≤ fd) (poll : Int → Bool) :
    checkEvent fd poll s = .ok (poll fd) s := by
  have hneg : ¬ fd < 0 := by omega
  simp [checkEvent, hneg]

theorem handleOutput_works (h : Able k L s) (hcl : s.sv.getClientRef client.2 = some cl)
    (hfd : 0 ≤ cl.fd) (hsock : 0 ≤ client.1) (ev : Events) (b : Buffers) :
    ∃ b' t, handleOutput ev client b s = .ok b' t ∧ b'.msgFrame = b.msgFrame ∧
      ClientServed k L client.2 s (outputEntry (ev.pollOut client.1) cl) t := by
  rw [handleOutput, bind_of_ok (checkEvent_run hsock ev.pollOut)]
  cases hout : ev.pollOut client.1 with
  | false => exact ⟨b, s, rfl, rfl, served_refl h hcl⟩
  | true =>
    obtain ⟨m, t, hrun, hw⟩ := processOutput_works h hcl hfd b.serverMsg
    simp only [if_true]
    rw [bind_of_ok (derefClient_run hcl), bind_of_ok hrun]
    exact ⟨_, t, rfl, rfl, hw⟩

theorem receiveMsg_run (h : Able k L s) (hcl : s.sv.getClientRef client.2 = some cl)
    (hfd : 0 ≤ cl.fd) (f : MessageFrame) (r : RecvResult) :
    receiveMsg f client.2 r s = match r with
      | .chunk c => .ok (c.bytes.length, f.recv c) s
      | .zero => .ok (0, f) s
      | .failed => .error (.runtimeError "Failed to receive msg\n") s := by
  unfold receiveMsg
  rw [bind_of_ok (getSelectedClientFd_run h.socket hcl hfd)]
  cases r <;> rfl

theorem reading_polled (hin : ev.pollIn client.1 = true) (f : MessageFrame) :
    reading ev f client = match ev.recv client.1 with
      | .zero => .zero
      | .failed => .fault
      | .chunk c =>
        match (f.recv c).decode with
        | .ok m => .message m
        | .error _ => .fault := by
  rw [reading, if_pos hin]

theorem handleInput_run (h : Able k L s) (hcl : s.sv.getClientRef client.2 = some cl)
    (hfd : 0 ≤ cl.fd) (hin : ev.pollIn client.1 = true) :
    match reading ev b.msgFrame client with
    | .silent => False
    | .zero => handleInput ev client b s =
        .ok (true, b) (s.modifyClient client.2 (·.setState disconnectState))
    | .message m => handleInput ev client b s = .ok (false, ⟨b.msgFrame.clearMsg, m⟩) s
    | .fault => ∃ e, handleInput ev client b s = .error e s := by
  have hrecv := receiveMsg_run h hcl hfd b.msgFrame (ev.recv client.1)
  rw [reading_polled hin]
  cases hr : ev.recv client.1 with
  | zero =>
    rw [hr] at hrecv
    simp only
    rw [handleInput, hr, bind_of_ok hrecv]
    simp only [if_true]
    rw [bind_of_ok (derefClient_run hcl), getClientRef_id hcl]
    rfl
  | failed =>
    rw [hr] at hrecv
    refine ⟨.runtimeError "Failed to receive msg\n", ?_⟩
    rw [handleInput, hr]
    exact bind_of_error hrecv
  | chunk c =>
    have hinput := handleInput_chunk (b := b) h.socket hcl hfd hr
    simp only
    cases hd : (b.msgFrame.recv c).decode with
    | ok m =>
      rw [hd] at hinput
      exact hinput
    | error e =>
      rw [hd] at hinput
      exact ⟨e, hinput⟩

theorem inputEntry_fd (m : ServerMessage) (c : ClientData) : (inputEntry m c).fd = c.fd := by
  unfold inputEntry
  split_ifs <;> rfl

theorem handleClient_works (h : Able (k + 1) L s) (hcl : s.sv.getClientRef client.2 = some cl)
    (hfd : 0 ≤ cl.fd) (hsock : 0 ≤ client.1)
    (hread : reading ev b.msgFrame client ≠ .fault) :
    ∃ b' t, handleClient ev L client b s = .ok b' t ∧
      b'.msgFrame = (reading ev b.msgFrame client).frameAfter b.msgFrame ∧
      ClientServed k L client.2 s
        (visited (ev.pollOut client.1) cl (reading ev b.msgFrame client)) t := by
  rw [handleClient, bind_of_ok (checkEvent_run hsock ev.pollIn)]
  cases hin : ev.pollIn client.1 with
  | false =>
    have hsilent : reading ev b.msgFrame client = .silent := by simp [reading, hin]
    obtain ⟨b', t, hrun, hf, hw⟩ := handleOutput_works h hcl hfd hsock ev b
    rw [hsilent]
    exact ⟨b', t, hrun, hf, hw.mono (Nat.le_succ k)⟩
  | true =>
    have hinput := handleInput_run (b := b) h hcl hfd hin
    cases hr : reading ev b.msgFrame client with
    | silent =>
      rw [hr] at hinput
      exact hinput.elim
    | fault => exact absurd hr hread
    | zero =>
      rw [hr] at hinput
      have hmark := h.served_modify hcl (·.setState disconnectState) fun _ => ⟨rfl, rfl⟩
      refine ⟨b, _, ?_, rfl, hmark.mono (Nat.le_succ k)⟩
      simp only [if_true]
      rw [bind_of_ok hinput]
      rfl
    | message m =>
      rw [hr] at hinput
      obtain ⟨m', t, hproc, hw⟩ := processInput_works h hcl hfd m
      have hfd' : 0 ≤ (inputEntry m cl).fd := inputEntry_fd m cl ▸ hfd
      obtain ⟨b', u, hout, hf, hw'⟩ :=
        handleOutput_works hw.able hw.entry hfd' hsock ev ⟨b.msgFrame.clearMsg, m'⟩
      refine ⟨b', u, ?_, hf, hw.trans hw'⟩
      simp only [if_true]
      rw [bind_of_ok hinput]
      simp only [Bool.false_eq_true, if_false]
      rw [bind_of_ok (derefClient_run hcl), bind_of_ok hproc]
      exact hout

theorem handleClient_faults (h : Able k L s) (hcl : s.sv.getClientRef client.2 = some cl)
    (hfd : 0 ≤ cl.fd) (hsock : 0 ≤ client.1)
    (hread : reading ev b.msgFrame client = .fault) :
    ∃ e, handleClient ev L client b s = .error e s := by
  have hin : ev.pollIn client.1 = true := by
    by_contra hin
    simp [reading, hin] at hread
  have hinput := handleInput_run (b := b) h hcl hfd hin
  rw [hread] at hinput
  obtain ⟨e, hinput⟩ := hinput
  refine ⟨e, ?_⟩
  rw [handleClient, bind_of_ok (checkEvent_run hsock ev.pollIn), if_pos hin]
  exact bind_of_error hinput

end Visit

section Loop

variable {s t : Shared cfg} {k : Nat} {L : Int} {ev : Events} {clients : List (Int × Int)}
variable {b : Buffers}

theorem Listed.tail {client : Int × Int} {sv : Server cfg} (h : Listed (client :: clients) sv) :
    Listed clients sv := ⟨h.nodup, fun p hp => h.known p (List.mem_cons_of_mem _ hp)⟩

theorem Listed.entry {client : Int × Int} {sv : Server cfg} (h : Listed (client :: clients) sv) :
    ∃ cl, sv.getClientRef client.2 = some cl ∧ cl.fd = client.1 :=
  getClientRef_of_pair h.nodup (h.known client List.mem_cons_self)

theorem mem_readings {f : MessageFrame} {p : (Int × Int) × Reading}
    (h : p ∈ readings ev f clients) : p.1 ∈ clients := by
  induction clients generalizing f with
  | nil => exact absurd h List.not_mem_nil
  | cons client rest ih =>
    rcases List.mem_cons.mp h with rfl | h
    · exact List.mem_cons_self
    · exact List.mem_cons_of_mem _ (ih h)

theorem readable_cons {f : MessageFrame} {client : Int × Int} :
    Readable ev f (client :: clients) ↔ reading ev f client ≠ .fault ∧
      Readable ev ((reading ev f client).frameAfter f) clients := List.forall_mem_cons

-- what the pass over the clients leaves of each of them
structure PassedOver (k : Nat) (L : Int) (ev : Events) (f : MessageFrame)
    (clients : List (Int × Int)) (s t : Shared cfg) : Prop where
  able : Able k L t
  pairs : t.sv.pairs = s.sv.pairs
  entries : ∀ p ∈ readings ev f clients, ∀ c, s.sv.getClientRef p.1.2 = some c →
    t.sv.getClientRef p.1.2 = some (visited (ev.pollOut p.1.1) c p.2)
  others : ∀ x, x ∉ clients.map Prod.snd → t.sv.getClientRef x = s.sv.getClientRef x

theorem handleClients_works (h : Able (k + clients.length) L s) (hl : Listed clients s.sv)
    (hsock : ∀ p ∈ clients, 0 ≤ p.1) (hn : (clients.map Prod.snd).Nodup)
    (hread : Readable ev b.msgFrame clients) :
    ∃ b' t, handleClients ev L clients b s = .ok b' t ∧
      PassedOver k L ev b.msgFrame clients s t := by
  induction clients generalizing s b with
  | nil => exact ⟨b, s, rfl, h, rfl, fun p hp => absurd hp List.not_mem_nil, fun _ _ => rfl⟩
  | cons client rest ih =>
    obtain ⟨hfirst, hrest⟩ := readable_cons.mp hread
    obtain ⟨hs, hsock⟩ := List.forall_mem_cons.mp hsock
    obtain ⟨hnot, hn⟩ := List.nodup_cons.mp hn
    obtain ⟨cl, hcl, hfd⟩ := hl.entry
    obtain ⟨b₁, u, hrun, hf, hw⟩ := handleClient_works h hcl (hfd ▸ hs) hs hfirst
    rw [← hf] at hrest
    obtain ⟨b₂, t, hruns, ht⟩ := ih hw.able (hl.tail.congr hw.pairs) hsock hn hrest
    refine ⟨b₂, t, (bind_of_ok hrun).trans hruns, ht.able, ht.pairs.trans hw.pairs,
      fun p hp c hc => ?_, fun x hx => ?_⟩
    · rcases List.mem_cons.mp hp with rfl | hp
      · obtain rfl := Option.some.inj (hcl.symm.trans hc)
        exact (ht.others _ hnot).trans hw.entry
      · rw [← hf] at hp
        have hne : p.1.2 ≠ client.2 := fun he =>
          hnot (he ▸ List.mem_map_of_mem (mem_readings hp))
        exact ht.entries p hp c ((hw.others _ hne).trans hc)
    · obtain ⟨hne, hx⟩ := not_or.mp (List.mem_cons.not.mp hx)
      exact (ht.others x hx).trans (hw.others x hne)

theorem handleClients_faults (h : Able (k + clients.length) L s) (hl : Listed clients s.sv)
    (hsock : ∀ p ∈ clients, 0 ≤ p.1) (hread : ¬ Readable ev b.msgFrame clients) :
    ∃ e t, handleClients ev L clients b s = .error e t := by
  induction clients generalizing s b with
  | nil => exact absurd (fun p hp => absurd hp List.not_mem_nil) hread
  | cons client rest ih =>
    obtain ⟨hs, hsock⟩ := List.forall_mem_cons.mp hsock
    obtain ⟨cl, hcl, hfd⟩ := hl.entry
    by_cases hfirst : reading ev b.msgFrame client = .fault
    · obtain ⟨e, he⟩ := handleClient_faults h hcl (hfd ▸ hs) hs hfirst
      exact ⟨e, s, bind_of_error he⟩
    · obtain ⟨b₁, u, hrun, hf, hw⟩ := handleClient_works h hcl (hfd ▸ hs) hs hfirst
      have hrest : ¬ Readable ev b₁.msgFrame rest := fun hr =>
        hread (readable_cons.mpr ⟨hfirst, hf ▸ hr⟩)
      obtain ⟨e, t, he⟩ := ih hw.able (hl.tail.congr hw.pairs) hsock hrest
      exact ⟨e, t, (bind_of_ok hrun).trans he⟩

theorem removeDisconnected_works {i : Nat} {m : ServerMessage} (h : Able (k + clients.length) L s)
    (hl : Listed clients s.sv) : ∃ r t, removeDisconnected i L clients m s = .ok r t ∧
      Able k L t ∧ t.sv = s.sv ∧ ∀ p ∈ clients, ∀ c, s.sv.getClientRef p.2 = some c →
        c.initState ≠ disconnectState → p ∈ r.1 := by
  induction clients generalizing s m with
  | nil => exact ⟨([], m), s, rfl, h, rfl, fun p hp => absurd hp List.not_mem_nil⟩
  | cons client rest ih =>
    obtain ⟨cl, hcl, -⟩ := hl.entry
    rw [removeDisconnected, bind_of_ok (derefClient_run hcl)]
    split_ifs with hgone
    · have hpush := Able.push (k := k + rest.length) h (goneMsg m i client.2 cl)
      obtain ⟨r, t, hrun, ht, hsv, hkept⟩ := ih (m := goneMsg m i client.2 cl) hpush.2 hl.tail
      refine ⟨r, t, (bind_of_ok hpush.1).trans hrun, ht, hsv, fun p hp c hc hne => ?_⟩
      rcases List.mem_cons.mp hp with rfl | hp
      · obtain rfl := Option.some.inj (hcl.symm.trans hc)
        exact absurd hgone hne
      · exact hkept p hp c hc hne
    · obtain ⟨r, t, hrun, ht, hsv, hkept⟩ := ih (m := m) (h.mono (Nat.le_succ _)) hl.tail
      refine ⟨(client :: r.1, r.2), t, ?_, ht, hsv, fun p hp c hc hne => ?_⟩
      · rw [bind_of_ok hrun]
        rfl
      · rcases List.mem_cons.mp hp with rfl | hp
        · exact List.mem_cons_self
        · exact List.mem_cons_of_mem _ (hkept p hp c hc hne)

end Loop

-- the worker pops the ACCEPT of a connection that accept_client had refused
def TakesRefused (ev : Events) (l : Launch) (s : Shared cfg) : Prop :=
  ev.pollIn l.personalEvfd = true ∧ s.kernel.evfd l.personalEvfd ≠ 0 ∧
    s.mgr.qListenerToWorker.head? = some (acceptText l.personalIndex (-1) (-1))

instance (ev : Events) (l : Launch) (s : Shared cfg) : Decidable (TakesRefused ev l s) :=
  inferInstanceAs (Decidable (_ ∧ _ ∧ _))

section Queue

variable {s : Shared cfg} {k : Nat} {L : Int} {held : List (Int × Int)} {ev : Events} {l : Launch}
variable {accepts : List (Nat × Int × Int)} {ups : List ServerMessage}

theorem Able.readEvfd (h : Able k L s) (fd : Int) : Able k L (s.setEvfd fd 0) := by
  refine ⟨h.socket, h.evfd, h.room, ?_, h.sends⟩
  have hcount := h.counter
  by_cases hL : L = fd
  · rw [hL, Shared.setEvfd_self]
    omega
  · rwa [Shared.setEvfd_of_ne hL]

theorem Able.popped (h : Able k L s) (q : List Str) : Able k L (s.setListenerToWorker q) :=
  ⟨h.socket, h.evfd, h.room, h.counter, h.sends⟩

theorem Owned.accepted (h : Owned held accepts ups s) {a : Nat × Int × Int}
    {rest : List (Nat × Int × Int)} (ha : accepts = a :: rest) :
    Decimal.InRange a.2.1 ∧ Decimal.InRange a.2.2 ∧
      (a.2 = (-1, -1) ∨ 0 ≤ a.2.1 ∧ 0 ≤ a.2.2) := by
  have hmem : a.2 ∈ held ++ accepts.map Prod.snd := by simp [ha]
  obtain ⟨hfd, hid⟩ := h.inRange hmem
  refine ⟨hfd, hid, (h.known _ hmem).imp_right fun hp => ?_⟩
  have hr := h.range _ hp
  exact ⟨hr.1.1, hr.2.1⟩

theorem pollQueue_works (ho : Owned held accepts ups s) (h : Able k L s)
    (hevfd : 0 ≤ l.personalEvfd) (hnot : ¬ TakesRefused ev l s) :
    ∃ q t, pollQueue ev l s = .ok q t ∧ Able k L t ∧ t.sv = s.sv ∧
      (q.action = Actions.accept.code → 0 ≤ q.fd ∧ 0 ≤ q.id) := by
  have hidle : ({} : QueueAction).action = Actions.accept.code → 0 ≤ ({} : QueueAction).fd ∧
      0 ≤ ({} : QueueAction).id := by decide
  rw [pollQueue, bind_of_ok (checkEvent_run hevfd ev.pollIn)]
  cases hin : ev.pollIn l.personalEvfd with
  | false => exact ⟨{}, s, rfl, h, rfl, hidle⟩
  | true =>
    simp only [if_true, workerProcessListenerToWorkerQ_eq]
    by_cases h0 : s.kernel.evfd l.personalEvfd = 0
    · rw [if_pos h0]
      exact ⟨{}, s, rfl, h, rfl, hidle⟩
    · rw [if_neg h0]
      have hdown := ho.downQueue
      cases ha : accepts with
      | nil =>
        rw [ha] at hdown
        rw [hdown]
        exact ⟨{}, _, rfl, h.readEvfd l.personalEvfd, rfl, hidle⟩
      | cons a rest =>
        rw [ha] at hdown
        obtain ⟨hfd, hid, hneg⟩ := ho.accepted ha
        have hpop := (h.readEvfd l.personalEvfd).popped (acceptTexts rest)
        rw [hdown]
        simp only [acceptTexts, List.map_cons, Routing.text, processQueued_accept hfd hid]
        split_ifs with hmine hbad
        · rcases hneg with heq | ⟨h1, _⟩
          · refine absurd ⟨hin, h0, ?_⟩ hnot
            rw [hdown, ← hmine]
            simp [acceptTexts, Routing.text, heq]
          · omega
        · refine ⟨_, _, rfl, hpop, rfl, fun _ => ?_⟩
          rcases hneg with heq | hpos
          · rw [heq] at hbad
            exact absurd (by decide) hbad
          · exact hpos
        · exact ⟨{}, _, rfl, hpop, rfl, hidle⟩

theorem pollQueue_faults (hevfd : 0 ≤ l.personalEvfd) (h : TakesRefused ev l s) :
    ∃ e t, pollQueue ev l s = .error e t := by
  obtain ⟨hin, h0, hhead⟩ := h
  rw [pollQueue, bind_of_ok (checkEvent_run hevfd ev.pollIn), if_pos hin,
    workerProcessListenerToWorkerQ_eq, if_neg h0]
  obtain ⟨rest, hq⟩ := List.head?_eq_some_iff.mp hhead
  have hrange : Decimal.InRange (-1) := by decide
  simp only [hq, processQueued_accept hrange hrange, if_true]
  exact ⟨_, _, if_pos (by decide)⟩

end Queue

section Iteration

variable {s : Shared cfg} {k : Nat} {held : List (Int × Int)} {ev : Events} {l : Launch}
variable {accepts : List (Nat × Int × Int)} {ups : List ServerMessage} {w : WorkerState}

theorem visited_stays {c : ClientData} {r : Reading} (writable : Bool)
    (hc : c.initState ≠ disconnectState) (hr : ¬ r.IsLeaving) :
    (visited writable c r).initState ≠ disconnectState := by
  have hout {d : ClientData} (hd : d.initState ≠ disconnectState) :
      (outputEntry writable d).initState ≠ disconnectState := by
    unfold outputEntry
    split_ifs with _ h1
    · simp [ClientData.incState, h1, requestedInit, disconnectState]
    · exact hd
    · exact hd
    · exact hd
  cases r with
  | silent => exact hout hc
  | zero => exact absurd trivial hr
  | fault => exact hc
  | message m =>
    have hm : m.action ≠ getAction .clDisconnected := hr
    refine hout ?_
    rw [inputEntry, if_neg hm]
    split_ifs with h0 hreq h2 hdone
    · simp [ClientData.incState, h0, initialState, disconnectState]
    · exact hc
    · simp [ClientData.incState, h2, sentInitConfirmation, disconnectState]
    · exact hc
    · exact hc

-- what an iteration that ends well leaves: nobody goes without having left
structure Visited (ev : Events) (w : WorkerState) (s : Shared cfg) (w' : WorkerState)
    (t : Shared cfg) : Prop where
  entries : ∀ p ∈ readings ev w.buffers.msgFrame w.clients, ∃ c,
    s.sv.getClientRef p.1.2 = some c ∧
      t.sv.getClientRef p.1.2 = some (visited (ev.pollOut p.1.1) c p.2)
  stay : ∀ p ∈ readings ev w.buffers.msgFrame w.clients, ¬ p.2.IsLeaving → p.1 ∈ w'.clients

theorem workerIteration_works (ho : Owned held accepts ups s)
    (h : Able (2 * w.clients.length) l.listenerEvfd s) (hevfd : 0 ≤ l.personalEvfd)
    (hl : Listed w.clients s.sv) (hsock : ∀ p ∈ w.clients, 0 ≤ p.1)
    (hn : (w.clients.map Prod.snd).Nodup) (halive : Alive w.clients s.sv)
    (hread : Readable ev w.buffers.msgFrame w.clients) (hnot : ¬ TakesRefused ev l s) :
    ∃ w' t, workerIteration ev l w s = .ok w' t ∧ Visited ev w s w' t := by
  rw [Nat.two_mul] at h
  obtain ⟨q, s₁, hq, h₁, hsv₁, htaken⟩ := pollQueue_works ho h hevfd hnot
  rw [← hsv₁] at hl
  obtain ⟨b, s₂, hb, hpass⟩ := handleClients_works h₁ hl hsock hn hread
  have hable₂ : Able (0 + w.clients.length) l.listenerEvfd s₂ :=
    hpass.able.mono (Nat.zero_add _).le
  obtain ⟨r, t, hr, _, hsv, hkept⟩ := removeDisconnected_works (i := l.personalIndex)
    (m := b.serverMsg) hable₂ (hl.congr hpass.pairs)
  have hup : takeUp q r.1 t = .ok (r.1 ++ taken q) t := by
    unfold takeUp taken
    split_ifs with ha hneg
    · have := htaken ha
      omega
    · rfl
    · rw [List.append_nil]
      rfl
  have hentry {p : (Int × Int) × Reading}
      (hp : p ∈ readings ev w.buffers.msgFrame w.clients) : ∃ c,
      s.sv.getClientRef p.1.2 = some c ∧
        s₂.sv.getClientRef p.1.2 = some (visited (ev.pollOut p.1.1) c p.2) := by
    obtain ⟨c, hc, -⟩ := getClientRef_of_pair hl.nodup (hl.known _ (mem_readings hp))
    have := hpass.entries p hp c hc
    rw [hsv₁] at hc
    exact ⟨c, hc, this⟩
  refine ⟨⟨r.1 ++ taken q, { b with serverMsg := r.2 }⟩, t, ?_, fun p hp => ?_,
    fun p hp hleaves => ?_⟩
  · rw [workerIteration, bind_of_ok hq, bind_of_ok hb, bind_of_ok hr, bind_of_ok hup]
    rfl
  · rw [hsv]
    exact hentry hp
  · obtain ⟨c, hc, hc'⟩ := hentry hp
    have hmem := mem_readings hp
    have hstate := halive p.1 hmem c (getClientRef_mem hc) (getClientRef_id hc)
    exact List.mem_append_left _ (hkept p.1 hmem _ hc' (visited_stays _ hstate hleaves))

theorem workerIteration_faults (ho : Owned held accepts ups s)
    (h : Able (2 * w.clients.length) l.listenerEvfd s) (hevfd : 0 ≤ l.personalEvfd)
    (hl : Listed w.clients s.sv) (hsock : ∀ p ∈ w.clients, 0 ≤ p.1)
    (hbad : ¬ (Readable ev w.buffers.msgFrame w.clients ∧ ¬ TakesRefused ev l s)) :
    ∃ e t, workerIteration ev l w s = .error e t := by
  by_cases hrefused : TakesRefused ev l s
  · obtain ⟨e, t, he⟩ := pollQueue_faults hevfd hrefused
    exact ⟨e, t, bind_of_error he⟩
  · have hread : ¬ Readable ev w.buffers.msgFrame w.clients := fun hr => hbad ⟨hr, hrefused⟩
    rw [Nat.two_mul] at h
    obtain ⟨q, s₁, hq, h₁, hsv₁, _⟩ := pollQueue_works ho h hevfd hrefused
    obtain ⟨e, t, he⟩ := handleClients_faults h₁ (hsv₁ ▸ hl) hsock hread
    refine ⟨e, t, ?_⟩
    rw [workerIteration, bind_of_ok hq]
    exact bind_of_error he

end Iteration

-- the worker goes on, and each of its clients was served by what it sent
structure Survived (ev : Events) (t : Nat) (launch : Launch) (w : WorkerState)
    (s s' : State cfg) : Prop where
  alive : s'.terminated = false
  served : ∃ w', s'.threads[t]? = some ⟨launch, .head w'⟩ ∧ Visited ev w s.shared w' s'.shared

theorem worker_survives {svSocket listenerEvfd t : Nat} {s : State cfg} {launch : Launch}
    {w : WorkerState} {ev : Events}
    (hr : Reach State.step (fun _ _ => True) (State.init cfg svSocket listenerEvfd) s)
    (hrun : s.terminated = false) (hth : s.threads[t]? = some ⟨launch, .waiting w⟩)
    (hroom : ∀ n, cfg.queueSize = some n →
      s.shared.mgr.qWorkerToListener.length + 2 * w.clients.length ≤ n)
    (hcounter : s.shared.kernel.evfd s.listenerEvfd + 2 * w.clients.length ≤ evfdMax)
    (hsends : .failed ∉ ev.sends) :
    ∃ s', s.step (.iterate t ev) = some s' ∧ (Survived ev t launch w s s' ↔
      Readable ev w.buffers.msgFrame w.clients ∧ ¬ TakesRefused ev launch s.shared) := by
  have htabled : s.Tabled := hr.invariant (State.init_tabled cfg svSocket listenerEvfd)
    fun _ _ _ hI _ ht => State.step_tabled hI ht
  have hmem := List.mem_of_getElem? hth
  obtain ⟨accepts, ups, ho, halive⟩ := htabled.sound.owned
  obtain ⟨_, hevfd, hL⟩ := htabled.sound.launches _ hmem
  have ho' : Owned s.held accepts ups (s.withSends ev.sends).shared := ho.of_core rfl
  have hL' : launch.listenerEvfd = s.listenerEvfd := hL
  have hable : Able (2 * w.clients.length) launch.listenerEvfd (s.withSends ev.sends).shared :=
    ⟨ho.socket, hL' ▸ htabled.sound.evfd, hroom, hL' ▸ hcounter, hsends⟩
  have hlisted : Listed w.clients (s.withSends ev.sends).shared.sv := htabled.listed hth
  have hsock : ∀ p ∈ w.clients, 0 ≤ p.1 := htabled.sockets _ hmem
  have hnodup : (w.clients.map Prod.snd).Nodup := by
    have hsub : w.clients.Sublist s.clients :=
      List.sublist_flatten_of_mem (List.mem_map_of_mem (f := Thread.clients) hmem)
    exact htabled.clients_ids_nodup.sublist (hsub.map Prod.snd)
  have halive' : Alive w.clients (s.withSends ev.sends).shared.sv := by
    refine State.alive_mono halive fun p hp => List.mem_append_left _ ?_
    exact List.mem_flatMap.mpr ⟨_, hmem, hp⟩
  have hstep : s.step (.iterate t ev) = some ((s.withSends ev.sends).runWorker t
      ⟨launch, .waiting w⟩ (workerIteration ev launch w)) := by
    simp [State.step, hrun, hth, State.threadStep]
  refine ⟨_, hstep, ?_⟩
  constructor
  · rintro ⟨hok, _⟩
    by_contra hbad
    obtain ⟨e, u, he⟩ := workerIteration_faults ho' hable hevfd hlisted hsock hbad
    unfold State.runWorker at hok
    rw [he] at hok
    cases hok
  · rintro ⟨hread, hnot⟩
    obtain ⟨w', u, hit, hvisited⟩ := workerIteration_works ho' hable hevfd hlisted hsock hnodup
      halive' hread hnot
    have hlt := (List.getElem?_eq_some_iff.mp hth).1
    unfold State.runWorker
    rw [hit]
    exact ⟨hrun, w', List.getElem?_set_self hlt, hvisited.entries, hvisited.stay⟩

section Runs

def waitingForFirst : List Label :=
  listenerRound false true (connection 5 6) ++ [.start 0 freshFrame, .wait 0]

def idleWaiting (s : State Config.deployed) : Bool :=
  (s.threads[0]?).any (fun th => match th.phase with
    | .waiting w => w = ⟨[(5, 0)], ⟨freshFrame, {}⟩⟩ ∧ th.launch.personalEvfd = 6
    | _ => false) &&
  s.shared.mgr.qWorkerToListener = [] && s.shared.kernel.evfd s.listenerEvfd = 0 && !s.terminated

-- one byte that is no message
def oneByte : Events := receiving 5 (.chunk ⟨['x'], by decide, by decide⟩)

def request : Events := receiving 5 (encoded { action := getAction .initReq })

theorem idleWaiting_reached {q : State Config.deployed → Bool}
    (hq : (run State.step (State.init Config.deployed 3 4) waitingForFirst).any
      (fun s => idleWaiting s && q s) = true) :
    ∃ (s : State Config.deployed) (launch : Launch),
      Reach State.step (fun _ _ => True) (State.init Config.deployed 3 4) s ∧
      s.terminated = false ∧
      s.threads[0]? = some ⟨launch, .waiting ⟨[(5, 0)], ⟨freshFrame, {}⟩⟩⟩ ∧
      launch.personalEvfd = 6 ∧ s.shared.mgr.qWorkerToListener = [] ∧
      s.shared.kernel.evfd s.listenerEvfd = 0 ∧ q s = true := by
  obtain ⟨s, hr, hs⟩ := exists_of_run (fun _ _ => trivial) hq
  simp only [idleWaiting, Bool.and_eq_true, decide_eq_true_eq, Bool.not_eq_true'] at hs
  obtain ⟨⟨⟨⟨hth, hup⟩, hcount⟩, hrun⟩, hq⟩ := hs
  obtain ⟨⟨launch, phase⟩, hth, hw⟩ := (Option.any_eq_true _ _).mp hth
  cases phase with
  | waiting w =>
    obtain ⟨rfl, hevfd⟩ := of_decide_eq_true hw
    exact ⟨s, launch, hr, hrun, hth, hevfd, hup, hcount, hq⟩
  | _ => cases hw

theorem worker_survives_request : ∃ (s s' : State Config.deployed) (launch : Launch),
    s.step (.iterate 0 request) = some s' ∧
    Survived request 0 launch ⟨[(5, 0)], ⟨freshFrame, {}⟩⟩ s s' := by
  obtain ⟨s, launch, hr, hrun, hth, hevfd, hup, hcount, _⟩ := idleWaiting_reached
    (q := fun _ => true) (by decide +kernel)
  obtain ⟨s', hs', hiff⟩ : ∃ s', s.step (.iterate 0 request) = some s' ∧ _ :=
    worker_survives hr hrun hth (fun n hn => by cases hn; simp [hup])
      (by simp [hcount, evfdMax]) List.not_mem_nil
  have hread : Readable request freshFrame [(5, 0)] := by decide +kernel
  have hnot : ¬ TakesRefused request launch s.shared := by
    rintro ⟨hin, -⟩
    rw [hevfd] at hin
    exact absurd hin (by decide)
  exact ⟨s, s', launch, hs', hiff.mpr ⟨hread, hnot⟩⟩

theorem oneByte_terminates : ¬ ∀ (s : State Config.deployed) (t : Nat) (launch : Launch)
    (w : WorkerState) (ev : Events),
    Reach State.step (fun _ _ => True) (State.init Config.deployed 3 4) s →
    s.terminated = false → s.threads[t]? = some ⟨launch, .waiting w⟩ →
    (∀ n, Config.deployed.queueSize = some n →
      s.shared.mgr.qWorkerToListener.length + 2 * w.clients.length ≤ n) →
    s.shared.kernel.evfd s.listenerEvfd + 2 * w.clients.length ≤ evfdMax →
    .failed ∉ ev.sends →
    ∃ s', s.step (.iterate t ev) = some s' ∧ Survived ev t launch w s s' := by
  intro hall
  obtain ⟨s, launch, hr, hrun, hth, _, hup, hcount, hq⟩ := idleWaiting_reached
    (q := fun s => (s.step (.iterate 0 oneByte)).all State.terminated) (by decide +kernel)
  obtain ⟨s', hs', hsurvived⟩ := hall s 0 launch _ oneByte hr hrun hth
    (fun n hn => by cases hn; simp [hup]) (by simp [hcount, evfdMax]) List.not_mem_nil
  rw [hs'] at hq
  exact absurd (hq.symm.trans hsurvived.alive) (by decide)

end Runs

end ChatApp
