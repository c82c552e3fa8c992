import Mathlib.Logic.Relation
import ChatApp.Framing
import ChatApp.Routing

namespace ChatApp

open Effects Relation

variable {cfg : Config}

section Updates

def Shared.modifyClient (s : Shared cfg) (clId : Int) (f : ClientData → ClientData) : Shared cfg :=
  { s with sv := s.sv.modifyClient clId f }

-- what a send that does not fail leaves behind
def Shared.sendDone (s : Shared cfg) (clId : Int) (msg : Str) : Shared cfg :=
  match s.kernel.sends with
  | [] => { s with hist := { s.hist with sent := s.hist.sent ++ [(clId, msg)] } }
  | .whole :: rest =>
    { s with
      hist := { s.hist with sent := s.hist.sent ++ [(clId, msg)] }
      kernel := { s.kernel with sends := rest } }
  | .part n :: rest =>
    { s with
      hist := { s.hist with sent := s.hist.sent ++ [(clId, msg.take n)] }
      kernel := { s.kernel with sends := rest } }
  | .failed :: rest => { s with kernel := { s.kernel with sends := rest } }

def Shared.pushUp (s : Shared cfg) (listenerEvfd : Int) (m : ServerMessage) : Shared cfg :=
  (s.pushWorkerToListener m.getConcatenatedMsg).setEvfd listenerEvfd
    (s.kernel.evfd listenerEvfd + 1)

variable (s : Shared cfg) (clId : Int) (msg : Str)

@[simp] theorem Shared.sendDone_mgr : (s.sendDone clId msg).mgr = s.mgr := by
  unfold sendDone
  split <;> rfl

@[simp] theorem Shared.sendDone_sv : (s.sendDone clId msg).sv = s.sv := by
  unfold sendDone
  split <;> rfl

@[simp] theorem Shared.sendDone_evfd : (s.sendDone clId msg).kernel.evfd = s.kernel.evfd := by
  unfold sendDone
  split <;> rfl

@[simp] theorem Shared.sendDone_spawned :
    (s.sendDone clId msg).kernel.spawned = s.kernel.spawned := by
  unfold sendDone
  split <;> rfl

@[simp] theorem Shared.sendDone_joining :
    (s.sendDone clId msg).kernel.joining = s.kernel.joining := by
  unfold sendDone
  split <;> rfl

@[simp] theorem Shared.modifyClient_sv (f : ClientData → ClientData) :
    (s.modifyClient clId f).sv = s.sv.modifyClient clId f := rfl

@[simp] theorem Shared.modifyClient_mgr (f : ClientData → ClientData) :
    (s.modifyClient clId f).mgr = s.mgr := rfl

@[simp] theorem Shared.modifyClient_kernel (f : ClientData → ClientData) :
    (s.modifyClient clId f).kernel = s.kernel := rfl

@[simp] theorem Shared.modifyClient_hist (f : ClientData → ClientData) :
    (s.modifyClient clId f).hist = s.hist := rfl

@[simp] theorem Shared.pushUp_sv (fd : Int) (m : ServerMessage) : (s.pushUp fd m).sv = s.sv := rfl

@[simp] theorem Shared.pushUp_hist (fd : Int) (m : ServerMessage) :
    (s.pushUp fd m).hist = s.hist := rfl

end Updates

-- what one client can make its worker do, with the entry of the table it does it on
inductive Serve (listenerEvfd : Int) (clId : Int) : Shared cfg → Shared cfg → Prop
  | mark {s : Shared cfg} {cl : ClientData} (h : s.sv.getClientRef clId = some cl) :
    Serve listenerEvfd clId s (s.modifyClient clId (·.setState disconnectState))
  | named {s : Shared cfg} {cl : ClientData} {name : Str}
    (h : s.sv.getClientRef clId = some cl) (h0 : cl.initState = initialState)
    (hn : splitToken ∉ name) :
    Serve listenerEvfd clId s (s.modifyClient clId fun c => { c.incState with name := name })
  | replied {s : Shared cfg} {cl : ClientData} {m : ServerMessage}
    (h : s.sv.getClientRef clId = some cl) (h1 : cl.initState = requestedInit) (hm : m.Clean) :
    Serve listenerEvfd clId s ((s.modifyClient clId ClientData.incState).sendDone clId
      (initReplyMsg m cl).getConcatenatedMsg)
  | greeted {s : Shared cfg} {cl : ClientData} {m : ServerMessage}
    (h : s.sv.getClientRef clId = some cl) (h2 : cl.initState = sentInitConfirmation)
    (hm : m.Clean) :
    Serve listenerEvfd clId s (((s.modifyClient clId ClientData.incState).sendDone clId
      (helloMsg m cl).getConcatenatedMsg).pushUp listenerEvfd (joinedMsg (helloMsg m cl) cl))
  | relayed {s : Shared cfg} {cl : ClientData} {m : ServerMessage}
    (h : s.sv.getClientRef clId = some cl) (h3 : cl.initState = initDone)
    (ha : m.action = getAction .unicastRepeated) (hm : m.Clean) :
    Serve listenerEvfd clId s (s.pushUp listenerEvfd m)
  | flushed {s : Shared cfg} {cl : ClientData} {msg : Str} {rest : List Str}
    (h : s.sv.getClientRef clId = some cl) (h3 : cl.initState = initDone)
    (hq : cl.sendQueue = msg :: rest) :
    Serve listenerEvfd clId s
      ((s.modifyClient clId fun c => { c with sendQueue := rest }).sendDone clId msg)

def ServeAny (listenerEvfd : Int) (clients : List (Int × Int)) (s t : Shared cfg) : Prop :=
  ∃ client ∈ clients, Serve listenerEvfd client.2 s t

-- the clients that stay and the messages about those that go, in order
inductive Removed (personalIndex : Nat) (listenerEvfd : Int) :
    List (Int × Int) → Shared cfg → List (Int × Int) → Shared cfg → Prop
  | nil {s : Shared cfg} : Removed personalIndex listenerEvfd [] s [] s
  | keep {client : Int × Int} {rest kept : List (Int × Int)} {s t : Shared cfg} {cl : ClientData}
    (h : s.sv.getClientRef client.2 = some cl) (hs : cl.initState ≠ disconnectState)
    (hr : Removed personalIndex listenerEvfd rest s kept t) :
    Removed personalIndex listenerEvfd (client :: rest) s (client :: kept) t
  | drop {client : Int × Int} {rest kept : List (Int × Int)} {s t : Shared cfg} {cl : ClientData}
    {m : ServerMessage} (h : s.sv.getClientRef client.2 = some cl)
    (hs : cl.initState = disconnectState) (hm : m.Clean)
    (hr : Removed personalIndex listenerEvfd rest
      (s.pushUp listenerEvfd (goneMsg m personalIndex client.2 cl)) kept t) :
    Removed personalIndex listenerEvfd (client :: rest) s kept t

def NamesClean (sv : Server cfg) : Prop := ∀ c ∈ sv.clients.values, splitToken ∉ c.name

section Table

variable {sv : Server cfg} {clId : Int} {cl : ClientData}

theorem getClientRef_id (h : sv.getClientRef clId = some cl) : cl.personalId = clId := by
  rw [Server.getClientRef, Slots.values_find?] at h
  simpa [Server.hasId] using List.find?_some h

theorem getClientRef_mem (h : sv.getClientRef clId = some cl) : cl ∈ sv.clients.values := by
  rw [Server.getClientRef, Slots.values_find?] at h
  exact List.mem_of_find?_eq_some h

theorem mem_modifyClient {f : ClientData → ClientData} {c : ClientData}
    (h : c ∈ (sv.modifyClient clId f).clients.values) :
    c ∈ sv.clients.values ∨ ∃ d ∈ sv.clients.values, d.personalId = clId ∧ c = f d := by
  rcases Slots.mem_values_modify h with h | ⟨d, hd, hp, rfl⟩
  · exact .inl h
  · exact .inr ⟨d, hd, by simpa [Server.hasId] using hp, rfl⟩

theorem getClientRef_modifyClient {f : ClientData → ClientData}
    (h : sv.getClientRef clId = some cl) (hf : ∀ c, (f c).personalId = c.personalId) :
    (sv.modifyClient clId f).getClientRef clId = some (f cl) := by
  refine Slots.find?_modify h fun c hc => ?_
  simpa [Server.hasId, hf] using hc

theorem getClientRef_modifyClient_other {f : ClientData → ClientData} {other : Int}
    (h : other ≠ clId) (hf : ∀ c, (f c).personalId = c.personalId) :
    (sv.modifyClient clId f).getClientRef other = sv.getClientRef other := by
  refine Slots.find?_modify_other fun c hc => ?_
  have hid : c.personalId = clId := by simpa [Server.hasId] using hc
  simp [Server.hasId, hf, hid, h.symm]

theorem namesClean_modifyClient {f : ClientData → ClientData} (h : NamesClean sv)
    (hf : ∀ c, splitToken ∉ c.name → splitToken ∉ (f c).name) :
    NamesClean (sv.modifyClient clId f) := by
  intro c hc
  rcases mem_modifyClient hc with hc | ⟨d, hd, _, rfl⟩
  · exact h c hc
  · exact hf d (h d hd)

end Table

section Cleanliness

variable {m : ServerMessage} {cl : ClientData}

theorem clean_iff : m.Clean ↔ splitToken ∉ m.threadNumber ∧ splitToken ∉ m.action ∧
    splitToken ∉ m.fd ∧ splitToken ∉ m.id ∧ splitToken ∉ m.name ∧ splitToken ∉ m.colorId ∧
    splitToken ∉ m.initDone ∧ splitToken ∉ m.msgContent := by
  simp [ServerMessage.Clean, Delimited.Clean, ServerMessage.toFields]

theorem clean_default : ({} : ServerMessage).Clean := by decide

theorem helloMsg_clean (hm : m.Clean) (hn : splitToken ∉ cl.name) : (helloMsg m cl).Clean := by
  obtain ⟨ht, _, hf, _, _, _, hd, _⟩ := clean_iff.mp hm
  refine clean_iff.mpr ⟨ht, splitToken_not_mem_getAction .unicastRepeated, hf,
    splitToken_not_mem_toString _, splitToken_not_mem_serverName, splitToken_not_mem_toString _,
    hd, ?_⟩
  simp only [helloMsg, List.mem_append, hn, or_false]
  decide

theorem joinedMsg_clean (hm : m.Clean) (hn : splitToken ∉ cl.name) : (joinedMsg m cl).Clean := by
  obtain ⟨ht, _, hf, _, _, hc, hd, _⟩ := clean_iff.mp hm
  refine clean_iff.mpr ⟨ht, splitToken_not_mem_getAction .initDone, hf,
    splitToken_not_mem_toString _, splitToken_not_mem_serverName, hc, hd, ?_⟩
  simp only [joinedMsg, List.mem_append, hn, false_or]
  decide

theorem initReplyMsg_clean (hm : m.Clean) (hn : splitToken ∉ cl.name) :
    (initReplyMsg m cl).Clean := by
  obtain ⟨ht, _, hf, _, _, _, hd, hx⟩ := clean_iff.mp hm
  exact clean_iff.mpr ⟨ht, splitToken_not_mem_getAction .initReq, hf,
    splitToken_not_mem_toString _, hn, splitToken_not_mem_toString _, hd, hx⟩

theorem goneMsg_clean (hm : m.Clean) (hn : splitToken ∉ cl.name) (personalIndex : Nat)
    (clId : Int) : (goneMsg m personalIndex clId cl).Clean := by
  obtain ⟨_, _, hf, _, _, _, hd, hx⟩ := clean_iff.mp hm
  exact clean_iff.mpr ⟨splitToken_not_mem_toString personalIndex,
    splitToken_not_mem_getAction .clDisconnected, hf, splitToken_not_mem_toString _, hn,
    splitToken_not_mem_toString _, hd, hx⟩

end Cleanliness

section Inversion

variable {s t : Shared cfg} {clId : Int} {msg : Str}

theorem getSelectedClientFd_ok {fd : Int}
    (h : onServer (Server.getSelectedClientFd clId) s = .ok fd t) : t = s := by
  unfold onServer at h
  split at h
  · rename_i a sv hm
    cases h
    unfold Server.getSelectedClientFd at hm
    simp only [get_bind_run] at hm
    split_ifs at hm
    · cases hm
    · cases hc : s.sv.getClientRef clId with
      | none =>
        rw [hc] at hm
        cases hm
      | some c =>
        simp only [hc] at hm
        split_ifs at hm
        · cases hm
        · cases hm
          rfl
  · cases h

theorem sendMsg_ok (h : sendMsg msg clId s = .ok () t) : t = s.sendDone clId msg := by
  obtain ⟨fd, u, hu, hs⟩ := bind_ok h
  obtain rfl := getSelectedClientFd_ok hu
  simp only [get_bind_run] at hs
  unfold Shared.sendDone
  cases hk : u.kernel.sends with
  | nil =>
    rw [hk] at hs
    cases hs
    rfl
  | cons r rest =>
    rw [hk] at hs
    cases r <;> cases hs <;> rfl

theorem workerPush_ok {m : ServerMessage} {listenerEvfd : Int}
    (h : workerPush m listenerEvfd s = .ok () t) : t = s.pushUp listenerEvfd m := by
  unfold workerPush at h
  split_ifs at h with hL
  · cases h
  · cases hr : cfg.hasRoom s.mgr.qWorkerToListener with
    | false =>
      rw [bind_of_ok (tryPushWorkerToListener_full hr)] at h
      cases h
    | true =>
      rw [bind_of_ok (tryPushWorkerToListener_room hr)] at h
      simp only [Bool.not_true, Bool.false_eq_true, if_false] at h
      by_cases hlt : s.kernel.evfd listenerEvfd < evfdMax
      · rw [writeEvfd_run (s := s.pushWorkerToListener _) hlt] at h
        cases h
        rfl
      · rw [writeEvfd_full (s := s.pushWorkerToListener _) hlt] at h
        cases h

theorem derefClient_ok {cl : ClientData} (h : derefClient clId s = .ok cl t) :
    t = s ∧ s.sv.getClientRef clId = some cl := by
  simp only [derefClient, get_bind_run] at h
  cases hc : s.sv.getClientRef clId with
  | none =>
    rw [hc] at h
    cases h
  | some c =>
    rw [hc] at h
    cases h
    exact ⟨rfl, rfl⟩

theorem checkEvent_ok {fd : Int} {poll : Int → Bool} {r : Bool}
    (h : checkEvent fd poll s = .ok r t) : t = s ∧ r = poll fd ∧ 0 ≤ fd := by
  unfold checkEvent at h
  split_ifs at h with hfd
  · cases h
  · cases h
    exact ⟨rfl, rfl, by omega⟩

theorem flushQueue_ok {cl : ClientData} {listenerEvfd : Int} {q : List Str}
    (hcl : s.sv.getClientRef clId = some cl) (h3 : cl.initState = initDone)
    (hq : cl.sendQueue = q) (h : flushQueue clId q s = .ok () t) :
    ReflTransGen (Serve listenerEvfd clId) s t := by
  induction q generalizing s cl with
  | nil =>
    cases h
    exact .refl
  | cons msg rest ih =>
    obtain ⟨_, u, hu, h⟩ := bind_ok h
    obtain ⟨_, v, hv, h⟩ := bind_ok h
    cases hu
    obtain rfl := sendMsg_ok hv
    have hcl' : ((s.modifyClient clId fun c => { c with sendQueue := rest }).sendDone clId
        msg).sv.getClientRef clId = some { cl with sendQueue := rest } := by
      rw [Shared.sendDone_sv]
      exact getClientRef_modifyClient hcl fun _ => rfl
    exact .head (.flushed hcl h3 hq) (ih hcl' h3 rfl h)

-- what process_client_state(false, ...) does when it throws nothing
inductive OutputDone (m : ServerMessage) (cl : ClientData) (s : Shared cfg) :
    ServerMessage → Shared cfg → Prop
  | replied (h1 : cl.initState = requestedInit) : OutputDone m cl s (initReplyMsg m cl)
      ((s.modifyClient cl.personalId ClientData.incState).sendDone cl.personalId
        (initReplyMsg m cl).getConcatenatedMsg)
  | flushed {t : Shared cfg} (h3 : cl.initState = initDone)
    (hq : flushQueue cl.personalId cl.sendQueue s = .ok () t) : OutputDone m cl s m t
  | idle (h1 : cl.initState ≠ requestedInit) : OutputDone m cl s m s

theorem processOutput_done {cl : ClientData} {m m' : ServerMessage}
    (h : processOutput m cl s = .ok m' t) : OutputDone m cl s m' t := by
  simp only [processOutput] at h
  split_ifs at h with h1 h3
  · obtain ⟨_, u, hu, h₁⟩ := bind_ok h
    obtain ⟨_, v, hv, h₂⟩ := bind_ok h₁
    cases hu
    obtain rfl := sendMsg_ok hv
    cases h₂
    exact .replied h1
  · obtain ⟨_, u, hu, h₁⟩ := bind_ok h
    cases h₁
    exact .flushed h3 hu
  · cases h
    exact .idle h1

-- what process_client_state(true, ...) does when it throws nothing
inductive InputDone (m : ServerMessage) (cl : ClientData) (listenerEvfd : Int) (s : Shared cfg) :
    ServerMessage → Shared cfg → Prop
  | left (ha : m.action = getAction .clDisconnected) : InputDone m cl listenerEvfd s m
      (s.modifyClient cl.personalId (·.setState disconnectState))
  | named (ha : m.action ≠ getAction .clDisconnected) (h0 : cl.initState = initialState)
    (hi : m.action = getAction .initReq) : InputDone m cl listenerEvfd s {}
      (s.modifyClient cl.personalId fun c => { c.incState with name := m.name })
  | reset (ha : m.action ≠ getAction .clDisconnected) (h0 : cl.initState = initialState)
    (hi : m.action ≠ getAction .initReq) : InputDone m cl listenerEvfd s {} s
  | greeted (ha : m.action ≠ getAction .clDisconnected) (h2 : cl.initState = sentInitConfirmation)
    (hd : m.action = getAction .initDone) : InputDone m cl listenerEvfd s {}
      (((s.modifyClient cl.personalId ClientData.incState).sendDone cl.personalId
        (helloMsg m cl).getConcatenatedMsg).pushUp listenerEvfd (joinedMsg (helloMsg m cl) cl))
  | relayed (ha : m.action ≠ getAction .clDisconnected) (h3 : cl.initState = initDone)
    (hu : m.action = getAction .unicastRepeated) :
    InputDone m cl listenerEvfd s {} (s.pushUp listenerEvfd m)
  | kept (ha : m.action ≠ getAction .clDisconnected) (h0 : cl.initState ≠ initialState)
    (hd : cl.initState = sentInitConfirmation → m.action ≠ getAction .initDone)
    (hu : cl.initState = initDone → m.action ≠ getAction .unicastRepeated) :
    InputDone m cl listenerEvfd s m s

theorem processInput_done {cl : ClientData} {listenerEvfd : Int} {m m' : ServerMessage}
    (h : processInput m cl listenerEvfd s = .ok m' t) : InputDone m cl listenerEvfd s m' t := by
  by_cases ha : m.action = getAction .clDisconnected
  · rw [processInput_clDisconnected ha] at h
    cases h
    exact .left ha
  · simp only [processInput, ha, if_false] at h
    split_ifs at h with h0 hi h2 hd h3 hu
    · obtain ⟨_, u, hu, h₁⟩ := bind_ok h
      cases hu
      cases h₁
      exact .named ha h0 hi
    · cases h
      exact .reset ha h0 hi
    · obtain ⟨_, u, hu, h₁⟩ := bind_ok h
      obtain ⟨_, v, hv, h₂⟩ := bind_ok h₁
      obtain ⟨_, x, hx, h₃⟩ := bind_ok h₂
      cases hu
      obtain rfl := sendMsg_ok hv
      obtain rfl := workerPush_ok hx
      cases h₃
      exact .greeted ha h2 hd
    · cases h
      refine .kept ha h0 (fun _ => hd) fun h3 => ?_
      exact absurd (h2.symm.trans h3) (by decide)
    · obtain ⟨_, x, hx, h₁⟩ := bind_ok h
      obtain rfl := workerPush_ok hx
      cases h₁
      exact .relayed ha h3 hu
    · cases h
      exact .kept ha h0 (absurd · h2) fun _ => hu
    · cases h
      exact .kept ha h0 (absurd · h2) (absurd · h3)

theorem processOutput_ok {cl : ClientData} {listenerEvfd : Int} {m m' : ServerMessage}
    (hcl : s.sv.getClientRef clId = some cl) (hn : splitToken ∉ cl.name) (hm : m.Clean)
    (h : processOutput m cl s = .ok m' t) :
    m'.Clean ∧ ReflTransGen (Serve listenerEvfd clId) s t := by
  obtain rfl := getClientRef_id hcl
  cases processOutput_done h with
  | replied h1 => exact ⟨initReplyMsg_clean hm hn, .single (.replied hcl h1 hm)⟩
  | flushed h3 hq => exact ⟨hm, flushQueue_ok hcl h3 rfl hq⟩
  | idle _ => exact ⟨hm, .refl⟩

theorem processInput_ok {cl : ClientData} {listenerEvfd : Int} {m m' : ServerMessage}
    (hcl : s.sv.getClientRef clId = some cl) (hm : m.Clean)
    (h : processInput m cl listenerEvfd s = .ok m' t) :
    m'.Clean ∧ ReflTransGen (Serve listenerEvfd clId) s t := by
  obtain rfl := getClientRef_id hcl
  cases processInput_done h with
  | left _ => exact ⟨hm, .single (.mark hcl)⟩
  | named _ h0 _ =>
    exact ⟨clean_default, .single (.named hcl h0 (clean_iff.mp hm).2.2.2.2.1)⟩
  | reset _ _ _ => exact ⟨clean_default, .refl⟩
  | greeted _ h2 _ => exact ⟨clean_default, .single (.greeted hcl h2 hm)⟩
  | relayed _ h3 hu => exact ⟨clean_default, .single (.relayed hcl h3 hu hm)⟩
  | kept _ _ _ _ => exact ⟨hm, .refl⟩

theorem Serve.namesClean {listenerEvfd : Int} (h : Serve listenerEvfd clId s t)
    (hn : NamesClean s.sv) : NamesClean t.sv := by
  cases h with
  | mark _ => exact namesClean_modifyClient hn fun _ h => h
  | named _ _ hname => exact namesClean_modifyClient hn fun _ _ => hname
  | replied _ _ _ =>
    rw [Shared.sendDone_sv]
    exact namesClean_modifyClient hn fun _ h => h
  | greeted _ _ _ =>
    rw [Shared.pushUp_sv, Shared.sendDone_sv]
    exact namesClean_modifyClient hn fun _ h => h
  | relayed _ _ _ _ => exact hn
  | flushed _ _ _ =>
    rw [Shared.sendDone_sv]
    exact namesClean_modifyClient hn fun _ h => h

theorem namesClean_of_serves {listenerEvfd : Int}
    (h : ReflTransGen (Serve listenerEvfd clId) s t) (hn : NamesClean s.sv) : NamesClean t.sv := by
  induction h with
  | refl => exact hn
  | tail _ hs ih => exact hs.namesClean ih

theorem receiveMsg_ok {f : MessageFrame} {r : RecvResult} {x : Nat × MessageFrame}
    (h : receiveMsg f clId r s = .ok x t) :
    t = s ∧ ((∃ c, r = .chunk c ∧ x = (c.bytes.length, f.recv c)) ∨ (r = .zero ∧ x = (0, f))) := by
  obtain ⟨_, u, hu, h₁⟩ := bind_ok h
  obtain rfl := getSelectedClientFd_ok hu
  cases r with
  | chunk c =>
    cases h₁
    exact ⟨rfl, .inl ⟨c, rfl, rfl⟩⟩
  | zero =>
    cases h₁
    exact ⟨rfl, .inr ⟨rfl, rfl⟩⟩
  | failed => cases h₁

theorem liftExcept_ok_inv {α : Type} {x : Except Exn α} {a : α}
    (h : liftExcept x s = .ok a t) : x = .ok a ∧ t = s := by
  cases x with
  | ok b =>
    cases h
    exact ⟨rfl, rfl⟩
  | error e => cases h

theorem getSelectedClientFd_known {fd : Int}
    (h : onServer (Server.getSelectedClientFd clId) s = .ok fd t) :
    ∃ cl, s.sv.getClientRef clId = some cl := by
  cases hc : s.sv.getClientRef clId with
  | some cl => exact ⟨cl, rfl⟩
  | none =>
    have herr : ∃ e, onServer (Server.getSelectedClientFd clId) s = .error e s := by
      unfold onServer Server.getSelectedClientFd
      by_cases hsv : s.sv.svSocket < 0
      · simp [hsv]
      · simp [hsv, hc]
    obtain ⟨e, he⟩ := herr
    rw [he] at h
    cases h

-- what a read that throws nothing has found
inductive Incoming (ev : Events) (client : Int × Int) (b : Buffers) (s : Shared cfg) :
    Bool × Buffers → Shared cfg → Prop
  | closed {cl : ClientData} (hr : ev.recv client.1 = .zero)
    (hcl : s.sv.getClientRef client.2 = some cl) :
    Incoming ev client b s (true, b) (s.modifyClient client.2 (·.setState disconnectState))
  | message {c : Chunk} {cl : ClientData} {text : Str} {m : ServerMessage}
    (hr : ev.recv client.1 = .chunk c) (hcl : s.sv.getClientRef client.2 = some cl)
    (hstr : (b.msgFrame.recv c).toStdString = .ok text)
    (hdec : b.serverMsg.constructFromString text = .ok m) :
    Incoming ev client b s (false, ⟨(b.msgFrame.recv c).clearMsg, m⟩) s

theorem handleInput_incoming {ev : Events} {client : Int × Int} {b : Buffers} {x : Bool × Buffers}
    (h : handleInput ev client b s = .ok x t) : Incoming ev client b s x t := by
  obtain ⟨r, u, hr, h₁⟩ := bind_ok h
  obtain ⟨_, v, hv, _⟩ := bind_ok hr
  obtain ⟨cl, hcl⟩ := getSelectedClientFd_known hv
  obtain ⟨rfl, ⟨c, hc, rfl⟩ | ⟨hz, rfl⟩⟩ := receiveMsg_ok hr
  · have hlen : c.bytes.length ≠ 0 := by
      have := c.nonempty
      omega
    simp only [hlen, if_false, get_bind_run, hcl, Option.isNone_some, Bool.false_eq_true] at h₁
    obtain ⟨str, w, hw, h₂⟩ := bind_ok h₁
    obtain ⟨m, y, hy, h₃⟩ := bind_ok h₂
    obtain ⟨hstr, rfl⟩ := liftExcept_ok_inv hw
    obtain ⟨hdec, rfl⟩ := liftExcept_ok_inv hy
    cases h₃
    exact .message hc hcl hstr hdec
  · simp only [if_true] at h₁
    obtain ⟨d, w, hw, h₂⟩ := bind_ok h₁
    obtain ⟨_, y, hy, h₃⟩ := bind_ok h₂
    obtain ⟨rfl, hd⟩ := derefClient_ok hw
    cases hy
    cases h₃
    rw [getClientRef_id hd]
    exact .closed hz hcl

-- a client whose socket is writable is found in the table
theorem handleOutput_done {ev : Events} {client : Int × Int} {b b' : Buffers}
    (h : handleOutput ev client b s = .ok b' t) :
    ev.pollOut client.1 = false ∧ b' = b ∧ t = s ∨
    ev.pollOut client.1 = true ∧ ∃ cl m, s.sv.getClientRef client.2 = some cl ∧
      processOutput b.serverMsg cl s = .ok m t ∧ b' = { b with serverMsg := m } := by
  obtain ⟨poll, u, hu, h₁⟩ := bind_ok h
  obtain ⟨rfl, rfl, _⟩ := checkEvent_ok hu
  split_ifs at h₁ with hout
  · obtain ⟨cl, v, hv, h₂⟩ := bind_ok h₁
    obtain ⟨m, w, hw, h₃⟩ := bind_ok h₂
    obtain ⟨rfl, hcl⟩ := derefClient_ok hv
    cases h₃
    exact .inr ⟨hout, cl, m, hcl, hw, rfl⟩
  · cases h₁
    exact .inl ⟨eq_false_of_ne_true hout, rfl, rfl⟩

-- the turn of one client in worker_loop, when it throws nothing
inductive ClientDone (ev : Events) (listenerEvfd : Int) (client : Int × Int) (b : Buffers)
    (s : Shared cfg) : Buffers → Shared cfg → Prop
  | silent {b' : Buffers} {t : Shared cfg} (hin : ev.pollIn client.1 = false)
    (ho : handleOutput ev client b s = .ok b' t) : ClientDone ev listenerEvfd client b s b' t
  | closed {cl : ClientData} (hin : ev.pollIn client.1 = true) (hr : ev.recv client.1 = .zero)
    (hcl : s.sv.getClientRef client.2 = some cl) : ClientDone ev listenerEvfd client b s b
      (s.modifyClient client.2 (·.setState disconnectState))
  | heard {c : Chunk} {cl : ClientData} {text : Str} {m m' : ServerMessage} {b' : Buffers}
    {u t : Shared cfg} (hin : ev.pollIn client.1 = true) (hr : ev.recv client.1 = .chunk c)
    (hcl : s.sv.getClientRef client.2 = some cl)
    (hstr : (b.msgFrame.recv c).toStdString = .ok text)
    (hdec : b.serverMsg.constructFromString text = .ok m)
    (hp : processInput m cl listenerEvfd s = .ok m' u)
    (ho : handleOutput ev client ⟨(b.msgFrame.recv c).clearMsg, m'⟩ u = .ok b' t) :
    ClientDone ev listenerEvfd client b s b' t

theorem handleClient_done {ev : Events} {listenerEvfd : Int} {client : Int × Int} {b b' : Buffers}
    (h : handleClient ev listenerEvfd client b s = .ok b' t) :
    ClientDone ev listenerEvfd client b s b' t := by
  obtain ⟨poll, u, hu, h₁⟩ := bind_ok h
  obtain ⟨rfl, rfl, _⟩ := checkEvent_ok hu
  split_ifs at h₁ with hin
  · obtain ⟨r, v, hr, h₂⟩ := bind_ok h₁
    cases handleInput_incoming hr with
    | closed hz hcl =>
      cases h₂
      exact .closed hin hz hcl
    | message hc hcl hstr hdec =>
      obtain ⟨cl, w, hw, h₃⟩ := bind_ok h₂
      obtain ⟨m', x, hx, h₄⟩ := bind_ok h₃
      obtain ⟨rfl, hcl'⟩ := derefClient_ok hw
      exact .heard hin hc hcl' hstr hdec hx h₄
  · exact .silent (eq_false_of_ne_true hin) h₁

theorem handleOutput_ok {ev : Events} {client : Int × Int} {b b' : Buffers} {listenerEvfd : Int}
    (hn : NamesClean s.sv) (hm : b.serverMsg.Clean) (h : handleOutput ev client b s = .ok b' t) :
    b'.serverMsg.Clean ∧ ReflTransGen (Serve listenerEvfd client.2) s t := by
  rcases handleOutput_done h with ⟨_, rfl, rfl⟩ | ⟨_, cl, m, hcl, hout, rfl⟩
  · exact ⟨hm, .refl⟩
  · exact processOutput_ok hcl (hn cl (getClientRef_mem hcl)) hm hout

theorem handleClient_ok {ev : Events} {client : Int × Int} {b b' : Buffers} {listenerEvfd : Int}
    (hn : NamesClean s.sv) (hm : b.serverMsg.Clean)
    (h : handleClient ev listenerEvfd client b s = .ok b' t) :
    b'.serverMsg.Clean ∧ ReflTransGen (Serve listenerEvfd client.2) s t := by
  cases handleClient_done h with
  | silent _ ho => exact handleOutput_ok hn hm ho
  | closed _ _ hcl => exact ⟨hm, .single (.mark hcl)⟩
  | heard _ _ hcl _ hdec hp ho =>
    obtain ⟨hm', hin⟩ := processInput_ok hcl (ServerMessage.constructFromString_clean hdec) hp
    obtain ⟨hb, hout⟩ := handleOutput_ok (namesClean_of_serves hin hn) hm' ho
    exact ⟨hb, hin.trans hout⟩

theorem serveAny_of_serves {listenerEvfd : Int} {client : Int × Int} {clients : List (Int × Int)}
    (hc : client ∈ clients) (h : ReflTransGen (Serve listenerEvfd client.2) s t) :
    ReflTransGen (ServeAny listenerEvfd clients) s t :=
  h.lift id fun _ _ hs => ⟨client, hc, hs⟩

theorem namesClean_of_servesAny {listenerEvfd : Int} {clients : List (Int × Int)}
    (h : ReflTransGen (ServeAny listenerEvfd clients) s t) (hn : NamesClean s.sv) :
    NamesClean t.sv := by
  induction h with
  | refl => exact hn
  | tail _ hs ih =>
    obtain ⟨_, _, hs⟩ := hs
    exact hs.namesClean ih

theorem handleClients_ok {ev : Events} {listenerEvfd : Int} {clients : List (Int × Int)}
    {b b' : Buffers} (hn : NamesClean s.sv) (hm : b.serverMsg.Clean)
    (h : handleClients ev listenerEvfd clients b s = .ok b' t) :
    b'.serverMsg.Clean ∧ ReflTransGen (ServeAny listenerEvfd clients) s t := by
  induction clients generalizing b s with
  | nil =>
    cases h
    exact ⟨hm, .refl⟩
  | cons client rest ih =>
    obtain ⟨b₁, u, hu, h₁⟩ := bind_ok h
    obtain ⟨hm₁, hserve⟩ := handleClient_ok hn hm hu
    obtain ⟨hm', hrest⟩ := ih (namesClean_of_serves hserve hn) hm₁ h₁
    refine ⟨hm', (serveAny_of_serves List.mem_cons_self hserve).trans ?_⟩
    exact hrest.lift id fun _ _ ⟨c, hc, hs⟩ => ⟨c, List.mem_cons_of_mem _ hc, hs⟩

theorem removeDisconnected_ok {personalIndex : Nat} {listenerEvfd : Int}
    {clients : List (Int × Int)} {m : ServerMessage} {x : List (Int × Int) × ServerMessage}
    (hn : NamesClean s.sv) (hm : m.Clean)
    (h : removeDisconnected personalIndex listenerEvfd clients m s = .ok x t) :
    x.2.Clean ∧ Removed personalIndex listenerEvfd clients s x.1 t := by
  induction clients generalizing m s x with
  | nil =>
    cases h
    exact ⟨hm, .nil⟩
  | cons client rest ih =>
    obtain ⟨cl, u, hu, h₁⟩ := bind_ok h
    obtain ⟨rfl, hcl⟩ := derefClient_ok hu
    split_ifs at h₁ with hs
    · obtain ⟨_, v, hv, h₂⟩ := bind_ok h₁
      obtain rfl := workerPush_ok hv
      have hm' := goneMsg_clean hm (hn cl (getClientRef_mem hcl)) personalIndex client.2
      have hn' : NamesClean (u.pushUp listenerEvfd (goneMsg m personalIndex client.2 cl)).sv := hn
      obtain ⟨hx, hr⟩ := ih hn' hm' h₂
      exact ⟨hx, .drop hcl hs hm hr⟩
    · obtain ⟨r, v, hv, h₂⟩ := bind_ok h₁
      cases h₂
      obtain ⟨hx, hr⟩ := ih hn hm hv
      exact ⟨hx, .keep hcl hs hr⟩

def taken (q : QueueAction) : List (Int × Int) :=
  if q.action = Actions.accept.code then [(q.fd, q.id)] else []

theorem takeUp_ok {q : QueueAction} {clients x : List (Int × Int)}
    (h : takeUp q clients s = .ok x t) : t = s ∧ x = clients ++ taken q := by
  unfold takeUp at h
  split_ifs at h with ha hneg
  · cases h
  · cases h
    exact ⟨rfl, by simp [taken, ha]⟩
  · cases h
    exact ⟨rfl, by simp [taken, ha]⟩

theorem pollQueue_sv {ev : Events} {l : Launch} {q : QueueAction}
    (h : pollQueue ev l s = .ok q t) : t.sv = s.sv := by
  obtain ⟨poll, u, hu, h₁⟩ := bind_ok h
  obtain ⟨rfl, _, _⟩ := checkEvent_ok hu
  split_ifs at h₁
  · rw [workerProcessListenerToWorkerQ_eq] at h₁
    split_ifs at h₁
    · cases h₁
      rfl
    · split at h₁
      · cases h₁
        rfl
      · rcases processQueued_ok h₁ with rfl | ⟨rfl, _⟩ <;> rfl
  · cases h₁
    rfl

-- what an iteration that throws nothing has done, in the order it did it
structure Iterated (ev : Events) (l : Launch) (w : WorkerState) (s : Shared cfg)
    (w' : WorkerState) (t : Shared cfg) (q : QueueAction) (s₁ s₂ : Shared cfg)
    (kept : List (Int × Int)) : Prop where
  polled : pollQueue ev l s = .ok q s₁
  served : ReflTransGen (ServeAny l.listenerEvfd w.clients) s₁ s₂
  removed : Removed l.personalIndex l.listenerEvfd w.clients s₂ kept t
  clients : w'.clients = kept ++ taken q
  clean : w'.buffers.serverMsg.Clean

theorem workerIteration_ok {ev : Events} {l : Launch} {w w' : WorkerState}
    (hn : NamesClean s.sv) (hm : w.buffers.serverMsg.Clean)
    (h : workerIteration ev l w s = .ok w' t) :
    ∃ q s₁ s₂ kept, Iterated ev l w s w' t q s₁ s₂ kept := by
  obtain ⟨q, s₁, hq, h₁⟩ := bind_ok h
  obtain ⟨b, s₂, hb, h₂⟩ := bind_ok h₁
  obtain ⟨r, s₃, hr, h₃⟩ := bind_ok h₂
  obtain ⟨clients, s₄, hc, h₄⟩ := bind_ok h₃
  have hn₁ : NamesClean s₁.sv := by
    rw [pollQueue_sv hq]
    exact hn
  obtain ⟨hmb, hserve⟩ := handleClients_ok hn₁ hm hb
  obtain ⟨hmr, hrem⟩ := removeDisconnected_ok (namesClean_of_servesAny hserve hn₁) hmb hr
  obtain ⟨rfl, rfl⟩ := takeUp_ok hc
  cases h₄
  exact ⟨q, s₁, s₂, r.1, hq, hserve, hrem, rfl, hmr⟩

end Inversion

end ChatApp
