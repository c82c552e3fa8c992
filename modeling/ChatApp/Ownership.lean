import Mathlib.Data.List.Nodup
import ChatApp.WorkerSteps
import ChatApp.Listener

namespace ChatApp

open Effects Relation

variable {cfg : Config}

-- what the table keeps about a client, its queue left out
structure Member where
  id : Int
  fd : Int
  name : Str
  state : Int
  deriving DecidableEq

def ClientData.member (c : ClientData) : Member := ⟨c.personalId, c.fd, c.name, c.initState⟩

def Member.pair (m : Member) : Int × Int := (m.fd, m.id)

namespace Server

def roster (sv : Server cfg) : List Member := sv.clients.values.map ClientData.member

def pairs (sv : Server cfg) : List (Int × Int) := sv.roster.map Member.pair

def ids (sv : Server cfg) : List Int := sv.pairs.map Prod.snd

theorem pairs_eq (sv : Server cfg) :
    sv.pairs = sv.clients.values.map fun c => (c.fd, c.personalId) := by
  simp [pairs, roster, Function.comp_def, ClientData.member, Member.pair]

theorem ids_eq (sv : Server cfg) : sv.ids = sv.getConnectedIDs := by
  simp [ids, pairs_eq, getConnectedIDs, Function.comp_def]

theorem pairs_modifyClient {f : ClientData → ClientData}
    (hf : ∀ c, (f c).fd = c.fd ∧ (f c).personalId = c.personalId) (sv : Server cfg) (clId : Int) :
    (sv.modifyClient clId f).pairs = sv.pairs := by
  rw [pairs_eq, pairs_eq]
  exact Slots.map_values_modify (fun c => by rw [(hf c).1, (hf c).2]) _ _

end Server

def acceptTexts (accepts : List (Nat × Int × Int)) : List Str := accepts.map Routing.text

-- what a message for the listener names: its sender's slot and id when a client has gone, an id
-- the server wrote when one has joined
def UpOk (cfg : Config) (m : ServerMessage) : Prop :=
  (m.action = getAction .clDisconnected → ∃ (i : Nat) (clId : Int), i < cfg.maxNrOfThreads ∧
    0 ≤ clId ∧ clId ≤ Decimal.intMax ∧ m.threadNumber = Decimal.toString i ∧
      m.id = Decimal.toString clId) ∧
  (m.action = getAction .initDone → ∃ clId : Int, 0 ≤ clId ∧ clId ≤ Decimal.intMax ∧
    m.id = Decimal.toString clId)

def goneId (m : ServerMessage) : Option Int :=
  if m.action = getAction .clDisconnected then (stoi m.id).toOption else none

-- held, queued and gone: each id of the table is at most once in one of the three
structure Owned (held : List (Int × Int)) (accepts : List (Nat × Int × Int))
    (ups : List ServerMessage) (s : Shared cfg) : Prop where
  socket : 0 ≤ s.sv.svSocket
  nodup : s.sv.ids.Nodup
  range : ∀ p ∈ s.sv.pairs, (0 ≤ p.1 ∧ p.1 ≤ Decimal.intMax) ∧ 0 ≤ p.2 ∧ p.2 < s.sv.clientDataId
  counter : (s.sv.clientDataId : Int) ≤ Decimal.intMax + 1
  names : NamesClean s.sv
  downQueue : s.mgr.qListenerToWorker = acceptTexts accepts
  indexes : ∀ a ∈ accepts, a.1 < cfg.maxNrOfThreads
  upQueue : s.mgr.qWorkerToListener = ups.map ServerMessage.getConcatenatedMsg
  upsOk : ∀ m ∈ ups, m.Clean ∧ UpOk cfg m
  known : ∀ p ∈ held ++ accepts.map Prod.snd, p = (-1, -1) ∨ p ∈ s.sv.pairs
  holders : ∀ clId : Int, 0 ≤ clId →
    (held.map Prod.snd).count clId + (accepts.map fun a => a.2.2).count clId +
      (ups.filterMap goneId).count clId ≤ s.sv.ids.count clId

-- none of these clients is marked for disconnect
def Alive (ps : List (Int × Int)) (sv : Server cfg) : Prop :=
  ∀ p ∈ ps, ∀ c ∈ sv.clients.values, c.personalId = p.2 → c.initState ≠ disconnectState

section Table

variable {sv : Server cfg} {clId : Int} {cl : ClientData}

theorem mem_pairs (h : sv.getClientRef clId = some cl) : (cl.fd, clId) ∈ sv.pairs := by
  rw [Server.pairs_eq, List.mem_map]
  exact ⟨cl, getClientRef_mem h, by rw [getClientRef_id h]⟩

theorem mem_ids (h : sv.getClientRef clId = some cl) : clId ∈ sv.ids :=
  List.mem_map.mpr ⟨_, mem_pairs h, rfl⟩

theorem eq_of_id (hn : sv.ids.Nodup) {c d : ClientData} (hc : c ∈ sv.clients.values)
    (hd : d ∈ sv.clients.values) (h : c.personalId = d.personalId) : c = d := by
  rw [Server.ids_eq, Server.getConnectedIDs] at hn
  exact List.inj_on_of_nodup_map hn hc hd h

theorem getClientRef_of_mem (hn : sv.ids.Nodup) (hc : cl ∈ sv.clients.values) :
    sv.getClientRef cl.personalId = some cl := by
  rw [Server.getClientRef, Slots.values_find?]
  cases hf : sv.clients.values.find? (Server.hasId cl.personalId) with
  | none => simpa [Server.hasId] using List.find?_eq_none.mp hf cl hc
  | some d =>
    have hd := List.mem_of_find?_eq_some hf
    have hid : d.personalId = cl.personalId := by simpa [Server.hasId] using List.find?_some hf
    rw [eq_of_id hn hd hc hid]

theorem getClientRef_of_pair (hn : sv.ids.Nodup) {p : Int × Int} (hp : p ∈ sv.pairs) :
    ∃ cl, sv.getClientRef p.2 = some cl ∧ cl.fd = p.1 := by
  rw [Server.pairs_eq, List.mem_map] at hp
  obtain ⟨cl, hc, rfl⟩ := hp
  exact ⟨cl, getClientRef_of_mem hn hc, rfl⟩

theorem getClientRef_none (h : clId ∉ sv.ids) : sv.getClientRef clId = none := by
  cases hc : sv.getClientRef clId with
  | none => rfl
  | some cl => exact absurd (mem_ids hc) h

theorem mem_modifyClient_nodup {c : ClientData} {f : ClientData → ClientData}
    (hn : sv.ids.Nodup) (hcl : sv.getClientRef clId = some cl)
    (hc : c ∈ (sv.modifyClient clId f).clients.values) :
    c = f cl ∨ c ∈ sv.clients.values ∧ c.personalId ≠ clId := by
  have hp : sv.clients.values.Pairwise
      fun a b => ¬ (Server.hasId clId a = true ∧ Server.hasId clId b = true) := by
    rw [Server.ids_eq, Server.getConnectedIDs, List.Nodup, List.pairwise_map] at hn
    refine hn.imp fun {a b} hne hab => hne ?_
    simp only [Server.hasId, beq_iff_eq] at hab
    rw [hab.1, hab.2]
  rw [Server.modifyClient, Slots.values_modify f hp] at hc
  obtain ⟨d, hd, rfl⟩ := List.mem_map.mp hc
  by_cases hid : d.personalId = clId
  · have : d = cl := eq_of_id hn hd (getClientRef_mem hcl) (hid.trans (getClientRef_id hcl).symm)
    left
    rw [if_pos (by simpa [Server.hasId] using hid), this]
  · right
    simp [Server.hasId, hid, hd]

end Table

section Changes

variable {held : List (Int × Int)} {accepts : List (Nat × Int × Int)} {ups : List ServerMessage}
variable {s t : Shared cfg}

-- the invariant reads the descriptors and the ids of the table, the names, and the two queues
theorem Owned.congr (h : Owned held accepts ups s) (hsock : t.sv.svSocket = s.sv.svSocket)
    (hid : t.sv.clientDataId = s.sv.clientDataId) (hpairs : t.sv.pairs = s.sv.pairs)
    (hnames : NamesClean t.sv) (hdown : t.mgr.qListenerToWorker = s.mgr.qListenerToWorker)
    (hup : t.mgr.qWorkerToListener = s.mgr.qWorkerToListener) : Owned held accepts ups t := by
  have hids : t.sv.ids = s.sv.ids := by rw [Server.ids, Server.ids, hpairs]
  constructor
  · rw [hsock]
    exact h.socket
  · rw [hids]
    exact h.nodup
  · rw [hpairs, hid]
    exact h.range
  · rw [hid]
    exact h.counter
  · exact hnames
  · rw [hdown]
    exact h.downQueue
  · exact h.indexes
  · rw [hup]
    exact h.upQueue
  · exact h.upsOk
  · rw [hpairs]
    exact h.known
  · rw [hids]
    exact h.holders

theorem Owned.perm {held' : List (Int × Int)} (h : Owned held accepts ups s)
    (hp : held.Perm held') : Owned held' accepts ups s where
  socket := h.socket
  nodup := h.nodup
  range := h.range
  counter := h.counter
  names := h.names
  downQueue := h.downQueue
  indexes := h.indexes
  upQueue := h.upQueue
  upsOk := h.upsOk
  known := fun p hm => h.known p (by
    rw [List.mem_append, hp.mem_iff, ← List.mem_append]
    exact hm)
  holders := fun clId h0 => by
    rw [← (hp.map Prod.snd).count_eq]
    exact h.holders clId h0

theorem Owned.pushUp {m : ServerMessage} (h : Owned held accepts ups s) (hm : m.Clean)
    (hok : UpOk cfg m) (hgone : goneId m = none) (fd : Int) :
    Owned held accepts (ups ++ [m]) (s.pushUp fd m) where
  socket := h.socket
  nodup := h.nodup
  range := h.range
  counter := h.counter
  names := h.names
  downQueue := h.downQueue
  indexes := h.indexes
  upQueue := by
    have := h.upQueue
    simp [Shared.pushUp, Shared.pushWorkerToListener, this]
  upsOk := by
    intro x hx
    rcases List.mem_append.mp hx with hx | hx
    · exact h.upsOk x hx
    · rw [List.mem_singleton.mp hx]
      exact ⟨hm, hok⟩
  known := h.known
  holders := fun clId h0 => by
    rw [List.filterMap_append, List.filterMap_cons_none hgone]
    simpa using h.holders clId h0

theorem Owned.modifyClient {clId : Int} {f : ClientData → ClientData}
    (h : Owned held accepts ups s) (hf : ∀ c, (f c).fd = c.fd ∧ (f c).personalId = c.personalId)
    (hn : ∀ c, splitToken ∉ c.name → splitToken ∉ (f c).name) :
    Owned held accepts ups (s.modifyClient clId f) :=
  h.congr rfl rfl (Server.pairs_modifyClient hf _ _) (namesClean_modifyClient h.names hn) rfl rfl

theorem Owned.sendDone {clId : Int} {msg : Str} (h : Owned held accepts ups s) :
    Owned held accepts ups (s.sendDone clId msg) := by
  refine h.congr ?_ ?_ ?_ ?_ ?_ ?_
  all_goals simp only [Shared.sendDone_sv, Shared.sendDone_mgr]
  exact h.names

theorem goneId_of_ne {m : ServerMessage} (h : m.action ≠ getAction .clDisconnected) :
    goneId m = none := if_neg h

theorem upOk_of_ne {m : ServerMessage} (h : m.action ≠ getAction .clDisconnected)
    (h' : m.action ≠ getAction .initDone) : UpOk cfg m :=
  ⟨fun e => absurd e h, fun e => absurd e h'⟩

-- the client leaves its worker's list and the message that says so takes its place
theorem Owned.pushGone {m : ServerMessage} {client : Int × Int} {cl : ClientData} {i : Nat}
    (h : Owned (client :: held) accepts ups s) (hm : m.Clean)
    (hcl : s.sv.getClientRef client.2 = some cl) (hi : i < cfg.maxNrOfThreads) (fd : Int) :
    Owned held accepts (ups ++ [goneMsg m i client.2 cl])
      (s.pushUp fd (goneMsg m i client.2 cl)) := by
  have hr := h.range _ (mem_pairs hcl)
  have hmax := h.counter
  have hgone : goneId (goneMsg m i client.2 cl) = some client.2 := by
    have hst : stoi (Decimal.toString client.2) = .ok client.2 :=
      stoi_toString (by simp only [Decimal.InRange, Decimal.intMin, Decimal.intMax] at *; omega)
    simp [goneId, goneMsg, hst, Except.toOption]
  constructor
  · exact h.socket
  · exact h.nodup
  · exact h.range
  · exact h.counter
  · exact h.names
  · exact h.downQueue
  · exact h.indexes
  · have := h.upQueue
    simp [Shared.pushUp, Shared.pushWorkerToListener, this]
  · intro x hx
    rcases List.mem_append.mp hx with hx | hx
    · exact h.upsOk x hx
    · rw [List.mem_singleton.mp hx]
      refine ⟨goneMsg_clean hm (h.names cl (getClientRef_mem hcl)) i client.2, fun _ => ?_, ?_⟩
      · exact ⟨i, client.2, hi, hr.2.1, by omega, rfl, rfl⟩
      · intro e
        simp [goneMsg] at e
  · exact fun p hp => h.known p (List.mem_cons_of_mem _ hp)
  · intro clId h0
    have := h.holders clId h0
    rw [List.filterMap_append, List.count_append]
    simp only [List.map_cons, List.count_cons, List.filterMap_cons, hgone, List.filterMap_nil,
      List.count_nil, Shared.pushUp_sv] at this ⊢
    omega

end Changes

section Worker

variable {held : List (Int × Int)} {accepts : List (Nat × Int × Int)} {ups : List ServerMessage}
variable {s t : Shared cfg} {listenerEvfd clId : Int}

theorem Serve.owned (hs : Serve listenerEvfd clId s t) (h : Owned held accepts ups s) :
    ∃ ups', Owned held accepts ups' t := by
  cases hs with
  | mark _ => exact ⟨ups, h.modifyClient (fun _ => ⟨rfl, rfl⟩) fun _ h => h⟩
  | named _ _ hname => exact ⟨ups, h.modifyClient (fun _ => ⟨rfl, rfl⟩) fun _ _ => hname⟩
  | replied _ _ _ =>
    refine ⟨ups, Owned.sendDone (h.modifyClient ?_ ?_)⟩
    · exact fun _ => ⟨rfl, rfl⟩
    · exact fun _ h => h
  | @greeted cl m hcl _ hm =>
    have hr := h.range _ (mem_pairs hcl)
    have hmax := h.counter
    have hname := h.names cl (getClientRef_mem hcl)
    have hs : Owned held accepts ups ((s.modifyClient clId ClientData.incState).sendDone clId
        (helloMsg m cl).getConcatenatedMsg) := by
      refine Owned.sendDone (h.modifyClient ?_ ?_)
      · exact fun _ => ⟨rfl, rfl⟩
      · exact fun _ h => h
    refine ⟨_, hs.pushUp (joinedMsg_clean (helloMsg_clean hm hname) hname) ⟨?_, ?_⟩ ?_ _⟩
    · intro e
      simp [joinedMsg] at e
    · intro _
      rw [← getClientRef_id hcl] at hr
      exact ⟨cl.personalId, hr.2.1, by omega, rfl⟩
    · exact goneId_of_ne (by simp [joinedMsg])
  | @relayed cl m _ _ ha hm =>
    refine ⟨ups ++ [m], h.pushUp hm (upOk_of_ne ?_ ?_) (goneId_of_ne ?_) _⟩
    all_goals simp [ha]
  | flushed _ _ _ =>
    refine ⟨ups, Owned.sendDone (h.modifyClient ?_ ?_)⟩
    · exact fun _ => ⟨rfl, rfl⟩
    · exact fun _ h => h

theorem owned_of_serves {clients : List (Int × Int)}
    (hs : ReflTransGen (ServeAny listenerEvfd clients) s t) (h : Owned held accepts ups s) :
    ∃ ups', Owned held accepts ups' t := by
  induction hs with
  | refl => exact ⟨ups, h⟩
  | tail _ hs ih =>
    obtain ⟨_, hu⟩ := ih
    obtain ⟨_, _, hs⟩ := hs
    exact hs.owned hu

theorem Removed.owned {i : Nat} {clients kept : List (Int × Int)}
    (hr : Removed i listenerEvfd clients s kept t) (hi : i < cfg.maxNrOfThreads)
    (h : Owned (clients ++ held) accepts ups s) :
    ∃ ups', Owned (kept ++ held) accepts ups' t := by
  induction hr generalizing held ups with
  | nil => exact ⟨ups, h⟩
  | @keep client rest kept s t cl _ _ _ ih =>
    have hp : (client :: rest ++ held).Perm (rest ++ client :: held) :=
      List.perm_middle.symm
    obtain ⟨ups', h'⟩ := ih (h.perm hp)
    exact ⟨ups', h'.perm List.perm_middle⟩
  | drop hcl _ hm _ ih => exact ih (h.pushGone hm hcl hi _)

-- what worker_process_listener_to_worker_q does with the queued ACCEPTs
inductive Polled (personalIndex : Nat) :
    List (Nat × Int × Int) → List (Nat × Int × Int) → QueueAction → Prop
  | idle {accepts : List (Nat × Int × Int)} {q : QueueAction} (hq : taken q = []) :
    Polled personalIndex accepts accepts q
  | discarded {a : Nat × Int × Int} {rest : List (Nat × Int × Int)} {q : QueueAction}
    (ha : a.1 ≠ personalIndex) (hq : taken q = []) : Polled personalIndex (a :: rest) rest q
  | took {a : Nat × Int × Int} {rest : List (Nat × Int × Int)} {q : QueueAction}
    (ha : a.1 = personalIndex) (hfd : 0 ≤ a.2.1) (hq : taken q = [a.2]) :
    Polled personalIndex (a :: rest) rest q

def Shared.popped (s : Shared cfg) (accepts : List (Nat × Int × Int)) (evfd : Int → Nat) :
    Shared cfg :=
  { s with
    mgr := { s.mgr with qListenerToWorker := acceptTexts accepts }
    kernel := { s.kernel with evfd := evfd } }

theorem Owned.inRange (h : Owned held accepts ups s) {p : Int × Int}
    (hp : p ∈ held ++ accepts.map Prod.snd) : Decimal.InRange p.1 ∧ Decimal.InRange p.2 := by
  have hc := h.counter
  simp only [Decimal.InRange, Decimal.intMin, Decimal.intMax] at hc ⊢
  rcases h.known p hp with rfl | hp
  · decide
  · have hr := h.range p hp
    simp only [Decimal.intMax] at hr
    omega

theorem pollQueue_polled {ev : Events} {l : Launch} {q : QueueAction}
    (h : Owned held accepts ups s) (hq : pollQueue ev l s = .ok q t) :
    ∃ accepts' evfd, Polled l.personalIndex accepts accepts' q ∧ t = s.popped accepts' evfd := by
  have hsame : s = s.popped accepts s.kernel.evfd := by
    rw [Shared.popped, ← h.downQueue]
  obtain ⟨poll, u, hu, h₁⟩ := bind_ok hq
  obtain ⟨rfl, _, _⟩ := checkEvent_ok hu
  split_ifs at h₁
  · rw [workerProcessListenerToWorkerQ_eq] at h₁
    split_ifs at h₁
    · cases h₁
      exact ⟨_, _, .idle rfl, hsame⟩
    · have hdown := h.downQueue
      cases accepts with
      | nil =>
        simp only [acceptTexts, List.map_nil] at hdown
        rw [hdown] at h₁
        cases h₁
        exact ⟨[], _, .idle rfl, by rw [Shared.popped, acceptTexts, List.map_nil, ← hdown]; rfl⟩
      | cons a rest =>
        simp only [acceptTexts, List.map_cons] at hdown
        rw [hdown] at h₁
        obtain ⟨hfd, hid⟩ := h.inRange (p := a.2) (by simp)
        simp only [Routing.text, processQueued_accept hfd hid] at h₁
        refine ⟨rest, fun x => if x = l.personalEvfd then 0 else u.kernel.evfd x, ?_⟩
        split_ifs at h₁ with hi hneg
        · cases h₁
          exact ⟨.took hi (by omega) rfl, rfl⟩
        · cases h₁
          exact ⟨.discarded hi rfl, rfl⟩
  · cases h₁
    exact ⟨_, _, .idle rfl, hsame⟩

theorem Polled.suffix {personalIndex : Nat} {accepts' : List (Nat × Int × Int)} {q : QueueAction}
    (hp : Polled personalIndex accepts accepts' q) : accepts' <:+ accepts := by
  cases hp with
  | idle _ => exact List.suffix_rfl
  | discarded _ _ => exact List.suffix_cons _ _
  | took _ _ _ => exact List.suffix_cons _ _

theorem Polled.mem {personalIndex : Nat} {accepts' : List (Nat × Int × Int)} {q : QueueAction}
    (hp : Polled personalIndex accepts accepts' q) {p : Int × Int}
    (hm : p ∈ taken q ++ (held ++ accepts'.map Prod.snd)) : p ∈ held ++ accepts.map Prod.snd := by
  cases hp with
  | idle hq => simpa [hq] using hm
  | discarded _ hq =>
    rw [hq] at hm
    simp only [List.nil_append, List.mem_append, List.map_cons, List.mem_cons] at hm ⊢
    exact hm.imp_right .inr
  | took _ _ hq =>
    rw [hq] at hm
    simp only [List.cons_append, List.nil_append, List.mem_append, List.map_cons,
      List.mem_cons] at hm ⊢
    tauto

theorem Owned.poll {personalIndex : Nat} {accepts' : List (Nat × Int × Int)} {q : QueueAction}
    {evfd : Int → Nat} (h : Owned held accepts ups s)
    (hp : Polled personalIndex accepts accepts' q) :
    Owned (taken q ++ held) accepts' ups (s.popped accepts' evfd) := by
  refine ⟨h.socket, h.nodup, h.range, h.counter, h.names, rfl, ?_, h.upQueue, h.upsOk, ?_, ?_⟩
  · cases hp with
    | idle _ => exact h.indexes
    | discarded _ _ => exact fun a ha => h.indexes a (List.mem_cons_of_mem _ ha)
    | took _ _ _ => exact fun a ha => h.indexes a (List.mem_cons_of_mem _ ha)
  · intro p hm
    rw [List.append_assoc] at hm
    exact h.known p (hp.mem hm)
  · intro clId h0
    have hh := h.holders clId h0
    change _ ≤ s.sv.ids.count clId
    cases hp with
    | idle hq => simpa [hq] using hh
    | discarded _ hq =>
      rw [hq]
      simp only [List.map_cons, List.count_cons, List.nil_append] at hh ⊢
      omega
    | took _ _ hq =>
      rw [hq]
      simp only [List.map_cons, List.count_cons, List.cons_append, List.nil_append] at hh ⊢
      omega

theorem Removed.sv {i : Nat} {clients kept : List (Int × Int)}
    (hr : Removed i listenerEvfd clients s kept t) : t.sv = s.sv := by
  induction hr with
  | nil => rfl
  | keep _ _ _ ih => exact ih
  | drop _ _ _ _ ih => exact ih

theorem Removed.kept_alive {i : Nat} {clients kept : List (Int × Int)}
    (hr : Removed i listenerEvfd clients s kept t) (hn : s.sv.ids.Nodup) : Alive kept t.sv := by
  induction hr with
  | nil => exact fun p hp => absurd hp List.not_mem_nil
  | @keep client rest kept s t cl hcl hs hr ih =>
    intro p hp c hc hid
    rcases List.mem_cons.mp hp with rfl | hp
    · rw [hr.sv] at hc
      rw [← getClientRef_id hcl] at hid
      rw [eq_of_id hn hc (getClientRef_mem hcl) hid]
      exact hs
    · exact ih hn p hp c hc hid
  | drop _ _ _ _ ih => exact ih hn

theorem Serve.mem_other (hs : Serve listenerEvfd clId s t) {c : ClientData}
    (hc : c ∈ t.sv.clients.values) (hne : c.personalId ≠ clId) : c ∈ s.sv.clients.values := by
  have back {f : ClientData → ClientData} (hc : c ∈ (s.modifyClient clId f).sv.clients.values)
      (hf : ∀ d, (f d).personalId = d.personalId) : c ∈ s.sv.clients.values := by
    rcases mem_modifyClient hc with hc | ⟨d, _, hd, rfl⟩
    · exact hc
    · exact absurd ((hf d).trans hd) hne
  cases hs with
  | mark _ => exact back hc fun _ => rfl
  | named _ _ _ => exact back hc fun _ => rfl
  | replied _ _ _ =>
    rw [Shared.sendDone_sv] at hc
    exact back hc fun _ => rfl
  | greeted _ _ _ =>
    rw [Shared.pushUp_sv, Shared.sendDone_sv] at hc
    exact back hc fun _ => rfl
  | relayed _ _ _ _ => exact hc
  | flushed _ _ _ =>
    rw [Shared.sendDone_sv] at hc
    exact back hc fun _ => rfl

theorem serves_mem_other {clients : List (Int × Int)}
    (hs : ReflTransGen (ServeAny listenerEvfd clients) s t) {c : ClientData}
    (hc : c ∈ t.sv.clients.values) (hne : c.personalId ∉ clients.map Prod.snd) :
    c ∈ s.sv.clients.values := by
  induction hs with
  | refl => exact hc
  | tail _ hs ih =>
    obtain ⟨client, hmem, hs⟩ := hs
    refine ih (hs.mem_other hc fun e => hne ?_)
    rw [e]
    exact List.mem_map_of_mem hmem

theorem Serve.pairs (hs : Serve listenerEvfd clId s t) : t.sv.pairs = s.sv.pairs := by
  have fields {f : ClientData → ClientData}
      (hf : ∀ c, (f c).fd = c.fd ∧ (f c).personalId = c.personalId) :
      (s.sv.modifyClient clId f).pairs = s.sv.pairs := Server.pairs_modifyClient hf _ _
  cases hs with
  | mark _ => exact fields fun _ => ⟨rfl, rfl⟩
  | named _ _ _ => exact fields fun _ => ⟨rfl, rfl⟩
  | replied _ _ _ =>
    rw [Shared.sendDone_sv]
    exact fields fun _ => ⟨rfl, rfl⟩
  | greeted _ _ _ =>
    rw [Shared.pushUp_sv, Shared.sendDone_sv]
    exact fields fun _ => ⟨rfl, rfl⟩
  | relayed _ _ _ _ => rfl
  | flushed _ _ _ =>
    rw [Shared.sendDone_sv]
    exact fields fun _ => ⟨rfl, rfl⟩

theorem servesAny_pairs {clients : List (Int × Int)}
    (hs : ReflTransGen (ServeAny listenerEvfd clients) s t) :
    t.sv.pairs = s.sv.pairs := by
  induction hs with
  | refl => rfl
  | tail _ hs ih =>
    obtain ⟨_, _, hs⟩ := hs
    exact hs.pairs.trans ih

variable {ev : Events} {l : Launch} {w w' : WorkerState} {q : QueueAction}
variable {s₁ s₂ : Shared cfg} {kept : List (Int × Int)}

theorem Iterated.owned (hit : Iterated ev l w s w' t q s₁ s₂ kept)
    (hi : l.personalIndex < cfg.maxNrOfThreads)
    (h : Owned (w.clients ++ held) accepts ups s) :
    ∃ accepts' ups', Polled l.personalIndex accepts accepts' q ∧
      Owned (w'.clients ++ held) accepts' ups' t := by
  obtain ⟨accepts', evfd, hp, rfl⟩ := pollQueue_polled h hit.polled
  obtain ⟨ups₁, h₁⟩ := owned_of_serves hit.served (h.poll hp)
  have hperm : (taken q ++ (w.clients ++ held)).Perm (w.clients ++ (taken q ++ held)) := by
    rw [← List.append_assoc, ← List.append_assoc]
    exact List.perm_append_comm.append_right _
  obtain ⟨ups₂, h₂⟩ := hit.removed.owned hi (h₁.perm hperm)
  refine ⟨accepts', ups₂, hp, ?_⟩
  rwa [hit.clients, List.append_assoc]

theorem Iterated.alive (hit : Iterated ev l w s w' t q s₁ s₂ kept)
    (h : Owned (w.clients ++ held) accepts ups s) {accepts' : List (Nat × Int × Int)}
    (hp : Polled l.personalIndex accepts accepts' q)
    (ha : Alive (held ++ accepts.map Prod.snd) s.sv) :
    Alive (w'.clients ++ (held ++ accepts'.map Prod.snd)) t.sv := by
  obtain ⟨_, evfd, hp₁, rfl⟩ := pollQueue_polled h hit.polled
  obtain ⟨_, h₁⟩ := owned_of_serves hit.served (h.poll hp₁)
  have hsv := hit.removed.sv
  -- whoever is not in the worker's list keeps its entry through the iteration
  have others : Alive (held ++ accepts.map Prod.snd) t.sv := by
    intro p hm c hc hid
    rw [hsv] at hc
    have h0 : 0 ≤ c.personalId := by
      refine (h₁.range (c.fd, c.personalId) ?_).2.1
      rw [Server.pairs_eq]
      exact List.mem_map_of_mem hc
    have hnot : c.personalId ∉ w.clients.map Prod.snd := by
      intro hw
      have hle := (List.nodup_iff_count_le_one.mp h.nodup c.personalId)
      have hh := h.holders c.personalId h0
      have hcl := List.count_pos_iff.mpr hw
      rw [List.map_append, List.count_append] at hh
      rcases List.mem_append.mp hm with hm | hm
      · have := List.count_pos_iff.mpr (List.mem_map_of_mem (f := Prod.snd) hm)
        rw [← hid] at this
        omega
      · obtain ⟨a, hmem, rfl⟩ := List.mem_map.mp hm
        have := List.count_pos_iff.mpr (List.mem_map_of_mem (f := fun a : Nat × Int × Int => a.2.2)
          hmem)
        rw [← hid] at this
        omega
    exact ha p hm c (serves_mem_other hit.served hc hnot) hid
  rw [hit.clients]
  intro p hm
  rcases List.mem_append.mp hm with hm | hm
  · rcases List.mem_append.mp hm with hm | hm
    · exact hit.removed.kept_alive h₁.nodup p hm
    · exact others p (hp.mem (List.mem_append_left _ hm))
  · exact others p (hp.mem (List.mem_append_right _ hm))

end Worker

end ChatApp
