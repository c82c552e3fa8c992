import ChatApp.ListenerFrames
import ChatApp.Ownership

namespace ChatApp

open Effects

variable {cfg : Config}

def ClientData.enqueue (msg : Str) (c : ClientData) : ClientData :=
  { c with sendQueue := c.sendQueue ++ [msg] }

namespace Server

def pushAll (sv : Server cfg) (exceptedId : Int) (msg : Str) : List Int → Server cfg
  | [] => sv
  | clId :: ids =>
    if exceptedId = clId then sv.pushAll exceptedId msg ids
    else (sv.modifyClient clId (ClientData.enqueue msg)).pushAll exceptedId msg ids

def dropClient (sv : Server cfg) (clId fd : Int) : Server cfg :=
  { sv with
    closed := sv.closed ++ [fd]
    nrOfConnections := sv.nrOfConnections - 1
    clients := sv.clients.clear (hasId clId) }

theorem roster_enqueue (sv : Server cfg) (clId : Int) (msg : Str) :
    (sv.modifyClient clId (ClientData.enqueue msg)).roster = sv.roster := by
  refine Slots.map_values_modify ?_ _ _
  exact fun _ => rfl

theorem pushAll_frame (sv : Server cfg) (exceptedId : Int) (msg : Str) (ids : List Int) :
    (sv.pushAll exceptedId msg ids).svSocket = sv.svSocket ∧
      (sv.pushAll exceptedId msg ids).clientDataId = sv.clientDataId ∧
      (sv.pushAll exceptedId msg ids).done = sv.done ∧
      (sv.pushAll exceptedId msg ids).roster = sv.roster := by
  induction ids generalizing sv with
  | nil => exact ⟨rfl, rfl, rfl, rfl⟩
  | cons clId ids ih =>
    rw [pushAll]
    split_ifs
    · exact ih sv
    · obtain ⟨h1, h2, h3, h4⟩ := ih (sv.modifyClient clId (ClientData.enqueue msg))
      exact ⟨h1, h2, h3, h4.trans (roster_enqueue sv clId msg)⟩

theorem getConnectedIDs_pushAll (sv : Server cfg) (exceptedId : Int) (msg : Str) (ids : List Int) :
    (sv.pushAll exceptedId msg ids).getConnectedIDs = sv.getConnectedIDs := by
  rw [← ids_eq, ← ids_eq, Server.ids, Server.pairs, (pushAll_frame sv exceptedId msg ids).2.2.2,
    Server.ids, Server.pairs]

theorem modifyClient_missing {sv : Server cfg} {clId : Int} (h : sv.getClientRef clId = none)
    (f : ClientData → ClientData) : sv.modifyClient clId f = sv := by
  rw [modifyClient, Slots.modify_missing h]

end Server

theorem ClientData.enqueue_personalId (msg : Str) (c : ClientData) :
    (c.enqueue msg).personalId = c.personalId := rfl

theorem getClientRef_pushAll {sv : Server cfg} {exceptedId : Int} {msg : Str} {ids : List Int}
    {clId : Int} {c : ClientData} (hids : ids.Nodup)
    (hc : sv.getClientRef clId = some c) :
    (sv.pushAll exceptedId msg ids).getClientRef clId =
      some (if exceptedId = clId ∨ clId ∉ ids then c else c.enqueue msg) := by
  induction ids generalizing sv c with
  | nil => simpa [Server.pushAll] using hc
  | cons x ids ih =>
    obtain ⟨hnot, htail⟩ := List.nodup_cons.mp hids
    by_cases he : exceptedId = x
    · rw [Server.pushAll, if_pos he, ih htail hc]
      congr 1
      refine if_congr ?_ rfl rfl
      rw [List.mem_cons, not_or, he, eq_comm]
      tauto
    · rw [Server.pushAll, if_neg he]
      by_cases hx : clId = x
      · subst hx
        have hc' := getClientRef_modifyClient hc (ClientData.enqueue_personalId msg)
        rw [ih htail hc']
        simp [hnot, he]
      · have hc' : (sv.modifyClient x (ClientData.enqueue msg)).getClientRef clId = some c :=
          (getClientRef_modifyClient_other hx (ClientData.enqueue_personalId msg)).trans hc
        rw [ih htail hc']
        simp [hx]

section Unicast

variable {s t : Shared cfg} {exceptedId : Int} {msg : Str} {ids : List Int}

theorem pushToClient_eq {clId : Int} {c : ClientData} (h : s.sv.getClientRef clId = some c) :
    pushToClient clId msg s =
      if cfg.hasRoom c.sendQueue then
        .ok true (s.modifyClient clId (ClientData.enqueue msg))
      else .ok false s := by
  simp only [pushToClient, get_bind_run, h]
  split_ifs <;> rfl

theorem unicastLoop_ok (h : unicastLoop exceptedId msg ids s = .ok () t) :
    t = { s with sv := s.sv.pushAll exceptedId msg ids } := by
  induction ids generalizing s with
  | nil =>
    cases h
    rfl
  | cons clId ids ih =>
    rw [unicastLoop] at h
    rw [Server.pushAll]
    split_ifs at h ⊢ with he
    · exact ih h
    · simp only [get_bind_run] at h
      cases hc : s.sv.getClientRef clId with
      | none =>
        rw [hc] at h
        rw [Server.modifyClient_missing hc]
        exact ih h
      | some c =>
        simp only [hc, Option.isNone_some, Bool.false_eq_true, if_false] at h
        obtain ⟨pushed, u, hu, h₁⟩ := bind_ok h
        rw [pushToClient_eq hc] at hu
        split_ifs at hu
        · cases hu
          exact ih h₁
        · cases hu
          cases h₁

-- a push finds room in the queue of everyone the message is for
def RoomFor (sv : Server cfg) (exceptedId : Int) (ids : List Int) : Prop :=
  ∀ clId ∈ ids, clId ≠ exceptedId → ∀ c, sv.getClientRef clId = some c →
    cfg.hasRoom c.sendQueue = true

theorem roomFor_tail {clId : Int} (h : RoomFor s.sv exceptedId (clId :: ids)) :
    RoomFor s.sv exceptedId ids := fun x hx => h x (List.mem_cons_of_mem _ hx)

theorem roomFor_enqueue {clId : Int} (hnot : clId ∉ ids) :
    RoomFor (s.sv.modifyClient clId (ClientData.enqueue msg)) exceptedId ids ↔
      RoomFor s.sv exceptedId ids := by
  have same : ∀ x ∈ ids, (s.sv.modifyClient clId (ClientData.enqueue msg)).getClientRef x =
      s.sv.getClientRef x := fun x hx =>
    getClientRef_modifyClient_other (ne_of_mem_of_not_mem hx hnot) fun _ => rfl
  constructor
  · intro h x hx hne c hc
    exact h x hx hne c ((same x hx).trans hc)
  · intro h x hx hne c hc
    exact h x hx hne c ((same x hx).symm.trans hc)

-- the loop goes through exactly when every queue it pushes to has room
theorem unicastLoop_ok_iff (hn : ids.Nodup) :
    (∃ t, unicastLoop exceptedId msg ids s = .ok () t) ↔ RoomFor s.sv exceptedId ids := by
  induction ids generalizing s with
  | nil => exact iff_of_true ⟨s, rfl⟩ fun _ hx => absurd hx List.not_mem_nil
  | cons clId ids ih =>
    obtain ⟨hnot, hn⟩ := List.nodup_cons.mp hn
    rw [unicastLoop]
    split_ifs with he
    · refine (ih hn).trans ⟨fun h x hx hne => ?_, roomFor_tail⟩
      rcases List.mem_cons.mp hx with rfl | hx
      · exact absurd he.symm hne
      · exact h x hx hne
    · simp only [get_bind_run]
      cases hc : s.sv.getClientRef clId with
      | none =>
        simp only [Option.isNone_none, if_true]
        refine (ih hn).trans ⟨fun h x hx hne c hx' => ?_, roomFor_tail⟩
        rcases List.mem_cons.mp hx with rfl | hx
        · rw [hc] at hx'
          cases hx'
        · exact h x hx hne c hx'
      | some c =>
        simp only [Option.isNone_some, Bool.false_eq_true, if_false]
        by_cases hr : cfg.hasRoom c.sendQueue = true
        · rw [bind_of_ok (by rw [pushToClient_eq hc, if_pos hr])]
          simp only [Bool.not_true, Bool.false_eq_true, if_false]
          refine ((ih hn).trans (roomFor_enqueue hnot)).trans
            ⟨fun h x hx hne d hd => ?_, roomFor_tail⟩
          rcases List.mem_cons.mp hx with rfl | hx
          · rw [hc] at hd
            cases hd
            exact hr
          · exact h x hx hne d hd
        · rw [bind_of_ok (by rw [pushToClient_eq hc, if_neg hr])]
          refine iff_of_false (fun h => ?_) fun h => ?_
          · obtain ⟨t, ht⟩ := h
            cases ht
          · exact hr (h clId List.mem_cons_self (Ne.symm he) c hc)

def Shared.broadcast (s : Shared cfg) (exceptedId : Int) (msg : Str) (ids : List Int) :
    Shared cfg :=
  { s with
    sv := s.sv.pushAll exceptedId msg ids
    hist := { s.hist with broadcasts := s.hist.broadcasts ++ [(exceptedId, msg)] } }

theorem unicastRepeated_ok_iff (hn : ids.Nodup) :
    (∃ t, unicastRepeated exceptedId ids msg s = .ok () t) ↔ RoomFor s.sv exceptedId ids := by
  rw [unicastRepeated]
  exact unicastLoop_ok_iff hn

theorem unicastRepeated_room (exceptedId : Int) (msg : Str) (hn : ids.Nodup)
    (hroom : RoomFor s.sv exceptedId ids) :
    unicastRepeated exceptedId ids msg s = .ok () (s.broadcast exceptedId msg ids) := by
  obtain ⟨t, ht⟩ := (unicastRepeated_ok_iff hn).mpr hroom
  rw [ht, unicastLoop_ok (s := { s with hist := { s.hist with
    broadcasts := s.hist.broadcasts ++ [(exceptedId, msg)] } }) ht]
  rfl

theorem roomFor_of_all {sv : Server cfg}
    (h : ∀ c ∈ sv.clients.values, cfg.hasRoom c.sendQueue = true) (exceptedId : Int)
    (ids : List Int) : RoomFor sv exceptedId ids :=
  fun _ _ _ c hc => h c (getClientRef_mem hc)

end Unicast

-- everything of the shared state but the client's queues, the load balancer and the eventfds
def core (s : Shared cfg) : List Str × List Str × List Launch × Int × Nat × Bool × List Member :=
  (s.mgr.qWorkerToListener, s.mgr.qListenerToWorker, s.kernel.spawned, s.sv.svSocket,
    s.sv.clientDataId, s.sv.done, s.sv.roster)

section Frames

theorem unicastLoop_core (exceptedId : Int) (msg : Str) (ids : List Int) :
    Frame core (unicastLoop exceptedId msg ids : Prog cfg Unit) := by
  induction ids with
  | nil => exact .pure _
  | cons clId ids ih =>
    intro s
    rw [unicastLoop]
    split_ifs
    · exact ih s
    · simp only [get_bind_run]
      cases hc : s.sv.getClientRef clId with
      | none => exact ih s
      | some c =>
        simp only [Option.isNone_some, Bool.false_eq_true, if_false]
        by_cases hr : cfg.hasRoom c.sendQueue = true
        · rw [bind_of_ok (by rw [pushToClient_eq hc, if_pos hr])]
          refine (ih _).trans ?_
          simp only [core, Shared.modifyClient_sv, Shared.modifyClient_mgr,
            Shared.modifyClient_kernel, Server.roster_enqueue]
          rfl
        · rw [bind_of_ok (by rw [pushToClient_eq hc, if_neg hr])]
          rfl

theorem unicastRepeated_core (exceptedId : Int) (ids : List Int) (msg : Str) :
    Frame core (unicastRepeated exceptedId ids msg : Prog cfg Unit) :=
  Frame.bind (.modify fun _ => rfl) fun _ => unicastLoop_core exceptedId msg ids

theorem workerClientDisconnect_core (i : Int) :
    Frame core (workerClientDisconnect i : Prog cfg Unit) :=
  workerClientDisconnect_frame (fun _ _ _ => rfl) i

end Frames

section Disconnect

variable {held : List (Int × Int)} {accepts : List (Nat × Int × Int)} {ups : List ServerMessage}
variable {s t : Shared cfg} {clId : Int}

theorem disconnectClient_run {c : ClientData} (h : s.sv.getClientRef clId = some c) :
    onServer (Server.disconnectClient clId) s =
      .ok () { s with sv := s.sv.dropClient clId c.fd } := by
  refine onServer_ok ?_
  simp only [Server.disconnectClient, get_bind_run, h]
  rfl

theorem values_dropClient (sv : Server cfg) (clId fd : Int) :
    (sv.dropClient clId fd).clients.values = sv.clients.values.eraseP (Server.hasId clId) :=
  Slots.values_clear _ _

theorem ids_dropClient (sv : Server cfg) (clId fd : Int) :
    (sv.dropClient clId fd).ids = sv.ids.erase clId := by
  rw [Server.ids_eq, Server.ids_eq, Server.getConnectedIDs, Server.getConnectedIDs,
    values_dropClient, List.erase_eq_eraseP, List.eraseP_map]
  congr 1
  refine congrFun (congrArg List.eraseP ?_) _
  funext c
  simp [Server.hasId, BEq.comm]

theorem roster_dropClient {sv : Server cfg} {clId fd : Int} {m : Member}
    (h : m ∈ (sv.dropClient clId fd).roster) : m ∈ sv.roster := by
  rw [Server.roster, values_dropClient] at h
  obtain ⟨c, hc, rfl⟩ := List.mem_map.mp h
  exact List.mem_map_of_mem (List.mem_of_mem_eraseP hc)

theorem pairs_dropClient {sv : Server cfg} {clId fd : Int} {p : Int × Int} (h : p ∈ sv.pairs)
    (hne : p.2 ≠ clId) : p ∈ (sv.dropClient clId fd).pairs := by
  rw [Server.pairs_eq] at h
  obtain ⟨c, hc, rfl⟩ := List.mem_map.mp h
  rw [Server.pairs_eq, values_dropClient]
  refine List.mem_map_of_mem ((List.mem_eraseP_of_neg ?_).mpr hc)
  simpa [Server.hasId] using hne

theorem pairs_of_roster {sv sv' : Server cfg} (h : ∀ m ∈ sv'.roster, m ∈ sv.roster)
    {p : Int × Int} (hp : p ∈ sv'.pairs) : p ∈ sv.pairs := by
  obtain ⟨m, hm, rfl⟩ := List.mem_map.mp hp
  exact List.mem_map_of_mem (h m hm)

theorem namesClean_of_roster {sv sv' : Server cfg} (h : ∀ m ∈ sv'.roster, m ∈ sv.roster)
    (hn : NamesClean sv) : NamesClean sv' := by
  intro c hc
  obtain ⟨d, hd, he⟩ := List.mem_map.mp (h c.member (List.mem_map_of_mem hc))
  have : d.name = c.name := congrArg Member.name he
  rw [← this]
  exact hn d hd

theorem alive_of_roster {sv sv' : Server cfg} {ps : List (Int × Int)}
    (h : ∀ m ∈ sv'.roster, m ∈ sv.roster) (ha : Alive ps sv) : Alive ps sv' := by
  intro p hp c hc hid
  obtain ⟨d, hd, he⟩ := List.mem_map.mp (h c.member (List.mem_map_of_mem hc))
  have hid' : d.personalId = c.personalId := congrArg Member.id he
  have hst : d.initState = c.initState := congrArg Member.state he
  rw [← hst]
  exact ha p hp d hd (hid'.trans hid)

-- no one else holds the client a message says is gone
def Due (held : List (Int × Int)) (accepts : List (Nat × Int × Int)) (ups : List ServerMessage)
    (s : Shared cfg) (clId : Int) : Prop :=
  (held.map Prod.snd).count clId + (accepts.map fun a => a.2.2).count clId +
    (ups.filterMap goneId).count clId + 1 ≤ s.sv.ids.count clId

theorem Owned.drop {fd : Int} (h : Owned held accepts ups s) (hdue : Due held accepts ups s clId) :
    Owned held accepts ups { s with sv := s.sv.dropClient clId fd } := by
  have hone := List.nodup_iff_count_le_one.mp h.nodup clId
  have hsub : ∀ m ∈ (s.sv.dropClient clId fd).roster, m ∈ s.sv.roster := fun _ => roster_dropClient
  refine ⟨h.socket, ?_, fun p hp => h.range p (pairs_of_roster hsub hp), h.counter,
    namesClean_of_roster hsub h.names, h.downQueue, h.indexes, h.upQueue, h.upsOk, ?_, ?_⟩
  · change (s.sv.dropClient clId fd).ids.Nodup
    rw [ids_dropClient]
    exact h.nodup.erase clId
  · intro p hp
    refine (h.known p hp).imp id fun hpair => pairs_dropClient hpair fun e => ?_
    unfold Due at hdue
    rcases List.mem_append.mp hp with hp | hp
    · have := List.count_pos_iff.mpr (List.mem_map_of_mem (f := Prod.snd) hp)
      rw [e] at this
      omega
    · obtain ⟨a, ha, rfl⟩ := List.mem_map.mp hp
      have := List.count_pos_iff.mpr (List.mem_map_of_mem (f := fun a : Nat × Int × Int => a.2.2) ha)
      rw [e] at this
      omega
  · intro x hx
    change _ ≤ (s.sv.dropClient clId fd).ids.count x
    rw [ids_dropClient]
    by_cases hxc : x = clId
    · subst hxc
      unfold Due at hdue
      rw [List.count_erase_self]
      omega
    · rw [List.count_erase_of_ne hxc]
      exact h.holders x hx

theorem Owned.of_core (h : Owned held accepts ups s) (hc : core t = core s) :
    Owned held accepts ups t := by
  simp only [core, Prod.mk.injEq] at hc
  obtain ⟨hup, hdown, _, hsock, hid, _, hroster⟩ := hc
  refine h.congr hsock hid ?_ (namesClean_of_roster ?_ h.names) hdown hup
  · rw [Server.pairs, hroster, Server.pairs]
  · rw [hroster]
    exact fun _ hm => hm

theorem Owned.pop {m : ServerMessage} (h : Owned held accepts (m :: ups) s) :
    Owned held accepts ups
      (s.setWorkerToListener (ups.map ServerMessage.getConcatenatedMsg)) where
  socket := h.socket
  nodup := h.nodup
  range := h.range
  counter := h.counter
  names := h.names
  downQueue := h.downQueue
  indexes := h.indexes
  upQueue := rfl
  upsOk := fun x hx => h.upsOk x (List.mem_cons_of_mem _ hx)
  known := h.known
  holders := fun clId h0 => by
    have := h.holders clId h0
    have hle := (List.Sublist.filterMap goneId (List.sublist_cons_self m ups)).count_le clId
    exact le_trans (by omega) this

theorem Owned.due {m : ServerMessage} (h : Owned held accepts (m :: ups) s) (h0 : 0 ≤ clId)
    (hg : goneId m = some clId) : Due held accepts ups s clId := by
  have := h.holders clId h0
  rw [List.filterMap_cons_some hg, List.count_cons_self] at this
  exact this

end Disconnect

section Message

variable {held : List (Int × Int)} {accepts : List (Nat × Int × Int)} {ups : List ServerMessage}
variable {s t : Shared cfg} {clId : Int} {m : ServerMessage}

theorem processMessage_eq (hm : m.Clean) :
    processMessage m.getConcatenatedMsg s =
      if s.sv.getConnectedIDs = [] then .ok () s
      else dispatch m m.getConcatenatedMsg s.sv.getConnectedIDs s := by
  rw [processMessage, ServerMessage.constructFromString_getConcatenatedMsg {} hm,
    bind_of_ok (liftExcept_ok m)]
  simp only [get_bind_run]
  split_ifs <;> rfl

-- processing a message drops the client it says is gone, and nothing else of the table
theorem processMessage_final (h : Owned held accepts ups s) (hm : m.Clean) (hok : UpOk cfg m)
    (hdue : ∀ clId, goneId m = some clId → 0 ≤ clId → Due held accepts ups s clId) :
    ∃ u : Shared cfg, Owned held accepts ups u ∧ (∀ x ∈ u.sv.roster, x ∈ s.sv.roster) ∧
      u.kernel = s.kernel ∧ u.sv.done = s.sv.done ∧
      core (final (processMessage m.getConcatenatedMsg s)) = core u := by
  have same {α : Type} {p : Prog cfg α} (hp : Frame core p) : ∃ u : Shared cfg,
      Owned held accepts ups u ∧ (∀ x ∈ u.sv.roster, x ∈ s.sv.roster) ∧ u.kernel = s.kernel ∧
        u.sv.done = s.sv.done ∧ core (final (p s)) = core u :=
    ⟨s, h, fun _ hx => hx, rfl, rfl, hp s⟩
  rw [processMessage_eq hm]
  split_ifs with hids
  · exact ⟨s, h, fun _ hx => hx, rfl, rfl, rfl⟩
  · unfold dispatch
    split_ifs with hgone hchat hsv hdone
    · obtain ⟨i, clId, hi, h0, hmax, hnum, hid⟩ := hok.1 hgone
      have hst : stoi m.id = .ok clId := by
        rw [hid]
        exact stoi_toString (by simp only [Decimal.InRange, Decimal.intMin] at *; omega)
      have hg : goneId m = some clId := by simp [goneId, hgone, hst, Except.toOption]
      have hd := hdue clId hg h0
      have hmem : clId ∈ s.sv.ids := List.count_pos_iff.mp (by unfold Due at hd; omega)
      obtain ⟨p, hp, rfl⟩ := List.mem_map.mp hmem
      obtain ⟨c, hc, _⟩ := getClientRef_of_pair h.nodup hp
      refine ⟨{ s with sv := s.sv.dropClient p.2 c.fd }, h.drop hd, fun _ => roster_dropClient,
        rfl, rfl, ?_⟩
      rw [processClDisconnected, hst, bind_of_ok (liftExcept_ok p.2),
        bind_of_ok (disconnectClient_run hc)]
      refine Frame.bind (liftExcept_frame core _) (fun i => ?_) _
      refine (workerAt_frame core i).bind fun w => ?_
      split
      · exact .throw _
      · split_ifs
        · exact .throw _
        · refine (liftExcept_frame core _).bind fun _ => (unicastRepeated_core _ _ _).bind fun _ => ?_
          exact (liftExcept_frame core _).bind fun _ => workerClientDisconnect_core _
    · exact same ((liftExcept_frame core _).bind fun _ => unicastRepeated_core _ _ _)
    · exact same (unicastRepeated_core _ _ _)
    · exact same ((liftExcept_frame core _).bind fun _ => unicastRepeated_core _ _ _)
    · exact same (.pure _)

theorem core_setEvfd (s : Shared cfg) (fd : Int) (n : Nat) : core (s.setEvfd fd n) = core s := rfl

theorem listenerProcess_eq (L : Int) (s : Shared cfg) :
    listenerProcessWorkerToListenerQ L s =
      if s.kernel.evfd L = 0 then .ok () s
      else match s.mgr.qWorkerToListener with
        | [] => .ok () (s.setEvfd L 0)
        | msg :: rest => processMessage msg ((s.setEvfd L 0).setWorkerToListener rest) := by
  unfold listenerProcessWorkerToListenerQ
  split_ifs with h
  · rw [bind_of_ok (readEvfd_zero h)]
    rfl
  · rw [bind_of_ok (readEvfd_pos h)]
    simp only [Bool.not_true, Bool.false_eq_true, if_false]
    cases hq : s.mgr.qWorkerToListener with
    | nil =>
      rw [bind_of_ok (tryPopWorkerToListener_nil (s := s.setEvfd L 0) hq)]
      rfl
    | cons msg rest =>
      rw [bind_of_ok (tryPopWorkerToListener_cons (s := s.setEvfd L 0) hq)]

theorem listenerProcess_owned (L : Int) (h : Owned held accepts ups s) :
    ∃ ups', Owned held accepts ups' (final (listenerProcessWorkerToListenerQ L s)) ∧
      (∀ x ∈ (final (listenerProcessWorkerToListenerQ L s)).sv.roster, x ∈ s.sv.roster) ∧
      (final (listenerProcessWorkerToListenerQ L s)).kernel.spawned = s.kernel.spawned := by
  rw [listenerProcess_eq]
  split_ifs
  · exact ⟨ups, h, fun _ hx => hx, rfl⟩
  · have hup := h.upQueue
    cases ups with
    | nil =>
      rw [List.map_nil] at hup
      rw [hup]
      exact ⟨[], h.of_core (core_setEvfd s L 0), fun _ hx => hx, rfl⟩
    | cons m ups =>
      rw [List.map_cons] at hup
      rw [hup]
      obtain ⟨hm, hok⟩ := h.upsOk m List.mem_cons_self
      have hpop := (h.of_core (core_setEvfd s L 0)).pop
      obtain ⟨u, hu, hsub, hk, _, hcore⟩ := processMessage_final hpop hm hok
        fun clId hg h0 => h.due h0 hg
      have hc := hcore
      simp only [core, Prod.mk.injEq] at hc
      refine ⟨ups, hu.of_core hcore, fun x hx => hsub x ?_, ?_⟩
      · rwa [← hc.2.2.2.2.2.2]
      · rw [hc.2.2.1, hk]
        rfl

end Message

end ChatApp
