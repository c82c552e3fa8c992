import ChatApp.ListenerErrors

namespace ChatApp

open Effects Runs

variable {cfg : Config}

section Delivery

variable {s t : Shared cfg} {sv : Server cfg} {exceptedId : Int} {msg : Str} {ids : List Int}

theorem nrOfConnections_pushAll (sv : Server cfg) (exceptedId : Int) (msg : Str) (ids : List Int) :
    (sv.pushAll exceptedId msg ids).nrOfConnections = sv.nrOfConnections := by
  induction ids generalizing sv with
  | nil => rfl
  | cons x ids ih =>
    rw [Server.pushAll]
    split_ifs
    · exact ih sv
    · exact ih _

theorem getClientRef_dropClient {sv : Server cfg} {clId fd x : Int} (hn : sv.ids.Nodup)
    (hne : x ≠ clId) : (sv.dropClient clId fd).getClientRef x = sv.getClientRef x := by
  have hn' : (sv.dropClient clId fd).ids.Nodup := by
    rw [ids_dropClient]
    exact hn.erase clId
  cases hc : sv.getClientRef x with
  | none =>
    refine getClientRef_none fun hx => ?_
    rw [ids_dropClient] at hx
    obtain ⟨p, hp, rfl⟩ := List.mem_map.mp (List.mem_of_mem_erase hx)
    obtain ⟨c, hc', _⟩ := getClientRef_of_pair hn hp
    rw [hc] at hc'
    cases hc'
  | some c =>
    have hid := getClientRef_id hc
    have hmem : c ∈ (sv.dropClient clId fd).clients.values := by
      rw [values_dropClient]
      refine (List.mem_eraseP_of_neg ?_).mpr (getClientRef_mem hc)
      simpa [Server.hasId, hid] using hne
    rw [← hid]
    exact getClientRef_of_mem hn' hmem

theorem roomFor_dropClient {sv : Server cfg} {clId fd : Int} (hn : sv.ids.Nodup) :
    RoomFor (sv.dropClient clId fd) clId ids ↔ RoomFor sv clId ids := by
  constructor
  · intro h x hx hne c hc
    exact h x hx hne c ((getClientRef_dropClient hn hne).trans hc)
  · intro h x hx hne c hc
    exact h x hx hne c ((getClientRef_dropClient hn hne).symm.trans hc)

-- every connected client but the excepted one has room
def OthersHaveRoom (s : Shared cfg) (exceptedId : Int) : Prop :=
  ∀ c ∈ s.sv.clients.values, c.personalId ≠ exceptedId → cfg.hasRoom c.sendQueue = true

theorem roomFor_connected (hn : s.sv.ids.Nodup) :
    RoomFor s.sv exceptedId s.sv.getConnectedIDs ↔ OthersHaveRoom s exceptedId := by
  constructor
  · intro h c hc hne
    exact h _ (List.mem_map_of_mem hc) hne c (getClientRef_of_mem hn hc)
  · intro h x _ hne c hc
    exact h c (getClientRef_mem hc) (by rwa [getClientRef_id hc])

end Delivery

-- what the listener sends to everyone but one for a message, whatever the queues hold
inductive Casts (s : Shared cfg) (m : ServerMessage) (recvMessage : Str) : Int → Str → Prop
  | left {clId : Int} {i : Nat} {w : WorkerEntry} (ha : m.action = getAction .clDisconnected)
    (hid : stoi m.id = .ok clId) (hj : stoi m.threadNumber = .ok (i : Int))
    (hx : s.mgr.workerThreads.entries[i]? = some (some w)) (hpos : 0 < w.count) :
    Casts s m recvMessage clId (leftMsg m).getConcatenatedMsg
  | said {n : Int} (ha : m.action = getAction .unicastRepeated) (hid : stoi m.id = .ok n) :
    Casts s m recvMessage n recvMessage
  | stopped (ha : m.action = getAction .svDisconnected) : Casts s m recvMessage (-1) recvMessage
  | joined {n : Int} (ha : m.action = getAction .initDone) (hid : stoi m.id = .ok n) :
    Casts s m recvMessage n { m with action := getAction .unicastRepeated }.getConcatenatedMsg

theorem Casts.popped {s : Shared cfg} {m : ServerMessage} {recvMessage text : Str}
    {exceptedId : Int} (h : Casts s m recvMessage exceptedId text) (L : Int) (rest : List Str) :
    Casts ((s.setEvfd L 0).setWorkerToListener rest) m recvMessage exceptedId text := by
  cases h with
  | left ha hid hj hx hpos => exact .left ha hid hj hx hpos
  | said ha hid => exact .said ha hid
  | stopped ha => exact .stopped ha
  | joined ha hid => exact .joined ha hid

-- a full queue costs its own client the text and nobody else anything
structure Served (s t : Shared cfg) (m : ServerMessage) (exceptedId : Int) (text : Str) :
    Prop where
  others : ∀ c ∈ s.sv.clients.values, c.personalId ≠ exceptedId →
    t.sv.getClientRef c.personalId =
      some (if cfg.hasRoom c.sendQueue then c.enqueue text else c)
  gone : m.action = getAction .clDisconnected →
    t.sv.getClientRef exceptedId = none ∧
    t.sv.nrOfConnections = s.sv.nrOfConnections - 1 ∧
    ∃ (i : Nat) (w : WorkerEntry), stoi m.threadNumber = .ok (i : Int) ∧
      s.mgr.workerThreads.entries[i]? = some (some w) ∧
      t.mgr.workerThreads = (s.release i w).mgr.workerThreads ∧
      t.mgr.nrOfLaunchedThreads = (s.release i w).mgr.nrOfLaunchedThreads ∧
      t.mgr.maxClientsPerThread = (s.release i w).mgr.maxClientsPerThread
  kept : m.action ≠ getAction .clDisconnected →
    t.sv.getClientRef exceptedId = s.sv.getClientRef exceptedId ∧
    t.mgr.workerThreads = s.mgr.workerThreads

section Process

variable {held : List (Int × Int)} {accepts : List (Nat × Int × Int)} {ups : List ServerMessage}
variable {s t : Shared cfg} {m : ServerMessage} {exceptedId : Int} {text : Str}

theorem served_broadcast (hn : s.sv.ids.Nodup) (hroom : OthersHaveRoom s exceptedId)
    (ha : m.action ≠ getAction .clDisconnected) :
    Served s (s.broadcast exceptedId text s.sv.getConnectedIDs) m exceptedId text := by
  have hids : s.sv.getConnectedIDs.Nodup := Server.ids_eq s.sv ▸ hn
  refine ⟨fun c hc hne => ?_, fun h => absurd h ha, fun _ => ⟨?_, rfl⟩⟩
  · have hmem : c.personalId ∈ s.sv.getConnectedIDs := List.mem_map_of_mem hc
    rw [hroom c hc hne, if_pos rfl]
    refine (getClientRef_pushAll hids (getClientRef_of_mem hn hc)).trans ?_
    simp [hmem, Ne.symm hne]
  · cases hc : s.sv.getClientRef exceptedId with
    | none =>
      refine getClientRef_none ?_
      rw [Server.ids_eq, Shared.broadcast, Server.getConnectedIDs_pushAll, ← Server.ids_eq]
      intro hmem
      obtain ⟨p, hp, rfl⟩ := List.mem_map.mp hmem
      obtain ⟨c, hc', _⟩ := getClientRef_of_pair hn hp
      rw [hc] at hc'
      cases hc'
    | some c =>
      refine (getClientRef_pushAll hids hc).trans ?_
      simp

-- p ends well exactly when the others have room, and has then served them
structure Serves (p : Prog cfg Unit) (s : Shared cfg) (m : ServerMessage) (exceptedId : Int)
    (text : Str) : Prop where
  ends : (∃ t, p s = .ok () t) ↔ OthersHaveRoom s exceptedId
  served : ∀ t, p s = .ok () t → Served s t m exceptedId text

theorem unicastRepeated_serves (hn : s.sv.ids.Nodup) (ha : m.action ≠ getAction .clDisconnected) :
    Serves (unicastRepeated exceptedId s.sv.getConnectedIDs text) s m exceptedId text := by
  have hids : s.sv.getConnectedIDs.Nodup := Server.ids_eq s.sv ▸ hn
  have hends : (∃ t, unicastRepeated exceptedId s.sv.getConnectedIDs text s = .ok () t) ↔
      OthersHaveRoom s exceptedId := (unicastRepeated_ok_iff hids).trans (roomFor_connected hn)
  refine ⟨hends, fun t ht => ?_⟩
  have hroom := hends.mp ⟨t, ht⟩
  rw [unicastRepeated_room _ _ hids ((roomFor_connected hn).mpr hroom)] at ht
  cases ht
  exact served_broadcast hn hroom ha

theorem relay_serves (hn : s.sv.ids.Nodup) (ha : m.action ≠ getAction .clDisconnected) {x : Str}
    (hx : stoi x = .ok exceptedId) :
    Serves (do unicastRepeated (← liftExcept (stoi x)) s.sv.getConnectedIDs text) s m
      exceptedId text := by
  obtain ⟨hends, hserved⟩ := unicastRepeated_serves hn ha
  rw [hx]
  exact ⟨hends, hserved⟩

section Leaving

variable {c : ClientData} {i : Nat} {w : WorkerEntry}

-- what the listener has done once everyone else has been told
def Shared.farewell (s : Shared cfg) (m : ServerMessage) (clId fd : Int) (i : Nat)
    (w : WorkerEntry) : Shared cfg :=
  (({ s with sv := s.sv.dropClient clId fd } : Shared cfg).broadcast clId
    (leftMsg m).getConcatenatedMsg s.sv.getConnectedIDs).release i w

theorem processClDisconnected_run (hn : s.sv.ids.Nodup)
    (hc : s.sv.getClientRef exceptedId = some c) (hid : stoi m.id = .ok exceptedId)
    (hj : stoi m.threadNumber = .ok (i : Int))
    (hx : s.mgr.workerThreads.entries[i]? = some (some w)) (hpos : 0 < w.count)
    (hroom : OthersHaveRoom s exceptedId) :
    processClDisconnected m s.sv.getConnectedIDs s =
      .ok () (s.farewell m exceptedId c.fd i w) := by
  have hids : s.sv.getConnectedIDs.Nodup := Server.ids_eq s.sv ▸ hn
  have hfor : RoomFor (s.sv.dropClient exceptedId c.fd) exceptedId s.sv.getConnectedIDs :=
    (roomFor_dropClient hn).mpr ((roomFor_connected hn).mpr hroom)
  rw [processClDisconnected_eq s.sv.getConnectedIDs hc hid hj hx hpos,
    bind_of_ok (unicastRepeated_room (s := { s with sv := s.sv.dropClient exceptedId c.fd })
      exceptedId (leftMsg m).getConcatenatedMsg hids hfor)]
  exact workerClientDisconnect_run hx hpos

theorem processClDisconnected_ends (hn : s.sv.ids.Nodup)
    (hc : s.sv.getClientRef exceptedId = some c) (hid : stoi m.id = .ok exceptedId)
    (hj : stoi m.threadNumber = .ok (i : Int))
    (hx : s.mgr.workerThreads.entries[i]? = some (some w)) (hpos : 0 < w.count) :
    (∃ t, processClDisconnected m s.sv.getConnectedIDs s = .ok () t) ↔
      OthersHaveRoom s exceptedId := by
  have hids : s.sv.getConnectedIDs.Nodup := Server.ids_eq s.sv ▸ hn
  constructor
  · rintro ⟨t, ht⟩
    rw [processClDisconnected_eq s.sv.getConnectedIDs hc hid hj hx hpos] at ht
    obtain ⟨_, u, hu, _⟩ := bind_ok ht
    have hfor := (unicastRepeated_ok_iff hids).mp ⟨u, hu⟩
    exact (roomFor_connected hn).mp ((roomFor_dropClient hn).mp hfor)
  · intro hroom
    exact ⟨_, processClDisconnected_run hn hc hid hj hx hpos hroom⟩

theorem ids_farewell (s : Shared cfg) (m : ServerMessage) (clId fd : Int) (i : Nat)
    (w : WorkerEntry) : (s.farewell m clId fd i w).sv.ids = s.sv.ids.erase clId := by
  change ((s.sv.dropClient clId fd).pushAll _ _ _).ids = _
  rw [Server.ids_eq, Server.getConnectedIDs_pushAll, ← Server.ids_eq, ids_dropClient]

theorem processClDisconnected_serves (hn : s.sv.ids.Nodup)
    (hc : s.sv.getClientRef exceptedId = some c) (ha : m.action = getAction .clDisconnected)
    (hid : stoi m.id = .ok exceptedId) (hj : stoi m.threadNumber = .ok (i : Int))
    (hx : s.mgr.workerThreads.entries[i]? = some (some w)) (hpos : 0 < w.count) :
    Serves (processClDisconnected m s.sv.getConnectedIDs) s m exceptedId
      (leftMsg m).getConcatenatedMsg := by
  have hids : s.sv.getConnectedIDs.Nodup := Server.ids_eq s.sv ▸ hn
  have hends := processClDisconnected_ends hn hc hid hj hx hpos
  refine ⟨hends, fun t ht => ?_⟩
  have hroom := hends.mp ⟨t, ht⟩
  cases (processClDisconnected_run hn hc hid hj hx hpos hroom).symm.trans ht
  refine ⟨fun d hd hne => ?_, fun _ => ⟨?_, ?_, i, w, hj, hx, rfl, rfl, rfl⟩, fun h => absurd ha h⟩
  · have hmem : d.personalId ∈ s.sv.getConnectedIDs := List.mem_map_of_mem hd
    have hd' : (s.sv.dropClient exceptedId c.fd).getClientRef d.personalId = some d :=
      (getClientRef_dropClient hn hne).trans (getClientRef_of_mem hn hd)
    rw [hroom d hd hne, if_pos rfl]
    refine (getClientRef_pushAll hids hd').trans ?_
    simp [hmem, Ne.symm hne]
  · refine getClientRef_none ?_
    rw [ids_farewell]
    exact hn.not_mem_erase
  · exact nrOfConnections_pushAll _ _ _ _

end Leaving

theorem dispatch_serves {recvMessage : Str} (hn : s.sv.ids.Nodup)
    (hgone : m.action = getAction .clDisconnected →
      ∃ c, s.sv.getClientRef exceptedId = some c)
    (hc : Casts s m recvMessage exceptedId text) :
    Serves (dispatch m recvMessage s.sv.getConnectedIDs) s m exceptedId text := by
  unfold dispatch
  cases hc with
  | left ha hid hj hx hpos =>
    obtain ⟨c, hc⟩ := hgone ha
    rw [if_pos ha]
    exact processClDisconnected_serves hn hc ha hid hj hx hpos
  | said ha hid =>
    have hne : m.action ≠ getAction .clDisconnected := by simp [ha]
    rw [if_neg hne, if_pos ha]
    exact relay_serves hn hne hid
  | stopped ha =>
    have hne : m.action ≠ getAction .clDisconnected := by simp [ha]
    have hne' : m.action ≠ getAction .unicastRepeated := by simp [ha]
    rw [if_neg hne, if_neg hne', if_pos ha]
    exact unicastRepeated_serves hn hne
  | joined ha hid =>
    have hne : m.action ≠ getAction .clDisconnected := by simp [ha]
    have hne' : m.action ≠ getAction .unicastRepeated := by simp [ha]
    have hne'' : m.action ≠ getAction .svDisconnected := by simp [ha]
    rw [if_neg hne, if_neg hne', if_neg hne'', if_pos ha]
    exact relay_serves hn hne hid

theorem processMessage_serves (h : Owned held accepts ups s) (hm : m.Clean)
    (hdue : ∀ clId, goneId m = some clId → 0 ≤ clId → Due held accepts ups s clId)
    (hok : UpOk cfg m) (hc : Casts s m m.getConcatenatedMsg exceptedId text) :
    Serves (processMessage m.getConcatenatedMsg) s m exceptedId text := by
  have hgone (ha : m.action = getAction .clDisconnected) :
      ∃ c, s.sv.getClientRef exceptedId = some c := by
    obtain ⟨_, clId, _, h0, hmax, _, hid⟩ := hok.1 ha
    have hst : stoi m.id = .ok clId := by
      rw [hid]
      exact stoi_toString (by simp only [Decimal.InRange, Decimal.intMin] at *; omega)
    have hd := hdue clId (by simp [goneId, ha, hst, Except.toOption]) h0
    have hmem : clId ∈ s.sv.ids := List.count_pos_iff.mp (by unfold Due at hd; omega)
    obtain ⟨p, hp, rfl⟩ := List.mem_map.mp hmem
    obtain ⟨c, href, _⟩ := getClientRef_of_pair h.nodup hp
    cases hc with
    | left _ hid' _ _ _ =>
      obtain rfl := Except.ok.inj (hst.symm.trans hid')
      exact ⟨c, href⟩
    | said ha' _ => simp [ha] at ha'
    | stopped ha' => simp [ha] at ha'
    | joined ha' _ => simp [ha] at ha'
  by_cases hids : s.sv.getConnectedIDs = []
  · have hnone : s.sv.clients.values = [] := List.map_eq_nil_iff.mp hids
    have hall : OthersHaveRoom s exceptedId := fun c hc => by simp [hnone] at hc
    have heq : processMessage m.getConcatenatedMsg s = .ok () s := by
      rw [processMessage_eq hm, if_pos hids]
    refine ⟨iff_of_true ⟨s, heq⟩ hall, fun t ht => ?_⟩
    rw [heq] at ht
    cases ht
    refine ⟨fun c hc => by simp [hnone] at hc, fun ha => ?_, fun _ => ⟨rfl, rfl⟩⟩
    obtain ⟨c, href⟩ := hgone ha
    have := getClientRef_mem href
    simp [hnone] at this
  · obtain ⟨hends, hserved⟩ := dispatch_serves h.nodup hgone hc
    have heq : processMessage m.getConcatenatedMsg s =
        dispatch m m.getConcatenatedMsg s.sv.getConnectedIDs s := by
      rw [processMessage_eq hm, if_neg hids]
    exact ⟨by rw [heq]; exact hends, fun t ht => hserved t (heq ▸ ht)⟩

end Process

namespace State

variable {s t : State cfg} {stdin socket : Bool}

theorem step_queue (hl : s.listener = .queue true stdin socket) (ht : s.step .queue = some t) :
    t = s.runListener (listenerProcessWorkerToListenerQ s.listenerEvfd) (.stdin stdin socket) := by
  obtain ⟨_, ⟨_, ht⟩ | ⟨k, th, _, ht⟩⟩ := step_cases ht
  · simp only [listenerStep, hl, if_true] at ht
    exact (Option.some.inj ht).symm
  · simp only [threadStep] at ht
    cases ht

theorem runListener_goes_on (m : Prog cfg Unit) (hl : s.listener ≠ .stdin stdin socket) :
    (s.runListener m (.stdin stdin socket)).listener = .stdin stdin socket ↔
      ∃ u, m s.shared = .ok () u := by
  unfold runListener
  cases hr : m s.shared with
  | ok a u => exact iff_of_true rfl ⟨u, rfl⟩
  | error e u =>
    refine iff_of_false ?_ fun ⟨u, hu⟩ => by cases hu
    cases e with
    | undefinedBehaviour => exact hl
    | _ => exact fun h => by cases h

end State

-- the listener goes on and has served everyone it casts to exactly when nobody's queue is full
theorem stuckClient_harmless {svSocket listenerEvfd : Nat} {s t : State cfg} {m : ServerMessage}
    {recvMessage text : Str} {rest : List Str} {stdin socket : Bool} {exceptedId : Int}
    (hr : Reach State.step (fun _ _ => True) (State.init cfg svSocket listenerEvfd) s)
    (hl : s.listener = .queue true stdin socket)
    (hevfd : s.shared.kernel.evfd s.listenerEvfd ≠ 0)
    (hq : s.shared.mgr.qWorkerToListener = recvMessage :: rest)
    (hm : ({} : ServerMessage).constructFromString recvMessage = .ok m)
    (hc : Casts s.shared m recvMessage exceptedId text) (ht : s.step .queue = some t) :
    (t.listener = .stdin stdin socket ∧ Served s.shared t.shared m exceptedId text) ↔
      OthersHaveRoom s.shared exceptedId := by
  obtain ⟨accepts, ups, ho, _⟩ := (State.sound_of_reach hr).owned
  have hup := ho.upQueue
  rw [hq] at hup
  obtain ⟨m', ups, rfl, rfl, rfl⟩ := List.map_eq_cons_iff.mp hup.symm
  obtain ⟨hclean, hok⟩ := ho.upsOk m' List.mem_cons_self
  rw [ServerMessage.constructFromString_getConcatenatedMsg {} hclean] at hm
  obtain rfl := Except.ok.inj hm
  have hpop := (ho.of_core (core_setEvfd s.shared s.listenerEvfd 0)).pop
  have hcasts := hc.popped s.listenerEvfd (ups.map ServerMessage.getConcatenatedMsg)
  obtain ⟨hends, hserved⟩ := processMessage_serves hpop hclean
    (fun clId hg h0 => ho.due h0 hg) hok hcasts
  have heq : listenerProcessWorkerToListenerQ s.listenerEvfd s.shared =
      processMessage m'.getConcatenatedMsg ((s.shared.setEvfd s.listenerEvfd 0).setWorkerToListener
        (ups.map ServerMessage.getConcatenatedMsg)) := by
    rw [listenerProcess_eq, if_neg hevfd, hq]
  have hne : s.listener ≠ .stdin stdin socket := by simp [hl]
  have hon := State.runListener_goes_on (listenerProcessWorkerToListenerQ s.listenerEvfd) hne
  rw [State.step_queue hl ht, hon, heq]
  constructor
  · rintro ⟨hok, _⟩
    exact hends.mp hok
  · intro hroom
    obtain ⟨u, hu⟩ := hends.mpr hroom
    have hsh : (s.runListener (listenerProcessWorkerToListenerQ s.listenerEvfd)
        (.stdin stdin socket)).shared = u := by
      unfold State.runListener
      rw [heq, hu]
      rfl
    obtain ⟨hothers, hgone, hkept⟩ := hserved u hu
    rw [hsh]
    exact ⟨⟨u, hu⟩, hothers, hgone, hkept⟩

def said : ServerMessage := { action := getAction .unicastRepeated, id := ['1'] }

-- one client connects and stays silent, a second one joins and says n + 1 things
def besideSilent (n : Nat) : List Label :=
  listenerRound false true (connection 5 6) ++ [.start 0 freshFrame] ++
  listenerRound false true (connection 7 8) ++ [.start 1 freshFrame] ++ handshake 1 7 ++
  listenerRound true false (connection 9 10) ++
  (List.replicate n (workerRound 1 (receiving 7 (encoded said)) ++
    listenerRound true false (connection 9 10))).flatten ++
  workerRound 1 (receiving 7 (encoded said)) ++ [.poll true false false]

def aboutToRelay (s : State Config.deployed) : Bool :=
  s.listener = .queue true false false && s.shared.kernel.evfd s.listenerEvfd ≠ 0 &&
  s.shared.mgr.qWorkerToListener = [said.getConcatenatedMsg]

theorem besideSilent_reached {n : Nat} {pc : ListenerPc} {q : State Config.deployed → Bool}
    (h : (run State.step (State.init Config.deployed 3 4) (besideSilent n)).any (fun s =>
      aboutToRelay s && (s.step .queue).any (fun t => t.listener = pc) && q s) = true) :
    ∃ s t : State Config.deployed,
      Reach State.step (fun _ _ => True) (State.init Config.deployed 3 4) s ∧
      s.listener = .queue true false false ∧ s.shared.kernel.evfd s.listenerEvfd ≠ 0 ∧
      s.shared.mgr.qWorkerToListener = [said.getConcatenatedMsg] ∧
      Casts s.shared said said.getConcatenatedMsg 1 said.getConcatenatedMsg ∧
      s.step .queue = some t ∧ t.listener = pc ∧ q s = true := by
  obtain ⟨s, hr, hs⟩ := exists_of_run (fun _ _ => trivial) h
  simp only [aboutToRelay, Bool.and_eq_true, decide_eq_true_eq] at hs
  obtain ⟨⟨⟨⟨hl, hevfd⟩, hq⟩, hstep⟩, hqs⟩ := hs
  obtain ⟨t, ht, hpc⟩ := (Option.any_eq_true _ _).mp hstep
  exact ⟨s, t, hr, hl, hevfd, hq, .said rfl rfl, ht, of_decide_eq_true hpc, hqs⟩

theorem said_decoded :
    ({} : ServerMessage).constructFromString said.getConcatenatedMsg = .ok said :=
  ServerMessage.constructFromString_getConcatenatedMsg {} (by decide)

theorem stuckClient_harmless_room : ∃ s t : State Config.deployed,
    s.step .queue = some t ∧ OthersHaveRoom s.shared 1 ∧ t.listener = .stdin false false ∧
    Served s.shared t.shared said 1 said.getConcatenatedMsg := by
  have hrun : (run State.step (State.init Config.deployed 3 4) (besideSilent 0)).any (fun s =>
      aboutToRelay s && (s.step .queue).any (fun t => t.listener = .stdin false false) &&
        s.shared.sv.clients.values.all fun c => Config.deployed.hasRoom c.sendQueue) = true := by
    decide +kernel
  obtain ⟨s, t, hr, hl, hevfd, hq, hc, ht, _, hall⟩ := besideSilent_reached hrun
  have hroom : OthersHaveRoom s.shared 1 := fun c hc _ => List.all_eq_true.mp hall c hc
  exact ⟨s, t, ht, hroom,
    (stuckClient_harmless hr hl hevfd hq said_decoded hc ht).mpr hroom⟩

-- the silent client's queue holds 128 messages, and the next one ends the listener
theorem besideSilent_stops : ¬ ∀ (s t : State Config.deployed) (m : ServerMessage)
    (recvMessage text : Str) (rest : List Str) (stdin socket : Bool) (exceptedId : Int),
    Reach State.step (fun _ _ => True) (State.init Config.deployed 3 4) s →
    s.listener = .queue true stdin socket → s.shared.kernel.evfd s.listenerEvfd ≠ 0 →
    s.shared.mgr.qWorkerToListener = recvMessage :: rest →
    ({} : ServerMessage).constructFromString recvMessage = .ok m →
    Casts s.shared m recvMessage exceptedId text → s.step .queue = some t →
    t.listener = .stdin stdin socket ∧ Served s.shared t.shared m exceptedId text := by
  intro hall
  have hrun : (run State.step (State.init Config.deployed 3 4) (besideSilent 127)).any (fun s =>
      aboutToRelay s && (s.step .queue).any (fun t => t.listener = .ended) &&
        s.shared.sv.clients.values.any fun c => c.sendQueue.length = 128) = true := by
    decide +kernel
  obtain ⟨s, t, hr, hl, hevfd, hq, hc, ht, hend, _⟩ := besideSilent_reached hrun
  have hon := (hall s t said _ _ [] _ _ 1 hr hl hevfd hq said_decoded hc ht).1
  rw [hend] at hon
  cases hon

end ChatApp
