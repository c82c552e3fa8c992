import ChatApp.SystemInvariant

namespace ChatApp

open Effects Runs

variable {cfg : Config}

-- the entry a CL_DISCONNECTED names still counts a client; a chat message's id is a number
def Handled (s : Shared cfg) (m : ServerMessage) : Prop :=
  s.sv.getConnectedIDs = [] ∨
  (m.action = getAction .clDisconnected → ∃ (i : Nat) (w : WorkerEntry),
    stoi m.threadNumber = .ok (i : Int) ∧
      s.mgr.workerThreads.entries[i]? = some (some w) ∧ 0 < w.count) ∧
  (m.action = getAction .unicastRepeated → ∃ n, stoi m.id = .ok n)

section Process

variable {held : List (Int × Int)} {accepts : List (Nat × Int × Int)} {ups : List ServerMessage}
variable {s : Shared cfg} {m : ServerMessage}

theorem connectedIDs_nodup (h : Owned held accepts ups s) : s.sv.getConnectedIDs.Nodup := by
  rw [← Server.ids_eq]
  exact h.nodup

theorem workerAt_ok_iff {j : Int} {x : Option WorkerEntry} :
    workerAt j s = .ok x s ↔ ∃ i : Nat, j = i ∧ s.mgr.workerThreads.entries[i]? = some x := by
  constructor
  · intro h
    unfold workerAt at h
    split_ifs at h with hj
    · cases h
    · simp only [get_bind_run] at h
      refine ⟨j.toNat, by omega, ?_⟩
      cases he : s.mgr.workerThreads.entries[j.toNat]? with
      | none =>
        rw [he] at h
        cases h
      | some y =>
        rw [he] at h
        cases h
        rfl
  · rintro ⟨i, rfl, hx⟩
    exact workerAt_run hx

theorem workerAt_ok {j : Int} {x : Option WorkerEntry} {t : Shared cfg}
    (h : workerAt j s = .ok x t) : t = s := by
  have hf := (workerAt_frame id j).ok h
  exact hf

-- a message that names its sender by number is relayed whenever the queues have room
theorem relay_ok_iff {x : Str} {text : Str} (h : Owned held accepts ups s)
    (hroom : ∀ c ∈ s.sv.clients.values, cfg.hasRoom c.sendQueue = true) :
    (∃ t, (do unicastRepeated (← liftExcept (stoi x)) s.sv.getConnectedIDs text : Prog cfg Unit) s =
        .ok () t) ↔ ∃ n, stoi x = .ok n := by
  constructor
  · rintro ⟨t, ht⟩
    obtain ⟨n, _, hn, _⟩ := bind_ok ht
    exact ⟨n, (liftExcept_ok_inv hn).1⟩
  · rintro ⟨n, hn⟩
    have hrun := unicastRepeated_room n text (connectedIDs_nodup h) (roomFor_of_all hroom n _)
    rw [hn]
    exact ⟨_, (bind_of_ok (liftExcept_ok n)).trans hrun⟩

-- with the client's entry gone, what is left is the broadcast and the release of its slot
theorem processClDisconnected_eq {clId : Int} {c : ClientData} {i : Nat} {w : WorkerEntry}
    (ids : List Int) (hc : s.sv.getClientRef clId = some c) (hid : stoi m.id = .ok clId)
    (hj : stoi m.threadNumber = .ok (i : Int))
    (hx : s.mgr.workerThreads.entries[i]? = some (some w)) (hpos : 0 < w.count) :
    processClDisconnected m ids s =
      (unicastRepeated clId ids (leftMsg m).getConcatenatedMsg >>= fun _ =>
        workerClientDisconnect (i : Int)) { s with sv := s.sv.dropClient clId c.fd } := by
  have hat : workerAt (i : Int) { s with sv := s.sv.dropClient clId c.fd } =
      .ok (some w) { s with sv := s.sv.dropClient clId c.fd } := workerAt_run hx
  have h0 : w.count ≠ 0 := by omega
  rw [processClDisconnected, hid, bind_of_ok (liftExcept_ok clId),
    bind_of_ok (disconnectClient_run hc), hj, bind_of_ok (liftExcept_ok (i : Int)), bind_of_ok hat]
  simp only [h0, if_false]
  rw [bind_of_ok (liftExcept_ok clId)]
  rfl

theorem processClDisconnected_ok_iff {clId : Int} (h : Owned held accepts ups s)
    (hroom : ∀ c ∈ s.sv.clients.values, cfg.hasRoom c.sendQueue = true)
    (hmem : clId ∈ s.sv.ids) (hid : stoi m.id = .ok clId) :
    (∃ t, processClDisconnected m s.sv.getConnectedIDs s = .ok () t) ↔
      ∃ (i : Nat) (w : WorkerEntry), stoi m.threadNumber = .ok (i : Int) ∧
        s.mgr.workerThreads.entries[i]? = some (some w) ∧ 0 < w.count := by
  obtain ⟨p, hp, rfl⟩ := List.mem_map.mp hmem
  obtain ⟨c, hc, _⟩ := getClientRef_of_pair h.nodup hp
  constructor
  · rintro ⟨t, ht⟩
    rw [processClDisconnected, hid, bind_of_ok (liftExcept_ok p.2),
      bind_of_ok (disconnectClient_run hc)] at ht
    obtain ⟨j, u, hlift, h₁⟩ := bind_ok ht
    obtain ⟨hj, rfl⟩ := liftExcept_ok_inv hlift
    obtain ⟨x, v, hat, h₂⟩ := bind_ok h₁
    obtain rfl := workerAt_ok hat
    obtain ⟨i, rfl, hx⟩ := workerAt_ok_iff.mp hat
    cases x with
    | none => cases h₂
    | some w =>
      simp only at h₂
      split_ifs at h₂ with h0
      · cases h₂
      · exact ⟨i, w, hj, hx, by omega⟩
  · rintro ⟨i, w, hj, hx, hpos⟩
    have hdrop : ∀ d ∈ (s.sv.dropClient p.2 c.fd).clients.values,
        cfg.hasRoom d.sendQueue = true := by
      intro d hd
      rw [values_dropClient] at hd
      exact hroom d (List.mem_of_mem_eraseP hd)
    rw [processClDisconnected_eq _ hc hid hj hx hpos,
      bind_of_ok (unicastRepeated_room _ _ (connectedIDs_nodup h) (roomFor_of_all hdrop _ _))]
    exact ⟨_, workerClientDisconnect_run hx hpos⟩

theorem processMessage_ok_iff (h : Owned held accepts ups s) (hm : m.Clean) (hok : UpOk cfg m)
    (hdue : ∀ clId, goneId m = some clId → 0 ≤ clId → Due held accepts ups s clId)
    (hroom : ∀ c ∈ s.sv.clients.values, cfg.hasRoom c.sendQueue = true) :
    (∃ t, processMessage m.getConcatenatedMsg s = .ok () t) ↔ Handled s m := by
  rw [processMessage_eq hm, Handled]
  split_ifs with hids
  · simp [hids]
  · rw [or_iff_right hids]
    unfold dispatch
    split_ifs with hgone hchat hsv hdone
    · obtain ⟨_, clId, _, h0, hmax, _, hid⟩ := hok.1 hgone
      have hst : stoi m.id = .ok clId := by
        rw [hid]
        exact stoi_toString (by simp only [Decimal.InRange, Decimal.intMin] at *; omega)
      have hg : goneId m = some clId := by simp [goneId, hgone, hst, Except.toOption]
      have hd := hdue clId hg h0
      have hmem : clId ∈ s.sv.ids := List.count_pos_iff.mp (by unfold Due at hd; omega)
      rw [processClDisconnected_ok_iff h hroom hmem hst]
      simp [hgone]
    · rw [relay_ok_iff h hroom]
      simp [hchat]
    · have hrun := unicastRepeated_room (-1) m.getConcatenatedMsg (connectedIDs_nodup h)
        (roomFor_of_all hroom _ _)
      refine iff_of_true ⟨_, hrun⟩ ?_
      simp [hsv]
    · obtain ⟨clId, h0, hmax, hid⟩ := hok.2 hdone
      rw [relay_ok_iff h hroom]
      refine iff_of_true ⟨clId, ?_⟩ (by simp [hdone])
      rw [hid]
      exact stoi_toString (by simp only [Decimal.InRange, Decimal.intMin] at *; omega)
    · exact iff_of_true ⟨s, rfl⟩ ⟨fun e => absurd e hgone, fun e => absurd e hchat⟩

end Process

section Reachable

variable {s : State cfg} {text : Str} {rest : List Str}

-- the queue of a reachable state holds encodings, and the one in front decides by itself
theorem listener_handles {svSocket listenerEvfd : Nat} {C : State cfg → Label → Prop}
    (hr : Reach State.step C (State.init cfg svSocket listenerEvfd) s)
    (hq : s.shared.mgr.qWorkerToListener = text :: rest)
    (hevfd : s.shared.kernel.evfd s.listenerEvfd ≠ 0)
    (hroom : ∀ c ∈ s.shared.sv.clients.values, cfg.hasRoom c.sendQueue = true) :
    ∃ m : ServerMessage, m.Clean ∧ text = m.getConcatenatedMsg ∧
      ((∃ t, listenerProcessWorkerToListenerQ s.listenerEvfd s.shared = .ok () t) ↔
        Handled s.shared m) := by
  obtain ⟨accepts, ups, ho, _⟩ := (State.sound_of_reach hr).owned
  have hup := ho.upQueue
  cases ups with
  | nil =>
    rw [hq] at hup
    cases hup
  | cons m ups =>
    rw [hq, List.map_cons] at hup
    obtain ⟨rfl, rfl⟩ := List.cons.inj hup
    obtain ⟨hm, hok⟩ := ho.upsOk m List.mem_cons_self
    have hpop := (ho.of_core (core_setEvfd s.shared s.listenerEvfd 0)).pop
    refine ⟨m, hm, rfl, ?_⟩
    rw [listenerProcess_eq, if_neg hevfd, hq]
    exact processMessage_ok_iff hpop hm hok (fun clId hg h0 => ho.due h0 hg) hroom

end Reachable

-- two clients join, and then the first one sends a chat message
def chatFromFirst (id : Str) : List Label :=
  listenerRound false true (connection 5 6) ++ [.start 0 freshFrame] ++
  handshake 0 5 ++ listenerRound true true (connection 7 8) ++ [.start 1 freshFrame] ++
  handshake 1 7 ++ listenerRound true false (connection 9 10) ++
  workerRound 0 (receiving 5 (encoded { action := getAction .unicastRepeated, id := id }))

def listens (s : State cfg) : Bool :=
  match listenerProcessWorkerToListenerQ s.listenerEvfd s.shared with
  | .ok _ _ => true
  | .error _ _ => false

theorem listens_iff {s : State cfg} : listens s = true ↔
    ∃ t, listenerProcessWorkerToListenerQ s.listenerEvfd s.shared = .ok () t := by
  unfold listens
  cases listenerProcessWorkerToListenerQ s.listenerEvfd s.shared with
  | ok _ t => simp
  | error e t => simp

def chatWaits (s : State cfg) : Bool :=
  s.shared.mgr.qWorkerToListener.length = 1 && s.shared.kernel.evfd s.listenerEvfd ≠ 0 &&
  s.shared.sv.clients.values.all fun c => cfg.hasRoom c.sendQueue

theorem chatFromFirst_reached {id : Str} {b : Bool}
    (h : (run State.step (State.init Config.deployed 3 4) (chatFromFirst id)).any
      (fun s => chatWaits s && listens s == b) = true) :
    ∃ (s : State Config.deployed) (text : Str),
      Reach State.step (fun _ _ => True) (State.init Config.deployed 3 4) s ∧
      s.shared.mgr.qWorkerToListener = [text] ∧ s.shared.kernel.evfd s.listenerEvfd ≠ 0 ∧
      (∀ c ∈ s.shared.sv.clients.values, Config.deployed.hasRoom c.sendQueue = true) ∧
      listens s = b := by
  obtain ⟨s, hr, hs⟩ := exists_of_run (fun _ _ => trivial) h
  simp only [chatWaits, Bool.and_eq_true, decide_eq_true_eq, List.all_eq_true, beq_iff_eq] at hs
  obtain ⟨⟨⟨hlen, hevfd⟩, hroom⟩, hb⟩ := hs
  obtain ⟨text, hq⟩ := List.length_eq_one_iff.mp hlen
  exact ⟨s, text, hr, hq, hevfd, hroom, hb⟩

theorem listener_handles_chat : ∃ (s : State Config.deployed) (m : ServerMessage),
    s.shared.mgr.qWorkerToListener = [m.getConcatenatedMsg] ∧
    (∃ t, listenerProcessWorkerToListenerQ s.listenerEvfd s.shared = .ok () t) ∧
    Handled s.shared m := by
  have hrun : (run State.step (State.init Config.deployed 3 4) (chatFromFirst ['0'])).any
      (fun s => chatWaits s && listens s == true) = true := by decide +kernel
  obtain ⟨s, text, hr, hq, hevfd, hroom, hlisten⟩ := chatFromFirst_reached hrun
  obtain ⟨m, _, rfl, hiff⟩ := listener_handles hr hq hevfd hroom
  have hok := listens_iff.mp hlisten
  exact ⟨s, m, hq, hok, hiff.mp hok⟩

-- the id is no number
theorem chatWithoutNumber_stops : ¬ ∀ s : State Config.deployed,
    Reach State.step (fun _ _ => True) (State.init Config.deployed 3 4) s →
    ∀ text rest, s.shared.mgr.qWorkerToListener = text :: rest →
    s.shared.kernel.evfd s.listenerEvfd ≠ 0 →
    (∀ c ∈ s.shared.sv.clients.values, Config.deployed.hasRoom c.sendQueue = true) →
    ∃ t, listenerProcessWorkerToListenerQ s.listenerEvfd s.shared = .ok () t := by
  intro hall
  have hrun : (run State.step (State.init Config.deployed 3 4) (chatFromFirst ['x'])).any
      (fun s => chatWaits s && listens s == false) = true := by decide +kernel
  obtain ⟨s, text, hr, hq, hevfd, hroom, hno⟩ := chatFromFirst_reached hrun
  rw [listens_iff.mpr (hall s hr text [] hq hevfd hroom)] at hno
  cases hno

end ChatApp
