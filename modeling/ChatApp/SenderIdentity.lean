import ChatApp.StuckClients

namespace ChatApp

open Effects Runs

variable {cfg : Config}

-- what everybody else is handed bears the sender's id and name, and the sender is handed nothing
def SpokenFor (sender : ClientData) (s t : Shared cfg) : Prop :=
  ∃ m : ServerMessage, m.Clean ∧ m.id = Decimal.toString sender.personalId ∧
    m.name = sender.name ∧ ∀ c ∈ s.sv.clients.values, t.sv.getClientRef c.personalId =
      some (if c.personalId = sender.personalId then c else c.enqueue m.getConcatenatedMsg)

-- the fields that came with the message are the sender's, as far as anyone is there to see them
def Signed (sender : ClientData) (m : ServerMessage) (s : Shared cfg) : Prop :=
  ∀ c ∈ s.sv.clients.values, stoi m.id = .ok sender.personalId ∧
    (c.personalId ≠ sender.personalId →
      m.id = Decimal.toString sender.personalId ∧ m.name = sender.name)

theorem ClientData.enqueue_ne (c : ClientData) (msg : Str) : c.enqueue msg ≠ c := by
  intro h
  have hq := congrArg ClientData.sendQueue h
  simp [ClientData.enqueue] at hq

theorem ClientData.enqueue_inj {c : ClientData} {msg msg' : Str}
    (h : c.enqueue msg = c.enqueue msg') : msg = msg' := by
  have hq := congrArg ClientData.sendQueue h
  simpa [ClientData.enqueue] using hq

section Relay

variable {s t : Shared cfg} {m : ServerMessage} {sender : ClientData}

theorem processInput_relays {listenerEvfd : Int} {m' : ServerMessage}
    (hin : sender.initState = initDone) (ha : m.action = getAction .unicastRepeated)
    (h : processInput m sender listenerEvfd s = .ok m' t) :
    t.mgr.qWorkerToListener = s.mgr.qWorkerToListener ++ [m.getConcatenatedMsg] := by
  have hgone : m.action ≠ getAction .clDisconnected := by simp [ha]
  have hne : (initDone : Int) ≠ initialState ∧ (initDone : Int) ≠ sentInitConfirmation := by decide
  simp only [processInput, if_neg hgone, hin, if_neg hne.1, if_neg hne.2, if_pos ha,
    if_true] at h
  obtain ⟨_, u, hu, h₁⟩ := bind_ok h
  cases h₁
  rw [workerPush_ok hu]
  rfl

theorem processMessage_chat (hn : s.sv.ids.Nodup) (hm : m.Clean)
    (ha : m.action = getAction .unicastRepeated) :
    processMessage m.getConcatenatedMsg s = .ok () t ↔
      s.sv.clients.values = [] ∧ t = s ∨
      s.sv.clients.values ≠ [] ∧ ∃ n, stoi m.id = .ok n ∧ OthersHaveRoom s n ∧
        t = s.broadcast n m.getConcatenatedMsg s.sv.getConnectedIDs := by
  have hids : s.sv.getConnectedIDs.Nodup := Server.ids_eq s.sv ▸ hn
  have hnil : s.sv.getConnectedIDs = [] ↔ s.sv.clients.values = [] := List.map_eq_nil_iff
  have hgone : m.action ≠ getAction .clDisconnected := by simp [ha]
  rw [processMessage_eq hm]
  by_cases hv : s.sv.clients.values = []
  · rw [if_pos (hnil.mpr hv)]
    constructor
    · intro h
      cases h
      exact .inl ⟨hv, rfl⟩
    · rintro (⟨_, rfl⟩ | ⟨hne, _⟩)
      · rfl
      · exact absurd hv hne
  · rw [if_neg fun h => hv (hnil.mp h), dispatch, if_neg hgone, if_pos ha]
    constructor
    · intro h
      obtain ⟨n, u, hst, h₁⟩ := bind_ok h
      cases hid : stoi m.id with
      | error e =>
        rw [hid] at hst
        cases hst
      | ok k =>
        rw [hid] at hst
        cases hst
        have hroom := (unicastRepeated_ok_iff hids).mp ⟨t, h₁⟩
        rw [unicastRepeated_room _ _ hids hroom] at h₁
        cases h₁
        exact .inr ⟨hv, _, rfl, (roomFor_connected hn).mp hroom, rfl⟩
    · rintro (⟨hnone, _⟩ | ⟨_, n, hid, hroom, rfl⟩)
      · exact absurd hnone hv
      · rw [hid, bind_of_ok (liftExcept_ok n)]
        exact unicastRepeated_room _ _ hids ((roomFor_connected hn).mpr hroom)

theorem getClientRef_broadcast (hn : s.sv.ids.Nodup) {c : ClientData}
    (hc : c ∈ s.sv.clients.values) (n : Int) (text : Str) :
    (s.broadcast n text s.sv.getConnectedIDs).sv.getClientRef c.personalId =
      some (if n = c.personalId then c else c.enqueue text) := by
  have hids : s.sv.getConnectedIDs.Nodup := Server.ids_eq s.sv ▸ hn
  have hmem : c.personalId ∈ s.sv.getConnectedIDs := List.mem_map_of_mem hc
  refine (getClientRef_pushAll hids (getClientRef_of_mem hn hc)).trans ?_
  simp [hmem]

-- the client that is handed the text tells what its fields are, and the sender what id they name
theorem signed_of_spokenFor (hn : s.sv.ids.Nodup) (hr : Decimal.InRange sender.personalId)
    (hm : m.Clean) {n : Int} (hid : stoi m.id = .ok n)
    (h : SpokenFor sender s (s.broadcast n m.getConcatenatedMsg s.sv.getConnectedIDs)) :
    Signed sender m s := by
  obtain ⟨m', hm', hid', hname', hall⟩ := h
  have hother (c : ClientData) (hc : c ∈ s.sv.clients.values)
      (hne : c.personalId ≠ sender.personalId) :
      m.id = Decimal.toString sender.personalId ∧ m.name = sender.name := by
    have hpush := (getClientRef_broadcast hn hc n m.getConcatenatedMsg).symm.trans (hall c hc)
    rw [if_neg hne, Option.some.injEq] at hpush
    by_cases hx : n = c.personalId
    · rw [if_pos hx] at hpush
      exact absurd hpush.symm (c.enqueue_ne _)
    · rw [if_neg hx] at hpush
      have htext := ClientData.enqueue_inj hpush
      obtain rfl := ServerMessage.getConcatenatedMsg_injective hm hm' htext
      exact ⟨hid', hname'⟩
  intro c hc
  refine ⟨?_, hother c hc⟩
  by_cases hs : c.personalId = sender.personalId
  · have hpush := (getClientRef_broadcast hn hc n m.getConcatenatedMsg).symm.trans (hall c hc)
    rw [if_pos hs, Option.some.injEq] at hpush
    by_cases hx : n = c.personalId
    · rw [hid, hx, hs]
    · rw [if_neg hx] at hpush
      exact absurd hpush (c.enqueue_ne _)
  · rw [(hother c hc hs).1]
    exact stoi_toString hr

theorem spokenFor_of_signed (hn : s.sv.ids.Nodup) (hname : splitToken ∉ sender.name)
    (hm : m.Clean) (h : Signed sender m s) :
    SpokenFor sender s
      (s.broadcast sender.personalId m.getConcatenatedMsg s.sv.getConnectedIDs) := by
  have hpushed (c : ClientData) (hc : c ∈ s.sv.clients.values) :=
    getClientRef_broadcast hn hc sender.personalId m.getConcatenatedMsg
  by_cases hex : ∃ c ∈ s.sv.clients.values, c.personalId ≠ sender.personalId
  · obtain ⟨c, hc, hne⟩ := hex
    obtain ⟨hid, hnm⟩ := (h c hc).2 hne
    refine ⟨m, hm, hid, hnm, fun d hd => (hpushed d hd).trans ?_⟩
    congr 1
    exact if_congr eq_comm rfl rfl
  · -- nobody else is there, and any message of the sender's will do
    have hclean : ({ id := Decimal.toString sender.personalId, name := sender.name } :
        ServerMessage).Clean := by
      intro f hf
      simp only [ServerMessage.toFields, List.mem_cons, List.not_mem_nil, or_false] at hf
      rcases hf with rfl | rfl | rfl | rfl | rfl | rfl | rfl | rfl
      case inr.inr.inr.inl => exact splitToken_not_mem_toString _
      case inr.inr.inr.inr.inl => exact hname
      all_goals exact List.not_mem_nil
    refine ⟨_, hclean, rfl, rfl, fun d hd => (hpushed d hd).trans ?_⟩
    have hsame : d.personalId = sender.personalId := by
      by_contra hne
      exact hex ⟨d, hd, hne⟩
    rw [if_pos hsame, if_pos hsame.symm]

theorem spokenFor_iff (hn : s.sv.ids.Nodup) (hr : Decimal.InRange sender.personalId)
    (hname : splitToken ∉ sender.name) (hm : m.Clean)
    (ha : m.action = getAction .unicastRepeated) :
    (∃ t, processMessage m.getConcatenatedMsg s = .ok () t ∧ SpokenFor sender s t) ↔
      Signed sender m s ∧ OthersHaveRoom s sender.personalId := by
  by_cases hv : s.sv.clients.values = []
  · have hsigned : Signed sender m s := fun c hc => by simp [hv] at hc
    have hroom : OthersHaveRoom s sender.personalId := fun c hc => by simp [hv] at hc
    have hsame : s.broadcast sender.personalId m.getConcatenatedMsg s.sv.getConnectedIDs =
        s.broadcast sender.personalId m.getConcatenatedMsg [] := by
      rw [Server.getConnectedIDs, hv, List.map_nil]
    have hspoken := spokenFor_of_signed hn hname hm hsigned
    rw [hsame] at hspoken
    refine iff_of_true ⟨s, (processMessage_chat hn hm ha).mpr (.inl ⟨hv, rfl⟩), hspoken⟩
      ⟨hsigned, hroom⟩
  · constructor
    · rintro ⟨t, ht, hspoken⟩
      rcases (processMessage_chat hn hm ha).mp ht with ⟨hnone, _⟩ | ⟨_, n, hid, hroom, rfl⟩
      · exact absurd hnone hv
      · have hsigned := signed_of_spokenFor hn hr hm hid hspoken
        obtain ⟨c, hc⟩ := List.exists_mem_of_ne_nil _ hv
        obtain rfl := Except.ok.inj (hid.symm.trans (hsigned c hc).1)
        exact ⟨hsigned, hroom⟩
    · rintro ⟨hsigned, hroom⟩
      obtain ⟨c, hc⟩ := List.exists_mem_of_ne_nil _ hv
      exact ⟨_, (processMessage_chat hn hm ha).mpr
        (.inr ⟨hv, _, (hsigned c hc).1, hroom, rfl⟩), spokenFor_of_signed hn hname hm hsigned⟩

end Relay

-- a text comes in on the socket of a client that is through, and later the listener gets it
theorem chat_spokenFor {svSocket listenerEvfd : Nat} {s₀ s t : State cfg} {sender : ClientData}
    {b m : ServerMessage} {text : Str} {rest : List Str} {stdin socket : Bool}
    (h₀ : Reach State.step (fun _ _ => True) (State.init cfg svSocket listenerEvfd) s₀)
    (hsender : sender ∈ s₀.shared.sv.clients.values) (hin : sender.initState = initDone)
    (hm : b.constructFromString text = .ok m) (ha : m.action = getAction .unicastRepeated)
    (hr : Reach State.step (fun _ _ => True) s₀ s) (hl : s.listener = .queue true stdin socket)
    (hevfd : s.shared.kernel.evfd s.listenerEvfd ≠ 0)
    (hq : s.shared.mgr.qWorkerToListener = m.getConcatenatedMsg :: rest)
    (ht : s.step .queue = some t) :
    (∀ m' u, processInput m sender s₀.listenerEvfd s₀.shared = .ok m' u →
      u.mgr.qWorkerToListener = s₀.shared.mgr.qWorkerToListener ++ [m.getConcatenatedMsg]) ∧
    (t.listener = .stdin stdin socket ∧ SpokenFor sender s.shared t.shared ↔
      Signed sender m s.shared ∧ OthersHaveRoom s.shared sender.personalId) := by
  refine ⟨fun m' u hu => processInput_relays hin ha hu, ?_⟩
  obtain ⟨_, _, ho₀, _⟩ := (State.sound_of_reach h₀).owned
  have hpair : (sender.fd, sender.personalId) ∈ s₀.shared.sv.pairs :=
    mem_pairs (getClientRef_of_mem ho₀.nodup hsender)
  have hrange : Decimal.InRange sender.personalId := by
    have h := ho₀.range _ hpair
    have hmax := ho₀.counter
    simp only [Decimal.InRange, Decimal.intMin, Decimal.intMax] at h hmax ⊢
    omega
  obtain ⟨_, _, ho, _⟩ := (State.sound_of_reach (h₀.trans hr)).owned
  have heq : listenerProcessWorkerToListenerQ s.listenerEvfd s.shared =
      processMessage m.getConcatenatedMsg
        ((s.shared.setEvfd s.listenerEvfd 0).setWorkerToListener rest) := by
    rw [listenerProcess_eq, if_neg hevfd, hq]
  have hne : s.listener ≠ .stdin stdin socket := by simp [hl]
  have hon := State.runListener_goes_on (listenerProcessWorkerToListenerQ s.listenerEvfd) hne
  have hiff := spokenFor_iff (s := (s.shared.setEvfd s.listenerEvfd 0).setWorkerToListener rest)
    ho.nodup hrange (ho₀.names sender hsender) (ServerMessage.constructFromString_clean hm) ha
  rw [State.step_queue hl ht, hon, heq]
  have hsh {u : Shared cfg} (hu : listenerProcessWorkerToListenerQ s.listenerEvfd s.shared =
      .ok () u) : (s.runListener (listenerProcessWorkerToListenerQ s.listenerEvfd)
        (.stdin stdin socket)).shared = u := by
    unfold State.runListener
    rw [hu]
    rfl
  refine Iff.trans ⟨?_, ?_⟩ hiff
  · rintro ⟨⟨u, hu⟩, hspoken⟩
    rw [hsh (heq.trans hu)] at hspoken
    exact ⟨u, hu, hspoken⟩
  · rintro ⟨u, hu, hspoken⟩
    rw [hsh (heq.trans hu)]
    exact ⟨⟨u, hu⟩, hspoken⟩

-- two clients connect, and the one on the given socket joins
def oneJoins (k : Nat) (fd : Int) : List Label :=
  listenerRound false true (connection 5 6) ++ [.start 0 freshFrame] ++
  listenerRound false true (connection 7 8) ++ [.start 1 freshFrame] ++ handshake k fd ++
  listenerRound true false (connection 9 10)

-- it says a thing in the name of client 1
def speaks (k : Nat) (fd : Int) : List Label :=
  workerRound k (receiving fd (encoded said)) ++ [.poll true false false]

theorem speaks_reached {k : Nat} {fd : Int} {q : ClientData → Bool}
    {p : State Config.deployed → State Config.deployed → Bool}
    (h : (run State.step (State.init Config.deployed 3 4) (oneJoins k fd)).any (fun s₀ =>
      s₀.shared.sv.clients.values.any q && (run State.step s₀ (speaks k fd)).any fun s =>
        aboutToRelay s && (s.step .queue).any (p s)) = true) :
    ∃ s₀ s t : State Config.deployed, ∃ sender ∈ s₀.shared.sv.clients.values,
      Reach State.step (fun _ _ => True) (State.init Config.deployed 3 4) s₀ ∧
      Reach State.step (fun _ _ => True) s₀ s ∧ q sender = true ∧
      s.listener = .queue true false false ∧ s.shared.kernel.evfd s.listenerEvfd ≠ 0 ∧
      s.shared.mgr.qWorkerToListener = [said.getConcatenatedMsg] ∧
      s.step .queue = some t ∧ p s t = true := by
  obtain ⟨s₀, h₀, hs₀⟩ := exists_of_run (fun _ _ => trivial) h
  rw [Bool.and_eq_true] at hs₀
  obtain ⟨hany, hrest⟩ := hs₀
  obtain ⟨sender, hmem, hsender⟩ := List.any_eq_true.mp hany
  obtain ⟨s, hr, hs⟩ := exists_of_run (fun _ _ => trivial) hrest
  simp only [aboutToRelay, Bool.and_eq_true, decide_eq_true_eq] at hs
  obtain ⟨⟨⟨hl, hevfd⟩, hq⟩, hstep⟩ := hs
  obtain ⟨t, ht, hp⟩ := (Option.any_eq_true _ _).mp hstep
  exact ⟨s₀, s, t, sender, hmem, h₀, hr, hsender, hl, hevfd, hq, ht, hp⟩

theorem chat_spokenFor_own : ∃ (s t : State Config.deployed) (sender : ClientData),
    s.step .queue = some t ∧ Signed sender said s.shared ∧
    OthersHaveRoom s.shared sender.personalId ∧ t.listener = .stdin false false ∧
    SpokenFor sender s.shared t.shared := by
  have hrun : (run State.step (State.init Config.deployed 3 4) (oneJoins 1 7)).any (fun s₀ =>
      s₀.shared.sv.clients.values.any (fun c =>
        c.personalId = 1 && c.name = [] && c.initState = initDone) &&
      (run State.step s₀ (speaks 1 7)).any fun s => aboutToRelay s && (s.step .queue).any
        fun _ => s.shared.sv.clients.values.all fun c =>
          Config.deployed.hasRoom c.sendQueue) = true := by
    decide +kernel
  obtain ⟨s₀, s, t, sender, hmem, h₀, hr, hs, hl, hevfd, hq, ht, hall⟩ := speaks_reached hrun
  simp only [Bool.and_eq_true, decide_eq_true_eq] at hs
  obtain ⟨⟨hid, hname⟩, hin⟩ := hs
  have hsigned : Signed sender said s.shared := by
    intro c _
    rw [hid, hname]
    exact ⟨by decide, fun _ => by decide⟩
  have hroom : OthersHaveRoom s.shared sender.personalId :=
    fun c hc _ => List.all_eq_true.mp hall c hc
  exact ⟨s, t, sender, ht, hsigned, hroom,
    (chat_spokenFor (b := {}) h₀ hmem hin said_decoded rfl hr hl hevfd hq ht).2.mpr
      ⟨hsigned, hroom⟩⟩

-- the first client speaks as the second, which is then the only one not to be told
theorem first_not_spokenFor : ¬ ∀ (s₀ s t : State Config.deployed) (sender : ClientData)
    (m : ServerMessage) (text : Str) (rest : List Str) (stdin socket : Bool),
    Reach State.step (fun _ _ => True) (State.init Config.deployed 3 4) s₀ →
    sender ∈ s₀.shared.sv.clients.values → sender.initState = initDone →
    ({} : ServerMessage).constructFromString text = .ok m →
    m.action = getAction .unicastRepeated → Reach State.step (fun _ _ => True) s₀ s →
    s.listener = .queue true stdin socket → s.shared.kernel.evfd s.listenerEvfd ≠ 0 →
    s.shared.mgr.qWorkerToListener = m.getConcatenatedMsg :: rest → s.step .queue = some t →
    t.listener = .stdin stdin socket ∧ SpokenFor sender s.shared t.shared := by
  intro hall
  have hrun : (run State.step (State.init Config.deployed 3 4) (oneJoins 0 5)).any (fun s₀ =>
      s₀.shared.sv.clients.values.any (fun c => c.personalId = 0 && c.initState = initDone) &&
      (run State.step s₀ (speaks 0 5)).any fun s => aboutToRelay s && (s.step .queue).any
        fun t => s.shared.sv.clients.values.any fun c =>
          c.personalId = 1 && t.shared.sv.getClientRef 1 = some c) = true := by
    decide +kernel
  obtain ⟨s₀, s, t, sender, hmem, h₀, hr, hs, hl, hevfd, hq, ht, hany⟩ := speaks_reached hrun
  simp only [Bool.and_eq_true, decide_eq_true_eq] at hs
  obtain ⟨c, hc, hp⟩ := List.any_eq_true.mp hany
  simp only [Bool.and_eq_true, decide_eq_true_eq] at hp
  obtain ⟨hone, href⟩ := hp
  obtain ⟨_, m, _, _, _, hpushed⟩ := hall s₀ s t sender said _ [] _ _ h₀ hmem hs.2 said_decoded rfl
    hr hl hevfd hq ht
  have hc' := hpushed c hc
  have hne : c.personalId ≠ sender.personalId := by
    rw [hone, hs.1]
    decide
  rw [if_neg hne, hone, href, Option.some.injEq] at hc'
  exact c.enqueue_ne _ hc'.symm

end ChatApp
