import ChatApp.Journal

namespace ChatApp

open Effects Relation Runs

variable {cfg : Config}

def Encoded (text : Str) : Prop := ∃ m : ServerMessage, m.Clean ∧ text = m.getConcatenatedMsg

-- eight separators, the last at the end
def WellFormed (text : Str) : Prop :=
  text.count splitToken = nrOfSeparations ∧ text.getLast? = some splitToken

theorem Encoded.wellFormed {text : Str} (h : Encoded text) : WellFormed text := by
  obtain ⟨m, hm, rfl⟩ := h
  rw [WellFormed, ServerMessage.getConcatenatedMsg_eq]
  refine ⟨Delimited.count_terminate hm, ?_⟩
  have hne : m.toFields ≠ [] := by simp [ServerMessage.toFields]
  obtain ⟨t, ht⟩ := Delimited.getLast_terminate splitToken hne
  rw [ht, List.getLast?_concat]

theorem Encoded.decodes {text : Str} (h : Encoded text) (m₀ : ServerMessage) :
    ∃ m, m₀.constructFromString text = .ok m := by
  obtain ⟨m, hm, rfl⟩ := h
  exact ⟨m, ServerMessage.constructFromString_getConcatenatedMsg m₀ hm⟩

def QueuesEncoded (sv : Server cfg) : Prop :=
  ∀ c ∈ sv.clients.values, ∀ text ∈ c.sendQueue, Encoded text

section Listener

variable {s : Shared cfg} {sv : Server cfg} {m : ServerMessage}

theorem queuesEncoded_modify {clId : Int} {f : ClientData → ClientData} (h : QueuesEncoded sv)
    (hf : ∀ c ∈ sv.clients.values, ∀ text ∈ (f c).sendQueue, Encoded text) :
    QueuesEncoded (sv.modifyClient clId f) := by
  intro c hc
  rcases mem_modifyClient hc with hc | ⟨d, hd, _, rfl⟩
  · exact h c hc
  · exact hf d hd

theorem disconnectClient_encoded (clId : Int) :
    Keeps (fun s : Shared cfg => QueuesEncoded s.sv) (onServer (Server.disconnectClient clId)) := by
  intro s h
  cases hc : s.sv.getClientRef clId with
  | none => simpa [onServer, Server.disconnectClient, hc] using h
  | some c =>
    rw [disconnectClient_run hc]
    intro d hd
    change d ∈ (s.sv.dropClient clId c.fd).clients.values at hd
    rw [values_dropClient] at hd
    exact h d (List.mem_of_mem_eraseP hd)

theorem delivers_encoded : Delivers (fun s : Shared cfg => QueuesEncoded s.sv) Encoded where
  push := fun s clId msg hmsg h => queuesEncoded_modify h fun d hd text ht => by
    rcases List.mem_append.mp ht with ht | ht
    · exact h d hd text ht
    · rwa [List.mem_singleton.mp ht]
  cast := fun _ _ h => h
  leave := disconnectClient_encoded
  release := fun _ _ _ _ _ h => h

theorem leftMsg_clean (hm : m.Clean) : (leftMsg m).Clean := by
  obtain ⟨ht, _, hf, hi, hn, hc, hd, _⟩ := clean_iff.mp hm
  refine clean_iff.mpr ⟨ht, splitToken_not_mem_getAction .unicastRepeated, hf, hi,
    splitToken_not_mem_serverName, hc, hd, ?_⟩
  simp only [leftMsg, List.mem_append, hn, false_or]
  decide

theorem chatMsg_clean (hm : m.Clean) :
    ({ m with action := getAction .unicastRepeated } : ServerMessage).Clean := by
  obtain ⟨ht, _, hrest⟩ := clean_iff.mp hm
  exact clean_iff.mpr ⟨ht, splitToken_not_mem_getAction .unicastRepeated, hrest⟩

theorem processMessage_encoded (hm : m.Clean) : Keeps (fun s : Shared cfg => QueuesEncoded s.sv)
    (processMessage m.getConcatenatedMsg) := by
  refine delivers_encoded.processMessage fun m' hm' => ?_
  rw [ServerMessage.constructFromString_getConcatenatedMsg {} hm] at hm'
  obtain rfl := Except.ok.inj hm'
  exact ⟨⟨m, hm, rfl⟩, ⟨_, leftMsg_clean hm, rfl⟩, ⟨_, chatMsg_clean hm, rfl⟩⟩

end Listener

namespace State

section Steps

variable {s t : State cfg}

theorem serves_encoded {L : Int} {clients : List (Int × Int)} {a b : Shared cfg}
    (hs : ReflTransGen (ServeAny L clients) a b) (h : QueuesEncoded a.sv) : QueuesEncoded b.sv := by
  induction hs with
  | refl => exact h
  | tail _ hs ih =>
    obtain ⟨_, _, hs⟩ := hs
    cases hs with
    | mark _ => exact queuesEncoded_modify ih fun c hc => ih c hc
    | named _ _ _ => exact queuesEncoded_modify ih fun c hc => ih c hc
    | replied _ _ _ =>
      rw [Shared.sendDone_sv]
      exact queuesEncoded_modify ih fun c hc => ih c hc
    | greeted _ _ _ =>
      rw [Shared.pushUp_sv, Shared.sendDone_sv]
      exact queuesEncoded_modify ih fun c hc => ih c hc
    | relayed _ _ _ _ => exact ih
    | flushed hcl _ hq =>
      rw [Shared.sendDone_sv]
      refine queuesEncoded_modify ih fun c _ text ht => ?_
      exact ih _ (getClientRef_mem hcl) text (hq ▸ List.mem_cons_of_mem _ ht)

theorem listenerProcess_encoded (hs : s.Sound) (h : QueuesEncoded s.shared.sv) (L : Int) :
    QueuesEncoded (final (listenerProcessWorkerToListenerQ L s.shared)).sv := by
  obtain ⟨accepts, ups, ho, _⟩ := hs.owned
  rw [listenerProcess_eq]
  split_ifs
  · exact h
  · split
    · exact h
    · rename_i text rest hq
      rw [ho.upQueue] at hq
      obtain ⟨m, ups', rfl, rfl, -⟩ := List.map_eq_cons_iff.mp hq
      exact processMessage_encoded (ho.upsOk m List.mem_cons_self).1 _ h

theorem acceptBranch_encoded {L : Int} {env : AcceptEnv} {a : Shared cfg}
    (h : QueuesEncoded a.sv) (hub : ∀ u, acceptBranch L env a ≠ .error .undefinedBehaviour u) :
    QueuesEncoded (final (acceptBranch L env a)).sv := by
  rcases acceptBranch_final L env a with ⟨u, hu⟩ | ⟨hbody, d, hd⟩
  · exact absurd hu (hub u)
  · rw [hd]
    rcases acceptBranchBody_cases L env a with ⟨u, hu⟩ | ⟨fds, hf⟩ | ⟨p, u, he, hsv, _⟩
    · exact absurd hu (hbody u)
    · rw [hf]
      exact h
    · intro c hc
      change c ∈ (final (acceptBranchBody L env a)).sv.clients.values at hc
      rw [hsv] at hc
      cases he with
      | refused fds => exact h c hc
      | @entered n hn hfull _ =>
        rcases List.mem_cons.mp ((values_enrol hfull n env.color).mem_iff.mp hc) with rfl | hc
        · exact fun text ht => absurd ht List.not_mem_nil
        · exact h c hc

theorem step_encoded {l : Label} (hs : s.Sound) (h : QueuesEncoded s.shared.sv)
    (ht : s.step l = some t) : QueuesEncoded t.shared.sv := by
  obtain ⟨_, ⟨_, ht⟩ | ⟨k, th, hth, ht⟩⟩ := step_cases ht
  · cases listenerStep_turn ht with
    | moved _ _ _ => exact h
    | queue _ =>
      exact runListener_shared (P := fun u => QueuesEncoded u.sv) _ h fun _ =>
        listenerProcess_encoded hs h _
    | stdin buffer _ =>
      refine runListener_shared (P := fun u => QueuesEncoded u.sv) _ h fun _ => ?_
      obtain ⟨d, hd | hd⟩ := stdinBranch_final buffer s.shared
      · rw [hd]
        exact h
      · rw [hd]
        exact h
    | accept _ _ =>
      exact runListener_shared (P := fun u => QueuesEncoded u.sv) _ h fun hub =>
        acceptBranch_encoded h hub
  · cases threadStep_turned hs hth ht with
    | started _ => exact h
    | waits _ _ _ => exact h
    | @iterated _ ev _ _ u _ _ _ _ _ _ hit =>
      change QueuesEncoded u.sv
      rw [hit.removed.sv]
      refine serves_encoded hit.served ?_
      rw [pollQueue_sv hit.polled]
      exact h
    | left _ _ => exact h
    | threw _ => exact h

end Steps

end State

namespace Logged

open Entry

theorem state_of_reach {svSocket listenerEvfd : Nat} {g : Logged cfg}
    (h : Reach step (fun _ _ => True) (init cfg svSocket listenerEvfd) g) :
    Reach State.step (fun _ _ => True) (State.init cfg svSocket listenerEvfd) g.state := by
  induction h with
  | refl => exact .refl
  | tail _ _ hs ih =>
    obtain ⟨t, ht, rfl⟩ := Option.map_eq_some_iff.mp hs
    exact ih.tail trivial ht

theorem encoded_of_reach {svSocket listenerEvfd : Nat} {s : State cfg}
    (h : Reach State.step (fun _ _ => True) (State.init cfg svSocket listenerEvfd) s) :
    s.Sound ∧ QueuesEncoded s.shared.sv := by
  refine h.invariant (I := fun s => s.Sound ∧ QueuesEncoded s.shared.sv)
    ⟨State.init_sound cfg svSocket listenerEvfd, ?_⟩ fun s l t hI _ ht =>
      ⟨State.step_sound hI.1 ht, State.step_encoded hI.1 hI.2 ht⟩
  simp [QueuesEncoded, State.init]

-- an ACCEPT names its worker, descriptor and client in decimal
def IsAccept (cfg : Config) (text : Str) : Prop :=
  ∃ (i : Nat) (fd clId : Int), i < cfg.maxNrOfThreads ∧ Decimal.InRange fd ∧
    Decimal.InRange clId ∧ text = (acceptMsg i fd clId).getConcatenatedMsg

-- what a queued message says about the client on whose account it was pushed
structure Attributed (g : Logged cfg) (m : ServerMessage) : Prop where
  client : m.action = getAction .clDisconnected ∨ m.action = getAction .initDone →
    ∃ (k : Nat) (clId : Int), ⟨some (k, clId), m.getConcatenatedMsg⟩ ∈ g.log ∧
      m.id = Decimal.toString clId ∧ 0 ≤ clId ∧ clId < g.state.shared.sv.clientDataId
  worker : m.action = getAction .clDisconnected →
    ∃ i : Nat, i < cfg.maxNrOfThreads ∧ m.threadNumber = Decimal.toString i

theorem EventWord.id {clId : Int} {word : List ServerMessage} {m : ServerMessage}
    (h : EventWord clId word) (hm : m ∈ word)
    (ha : m.action = getAction .clDisconnected ∨ m.action = getAction .initDone) :
    m.id = Decimal.toString clId := by
  obtain ⟨talk, gone, rfl, htalk, hgone⟩ := h
  rcases List.mem_append.mp hm with hm | hm
  · rcases htalk with rfl | ⟨join, chats, rfl, hj, hc⟩
    · cases hm
    · rcases List.mem_cons.mp hm with rfl | hm
      · exact hj.2
      · have hchat : m.action = getAction .unicastRepeated := hc m hm
        rw [hchat] at ha
        exact absurd ha (by decide)
  · rcases hgone with rfl | ⟨m', rfl, hg⟩
    · cases hm
    · rw [List.mem_singleton.mp hm]
      exact hg.2

theorem Journal.attributed {g : Logged cfg} {es : List Entry} (h : Journal g es) {e : Entry}
    (he : e ∈ es) : Attributed g e.2 := by
  have hlog : e.push ∈ g.log := by
    rw [h.log]
    exact List.mem_map_of_mem he
  obtain ⟨origin, m⟩ := e
  cases origin with
  | none =>
    obtain rfl : m = svDisconnectedMsg := h.own _ he rfl
    exact ⟨fun ha => absurd ha (by decide), fun ha => absurd ha (by decide)⟩
  | some kc =>
    obtain ⟨k, clId⟩ := kc
    have hm : m ∈ word es k clId := mem_word.mpr he
    have hgiven := h.audited.given k clId (List.ne_nil_of_mem hm)
    refine ⟨fun ha => ⟨k, clId, hlog, EventWord.id (h.audited.words k clId) hm ha, hgiven⟩,
      fun ha => ?_⟩
    obtain ⟨th, hth, hnum⟩ := h.audited.indexed k clId m hm ha
    have hl := h.audited.tabled.sound.launches th (List.mem_of_getElem? hth)
    exact ⟨th.launch.personalIndex, hl.1, hnum⟩

theorem queues_decodable {svSocket listenerEvfd : Nat} {g : Logged cfg}
    (h : Reach step (fun _ _ => True) (init cfg svSocket listenerEvfd) g) :
    (∀ text ∈ g.state.shared.mgr.qWorkerToListener, WellFormed text ∧
      (∀ m₀ : ServerMessage, ∃ m, m₀.constructFromString text = .ok m) ∧
      ∀ m₀ m : ServerMessage, m₀.constructFromString text = .ok m → Attributed g m) ∧
    (∀ text ∈ g.state.shared.mgr.qListenerToWorker, WellFormed text ∧
      (∀ m₀ : ServerMessage, ∃ m, m₀.constructFromString text = .ok m) ∧ IsAccept cfg text) ∧
    ∀ c ∈ g.state.shared.sv.clients.values, ∀ text ∈ c.sendQueue, WellFormed text := by
  obtain ⟨es, hj⟩ := journal_of_reach h
  obtain ⟨hsound, henc⟩ := encoded_of_reach (state_of_reach h)
  obtain ⟨accepts, ups, ho, _⟩ := hsound.owned
  refine ⟨fun text ht => ?_, fun text ht => ?_, fun c hc text ht => (henc c hc text ht).wellFormed⟩
  · have hlog := hj.queue.subset ht
    rw [hj.log, List.map_map] at hlog
    obtain ⟨e, he, rfl⟩ := List.mem_map.mp hlog
    have hclean := hj.clean e he
    have henc : Encoded (e.2.getConcatenatedMsg) := ⟨e.2, hclean, rfl⟩
    refine ⟨henc.wellFormed, henc.decodes, fun m₀ m hm => ?_⟩
    have hm : m₀.constructFromString e.2.getConcatenatedMsg = .ok m := hm
    rw [ServerMessage.constructFromString_getConcatenatedMsg m₀ hclean] at hm
    obtain rfl : e.2 = m := Except.ok.inj hm
    exact hj.attributed he
  · rw [ho.downQueue] at ht
    obtain ⟨a, ha, rfl⟩ := List.mem_map.mp ht
    obtain ⟨hfd, hid⟩ := ho.inRange (List.mem_append_right _ (List.mem_map_of_mem ha))
    have henc : Encoded (Routing.text a) := ⟨acceptMsg a.1 a.2.1 a.2.2, acceptMsg_clean _ _ _, rfl⟩
    exact ⟨henc.wellFormed, henc.decodes, a.1, a.2.1, a.2.2, ho.indexes a ha, hfd, hid, rfl⟩

theorem queues_decodable_visit : ∃ g : Logged Config.deployed,
    g.state.shared.mgr.qWorkerToListener.length = 3 ∧
    ∀ text ∈ g.state.shared.mgr.qWorkerToListener, WellFormed text ∧
      ∀ m₀ m : ServerMessage, m₀.constructFromString text = .ok m → Attributed g m := by
  have hrun : (run step (init Config.deployed 3 4) visit).any
      (fun g => g.state.shared.mgr.qWorkerToListener.length = 3) = true := by decide +kernel
  obtain ⟨g, hr, hg⟩ := exists_of_run (fun _ _ => trivial) hrun
  obtain ⟨hup, _⟩ := queues_decodable hr
  exact ⟨g, of_decide_eq_true hg, fun text ht => ⟨(hup text ht).1, (hup text ht).2.2⟩⟩

end Logged

end ChatApp
