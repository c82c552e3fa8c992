import ChatApp.Broadcasts
import ChatApp.QueueContents
import ChatApp.Shutdown

namespace ChatApp

open Effects Relation Runs

variable {cfg : Config}

-- what the listener tells the others for a message, and whom it leaves out
def relayOf (m : ServerMessage) (recvMessage : Str) : Option (Int × Str) :=
  if m.action = getAction .clDisconnected then
    (stoi m.id).toOption.map fun clId => (clId, (leftMsg m).getConcatenatedMsg)
  else if m.action = getAction .unicastRepeated then
    (stoi m.id).toOption.map fun clId => (clId, recvMessage)
  else if m.action = getAction .svDisconnected then some (-1, recvMessage)
  else if m.action = getAction .initDone then
    (stoi m.id).toOption.map fun clId =>
      (clId, { m with action := getAction .unicastRepeated }.getConcatenatedMsg)
  else none

def relayed (text : Str) : Option (Int × Str) :=
  match ({} : ServerMessage).constructFromString text with
  | .ok m => relayOf m text
  | .error _ => none

theorem relayed_encoded {m : ServerMessage} (hm : m.Clean) :
    relayed m.getConcatenatedMsg = relayOf m m.getConcatenatedMsg := by
  rw [relayed, ServerMessage.constructFromString_getConcatenatedMsg {} hm]

section Publishing

variable {s : Shared cfg} {m : ServerMessage} {text : Str} {ids : List Int} {clId : Int}

-- the text goes out, or the listener throws first
def Publishes (s : Shared cfg) (r : EStateM.Result Exn (Shared cfg) Unit) (x : Option (Int × Str)) :
    Prop :=
  (final r).hist.broadcasts = s.hist.broadcasts ++ x.toList ∨
    (final r).hist.broadcasts = s.hist.broadcasts ∧ ∃ e u, r = .error e u

theorem publishes_error {e : Exn} {u : Shared cfg} (h : u.hist = s.hist) (x : Option (Int × Str)) :
    Publishes s (.error e u) x := .inr ⟨congrArg History.broadcasts h, e, u, rfl⟩

theorem unicastLoop_hist (exceptedId : Int) (msg : Str) (ids : List Int) :
    Frame (fun s : Shared cfg => s.hist) (unicastLoop exceptedId msg ids) :=
  .of_keeps fun _ => unicastLoop_keeps msg (fun _ _ hs => hs) exceptedId ids

theorem unicastRepeated_casts (exceptedId : Int) (ids : List Int) (msg : Str) (s : Shared cfg) :
    (final (unicastRepeated exceptedId ids msg s)).hist.broadcasts =
      s.hist.broadcasts ++ [(exceptedId, msg)] := by
  have h := unicastLoop_hist exceptedId msg ids { s with hist := { s.hist with
    broadcasts := s.hist.broadcasts ++ [(exceptedId, msg)] } }
  exact congrArg History.broadcasts h

theorem relay_publishes (x msg : Str) (ids : List Int) (s : Shared cfg) :
    Publishes s ((do unicastRepeated (← liftExcept (stoi x)) ids msg : Prog cfg Unit) s)
      ((stoi x).toOption.map fun clId => (clId, msg)) := by
  cases hx : stoi x with
  | error e => exact publishes_error rfl _
  | ok clId => exact .inl (unicastRepeated_casts clId ids msg s)

theorem processClDisconnected_publishes (hid : stoi m.id = .ok clId) (ids : List Int)
    (s : Shared cfg) :
    Publishes s (processClDisconnected m ids s) (some (clId, (leftMsg m).getConcatenatedMsg)) := by
  rw [processClDisconnected, hid, bind_of_ok (liftExcept_ok clId)]
  cases hc : s.sv.getClientRef clId with
  | none =>
    have hd : onServer (Server.disconnectClient clId) s =
        .error (.runtimeError "Client not found\n") s :=
      onServer_error (by simp [Server.disconnectClient, hc])
    rw [bind_of_error hd]
    exact publishes_error rfl _
  | some c =>
    rw [bind_of_ok (disconnectClient_run hc)]
    cases hi : stoi m.threadNumber with
    | error e => exact publishes_error rfl _
    | ok i =>
      rw [bind_of_ok (liftExcept_ok i)]
      have hread := workerAt_frame (fun u : Shared cfg => u) i
        { s with sv := s.sv.dropClient clId c.fd }
      cases hw : workerAt i { s with sv := s.sv.dropClient clId c.fd } with
      | error e u =>
        rw [hw] at hread
        obtain rfl : u = _ := hread
        rw [bind_of_error hw]
        exact publishes_error rfl _
      | ok w u =>
        rw [hw] at hread
        obtain rfl : u = _ := hread
        rw [bind_of_ok hw]
        split
        · exact publishes_error rfl _
        · split_ifs
          · exact publishes_error rfl _
          · rw [bind_of_ok (liftExcept_ok clId)]
            refine .inl ?_
            have hcast := unicastRepeated_casts clId ids (leftMsg m).getConcatenatedMsg
              { s with sv := s.sv.dropClient clId c.fd }
            cases hu : unicastRepeated clId ids (leftMsg m).getConcatenatedMsg
                { s with sv := s.sv.dropClient clId c.fd } with
            | error e v =>
              rw [hu] at hcast
              rw [bind_of_error hu]
              exact hcast
            | ok _ v =>
              rw [hu] at hcast
              rw [bind_of_ok hu, bind_of_ok (liftExcept_ok i)]
              have hframe := workerClientDisconnect_frame
                (f := fun u : Shared cfg => u.hist.broadcasts) (fun _ _ _ => rfl) i v
              exact hframe.trans hcast

theorem dispatch_publishes
    (hgone : m.action = getAction .clDisconnected → ∃ clId, stoi m.id = .ok clId) (text : Str)
    (ids : List Int) (s : Shared cfg) :
    Publishes s (dispatch m text ids s) (relayOf m text) := by
  unfold dispatch relayOf
  split_ifs with hleft hchat hsv hdone
  · obtain ⟨clId, hid⟩ := hgone hleft
    have h := processClDisconnected_publishes hid ids s
    rwa [hid]
  · exact relay_publishes m.id text ids s
  · exact .inl (unicastRepeated_casts (-1) ids text s)
  · exact relay_publishes m.id _ ids s
  · exact .inl (List.append_nil _).symm

theorem processMessage_publishes (hm : m.Clean)
    (hgone : m.action = getAction .clDisconnected → ∃ clId, stoi m.id = .ok clId)
    (hids : s.sv.getConnectedIDs ≠ []) :
    Publishes s (processMessage m.getConcatenatedMsg s) (relayed m.getConcatenatedMsg) := by
  rw [processMessage_eq hm, if_neg hids, relayed_encoded hm]
  exact dispatch_publishes hgone _ _ s

end Publishing

section Staying

variable {s t : Shared cfg} {m : ServerMessage} {x : Int}

theorem ids_of_core (h : core t = core s) : t.sv.ids = s.sv.ids := by
  simp only [core, Prod.mk.injEq] at h
  rw [Server.ids, Server.pairs, h.2.2.2.2.2.2, Server.ids, Server.pairs]

-- nobody leaves the table but whoever the message says is gone
theorem processMessage_stays (hm : m.Clean) (hx : x ∈ s.sv.ids) (hne : goneId m ≠ some x) :
    x ∈ (final (processMessage m.getConcatenatedMsg s)).sv.ids := by
  have same {p : Prog cfg Unit} (hp : Frame core p) : x ∈ (final (p s)).sv.ids := by
    rw [ids_of_core (hp s)]
    exact hx
  rw [processMessage_eq hm]
  split_ifs with hids
  · exact hx
  · unfold dispatch
    split_ifs with hgone hchat hsv hdone
    · rw [processClDisconnected]
      refine Frame.reads (P := fun u : Shared cfg => x ∈ u.sv.ids) (liftExcept_frame id _) hx
        fun clId hst => ?_
      obtain ⟨hst, _⟩ := liftExcept_ok_inv hst
      have hgone : goneId m = some clId := by simp [goneId, hgone, hst, Except.toOption]
      cases hc : s.sv.getClientRef clId with
      | none =>
        have hd : onServer (Server.disconnectClient clId) s =
            .error (.runtimeError "Client not found\n") s :=
          onServer_error (by simp [Server.disconnectClient, hc])
        rw [bind_of_error hd]
        exact hx
      | some c =>
        rw [bind_of_ok (disconnectClient_run hc)]
        have hstay : x ∈ (s.sv.dropClient clId c.fd).ids := by
          rw [ids_dropClient]
          refine (List.mem_erase_of_ne fun he => hne ?_).mpr hx
          rw [hgone, he]
        refine Eq.mpr (congrArg (x ∈ ·) (ids_of_core (Frame.bind (liftExcept_frame core _)
          (fun i => ?_) _))) hstay
        refine (workerAt_frame core i).bind fun w => ?_
        split
        · exact .throw _
        · split_ifs
          · exact .throw _
          · refine (liftExcept_frame core _).bind fun _ => (unicastRepeated_core _ _ _).bind
              fun _ => ?_
            exact (liftExcept_frame core _).bind fun _ => workerClientDisconnect_core _
    · exact same ((liftExcept_frame core _).bind fun _ => unicastRepeated_core _ _ _)
    · exact same (unicastRepeated_core _ _ _)
    · exact same ((liftExcept_frame core _).bind fun _ => unicastRepeated_core _ _ _)
    · exact hx

-- the listener takes the first message up, with all that follows from it
theorem listenerProcess_takes {L : Int} {rest : List Str} (hm : m.Clean)
    (hevfd : s.kernel.evfd L ≠ 0) (hq : s.mgr.qWorkerToListener = m.getConcatenatedMsg :: rest)
    (hids : s.sv.ids ≠ [])
    (hgone : m.action = getAction .clDisconnected → ∃ clId, stoi m.id = .ok clId) :
    (final (listenerProcessWorkerToListenerQ L s)).mgr.qWorkerToListener = rest ∧
      (∀ x ∈ s.sv.ids, goneId m ≠ some x →
        x ∈ (final (listenerProcessWorkerToListenerQ L s)).sv.ids) ∧
      Publishes s (listenerProcessWorkerToListenerQ L s) (relayed m.getConcatenatedMsg) := by
  have heq : listenerProcessWorkerToListenerQ L s =
      processMessage m.getConcatenatedMsg ((s.setEvfd L 0).setWorkerToListener rest) := by
    rw [listenerProcess_eq, if_neg hevfd, hq]
  rw [heq]
  refine ⟨processMessage_queue _ _, fun x hx hne => ?_, ?_⟩
  · exact processMessage_stays (s := (s.setEvfd L 0).setWorkerToListener rest) hm hx hne
  · rw [Server.ids_eq] at hids
    exact processMessage_publishes (s := (s.setEvfd L 0).setWorkerToListener rest) hm hgone hids

-- accepting a client removes nobody and tells nobody
theorem acceptBranch_stays {L : Int} {env : AcceptEnv}
    (hub : ∀ u, acceptBranch L env s ≠ .error .undefinedBehaviour u) :
    (∀ x ∈ s.sv.ids, x ∈ (final (acceptBranch L env s)).sv.ids) ∧
      (final (acceptBranch L env s)).hist.broadcasts = s.hist.broadcasts := by
  rcases acceptBranch_final L env s with ⟨u, hu⟩ | ⟨hbody, d, hd⟩
  · exact absurd hu (hub u)
  · rw [hd]
    rcases acceptBranchBody_cases L env s with ⟨u, hu⟩ | ⟨fds, hf⟩ | ⟨p, u, he, hsv, hh, _, _⟩
    · exact absurd hu (hbody u)
    · rw [hf]
      exact ⟨fun _ hx => hx, rfl⟩
    · change (∀ x ∈ s.sv.ids, x ∈ (final (acceptBranchBody L env s)).sv.ids) ∧
        (final (acceptBranchBody L env s)).hist.broadcasts = s.hist.broadcasts
      rw [hsv, hh]
      cases he with
      | refused fds => exact ⟨fun _ hx => hx, rfl⟩
      | entered hn hfull hmax =>
        refine ⟨fun x hx => ?_, rfl⟩
        obtain ⟨q, hq, rfl⟩ := List.mem_map.mp hx
        exact List.mem_map_of_mem
          ((pairs_enrol hfull _ _).mem_iff.mpr (List.mem_cons_of_mem _ hq))

end Staying

section Working

variable {s t s₁ s₂ : Shared cfg} {listenerEvfd clId : Int}

theorem Serve.broadcasts (hs : Serve listenerEvfd clId s t) :
    t.hist.broadcasts = s.hist.broadcasts := by
  have sent (u : Shared cfg) (msg : Str) :
      (u.sendDone clId msg).hist.broadcasts = u.hist.broadcasts := by
    unfold Shared.sendDone
    split <;> rfl
  cases hs with
  | mark _ | named _ _ _ | relayed _ _ _ _ => rfl
  | replied _ _ _ | flushed _ _ _ => exact sent _ _
  | greeted _ _ _ => exact (congrArg History.broadcasts (Shared.pushUp_hist _ _ _)).trans (sent _ _)

-- an iteration of worker_loop leaves the ids of the table and the broadcasts as they are
theorem Iterated.stays {ev : Events} {l : Launch} {w w' : WorkerState} {q : QueueAction}
    {kept : List (Int × Int)} (h : Iterated ev l w s w' t q s₁ s₂ kept)
    (hq : s₁.hist = s.hist) :
    t.sv.ids = s.sv.ids ∧ t.hist.broadcasts = s.hist.broadcasts := by
  have hserved : s₂.hist.broadcasts = s₁.hist.broadcasts := by
    refine ReflTransGen.head_induction_on h.served rfl fun hs _ ih => ?_
    obtain ⟨_, _, hs⟩ := hs
    exact ih.trans hs.broadcasts
  constructor
  · rw [Server.ids, Server.ids, h.removed.sv, servesAny_pairs h.served, pollQueue_sv h.polled]
  · rw [h.removed.hist, hserved, hq]

end Working

namespace Logged

open Entry

variable {g : Logged cfg} {t : State cfg} {es es' ns taken waiting : List Entry} {l : Label}

theorem entries_of_log (h : ∀ e ∈ es, e.2.Clean) (h' : ∀ e ∈ es', e.2.Clean)
    (heq : es.map push = es'.map push) : es = es' := by
  induction es generalizing es' with
  | nil => exact (List.map_eq_nil_iff.mp heq.symm).symm
  | cons e es ih =>
    obtain ⟨e', rest, rfl, he, hrest⟩ := List.map_eq_cons_iff.mp heq.symm
    obtain ⟨hc, h⟩ := List.forall_mem_cons.mp h
    obtain ⟨hc', h'⟩ := List.forall_mem_cons.mp h'
    have hm : e.2 = e'.2 := by
      have htext : e'.2.getConcatenatedMsg = e.2.getConcatenatedMsg := congrArg Push.text he
      have hdec := ServerMessage.constructFromString_getConcatenatedMsg {} hc'
      rw [htext, ServerMessage.constructFromString_getConcatenatedMsg {} hc] at hdec
      exact Except.ok.inj hdec
    have ho : e.1 = e'.1 := congrArg Push.origin he.symm
    rw [Prod.ext ho hm, ih h h' hrest.symm]

-- the journal of the next state has the new messages at its end
theorem Journal.extend (h : Journal g es) (hs : g.state.step l = some t)
    (hp : g.state.pushes l t = ns.map push) (hns : ∀ e ∈ ns, e.2.Clean) :
    Journal ⟨t, g.log ++ g.state.pushes l t⟩ (es ++ ns) := by
  have hstep : g.step l = some ⟨t, g.log ++ g.state.pushes l t⟩ := by simp [Logged.step, hs]
  obtain ⟨es', h'⟩ := h.step hstep
  obtain rfl : es' = es ++ ns := by
    refine entries_of_log h'.clean (fun e he => ?_) ?_
    · exact (List.mem_append.mp he).elim (h.clean e) (hns e)
    · rw [← h'.log, hp, h.log, List.map_append]
  exact h'

-- nobody says anything after the message that it has gone
def Parting (es : List Entry) : Prop :=
  es.Pairwise fun e e' => ∀ k clId, e.1 = some (k, clId) →
    e.2.action = getAction .clDisconnected → ∀ k', e'.1 ≠ some (k', clId)

-- the listener has taken the messages in the order in which they were pushed, and has told the
-- others what it makes of each; one that ends it may stay untold
structure Relaying (g : Logged cfg) (taken waiting : List Entry) : Prop where
  journal : Journal g (taken ++ waiting)
  queue : g.state.shared.mgr.qWorkerToListener = (waiting.map push).map Push.text
  known : ∀ e ∈ waiting, ∀ k clId, e.1 = some (k, clId) → clId ∈ g.state.shared.sv.ids
  parting : Parting waiting
  own : ∀ e ∈ taken ++ waiting, e.1 = none → g.state.Stopping
  heard : ∀ e ∈ taken, e.1 ≠ none
  told : g.state.shared.hist.broadcasts = taken.filterMap (fun e => relayed e.push.text) ∨
    g.state.listener = .ended ∧ ∃ rest e, taken = rest ++ [e] ∧
      g.state.shared.hist.broadcasts = rest.filterMap fun e => relayed e.push.text

theorem step_ended {s t : State cfg} (hl : s.listener = .ended) (hs : s.Sound)
    (ht : s.step l = some t) : t.listener = .ended := by
  obtain ⟨_, ⟨_, hls⟩ | ⟨k, th, hth, hts⟩⟩ := State.step_cases ht
  · cases l <;> simp [State.listenerStep, hl] at hls
  · cases State.threadStep_turned hs hth hts with
    | _ => exact hl

-- a step that takes nothing from the queue, with what it says
theorem Relaying.said (h : Relaying g taken waiting) (hs : g.state.step l = some t)
    (hp : g.state.pushes l t = ns.map push) (hns : ∀ e ∈ ns, e.2.Clean)
    (hq : t.shared.mgr.qWorkerToListener =
      g.state.shared.mgr.qWorkerToListener ++ (ns.map push).map Push.text)
    (hids : ∀ x ∈ g.state.shared.sv.ids, x ∈ t.shared.sv.ids)
    (hb : t.shared.hist.broadcasts = g.state.shared.hist.broadcasts)
    (hknown : ∀ e ∈ ns, ∀ k clId, e.1 = some (k, clId) → clId ∈ t.shared.sv.ids)
    (hpart : Parting (waiting ++ ns)) (hown : ∀ e ∈ ns, e.1 = none → t.Stopping) :
    Relaying ⟨t, g.log ++ g.state.pushes l t⟩ taken (waiting ++ ns) where
  journal := by
    rw [← List.append_assoc]
    exact h.journal.extend hs hp hns
  queue := by
    rw [List.map_append, List.map_append, ← h.queue]
    exact hq
  known := by
    intro e he k clId hk
    rcases List.mem_append.mp he with he | he
    · exact hids _ (h.known e he k clId hk)
    · exact hknown e he k clId hk
  parting := hpart
  own := by
    intro e he hnone
    rw [← List.append_assoc] at he
    rcases List.mem_append.mp he with he | he
    · have hsound := h.journal.audited.tabled.sound
      exact (State.step_stopping ⟨hsound, h.own e he hnone⟩ hs).1.2
    · exact hown e he hnone
  heard := h.heard
  told := by
    refine h.told.imp hb.trans fun ⟨hl, rest, e, htaken, htold⟩ => ?_
    exact ⟨step_ended hl h.journal.audited.tabled.sound hs, rest, e, htaken, hb.trans htold⟩

theorem Relaying.same (h : Relaying g taken waiting) (hs : g.state.step l = some t)
    (hp : g.state.pushes l t = [])
    (hq : t.shared.mgr.qWorkerToListener = g.state.shared.mgr.qWorkerToListener)
    (hids : ∀ x ∈ g.state.shared.sv.ids, x ∈ t.shared.sv.ids)
    (hb : t.shared.hist.broadcasts = g.state.shared.hist.broadcasts) :
    Relaying ⟨t, g.log ++ g.state.pushes l t⟩ taken waiting := by
  have hnone : g.state.pushes l t = ([] : List Entry).map push := hp
  have hsaid := h.said hs hnone (by simp) (by simpa using hq) hids hb (by simp)
    (by simpa using h.parting) (by simp)
  rwa [List.append_nil] at hsaid

theorem Journal.gone_id (h : Journal g es) {e : Entry} (he : e ∈ es) {k : Nat} {clId : Int}
    (hk : e.1 = some (k, clId)) (ha : e.2.action = getAction .clDisconnected) :
    stoi e.2.id = .ok clId := by
  have hword : e.2 ∈ word es k clId := mem_word.mpr (hk ▸ he)
  have hgiven := h.audited.given k clId (List.ne_nil_of_mem hword)
  obtain ⟨accepts, ups, ho, _⟩ := h.audited.tabled.sound.owned
  have := ho.counter
  rw [EventWord.id (h.audited.words k clId) hword (.inl ha)]
  refine stoi_toString ?_
  simp only [Decimal.InRange, Decimal.intMin, Decimal.intMax] at *
  omega

-- the listener takes the first message of the queue
theorem Relaying.took {e : Entry} (h : Relaying g taken (e :: waiting))
    (hs : g.state.step l = some t) (hp : g.state.pushes l t = [])
    (hq : t.shared.mgr.qWorkerToListener = (waiting.map push).map Push.text)
    (hids : ∀ x ∈ g.state.shared.sv.ids, goneId e.2 ≠ some x → x ∈ t.shared.sv.ids)
    (hrun : ¬ g.state.Stopping)
    (ht : t.shared.hist.broadcasts =
        g.state.shared.hist.broadcasts ++ (relayed e.push.text).toList ∨
      t.shared.hist.broadcasts = g.state.shared.hist.broadcasts ∧ t.listener = .ended) :
    Relaying ⟨t, g.log ++ g.state.pushes l t⟩ (taken ++ [e]) waiting := by
  have hmem : e ∈ taken ++ e :: waiting := List.mem_append_right _ List.mem_cons_self
  have hsome : e.1 ≠ none := fun hnone => hrun (h.own e hmem hnone)
  have happ : taken ++ [e] ++ waiting = taken ++ e :: waiting := by simp
  have htold : g.state.shared.hist.broadcasts =
      taken.filterMap fun e => relayed e.push.text :=
    h.told.resolve_right fun ⟨hl, _⟩ => hrun (.inl hl)
  obtain ⟨hpart, hparting⟩ := List.pairwise_cons.mp h.parting
  refine ⟨?_, hq, fun e' he' k' clId hk' => ?_, hparting, fun e' he' hnone => ?_, fun e' he' => ?_,
    ?_⟩
  · rw [happ]
    have hnone : g.state.pushes l t = ([] : List Entry).map push := hp
    simpa using h.journal.extend hs hnone (by simp)
  · refine hids clId (h.known e' (List.mem_cons_of_mem _ he') k' clId hk') fun hgone => ?_
    unfold goneId at hgone
    split_ifs at hgone with ha
    obtain ⟨⟨k, c⟩, hk⟩ := Option.ne_none_iff_exists'.mp hsome
    rw [h.journal.gone_id hmem hk ha] at hgone
    cases hgone
    exact hpart e' he' k clId hk ha k' hk'
  · rw [happ] at he'
    have hsound := h.journal.audited.tabled.sound
    exact (State.step_stopping ⟨hsound, h.own e' he' hnone⟩ hs).1.2
  · rcases List.mem_append.mp he' with he' | he'
    · exact h.heard e' he'
    · rw [List.mem_singleton.mp he']
      exact hsome
  · rcases ht with ht | ⟨ht, hl⟩
    · refine .inl (ht.trans ?_)
      rw [htold, List.filterMap_append]
      cases hr : relayed e.push.text <;> simp [hr]
    · exact .inr ⟨hl, taken, e, rfl, ht.trans htold⟩

theorem pushes_quiet {s : State cfg} (hl : ∀ k ev, l ≠ .iterate k ev)
    (hq : t.shared.mgr.qWorkerToListener <:+ s.shared.mgr.qWorkerToListener) :
    s.pushes l t = [] := by
  have h : pushedBy s.shared t.shared = [] := pushedBy_suffix hq
  cases l with
  | iterate k ev => exact absurd rfl (hl k ev)
  | _ => simp only [State.pushes, h, List.map_nil]

-- what an iteration says comes from clients it holds, and nobody speaks again who has gone
theorem Relaying.iterate (h : Relaying g taken waiting) {k : Nat} {ev : Events}
    (hs : g.state.step (.iterate k ev) = some t) :
    ∃ ns, Relaying ⟨t, g.log ++ g.state.pushes (.iterate k ev) t⟩ taken (waiting ++ ns) := by
  have htab := h.journal.audited.tabled
  obtain ⟨launch, w, hth, hterm, rfl⟩ := step_iterate hs
  cases hr : workerIteration ev launch w (g.state.withSends ev.sends).shared with
  | error e u =>
    have hrun : (g.state.withSends ev.sends).runWorker k ⟨launch, .waiting w⟩
        (workerIteration ev launch w) =
          { g.state.withSends ev.sends with terminated := true } := by
      rw [State.runWorker, hr]
    rw [hrun] at hs ⊢
    refine ⟨[], ?_⟩
    rw [List.append_nil]
    exact h.same hs (by simp [State.pushes, hth]) rfl (fun _ hx => hx) rfl
  | ok w' u =>
    have hrun : (g.state.withSends ev.sends).runWorker k ⟨launch, .waiting w⟩
        (workerIteration ev launch w) =
          { g.state with shared := u }.setPhase k ⟨launch, .waiting w⟩ (.head w') := by
      rw [State.runWorker, hr]
      rfl
    rw [hrun] at hs ⊢
    obtain ⟨q, kept, es₁, es₂, hturn, hlog, hqueue⟩ := turn_of_iteration htab hth hr
    obtain ⟨accepts, ups, ho, _⟩ := htab.sound.owned
    have ho₁ : Owned g.state.held accepts ups (g.state.withSends ev.sends).shared := ho.of_core rfl
    have hclean : w.buffers.serverMsg.Clean := htab.sound.clean _ (List.mem_of_getElem? hth)
    obtain ⟨q', s₁, s₂, kept', hit⟩ := workerIteration_ok ho₁.names hclean hr
    have hhist : s₁.hist = (g.state.withSends ev.sends).shared.hist := by
      obtain ⟨_, _, _, rfl⟩ := pollQueue_polled ho₁ hit.polled
      rfl
    obtain ⟨hids, hcasts⟩ := hit.stays hhist
    have hheld {clId : Int} (hc : clId ∈ w.clients.map Prod.snd) :
        clId ∈ g.state.held.map Prod.snd := by
      obtain ⟨p, hp, rfl⟩ := List.mem_map.mp hc
      exact List.mem_map_of_mem (List.mem_flatMap.mpr ⟨_, List.mem_of_getElem? hth, hp⟩)
    have hfrom {e : Int × ServerMessage} (he : e ∈ es₁ ++ es₂) : e.1 ∈ w.clients.map Prod.snd := by
      rcases List.mem_append.mp he with he | he
      · exact (hturn.events e he).1
      · exact (hturn.gone_once (List.mem_map_of_mem he)).1
    have horigin {e : Entry} (he : e ∈ ofThread k (es₁ ++ es₂)) {k' : Nat} {clId : Int}
        (hk : e.1 = some (k', clId)) : clId ∈ w.clients.map Prod.snd := by
      obtain ⟨x, hx, rfl⟩ := List.mem_map.mp he
      cases hk
      exact hfrom hx
    refine ⟨ofThread k (es₁ ++ es₂), h.said hs ?_ (fun e he => ?_) ?_ (fun x hx => ?_) hcasts
      (fun e he k' clId hk => ?_) ?_ fun e he hnone => ?_⟩
    · simp only [State.pushes, hth, hlog, State.setPhase, hterm, Bool.false_eq_true, if_false,
        tagged, ofThread, List.map_map]
      rfl
    · obtain ⟨x, hx, rfl⟩ := List.mem_map.mp he
      rcases List.mem_append.mp hx with hx | hx
      · exact (hturn.events x hx).2.clean
      · exact (hturn.leaves x hx).1
    · refine hqueue.trans (congrArg (g.state.shared.mgr.qWorkerToListener ++ ·) ?_)
      simp only [texts, ofThread, List.map_map]
      rfl
    · exact hids ▸ hx
    · obtain ⟨p, hp, rfl⟩ := List.mem_map.mp (horigin he hk)
      have hmem := (htab.listed hth).known p hp
      exact hids ▸ List.mem_map_of_mem (f := Prod.snd) hmem
    · refine List.pairwise_append.mpr ⟨h.parting, ?_, fun e he e' he' k₀ clId hk ha k' hk' => ?_⟩
      · refine List.pairwise_map.mpr (List.pairwise_append.mpr ⟨?_, ?_, ?_⟩)
        · refine List.pairwise_of_forall_mem_list fun e he _ _ k' clId _ ha => ?_
          exact absurd ha (event_not_gone (hturn.events e he).2)
        · have hnodup : (es₂.map Prod.fst).Nodup := by
            refine List.nodup_iff_count_le_one.mpr fun clId => ?_
            by_cases hc : clId ∈ es₂.map Prod.fst
            · exact (hturn.gone_once hc).2
            · rw [List.count_eq_zero.mpr hc]
              exact Nat.zero_le 1
          refine (List.pairwise_map.mp hnodup).imp fun hne k' clId hk _ k'' hk'' => ?_
          simp only [Option.some.injEq, Prod.mk.injEq] at hk hk''
          exact hne (hk.2.trans hk''.2.symm)
        · intro e he _ _ k' clId _ ha
          exact absurd ha (event_not_gone (hturn.events e he).2)
      · have hword : e.2 ∈ word (taken ++ waiting) k₀ clId :=
          mem_word.mpr (hk ▸ List.mem_append_right _ he)
        exact (h.journal.audited.gone k₀ clId e.2 hword ha).1 (hheld (horigin he' hk'))
    · obtain ⟨x, hx, rfl⟩ := List.mem_map.mp he
      cases hnone

theorem runListener_error {s : State cfg} {m : Prog cfg Unit} {next : ListenerPc} {e : Exn}
    {u : Shared cfg} (hr : m s.shared = .error e u) (he : e ≠ .undefinedBehaviour) :
    s.runListener m next = s.withShared u .ended := by
  unfold State.runListener
  rw [hr]
  cases e with
  | undefinedBehaviour => exact absurd rfl he
  | _ => rfl

theorem Relaying.takes {e : Entry} (h : Relaying g taken (e :: waiting)) {stdin socket : Bool}
    (hl : g.state.listener = .queue true stdin socket) (hs : g.state.step .queue = some t)
    (hp : g.state.pushes .queue t = [])
    (ht : t = g.state.runListener (listenerProcessWorkerToListenerQ g.state.listenerEvfd)
      (.stdin stdin socket))
    (hub : ∀ u, listenerProcessWorkerToListenerQ g.state.listenerEvfd g.state.shared ≠
      .error .undefinedBehaviour u)
    (hevfd : g.state.shared.kernel.evfd g.state.listenerEvfd ≠ 0) :
    Relaying ⟨t, g.log ++ g.state.pushes .queue t⟩ (taken ++ [e]) waiting := by
  have hmem : e ∈ taken ++ e :: waiting := List.mem_append_right _ List.mem_cons_self
  have hrun : ¬ g.state.Stopping := by simp [State.Stopping, hl]
  obtain ⟨⟨k, clId⟩, hk⟩ :=
    Option.ne_none_iff_exists'.mp fun hnone => hrun (h.own e hmem hnone)
  have hids : g.state.shared.sv.ids ≠ [] :=
    List.ne_nil_of_mem (h.known e List.mem_cons_self k clId hk)
  obtain ⟨hqueue, hstay, hpub⟩ := listenerProcess_takes (h.journal.clean e hmem) hevfd h.queue hids
    fun ha => ⟨clId, h.journal.gone_id hmem hk ha⟩
  obtain ⟨pc, hpc⟩ : ∃ pc, t = g.state.withShared
      (final (listenerProcessWorkerToListenerQ g.state.listenerEvfd g.state.shared)) pc := by
    rcases State.runListener_cases g.state
      (listenerProcessWorkerToListenerQ g.state.listenerEvfd) (.stdin stdin socket) with
      ⟨⟨u, hu⟩, _⟩ | ⟨_, pc, hpc⟩
    · exact absurd hu (hub u)
    · exact ⟨pc, ht.trans hpc⟩
  refine h.took hs hp ?_ (fun x hx hne => ?_) hrun ?_
  · rw [hpc]
    exact hqueue
  · rw [hpc]
    exact hstay x hx hne
  · rcases hpub with hb | ⟨hb, x, u, hx⟩
    · rw [hpc]
      exact .inl hb
    · have hne : x ≠ .undefinedBehaviour := by
        rintro rfl
        exact hub u hx
      rw [ht, runListener_error hx hne]
      rw [hx] at hb
      exact .inr ⟨hb, rfl⟩

theorem Relaying.listen (h : Relaying g taken waiting) {stdin socket : Bool}
    (hl : g.state.listener = .queue true stdin socket) (hs : g.state.step .queue = some t)
    (ht : t = g.state.runListener (listenerProcessWorkerToListenerQ g.state.listenerEvfd)
      (.stdin stdin socket)) :
    ∃ taken' waiting', Relaying ⟨t, g.log ++ g.state.pushes .queue t⟩ taken' waiting' := by
  have hp : g.state.pushes .queue t = [] := by
    refine pushes_quiet (by simp) ?_
    rw [ht]
    exact State.runListener_shared
      (P := fun u => u.mgr.qWorkerToListener <:+ g.state.shared.mgr.qWorkerToListener) _
      List.suffix_rfl fun _ => listenerProcess_queue _ _
  have idle {s : State cfg} (hx : t = s) (hq : s.shared.mgr = g.state.shared.mgr)
      (hsv : s.shared.sv = g.state.shared.sv) (hh : s.shared.hist = g.state.shared.hist) :
      ∃ taken' waiting', Relaying ⟨t, g.log ++ g.state.pushes .queue t⟩ taken' waiting' := by
    refine ⟨taken, waiting, h.same hs hp ?_ ?_ ?_⟩ <;> rw [hx]
    · rw [hq]
    · rw [hsv]
      exact fun _ => id
    · rw [hh]
  rcases State.runListener_cases g.state
    (listenerProcessWorkerToListenerQ g.state.listenerEvfd) (.stdin stdin socket) with
    ⟨_, hub⟩ | ⟨hub, pc, hpc⟩
  · exact idle (ht.trans hub) rfl rfl rfl
  · have heq := listenerProcess_eq g.state.listenerEvfd g.state.shared
    by_cases hevfd : g.state.shared.kernel.evfd g.state.listenerEvfd = 0
    · rw [heq, if_pos hevfd] at hpc
      exact idle (ht.trans hpc) rfl rfl rfl
    · cases waiting with
      | nil =>
        have hqueue : g.state.shared.mgr.qWorkerToListener = [] := h.queue
        rw [heq, if_neg hevfd, hqueue] at hpc
        exact idle (ht.trans hpc) rfl rfl rfl
      | cons e rest => exact ⟨_, _, h.takes hl hs hp ht hub hevfd⟩

theorem Relaying.accept (h : Relaying g taken waiting) {env : AcceptEnv}
    (hs : g.state.step (.accept env) = some t)
    (ht : t = g.state.runListener (acceptBranch g.state.listenerEvfd env) .head) :
    Relaying ⟨t, g.log ++ g.state.pushes (.accept env) t⟩ taken waiting := by
  have hstay : (t.shared.mgr.qWorkerToListener = g.state.shared.mgr.qWorkerToListener) ∧
      (∀ x ∈ g.state.shared.sv.ids, x ∈ t.shared.sv.ids) ∧
      t.shared.hist.broadcasts = g.state.shared.hist.broadcasts := by
    rw [ht]
    exact State.runListener_shared (P := fun u =>
      u.mgr.qWorkerToListener = g.state.shared.mgr.qWorkerToListener ∧
        (∀ x ∈ g.state.shared.sv.ids, x ∈ u.sv.ids) ∧
        u.hist.broadcasts = g.state.shared.hist.broadcasts) _ ⟨rfl, fun _ hx => hx, rfl⟩
      fun hub => ⟨acceptBranch_queue hub, acceptBranch_stays hub⟩
  exact h.same hs (pushes_quiet (by simp) (hstay.1 ▸ List.suffix_rfl)) hstay.1 hstay.2.1 hstay.2.2

-- the message that the server stops is the last one, and nobody takes it
theorem Relaying.stdin (h : Relaying g taken waiting) {buffer : Option Str} {socket : Bool}
    (hl : g.state.listener = .stdin true socket) (hs : g.state.step (.stdin buffer) = some t) :
    ∃ waiting', Relaying ⟨t, g.log ++ g.state.pushes (.stdin buffer) t⟩ taken waiting' := by
  obtain ⟨_, _, rfl⟩ := State.step_stdin_true hl hs
  have hub (u : Shared cfg) : stdinBranch buffer g.state.shared ≠ .error .undefinedBehaviour u := by
    intro hu
    by_cases hquit : buffer = some quitMsg
    · subst hquit
      rcases State.stdinBranch_quit g.state.shared with ⟨_, what, hr⟩ | ⟨_, v, hr, _⟩
      · rw [hr] at hu
        cases hu
      · rw [hr] at hu
        cases hu
    · rw [stdinBranch, if_neg hquit] at hu
      cases hu
  obtain ⟨pc, hpc⟩ : ∃ pc, g.state.runListener (stdinBranch buffer) (.accept socket) =
      g.state.withShared (final (stdinBranch buffer g.state.shared)) pc := by
    rcases State.runListener_cases g.state (stdinBranch buffer) (.accept socket) with
      ⟨⟨u, hu⟩, _⟩ | ⟨_, hpc⟩
    · exact absurd hu (hub u)
    · exact hpc
  obtain ⟨d, hd | hd⟩ := stdinBranch_final buffer g.state.shared
  · rw [hpc, hd] at hs ⊢
    exact ⟨waiting, h.same hs (pushes_quiet (by simp) List.suffix_rfl) rfl (fun _ hx => hx) rfl⟩
  · have hquit : buffer = some quitMsg := by
      by_contra hne
      have hsame : final (stdinBranch buffer g.state.shared) = g.state.shared := by
        rw [stdinBranch, if_neg hne]
        rfl
      have hlen := congrArg (fun u : Shared cfg => u.mgr.qWorkerToListener.length)
        (hsame.symm.trans hd)
      simp [Shared.pushWorkerToListener, Shared.setDone] at hlen
    subst hquit
    have hstop := (State.quit_stopping h.journal.audited.tabled.sound hl hs).1
    rw [hpc, hd] at hs hstop ⊢
    refine ⟨waiting ++ [(none, svDisconnectedMsg)], h.said hs ?_ (by simp; decide) rfl
      (fun _ hx => hx) rfl (by simp) ?_ fun _ _ _ => hstop⟩
    · have hq : pushedBy g.state.shared ((g.state.shared.setDone d).pushWorkerToListener
          svDisconnectedMsg.getConcatenatedMsg) = [svDisconnectedMsg.getConcatenatedMsg] :=
        pushedBy_eq rfl
      exact congrArg (List.map fun text => (⟨none, text⟩ : Push)) hq
    · refine List.pairwise_append.mpr ⟨h.parting, List.pairwise_singleton _ _, ?_⟩
      intro e _ e' he' k clId _ _ k' hk'
      rw [List.mem_singleton.mp he'] at hk'
      cases hk'

theorem Relaying.step {g' : Logged cfg} (h : Relaying g taken waiting)
    (ht : g.step l = some g') : ∃ taken' waiting', Relaying g' taken' waiting' := by
  obtain ⟨t, hst, rfl⟩ := Option.map_eq_some_iff.mp ht
  have hsound := h.journal.audited.tabled.sound
  have moved (hshared : t.shared.mgr = g.state.shared.mgr) (hsv : t.shared.sv = g.state.shared.sv)
      (hh : t.shared.hist = g.state.shared.hist) (hl : ∀ k ev, l ≠ .iterate k ev) :
      ∃ taken' waiting', Relaying ⟨t, g.log ++ g.state.pushes l t⟩ taken' waiting' := by
    refine ⟨taken, waiting, h.same hst (pushes_quiet hl (by rw [hshared])) ?_ ?_ ?_⟩
    · rw [hshared]
    · rw [hsv]
      exact fun _ => id
    · rw [hh]
  obtain ⟨_, ⟨_, hls⟩ | ⟨k, th, hth, hts⟩⟩ := State.step_cases hst
  · cases l with
    | poll evfd stdin socket =>
      cases State.listenerStep_turn hls with
      | moved pc _ _ => exact moved rfl rfl rfl (by simp)
    | queue =>
      cases State.listenerStep_turn hls with
      | moved pc _ _ => exact moved rfl rfl rfl (by simp)
      | queue hl => exact h.listen hl hst rfl
    | stdin buffer =>
      simp only [State.listenerStep] at hls
      split at hls
      · rename_i stdin socket hl
        cases stdin with
        | true => exact ⟨taken, h.stdin hl hst⟩
        | false =>
          cases hls
          exact moved rfl rfl rfl (by simp)
      · cases hls
    | accept env =>
      cases State.listenerStep_turn hls with
      | moved pc _ _ => exact moved rfl rfl rfl (by simp)
      | accept _ _ => exact ⟨taken, waiting, h.accept hst rfl⟩
    | _ => cases hls
  · cases l with
    | iterate i ev =>
      obtain ⟨ns, hns⟩ := h.iterate hst
      exact ⟨taken, waiting ++ ns, hns⟩
    | _ =>
      cases State.threadStep_turned hsound hth hts with
      | _ => exact moved rfl rfl rfl (by simp)

theorem init_relaying (cfg : Config) (svSocket listenerEvfd : Nat) :
    Relaying (init cfg svSocket listenerEvfd) [] [] where
  journal := init_journal cfg svSocket listenerEvfd
  queue := rfl
  known := by simp
  parting := List.Pairwise.nil
  own := by simp
  heard := by simp
  told := .inl rfl

-- the broadcasts are made of what the workers pushed, in that order, nothing left out; what is
-- still queued was said by clients that the listener has not removed
theorem relayed_inOrder {svSocket listenerEvfd : Nat} {g : Logged cfg}
    (h : Reach step (fun _ _ => True) (init cfg svSocket listenerEvfd) g) :
    ∃ taken waiting : List Push, g.log = taken ++ waiting ∧
      g.state.shared.mgr.qWorkerToListener = waiting.map Push.text ∧
      (∀ p ∈ taken, p.origin ≠ none) ∧
      (∀ p ∈ waiting, ∀ k clId, p.origin = some (k, clId) →
        (g.state.shared.sv.getClientRef clId).isSome) ∧
      (g.state.shared.hist.broadcasts = taken.filterMap (fun p => relayed p.text) ∨
        g.state.listener = .ended ∧ ∃ rest p, taken = rest ++ [p] ∧
          g.state.shared.hist.broadcasts = rest.filterMap fun p => relayed p.text) := by
  obtain ⟨taken, waiting, hr⟩ := h.invariant
    (I := fun g => ∃ taken waiting, Relaying g taken waiting)
    ⟨[], [], init_relaying cfg svSocket listenerEvfd⟩
    fun _ _ _ ⟨_, _, hr⟩ _ ht => hr.step ht
  refine ⟨taken.map push, waiting.map push, ?_, hr.queue, fun p hp => ?_, fun p hp k clId hk => ?_,
    ?_⟩
  · rw [hr.journal.log, List.map_append]
  · obtain ⟨e, he, rfl⟩ := List.mem_map.mp hp
    exact hr.heard e he
  · obtain ⟨e, he, rfl⟩ := List.mem_map.mp hp
    obtain ⟨q, hq, rfl⟩ := List.mem_map.mp (hr.known e he k clId hk)
    obtain ⟨accepts, ups, ho, _⟩ := hr.journal.audited.tabled.sound.owned
    obtain ⟨c, hc, _⟩ := getClientRef_of_pair ho.nodup hq
    rw [hc]
    rfl
  · have hmap (es : List Entry) : es.filterMap (fun e => relayed e.push.text) =
        (es.map push).filterMap fun p => relayed p.text := by
      rw [List.filterMap_map]
      rfl
    refine hr.told.imp (fun htold => ?_) fun ⟨hl, rest, e, htaken, htold⟩ => ⟨hl, rest.map push,
      push e, ?_, ?_⟩
    · rw [htold, hmap]
    · rw [htaken, List.map_append, List.map_singleton]
    · rw [htold, hmap]

-- a client has joined, chatted and left, and the listener has taken the first message
def heardOnce : List Label := visit ++ listenerRound true false (connection 9 10)

theorem relayed_inOrder_heardOnce : ∃ g : Logged Config.deployed,
    g.log.length = 3 ∧ g.state.listener = .head ∧ g.state.shared.hist.broadcasts.length = 1 ∧
    ∃ taken waiting : List Push, g.log = taken ++ waiting ∧
      g.state.shared.mgr.qWorkerToListener = waiting.map Push.text ∧
      g.state.shared.hist.broadcasts = taken.filterMap fun p => relayed p.text := by
  have hrun : (run step (init Config.deployed 3 4) heardOnce).any (fun g =>
      g.log.length = 3 && g.state.listener = .head &&
        g.state.shared.hist.broadcasts.length = 1) = true := by decide +kernel
  obtain ⟨g, hr, hg⟩ := exists_of_run (fun _ _ => trivial) hrun
  simp only [Bool.and_eq_true, decide_eq_true_eq] at hg
  obtain ⟨⟨hlog, hl⟩, hb⟩ := hg
  obtain ⟨taken, waiting, hsplit, hqueue, _, _, htold⟩ := relayed_inOrder hr
  refine ⟨g, hlog, hl, hb, taken, waiting, hsplit, hqueue, htold.resolve_right fun ⟨hend, _⟩ => ?_⟩
  rw [hl] at hend
  cases hend

end Logged

end ChatApp
