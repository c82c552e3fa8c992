import ChatApp.EventWords

namespace ChatApp

open Effects Relation Runs

variable {cfg : Config}

open Entry

section Steps

variable {s t : State cfg}

theorem uneventful_threads (h : ∀ (k : Nat) th', t.threads[k]? = some th' →
      ∃ th, s.threads[k]? = some th ∧ ∀ p ∈ th'.held, p ∈ th.held)
    (hl : t.threads.map Thread.launch = s.threads.map Thread.launch)
    (hq : t.shared.mgr.qListenerToWorker = s.shared.mgr.qListenerToWorker)
    (hsv : t.shared.sv = s.shared.sv) : Uneventful s t where
  threads := fun k th' hth' => .inl (h k th' hth')
  launches := by
    intro k th hth
    have hk := congrArg (·[k]?) hl
    simp only [List.getElem?_map, hth, Option.map_some] at hk
    obtain ⟨th', hth', he⟩ := Option.map_eq_some_iff.mp hk
    exact ⟨th', hth', he⟩
  queue := fun i fd clId hm _ => .inl (hq ▸ hm)
  table := fun m hm => .inl (hsv ▸ hm)
  counter := by rw [hsv]

theorem uneventful_same (ht : t.threads = s.threads)
    (hq : t.shared.mgr.qListenerToWorker = s.shared.mgr.qListenerToWorker)
    (hsv : t.shared.sv = s.shared.sv) : Uneventful s t :=
  uneventful_threads (fun _ th hth => ⟨th, ht ▸ hth, fun _ hp => hp⟩) (by rw [ht]) hq hsv

theorem uneventful_setPhase {k : Nat} {th : Thread} {p : Phase} (hth : s.threads[k]? = some th)
    (hp : ∀ q ∈ ({ th with phase := p } : Thread).held, q ∈ th.held) :
    Uneventful s (s.setPhase k th p) := by
  have hlt := (List.getElem?_eq_some_iff.mp hth).1
  refine uneventful_threads (fun k' th' hth' => ?_) ?_ rfl rfl
  · by_cases hk : k' = k
    · subst hk
      have hset : (s.setPhase k' th p).threads[k']? = some { th with phase := p } :=
        List.getElem?_set_self hlt
      obtain rfl : { th with phase := p } = th' := Option.some.inj (hset.symm.trans hth')
      exact ⟨th, hth, hp⟩
    · have hset : (s.setPhase k th p).threads[k']? = s.threads[k']? :=
        List.getElem?_set_ne (Ne.symm hk)
      exact ⟨th', hset ▸ hth', fun _ hq => hq⟩
  · change (s.threads.set k { th with phase := p }).map Thread.launch = _
    have hl : (s.threads.map Thread.launch)[k]? = some th.launch := by simp [hth]
    rw [List.map_set]
    exact State.set_self hl

theorem uneventful_withShared {sh : Shared cfg} {new : List Launch} (h : s.Sound) (pc : ListenerPc)
    (hs : sh.kernel.spawned = s.shared.kernel.spawned ++ new)
    (hnew : ∀ l ∈ new, 0 ≤ l.clId → l.clId = s.shared.sv.clientDataId)
    (hq : ∀ i fd clId, acceptText i fd clId ∈ sh.mgr.qListenerToWorker → 0 ≤ clId →
      acceptText i fd clId ∈ s.shared.mgr.qListenerToWorker ∨ clId = s.shared.sv.clientDataId)
    (htable : ∀ m ∈ sh.sv.roster, m ∈ s.shared.sv.roster ∨
      m.id = s.shared.sv.clientDataId ∧ m.state = initialState)
    (hcounter : s.shared.sv.clientDataId ≤ sh.sv.clientDataId) :
    Uneventful s (s.withShared sh pc) := by
  have hthreads := State.threads_withShared h hs pc
  refine ⟨fun k th' hth' => ?_, fun k th hth => ⟨th, ?_, rfl⟩, hq, htable, hcounter⟩
  · rw [hthreads, List.getElem?_append] at hth'
    split_ifs at hth' with hk
    · exact .inl ⟨th', hth', fun _ hp => hp⟩
    · obtain ⟨l, hl, rfl⟩ := List.mem_map.mp (List.mem_of_getElem? hth')
      refine .inr fun p hp => ?_
      rw [List.mem_singleton.mp hp]
      exact hnew l hl
  · rw [hthreads, List.getElem?_append_left (List.getElem?_eq_some_iff.mp hth).1, hth]

theorem uneventful_runListener {m : Prog cfg Unit} {next : ListenerPc}
    (h : ∀ pc, (∀ u, m s.shared ≠ .error .undefinedBehaviour u) →
      Uneventful s (s.withShared (final (m s.shared)) pc)) : Uneventful s (s.runListener m next) := by
  rcases State.runListener_cases s m next with ⟨_, he⟩ | ⟨hub, pc, he⟩
  · rw [he]
    exact uneventful_same rfl rfl rfl
  · rw [he]
    exact h pc hub

theorem roster_enrol {sv : Server cfg} (hfull : sv.clients.isFull = false) (n : Nat) (color : Int)
    {m : Member} (hm : m ∈ (sv.enrol n color).roster) :
    m ∈ sv.roster ∨ m.id = sv.clientDataId ∧ m.state = initialState := by
  obtain ⟨c, hc, rfl⟩ := List.mem_map.mp hm
  rcases List.mem_cons.mp ((values_enrol hfull n color).mem_iff.mp hc) with rfl | hc
  · exact .inr ⟨rfl, rfl⟩
  · exact .inl (List.mem_map_of_mem hc)

theorem uneventful_placed {p : Int × Int} {u sh : Shared cfg} {L : Int} (h : s.Sound) (pc : ListenerPc)
    (hp : Placed u p.1 p.2 L sh) (hsp : u.kernel.spawned = s.shared.kernel.spawned)
    (hdown : u.mgr.qListenerToWorker = s.shared.mgr.qListenerToWorker)
    (hid : 0 ≤ p.2 → p.2 = s.shared.sv.clientDataId)
    (htable : ∀ m ∈ sh.sv.roster, m ∈ s.shared.sv.roster ∨
      m.id = s.shared.sv.clientDataId ∧ m.state = initialState)
    (hcounter : s.shared.sv.clientDataId ≤ sh.sv.clientDataId) :
    Uneventful s (s.withShared sh pc) := by
  cases hp with
  | @queued i _ hq hs =>
    have hspawn : sh.kernel.spawned = s.shared.kernel.spawned ++ [] := by
      rw [hs, hsp, List.append_nil]
    refine uneventful_withShared h pc hspawn (by simp) (fun j fd clId hm h0 => ?_) htable hcounter
    rw [hq, hdown] at hm
    rcases List.mem_append.mp hm with hm | hm
    · exact .inl hm
    · obtain ⟨_, _, rfl⟩ := acceptText_inj.mp (List.mem_singleton.mp hm)
      exact .inr (hid h0)
  | nowhere hq hs =>
    have hspawn : sh.kernel.spawned = s.shared.kernel.spawned ++ [] := by
      rw [hs, hsp, List.append_nil]
    refine uneventful_withShared h pc hspawn (by simp) (fun j fd clId hm _ => .inl ?_) htable hcounter
    rwa [hq, hdown] at hm
  | launched _ _ hq hs =>
    rw [hsp] at hs
    refine uneventful_withShared h pc hs (fun l hl h0 => ?_) (fun j fd clId hm _ => .inl ?_) htable
      hcounter
    · rw [List.mem_singleton.mp hl] at h0 ⊢
      exact hid h0
    · rwa [hq, hdown] at hm

theorem uneventful_accept {env : AcceptEnv} {next : ListenerPc} (h : s.Sound) :
    Uneventful s (s.runListener (acceptBranch s.listenerEvfd env) next) := by
  refine uneventful_runListener fun pc hub => ?_
  rcases acceptBranch_final s.listenerEvfd env s.shared with ⟨u, hu⟩ | ⟨hbody, d, hd⟩
  · exact absurd hu (hub u)
  · rw [hd]
    rcases acceptBranchBody_cases s.listenerEvfd env s.shared with
      ⟨u, hu⟩ | ⟨fds, hf⟩ | ⟨p, u, he, hsv, _, _, hp⟩
    · exact absurd hu (hbody u)
    · rw [hf]
      exact uneventful_withShared h pc (List.append_nil _).symm (by simp) (fun _ _ _ hm _ => .inl hm)
        (fun _ hm => .inl hm) (le_refl _)
    · have hp' : Placed u p.1 p.2 s.listenerEvfd
          { final (acceptBranchBody s.listenerEvfd env s.shared) with
            sv := { (final (acceptBranchBody s.listenerEvfd env s.shared)).sv with done := d } } := by
        cases hp with
        | queued hi hq hs => exact .queued hi hq hs
        | nowhere hq hs => exact .nowhere hq hs
        | launched hi hev hq hs => exact .launched hi hev hq hs
      have hroster : ({ (final (acceptBranchBody s.listenerEvfd env s.shared)).sv with
          done := d } : Server cfg).roster = u.sv.roster := by
        rw [hsv]
        rfl
      have hcount : ({ (final (acceptBranchBody s.listenerEvfd env s.shared)).sv with
          done := d } : Server cfg).clientDataId = u.sv.clientDataId := by rw [hsv]
      cases he with
      | refused fds =>
        refine uneventful_placed h pc hp' rfl rfl (fun h0 => absurd h0 (by decide)) ?_ ?_
        · rw [hroster]
          exact fun _ hm => .inl hm
        · rw [hcount]
          exact le_refl _
      | @entered n hn hfull _ =>
        refine uneventful_placed h pc hp' rfl rfl (fun _ => rfl) ?_ ?_
        · rw [hroster]
          exact fun _ hm => roster_enrol hfull n env.color hm
        · rw [hcount]
          exact Nat.le_succ _

theorem disconnectClient_counter (clId : Int) :
    Frame (fun s : Shared cfg => s.sv.clientDataId) (onServer (Server.disconnectClient clId)) := by
  intro s
  cases hc : s.sv.getClientRef clId with
  | none => simp [onServer, Server.disconnectClient, hc]
  | some c =>
    rw [disconnectClient_run hc]
    rfl

theorem unicastRepeated_counter (exceptedId : Int) (ids : List Int) (msg : Str) :
    Frame (fun s : Shared cfg => s.sv.clientDataId) (unicastRepeated exceptedId ids msg) :=
  fun s => congrArg (fun c => c.2.2.2.2.1) (unicastRepeated_core exceptedId ids msg s)

theorem processMessage_counter (msg : Str) :
    Frame (fun s : Shared cfg => s.sv.clientDataId) (processMessage msg) := by
  refine (liftExcept_frame _ _).bind fun m => Frame.get.bind fun s => ?_
  simp only
  split_ifs
  · exact .pure _
  · unfold dispatch
    split_ifs
    · refine (liftExcept_frame _ _).bind fun _ => (disconnectClient_counter _).bind fun _ => ?_
      refine (liftExcept_frame _ _).bind fun _ => (workerAt_frame _ _).bind fun x => ?_
      split
      · exact .throw _
      · split_ifs
        · exact .throw _
        · refine (liftExcept_frame _ _).bind fun _ => (unicastRepeated_counter _ _ _).bind fun _ => ?_
          exact (liftExcept_frame _ _).bind fun _ => workerClientDisconnect_frame (fun _ _ _ => rfl) _
    · exact (liftExcept_frame _ _).bind fun _ => unicastRepeated_counter _ _ _
    · exact unicastRepeated_counter _ _ _
    · exact (liftExcept_frame _ _).bind fun _ => unicastRepeated_counter _ _ _
    · exact .pure _

theorem listenerProcess_counter (L : Int) :
    Frame (fun s : Shared cfg => s.sv.clientDataId) (listenerProcessWorkerToListenerQ L) := by
  intro s
  simp only [listenerProcess_eq]
  split_ifs
  · rfl
  · split
    · rfl
    · exact processMessage_counter _ _

theorem uneventful_queue {next : ListenerPc} (h : s.Sound) :
    Uneventful s (s.runListener (listenerProcessWorkerToListenerQ s.listenerEvfd) next) := by
  refine uneventful_runListener fun pc _ => ?_
  obtain ⟨accepts, ups, ho, _⟩ := h.owned
  obtain ⟨ups', ho', hsub, hs⟩ := listenerProcess_owned s.listenerEvfd ho
  have hspawn := hs.trans (List.append_nil s.shared.kernel.spawned).symm
  refine uneventful_withShared h pc hspawn (by simp) (fun i fd clId hm _ => .inl ?_)
    (fun m hm => .inl (hsub m hm)) (le_of_eq (listenerProcess_counter _ _).symm)
  rwa [ho'.downQueue, ← ho.downQueue] at hm

theorem uneventful_stdin {buffer : Option Str} {next : ListenerPc} (h : s.Sound) :
    Uneventful s (s.runListener (stdinBranch buffer) next) := by
  refine uneventful_runListener fun pc _ => ?_
  obtain ⟨d, hd⟩ := stdinBranch_final buffer s.shared
  rcases hd with hd | hd <;> rw [hd]
  · exact uneventful_withShared h pc (List.append_nil s.shared.kernel.spawned).symm (by simp)
      (fun _ _ _ hm _ => .inl hm) (fun _ hm => .inl hm) (le_refl _)
  · exact uneventful_withShared h pc (List.append_nil s.shared.kernel.spawned).symm (by simp)
      (fun _ _ _ hm _ => .inl hm) (fun _ hm => .inl hm) (le_refl _)

theorem listenerStep_uneventful {l : Label} (h : s.Sound) (ht : s.listenerStep l = some t) :
    Uneventful s t := by
  cases State.listenerStep_turn ht with
  | moved _ _ _ => exact uneventful_same rfl rfl rfl
  | queue _ => exact uneventful_queue h
  | stdin _ _ => exact uneventful_stdin h
  | accept _ _ => exact uneventful_accept h

theorem listenerProcess_queue (L : Int) (s : Shared cfg) :
    (final (listenerProcessWorkerToListenerQ L s)).mgr.qWorkerToListener <:+
      s.mgr.qWorkerToListener := by
  rw [listenerProcess_eq]
  split_ifs
  · exact List.suffix_rfl
  · split
    · exact List.suffix_rfl
    · rename_i msg rest hq
      have hp := processMessage_queue msg ((s.setEvfd L 0).setWorkerToListener rest)
      simp only at hp
      rw [hp, hq]
      exact List.suffix_cons _ _

-- all the listener queues itself is that it stops
theorem listenerStep_queue {l : Label} (ht : s.listenerStep l = some t) :
    t.shared.mgr.qWorkerToListener <:+ s.shared.mgr.qWorkerToListener ∨
      t.shared.mgr.qWorkerToListener =
        s.shared.mgr.qWorkerToListener ++ [svDisconnectedMsg.getConcatenatedMsg] := by
  have run {m : Prog cfg Unit} (next : ListenerPc)
      (hm : (∀ u, m s.shared ≠ .error .undefinedBehaviour u) →
        (final (m s.shared)).mgr.qWorkerToListener <:+ s.shared.mgr.qWorkerToListener) :
      (s.runListener m next).shared.mgr.qWorkerToListener <:+ s.shared.mgr.qWorkerToListener :=
    State.runListener_shared
      (P := fun u => u.mgr.qWorkerToListener <:+ s.shared.mgr.qWorkerToListener) next
      List.suffix_rfl hm
  cases State.listenerStep_turn ht with
  | moved _ _ _ => exact .inl List.suffix_rfl
  | queue _ => exact .inl (run _ fun _ => listenerProcess_queue _ _)
  | stdin buffer _ =>
    refine State.runListener_shared (P := fun u =>
      u.mgr.qWorkerToListener <:+ s.shared.mgr.qWorkerToListener ∨ u.mgr.qWorkerToListener =
        s.shared.mgr.qWorkerToListener ++ [svDisconnectedMsg.getConcatenatedMsg]) _
      (.inl List.suffix_rfl) fun _ => ?_
    obtain ⟨d, hd | hd⟩ := stdinBranch_final buffer s.shared
    · rw [hd]
      exact .inl List.suffix_rfl
    · rw [hd]
      exact .inr rfl
  | accept _ _ => exact .inl (run _ fun hub => (acceptBranch_queue hub) ▸ List.suffix_rfl)

end Steps

namespace Logged

-- the log of a run: what it says about the clients, and that the queue is its end
structure Journal (g : Logged cfg) (es : List Entry) : Prop where
  audited : Audited g.state es
  log : g.log = es.map push
  queue : g.state.shared.mgr.qWorkerToListener <:+ g.log.map Push.text
  clean : ∀ e ∈ es, e.2.Clean
  own : ∀ e ∈ es, e.1 = none → e.2 = svDisconnectedMsg

section Steps

variable {g : Logged cfg} {t : State cfg} {es : List Entry} {l : Label}

theorem Journal.append {ns : List Entry} (h : Journal g es) (ha : Audited t (es ++ ns))
    (hp : g.state.pushes l t = ns.map push)
    (hq : t.shared.mgr.qWorkerToListener <:+
      g.state.shared.mgr.qWorkerToListener ++ (ns.map push).map Push.text)
    (hns : ∀ e ∈ ns, e.2.Clean ∧ (e.1 = none → e.2 = svDisconnectedMsg)) :
    Journal ⟨t, g.log ++ g.state.pushes l t⟩ (es ++ ns) where
  audited := ha
  log := by rw [hp, h.log, List.map_append]
  queue := by
    obtain ⟨read, hread⟩ := h.queue
    rw [hp, List.map_append, ← hread, List.append_assoc]
    exact hq.trans (List.suffix_append _ _)
  clean := by
    intro e he
    rcases List.mem_append.mp he with he | he
    · exact h.clean e he
    · exact (hns e he).1
  own := by
    intro e he
    rcases List.mem_append.mp he with he | he
    · exact h.own e he
    · exact (hns e he).2

theorem pushedBy_suffix {s u : Shared cfg}
    (h : u.mgr.qWorkerToListener <:+ s.mgr.qWorkerToListener) : pushedBy s u = [] :=
  List.drop_of_length_le h.length_le

theorem Journal.uneventful (h : Journal g es) (hq : Uneventful g.state t) (ht : t.Tabled)
    (hl : g.state.pushes l t = (pushedBy g.state.shared t.shared).map fun text => ⟨none, text⟩)
    (hqueue : t.shared.mgr.qWorkerToListener <:+ g.state.shared.mgr.qWorkerToListener ∨
      t.shared.mgr.qWorkerToListener = g.state.shared.mgr.qWorkerToListener ++
        [svDisconnectedMsg.getConcatenatedMsg]) :
    ∃ es', Journal ⟨t, g.log ++ g.state.pushes l t⟩ es' := by
  rcases hqueue with hsuf | heq
  · refine ⟨_, h.append (h.audited.uneventful hq ht (n := []) (by simp)) ?_ ?_ (by simp)⟩
    · rw [hl, pushedBy_suffix hsuf]
      rfl
    · simpa using hsuf
  · refine ⟨_, h.append (h.audited.uneventful hq ht (n := [(none, svDisconnectedMsg)]) (by simp)) ?_ ?_
      ?_⟩
    · rw [hl, pushedBy_eq heq]
      rfl
    · rw [heq]
      exact List.suffix_rfl
    · intro e he
      rw [List.mem_singleton.mp he]
      exact ⟨by decide, fun _ => rfl⟩

theorem step_iterate {s : State cfg} {k : Nat} {ev : Events} (ht : s.step (.iterate k ev) = some t) :
    ∃ launch w, s.threads[k]? = some ⟨launch, .waiting w⟩ ∧ s.terminated = false ∧
      t = (s.withSends ev.sends).runWorker k ⟨launch, .waiting w⟩ (workerIteration ev launch w) := by
  have hterm := (State.step_cases ht).1
  simp only [State.step, hterm, Bool.false_eq_true, if_false] at ht
  obtain ⟨⟨launch, phase⟩, hth, ht⟩ := Option.bind_eq_some_iff.mp ht
  simp only [State.threadStep] at ht
  split at ht
  · rename_i w
    obtain rfl := Option.some.inj ht
    exact ⟨launch, w, hth, hterm, rfl⟩
  · cases ht

theorem Journal.iterate (h : Journal g es) {k : Nat} {ev : Events}
    (ht : g.state.step (.iterate k ev) = some t) :
    ∃ es', Journal ⟨t, g.log ++ g.state.pushes (.iterate k ev) t⟩ es' := by
  have htab := State.step_tabled h.audited.tabled ht
  obtain ⟨launch, w, hth, hterm, rfl⟩ := step_iterate ht
  cases hr : workerIteration ev launch w (g.state.withSends ev.sends).shared with
  | error e u =>
    have hrun : (g.state.withSends ev.sends).runWorker k ⟨launch, .waiting w⟩
        (workerIteration ev launch w) =
          { g.state.withSends ev.sends with terminated := true } := by
      rw [State.runWorker, hr]
    rw [hrun] at htab ⊢
    refine ⟨_, h.append (h.audited.uneventful (uneventful_same rfl rfl rfl) htab (n := []) (by simp)) ?_ ?_
      (by simp)⟩
    · simp [State.pushes, hth]
    · rw [List.map_nil, List.map_nil, List.append_nil]
      exact List.suffix_rfl
  | ok w' u =>
    have hrun : (g.state.withSends ev.sends).runWorker k ⟨launch, .waiting w⟩
        (workerIteration ev launch w) =
          { g.state with shared := u }.setPhase k ⟨launch, .waiting w⟩ (.head w') := by
      rw [State.runWorker, hr]
      rfl
    rw [hrun] at htab ⊢
    obtain ⟨q, kept, es₁, es₂, hturn, hlog, hqueue⟩ :=
      turn_of_iteration h.audited.tabled hth hr
    refine ⟨_, h.append (h.audited.turn hturn htab) ?_ ?_ fun e he => ?_⟩
    · simp only [State.pushes, hth, hlog, State.setPhase, hterm, Bool.false_eq_true, if_false,
        tagged, ofThread, List.map_map]
      rfl
    · change u.mgr.qWorkerToListener <:+ _
      rw [hqueue]
      simp only [ofThread, texts, List.map_map]
      exact List.suffix_rfl
    · obtain ⟨x, hx, rfl⟩ := List.mem_map.mp he
      refine ⟨?_, fun hnone => by cases hnone⟩
      rcases List.mem_append.mp hx with hx | hx
      · exact (hturn.events x hx).2.clean
      · exact (hturn.leaves x hx).1

theorem Journal.step {g' : Logged cfg} (h : Journal g es) (ht : g.step l = some g') :
    ∃ es', Journal g' es' := by
  obtain ⟨t, hst, rfl⟩ := Option.map_eq_some_iff.mp ht
  have htab := State.step_tabled h.audited.tabled hst
  have hsound := h.audited.tabled.sound
  have thread {k : Nat} {th : Thread} (hth : g.state.threads[k]? = some th)
      (hturn : State.Turned g.state k th l t) (hl : ∀ i ev, l ≠ .iterate i ev)
      (hpush : g.state.pushes l t =
        (pushedBy g.state.shared t.shared).map fun text => ⟨none, text⟩) :
      ∃ es', Journal ⟨t, g.log ++ g.state.pushes l t⟩ es' := by
    cases hturn with
    | started hphase =>
      refine h.uneventful (uneventful_setPhase hth ?_) htab hpush (.inl List.suffix_rfl)
      intro q hq
      simpa only [Thread.held, hphase] using hq
    | waits hphase _ _ =>
      refine h.uneventful (uneventful_setPhase hth ?_) htab hpush (.inl List.suffix_rfl)
      intro q hq
      simpa only [Thread.held, hphase] using hq
    | iterated _ _ _ => exact absurd rfl (hl _ _)
    | left _ _ =>
      refine h.uneventful (uneventful_setPhase hth ?_) htab hpush (.inl List.suffix_rfl)
      exact fun q hq => absurd hq List.not_mem_nil
    | threw _ => exact h.uneventful (uneventful_same rfl rfl rfl) htab hpush (.inl List.suffix_rfl)
  cases l with
  | iterate k ev => exact h.iterate hst
  | poll evfd stdin socket | queue | stdin buffer | accept env =>
    obtain ⟨_, ⟨_, hls⟩ | ⟨k, th, hth, hts⟩⟩ := State.step_cases hst
    · exact h.uneventful (listenerStep_uneventful hsound hls) htab rfl (listenerStep_queue hls)
    · exact thread hth (State.threadStep_turned hsound hth hts) nofun rfl
  | start i frame | wait i | leave i =>
    obtain ⟨_, ⟨_, hls⟩ | ⟨k, th, hth, hts⟩⟩ := State.step_cases hst
    · cases hls
    · exact thread hth (State.threadStep_turned hsound hth hts) nofun rfl

end Steps

theorem init_journal (cfg : Config) (svSocket listenerEvfd : Nat) :
    Journal (init cfg svSocket listenerEvfd) [] where
  audited := by
    refine ⟨State.init_tabled cfg svSocket listenerEvfd, fun _ _ => ?_, ?_, ?_, ?_, ?_, ?_⟩
    · exact (Talk.eventWord (.inl rfl))
    all_goals simp [init, State.init, word]
  log := rfl
  queue := List.suffix_rfl
  clean := by simp
  own := by simp

theorem journal_of_reach {C : Logged cfg → Label → Prop} {svSocket listenerEvfd : Nat}
    {g : Logged cfg} (h : Reach step C (init cfg svSocket listenerEvfd) g) :
    ∃ es, Journal g es :=
  h.invariant (I := fun g => ∃ es, Journal g es) ⟨[], init_journal cfg svSocket listenerEvfd⟩
    fun _ _ _ ⟨_, hj⟩ _ ht => hj.step ht

-- what worker_loop of thread k pushed on account of a client
def pushesOf (g : Logged cfg) (k : Nat) (clId : Int) : List Str :=
  (g.log.filter (·.origin = some (k, clId))).map Push.text

theorem Journal.pushesOf {g : Logged cfg} {es : List Entry} (h : Journal g es) (k : Nat)
    (clId : Int) : g.pushesOf k clId = (word es k clId).map ServerMessage.getConcatenatedMsg := by
  rw [Logged.pushesOf, h.log, List.filter_map, List.map_map, word, List.map_map]
  rfl

theorem events_wellFormed {svSocket listenerEvfd : Nat} {g : Logged cfg}
    (h : Reach step (fun _ _ => True) (init cfg svSocket listenerEvfd) g) (k : Nat) (clId : Int) :
    ∃ events : List ServerMessage,
      g.pushesOf k clId = events.map ServerMessage.getConcatenatedMsg ∧
      (∀ m ∈ events, m.Clean) ∧ EventWord clId events ∧
      ∀ m ∈ events, m.action = getAction .clDisconnected →
        (∃ th, g.state.threads[k]? = some th ∧
          m.threadNumber = Decimal.toString th.launch.personalIndex) ∧
        ∀ th ∈ g.state.threads, clId ∉ th.clients.map Prod.snd := by
  obtain ⟨es, hj⟩ := journal_of_reach h
  refine ⟨word es k clId, hj.pushesOf k clId, fun m hm => hj.clean _ (mem_word.mp hm),
    hj.audited.words k clId, fun m hm ha => ⟨hj.audited.indexed k clId m hm ha, ?_⟩⟩
  intro th hth hc
  obtain ⟨p, hp, rfl⟩ := List.mem_map.mp hc
  have hp : p ∈ g.state.clients := List.mem_flatMap.mpr ⟨th, hth, hp⟩
  have hheld := (State.clients_sublist g.state).subset hp
  exact (hj.audited.gone k p.2 m hm ha).1 (List.mem_map_of_mem hheld)

-- a client joins, says something and leaves
def visit : List Label :=
  listenerRound false true (connection 5 6) ++ [.start 0 freshFrame] ++ handshake 0 5 ++
  workerRound 0 (receiving 5 (encoded { action := getAction .unicastRepeated })) ++
  workerRound 0 (receiving 5 .zero)

theorem events_wellFormed_visit : ∃ g : Logged Config.deployed, (g.pushesOf 0 0).length = 3 ∧
    ∃ events : List ServerMessage,
      g.pushesOf 0 0 = events.map ServerMessage.getConcatenatedMsg ∧ EventWord 0 events := by
  have hrun : (run step (init Config.deployed 3 4) visit).any
      (fun g => (g.pushesOf 0 0).length = 3) = true := by decide +kernel
  obtain ⟨g, hr, hg⟩ := exists_of_run (fun _ _ => trivial) hrun
  obtain ⟨events, he, _, hw, _⟩ := events_wellFormed hr 0 0
  exact ⟨g, of_decide_eq_true hg, events, he, hw⟩

end Logged

end ChatApp
