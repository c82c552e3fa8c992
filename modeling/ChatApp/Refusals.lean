import ChatApp.SystemInvariant

namespace ChatApp

open Effects Runs

variable {cfg : Config}

-- entries that are taken, launches that are counted, entries that there are
structure LaunchCount (m : ServerThreadManager cfg) : Prop where
  occupied : m.workerThreads.values.length ≤ m.nrOfLaunchedThreads
  bound : m.nrOfLaunchedThreads ≤ cfg.maxNrOfThreads
  free : m.workerThreads.values = [] → m.nrOfLaunchedThreads < cfg.maxNrOfThreads

section Launches

variable {s t : Shared cfg} {m m' : ServerThreadManager cfg} {i : Nat} {w : WorkerEntry}

theorem LaunchCount.congr (h : LaunchCount m)
    (hw : m'.workerThreads.values.length = m.workerThreads.values.length)
    (hn : m'.nrOfLaunchedThreads = m.nrOfLaunchedThreads) : LaunchCount m' := by
  refine ⟨?_, ?_, fun h0 => ?_⟩
  · rw [hw, hn]
    exact h.occupied
  · rw [hn]
    exact h.bound
  · rw [hn]
    rw [h0, List.length_nil] at hw
    exact h.free (List.length_eq_zero_iff.mp hw.symm)

theorem choose_launch_lt {n : Nat} (h : LaunchCount m) (hc : choose m = .launch n) :
    m.nrOfLaunchedThreads < cfg.maxNrOfThreads := by
  have hpos := cfg.threads_pos
  have hb := h.bound
  rw [choose] at hc
  by_cases h0 : m.nrOfLaunchedThreads = 0
  · omega
  · rw [if_neg h0] at hc
    cases hm : getMinAndIdx m.workerThreads with
    | none => exact h.free (getMinAndIdx_none_iff.mp hm)
    | some b =>
      rw [hm] at hc
      simp only at hc
      split_ifs at hc
      omega

theorem choose_ne_allLaunched (h : LaunchCount m) : choose m ≠ .allLaunched := by
  intro hc
  have hb := h.bound
  rw [choose] at hc
  by_cases h0 : m.nrOfLaunchedThreads = 0
  · rw [if_pos h0] at hc
    cases hc
  · rw [if_neg h0] at hc
    cases hm : getMinAndIdx m.workerThreads with
    | none =>
      rw [hm] at hc
      cases hc
    | some b =>
      rw [hm] at hc
      simp only at hc
      split_ifs at hc
      omega

theorem LaunchCount.release (h : LaunchCount s.mgr)
    (hw : s.mgr.workerThreads.entries[i]? = some (some w)) : LaunchCount (s.release i w).mgr := by
  by_cases h1 : w.count = 1
  · have hlen := Slots.length_set_none hw
    have ho := h.occupied
    have hb := h.bound
    have hpos := cfg.threads_pos
    constructor
    · simp only [Shared.release, h1, if_true]
      omega
    · simp only [Shared.release, h1, if_true]
      omega
    · simp only [Shared.release, h1, if_true]
      omega
  · refine h.congr ?_ ?_
    · simp only [Shared.release, h1, if_false]
      exact Slots.length_set_some hw _
    · simp only [Shared.release, h1, if_false]

theorem launchCount_outside : Outside fun s : Shared cfg => LaunchCount s.mgr :=
  ⟨fun _ _ h => h, fun _ _ h => h, fun _ _ _ hw _ h => h.release hw⟩

theorem LaunchCount.spawned {old : Option WorkerEntry} {l : Launch} {n : Nat}
    (h : LaunchCount s.mgr) (hlt : s.mgr.nrOfLaunchedThreads < cfg.maxNrOfThreads)
    (hold : s.mgr.workerThreads.entries[s.mgr.nrOfLaunchedThreads]? = some old)
    (hw : (s.spawn l old).mgr.workerThreads.entries[n]? = some (some w)) :
    LaunchCount ((s.spawn l old).counted n w).mgr := by
  have hlen : ((s.spawn l old).counted n w).mgr.workerThreads.values.length =
      (s.spawn l old).mgr.workerThreads.values.length := Slots.length_set_some hw _
  have hmem : (s.spawn l old).mgr.workerThreads.values ≠ [] :=
    List.ne_nil_of_mem (Slots.mem_values_iff.mpr ⟨n, hw⟩)
  have hle : (s.spawn l old).mgr.workerThreads.values.length ≤
      s.mgr.workerThreads.values.length + 1 := by
    cases old with
    | none => exact (Slots.values_set_of_none hold _).length_eq.le
    | some v => exact (Slots.length_set_some hold _).le.trans (Nat.le_succ _)
  have ho := h.occupied
  refine ⟨?_, hlt, fun h0 => ?_⟩
  · rw [hlen]
    exact hle.trans (Nat.succ_le_succ ho)
  · rw [h0] at hlen
    exact absurd (List.length_eq_zero_iff.mp hlen.symm) hmem

theorem LaunchCount.assigned (h : LaunchCount s.mgr)
    (hw : s.mgr.workerThreads.entries[i]? = some (some w)) (socket clId : Int) :
    LaunchCount (final (assignTo i socket clId s)).mgr := by
  obtain ⟨q, hq⟩ := assignTo_final hw socket clId
  rw [hq]
  exact h.congr (Slots.length_set_some hw _) rfl

theorem processNewClient_launchCount (h : LaunchCount s.mgr) (socket clId L eventfd : Int) :
    (∃ u, processNewClient socket clId L eventfd s = .error .undefinedBehaviour u) ∨
      LaunchCount (final (processNewClient socket clId L eventfd s)).mgr := by
  rw [processNewClient_eq]
  cases hc : choose s.mgr with
  | launch n =>
    rcases emplaceNewWorker_cases socket clId L eventfd n s with
      ⟨_, he⟩ | ⟨_, hub | ⟨old, w, hold, hw, he⟩⟩
    · simp only [he]
      exact .inr h
    · exact .inl hub
    · simp only [he]
      exact .inr (h.spawned (choose_launch_lt h hc) hold hw)
  | assign i =>
    obtain ⟨w, hw⟩ := choose_entry (.inl hc)
    exact .inr (h.assigned hw socket clId)
  | raise i =>
    obtain ⟨w, hw⟩ := choose_entry (.inr hc)
    have hr : LaunchCount s.raiseMax.mgr := h.congr rfl rfl
    exact .inr (LaunchCount.assigned (s := s.raiseMax) hr hw socket clId)
  | overLimit => exact .inr (h.congr rfl rfl)
  | allLaunched => exact .inr h

end Launches

-- accept_client admits nobody, or process_new_client finds the server full
def Refused (L : Int) (env : AcceptEnv) (s : Shared cfg) : Prop :=
  (∃ t, acceptClient env s = .ok (-1, -1) t) ∨
    ∃ what t, acceptBranchBody L env s = .error (.serverFullException what) t

def slotCounts (s : Shared cfg) : List (Option Nat) :=
  s.mgr.workerThreads.entries.map (Option.map WorkerEntry.count)

structure Untouched (s t : Shared cfg) : Prop where
  max : t.mgr.maxClientsPerThread = s.mgr.maxClientsPerThread
  launched : t.mgr.nrOfLaunchedThreads = s.mgr.nrOfLaunchedThreads
  counts : slotCounts t = slotCounts s
  table : t.sv.clients = s.sv.clients
  queue : t.mgr.qListenerToWorker = s.mgr.qListenerToWorker

-- no worker starts with, and no queued ACCEPT carries, a negative socket or id
structure RealClients (s : Shared cfg) : Prop where
  spawned : ∀ l ∈ s.kernel.spawned, 0 ≤ l.clFd ∧ 0 ≤ l.clId
  queued : ∀ i fd clId, acceptText i fd clId ∈ s.mgr.qListenerToWorker → 0 ≤ fd ∧ 0 ≤ clId

def Launching (m : ServerThreadManager cfg) : Prop := ∃ n, choose m = .launch n

section Refusal

variable {s u : Shared cfg} {env : AcceptEnv} {L : Int}

theorem assign_touches {i : Nat} {w : WorkerEntry} {t : Shared cfg}
    (hw : s.mgr.workerThreads.entries[i]? = some (some w)) (socket clId : Int)
    (ht : t.mgr = (final (assignTo i socket clId s)).mgr) : ¬ Untouched s t := by
  intro hu
  obtain ⟨q, hq⟩ := assignTo_final hw socket clId
  have hc := hu.counts
  rw [slotCounts, slotCounts, ht, hq] at hc
  have hi := congrArg (fun l => l[i]?) hc
  have hlt := Slots.lt_of_get hw
  have hset := Slots.get_set s.mgr.workerThreads i i (some { w with count := w.count + 1 })
  rw [if_pos ⟨rfl, hlt⟩] at hset
  simp only [List.getElem?_map, hset, hw, Option.map_some, Option.some.injEq] at hi
  omega

theorem raise_touches {t : Shared cfg}
    (ht : t.mgr.maxClientsPerThread = s.mgr.maxClientsPerThread + 1) : ¬ Untouched s t := by
  intro hu
  have := hu.max
  omega

-- process_new_client changes nothing only where get_evfd throws before anything else is done
theorem processNewClient_untouched (h : LaunchCount s.mgr) {socket clId eventfd : Int}
    {t : Shared cfg} (hub : ∀ u, processNewClient socket clId L eventfd s ≠
      .error .undefinedBehaviour u)
    (ht : t.mgr = (final (processNewClient socket clId L eventfd s)).mgr)
    (hclients : t.sv.clients = s.sv.clients) :
    Untouched s t ↔ Launching s.mgr ∧ eventfd < 0 := by
  rw [processNewClient_eq] at ht hub
  have other {c : Choice} (hc : choose s.mgr = c) (hn : ∀ n, c ≠ .launch n) :
      ¬ (Launching s.mgr ∧ eventfd < 0) := by
    rintro ⟨⟨n, hl⟩, _⟩
    exact hn n (hc.symm.trans hl)
  cases hc : choose s.mgr with
  | launch n =>
    simp only [hc] at ht hub
    rcases emplaceNewWorker_cases socket clId L eventfd n s with
      ⟨hneg, he⟩ | ⟨hpos, ⟨u, hu⟩ | ⟨old, w, _, _, he⟩⟩
    · rw [he, final_error] at ht
      refine iff_of_true ⟨?_, ?_, ?_, hclients, ?_⟩ ⟨⟨n, hc⟩, hneg⟩
      · rw [ht]
      · rw [ht]
      · rw [slotCounts, slotCounts, ht]
      · rw [ht]
    · exact absurd hu (hub u)
    · rw [he, final_ok] at ht
      refine iff_of_false (fun hu => ?_) (by omega)
      have hl : t.mgr.nrOfLaunchedThreads = s.mgr.nrOfLaunchedThreads + 1 :=
        congrArg ServerThreadManager.nrOfLaunchedThreads ht
      have := hu.launched
      omega
  | assign i =>
    simp only [hc] at ht
    obtain ⟨w, hw⟩ := choose_entry (.inl hc)
    exact iff_of_false (assign_touches hw socket clId ht) (other hc (by simp))
  | raise i =>
    simp only [hc] at ht
    obtain ⟨w, hw⟩ := choose_entry (.inr hc)
    obtain ⟨q, hq⟩ := assignTo_final (s := s.raiseMax) hw socket clId
    rw [hq] at ht
    have hmax := congrArg ServerThreadManager.maxClientsPerThread ht
    exact iff_of_false (raise_touches hmax) (other hc (by simp))
  | overLimit =>
    simp only [hc] at ht
    have hmax := congrArg ServerThreadManager.maxClientsPerThread ht
    exact iff_of_false (raise_touches hmax) (other hc (by simp))
  | allLaunched => exact absurd hc (choose_ne_allLaunched h)

theorem processNewClient_eventfd {n : Nat} {socket clId eventfd : Int}
    (hc : choose s.mgr = .launch n) (he : eventfd < 0) :
    processNewClient socket clId L eventfd s = .error (.runtimeError "eventfd error\n") s := by
  rw [processNewClient_eq, hc]
  exact emplaceNewWorker_eventfd he

theorem processNewClient_full (h : LaunchCount s.mgr) {socket clId eventfd : Int} {what : String}
    {t : Shared cfg}
    (hf : processNewClient socket clId L eventfd s = .error (.serverFullException what) t) :
    choose s.mgr = .overLimit := by
  rw [processNewClient_eq] at hf
  have assign {i : Nat} {v : Shared cfg} {w : WorkerEntry}
      (hw : v.mgr.workerThreads.entries[i]? = some (some w)) :
      assignTo i socket clId v ≠ .error (.serverFullException what) t := by
    rw [assignTo_eq hw, assignClientToWorker_eq]
    split_ifs <;> simp
  cases hc : choose s.mgr with
  | launch n =>
    rw [hc] at hf
    rcases emplaceNewWorker_cases socket clId L eventfd n s with
      ⟨_, he⟩ | ⟨_, ⟨u, he⟩ | ⟨old, w, _, _, he⟩⟩
    all_goals
      simp only [he] at hf
      cases hf
  | assign i =>
    rw [hc] at hf
    obtain ⟨w, hw⟩ := choose_entry (.inl hc)
    exact absurd hf (assign hw)
  | raise i =>
    rw [hc] at hf
    obtain ⟨w, hw⟩ := choose_entry (.inr hc)
    exact absurd hf (assign (v := s.raiseMax) hw)
  | overLimit => rfl
  | allLaunched => exact absurd hc (choose_ne_allLaunched h)

theorem Untouched.of_same {t : Shared cfg} (h : Untouched s t) (hm : u.mgr = s.mgr)
    (hclients : u.sv.clients = s.sv.clients) : Untouched u t := by
  refine ⟨?_, ?_, ?_, ?_, ?_⟩
  · rw [hm]
    exact h.max
  · rw [hm]
    exact h.launched
  · exact h.counts.trans (by rw [slotCounts, slotCounts, hm])
  · rw [hclients]
    exact h.table
  · rw [hm]
    exact h.queue

theorem refused_untouched (h : LaunchCount s.mgr) (hr : Refused L env s)
    (hub : ∀ u, acceptBranch L env s ≠ .error .undefinedBehaviour u) :
    Untouched s (final (acceptBranch L env s)) ↔ Launching s.mgr ∧ env.eventfd < 0 := by
  rcases acceptBranch_final L env s with ⟨u, hu⟩ | ⟨hbody, d, hd⟩
  · exact absurd hu (hub u)
  · cases ha : acceptClient env s with
    | error e u =>
      rcases hr with ⟨t, ht⟩ | ⟨what, t, ht⟩
      · rw [ha] at ht
        cases ht
      · rw [acceptBranchBody, bind_of_error ha] at ht
        cases ht
        rcases (acceptClient_throws ha).2 with h | ⟨_, h⟩ <;> cases h
    | ok p u =>
      have hrun : acceptBranchBody L env s = processNewClient p.1 p.2 L env.eventfd u :=
        bind_of_ok ha
      rw [hrun] at hd hbody
      have hm : (final (acceptBranch L env s)).mgr =
          (final (processNewClient p.1 p.2 L env.eventfd u)).mgr := by rw [hd]
      cases acceptClient_entered ha with
      | refused fds =>
        have hsv := (processNewClient_final.resolve_left (not_exists.mpr hbody)).1
        have hclients : (final (acceptBranch L env s)).sv.clients = s.sv.clients := by
          rw [hd, hsv]
          rfl
        have hiff := processNewClient_untouched (s := s.withClosed fds) h hbody hm hclients
        exact ⟨fun hu => hiff.mp (hu.of_same rfl rfl), fun hc => (hiff.mpr hc).of_same rfl rfl⟩
      | @entered n hn hfull hmax =>
        rcases hr with ⟨t, ht⟩ | ⟨what, t, ht⟩
        · rw [ha] at ht
          cases ht
        · rw [hrun] at ht
          have hover : choose s.mgr = .overLimit :=
            processNewClient_full (s := s.enrol n env.color) h ht
          rw [processNewClient_eq, show choose (s.enrol n env.color).mgr = .overLimit from hover] at hm
          refine iff_of_false (raise_touches (congrArg ServerThreadManager.maxClientsPerThread hm)) ?_
          rintro ⟨⟨k, hk⟩, _⟩
          rw [hover] at hk
          cases hk

theorem refused_defined {n : Nat} (hr : Refused L env s) (hn : choose s.mgr = .launch n)
    (he : env.eventfd < 0) (v : Shared cfg) :
    acceptBranchBody L env s ≠ .error .undefinedBehaviour v := by
  cases ha : acceptClient env s with
  | error e u =>
    rcases hr with ⟨t, ht⟩ | ⟨what, t, ht⟩
    · rw [ha] at ht
      cases ht
    · rw [ht]
      simp
  | ok p u =>
    have hm : u.mgr = s.mgr := by
      cases acceptClient_entered ha with
      | refused fds => rfl
      | entered _ _ _ => rfl
    have hfail : processNewClient p.1 p.2 L env.eventfd u =
      .error (.runtimeError "eventfd error\n") u := processNewClient_eventfd (hm ▸ hn) he
    rw [acceptBranchBody, bind_of_ok ha, hfail]
    simp

end Refusal

section Real

variable {s t u : Shared cfg} {env : AcceptEnv} {L : Int}

theorem RealClients.congr (h : RealClients s) (hs : t.kernel.spawned = s.kernel.spawned)
    (hq : ∀ x ∈ t.mgr.qListenerToWorker, x ∈ s.mgr.qListenerToWorker) : RealClients t := by
  refine ⟨?_, fun i fd clId hm => h.queued i fd clId (hq _ hm)⟩
  rw [hs]
  exact h.spawned

theorem RealClients.placed {fd clId : Int} (h : RealClients u) (hfd : 0 ≤ fd) (hid : 0 ≤ clId)
    (hp : Placed u fd clId L t) : RealClients t := by
  cases hp with
  | @queued i _ hq hs =>
    refine ⟨?_, fun j fd' clId' hm => ?_⟩
    · rw [hs]
      exact h.spawned
    · rw [hq] at hm
      rcases List.mem_append.mp hm with hm | hm
      · exact h.queued j fd' clId' hm
      · obtain ⟨_, rfl, rfl⟩ := acceptText_inj.mp (List.mem_singleton.mp hm)
        exact ⟨hfd, hid⟩
  | nowhere hq hs => exact h.congr hs fun x hx => hq ▸ hx
  | launched _ _ hq hs =>
    refine ⟨fun l hl => ?_, fun j fd' clId' hm => h.queued j fd' clId' (hq ▸ hm)⟩
    rw [hs] at hl
    rcases List.mem_append.mp hl with hl | hl
    · exact h.spawned l hl
    · rw [List.mem_singleton.mp hl]
      exact ⟨hfd, hid⟩

theorem acceptBranch_real (h : RealClients s)
    (hc : Refused L env s → Launching s.mgr ∧ env.eventfd < 0)
    (hub : ∀ u, acceptBranch L env s ≠ .error .undefinedBehaviour u) :
    RealClients (final (acceptBranch L env s)) := by
  rcases acceptBranch_final L env s with ⟨u, hu⟩ | ⟨hbody, d, hd⟩
  · exact absurd hu (hub u)
  · have hreal : RealClients (final (acceptBranchBody L env s)) := by
      cases ha : acceptClient env s with
      | error e u =>
        obtain ⟨⟨fds, rfl⟩, _⟩ := acceptClient_throws ha
        rw [acceptBranchBody, bind_of_error ha]
        exact h.congr rfl fun _ hx => hx
      | ok p u =>
        have hrun : acceptBranchBody L env s = processNewClient p.1 p.2 L env.eventfd u :=
          bind_of_ok ha
        rw [hrun] at hbody ⊢
        have hplaced := (processNewClient_final.resolve_left (not_exists.mpr hbody)).2.2.2
        cases acceptClient_entered ha with
        | refused fds =>
          obtain ⟨⟨n, hn⟩, heq⟩ := hc (.inl ⟨_, ha⟩)
          rw [processNewClient_eventfd (s := s.withClosed fds) hn heq]
          exact h.congr rfl fun _ hx => hx
        | @entered n hn hfull hmax =>
          have hu : RealClients (s.enrol n env.color) := h.congr rfl fun _ hx => hx
          exact hu.placed (by omega) (by omega) hplaced
    rw [hd]
    exact hreal.congr rfl fun _ hx => hx

end Real

namespace State

variable {s t : State cfg}

-- one connection attempt in listener_loop
def Attempt (s : State cfg) (l : Label) (env : AcceptEnv) : Prop :=
  l = .accept env ∧ s.listener = .accept true ∧ Refused s.listenerEvfd env s.shared

-- an attempt to which the language gives no meaning leaves nothing as it was
def Traceless (s : State cfg) (l : Label) (t : State cfg) : Prop :=
  RealClients t.shared ∧
    ∀ env, s.Attempt l env → t.terminated = false ∧ Untouched s.shared t.shared

def EventfdFails (s : State cfg) (l : Label) (_ : State cfg) : Prop :=
  ∀ env, s.Attempt l env → Launching s.shared.mgr ∧ env.eventfd < 0

theorem acceptBranch_launchCount {s : Shared cfg} (h : LaunchCount s.mgr) (L : Int)
    (env : AcceptEnv) : (∃ u, acceptBranch L env s = .error .undefinedBehaviour u) ∨
      LaunchCount (final (acceptBranch L env s)).mgr := by
  rcases acceptBranch_final L env s with hub | ⟨hbody, d, hd⟩
  · exact .inl hub
  · right
    rw [hd]
    change LaunchCount (final (acceptBranchBody L env s)).mgr
    cases ha : acceptClient env s with
    | error e u =>
      obtain ⟨⟨fds, rfl⟩, _⟩ := acceptClient_throws ha
      rw [acceptBranchBody, bind_of_error ha]
      exact h
    | ok p u =>
      have hu : LaunchCount u.mgr := by
        cases acceptClient_entered ha with
        | refused fds => exact h
        | entered _ _ _ => exact h
      have hrun : acceptBranchBody L env s = processNewClient p.1 p.2 L env.eventfd u :=
        bind_of_ok ha
      rw [hrun] at hbody ⊢
      exact (processNewClient_launchCount hu p.1 p.2 L env.eventfd).resolve_left
        (not_exists.mpr hbody)

theorem listenerProcess_keeps {I : Shared cfg → Prop} (h : Outside I) (L : Int)
    (hpop : ∀ s q, I s → I ((s.setEvfd L 0).setWorkerToListener q))
    (hread : ∀ s, I s → I (s.setEvfd L 0)) :
    Keeps I (listenerProcessWorkerToListenerQ L : Prog cfg Unit) := by
  intro s hs
  rw [listenerProcess_eq]
  split_ifs
  · exact hs
  · split
    · exact hread s hs
    · exact h.processMessage _ _ (hpop s _ hs)

theorem real_outside : Outside (@RealClients cfg) :=
  ⟨fun _ _ h => h.congr rfl fun _ hx => hx, fun _ _ h => h.congr rfl fun _ hx => hx,
    fun _ _ _ _ _ h => h.congr rfl fun _ hx => hx⟩

-- a worker changes the two queues alone, and puts nothing into its own
theorem threadStep_mgr {l : Label} {k : Nat} {th : Thread} (hs : s.Sound)
    (hth : s.threads[k]? = some th) (ht : s.threadStep k th l = some t) :
    (∃ up down, t.shared.mgr =
      { s.shared.mgr with qWorkerToListener := up, qListenerToWorker := down }) ∧
      t.shared.kernel.spawned = s.shared.kernel.spawned ∧
      ∀ x ∈ t.shared.mgr.qListenerToWorker, x ∈ s.shared.mgr.qListenerToWorker := by
  have same {u : State cfg} (hm : u.shared.mgr = s.shared.mgr)
      (hk : u.shared.kernel.spawned = s.shared.kernel.spawned) : (∃ up down, u.shared.mgr =
      { s.shared.mgr with qWorkerToListener := up, qListenerToWorker := down }) ∧
      u.shared.kernel.spawned = s.shared.kernel.spawned ∧
      ∀ x ∈ u.shared.mgr.qListenerToWorker, x ∈ s.shared.mgr.qListenerToWorker :=
    ⟨⟨_, _, hm⟩, hk, fun _ hx => hm ▸ hx⟩
  obtain ⟨accepts, ups, hown, _⟩ := hs.owned
  cases threadStep_turned hs hth ht with
  | started _ => exact same rfl rfl
  | waits _ _ _ => exact same rfl rfl
  | @iterated _ ev w w' u q s₁ s₂ kept _ _ hit =>
    have hown₁ : Owned s.held accepts ups (s.withSends ev.sends).shared := hown.of_core rfl
    obtain ⟨accepts', evfd, hp, rfl⟩ := pollQueue_polled hown₁ hit.polled
    have hk := hit.kept
    have hdown : u.mgr.qListenerToWorker = acceptTexts accepts' := by rw [hk.mgr]; rfl
    refine ⟨⟨_, _, hk.mgr⟩, hk.spawned, fun x hx => ?_⟩
    change x ∈ u.mgr.qListenerToWorker at hx
    rw [hdown, acceptTexts] at hx
    rw [hown.downQueue, acceptTexts]
    exact (hp.suffix.sublist.map Routing.text).mem hx
  | left _ _ => exact same rfl rfl
  | threw sends => exact same rfl rfl

theorem listenerStep_keeps {l : Label} {I : Shared cfg → Prop} (hI : I s.shared)
    (hqueue : Keeps I (listenerProcessWorkerToListenerQ s.listenerEvfd : Prog cfg Unit))
    (hstdin : ∀ buffer, Keeps I (stdinBranch buffer : Prog cfg Unit))
    (haccept : ∀ env, l = .accept env → s.listener = .accept true →
      (∃ u, acceptBranch s.listenerEvfd env s.shared = .error .undefinedBehaviour u) ∨
        I (final (acceptBranch s.listenerEvfd env s.shared)))
    (ht : s.listenerStep l = some t) : I t.shared := by
  cases listenerStep_turn ht with
  | moved _ _ _ => exact hI
  | queue _ => exact runListener_shared _ hI fun _ => hqueue _ hI
  | stdin buffer _ => exact runListener_shared _ hI fun _ => hstdin buffer _ hI
  | @accept env hl _ =>
    refine runListener_shared _ hI fun hub => ?_
    exact (haccept env rfl hl).resolve_left fun ⟨u, hu⟩ => hub u hu

theorem step_launchCount {l : Label} (hs : s.Sound) (h : LaunchCount s.shared.mgr)
    (ht : s.step l = some t) : LaunchCount t.shared.mgr := by
  obtain ⟨_, ⟨_, ht⟩ | ⟨k, th, hth, ht⟩⟩ := step_cases ht
  · refine listenerStep_keeps (I := fun u => LaunchCount u.mgr) h ?_ ?_ ?_ ht
    · exact listenerProcess_keeps launchCount_outside _ (fun _ _ h => h.congr rfl rfl) fun _ h => h
    · intro buffer u hu
      obtain ⟨d, hd | hd⟩ := stdinBranch_final buffer u
      all_goals
        rw [hd]
        exact LaunchCount.congr hu rfl rfl
    · exact fun env _ _ => acceptBranch_launchCount h _ env
  · obtain ⟨⟨up, down, hm⟩, _⟩ := threadStep_mgr hs hth ht
    rw [hm]
    exact h.congr rfl rfl

theorem step_real {l : Label} (hs : s.Sound) (h : RealClients s.shared)
    (hl : s.EventfdFails l t) (ht : s.step l = some t) : RealClients t.shared := by
  obtain ⟨_, ⟨_, ht⟩ | ⟨k, th, hth, ht⟩⟩ := step_cases ht
  · refine listenerStep_keeps h ?_ ?_ ?_ ht
    · refine listenerProcess_keeps real_outside _ (fun _ _ h => ?_) fun _ h => ?_
      all_goals exact h.congr rfl fun _ hx => hx
    · intro buffer u hu
      obtain ⟨d, hd | hd⟩ := stdinBranch_final buffer u
      all_goals
        rw [hd]
        exact hu.congr rfl fun _ hx => hx
    · intro env he hpc
      refine Classical.or_iff_not_imp_left.mpr fun hub => ?_
      exact acceptBranch_real h (fun hr => hl env ⟨he, hpc, hr⟩) fun u hu => hub ⟨u, hu⟩
  · obtain ⟨_, hk, hq⟩ := threadStep_mgr hs hth ht
    exact h.congr hk hq

theorem accept_step {env : AcceptEnv} (hpc : s.listener = .accept true)
    (ht : s.step (.accept env) = some t) :
    t = s.runListener (acceptBranch s.listenerEvfd env) .head ∧ s.terminated = false := by
  obtain ⟨hterm, ⟨_, ht⟩ | ⟨_, _, _, ht⟩⟩ := step_cases ht
  · simp only [listenerStep, hpc, if_true] at ht
    split_ifs at ht
    cases ht
    exact ⟨rfl, hterm⟩
  · cases ht

-- a refused attempt changes something unless it was to launch a worker and eventfd() failed
theorem attempt_iff {l : Label} {env : AcceptEnv} (h : LaunchCount s.shared.mgr)
    (ha : s.Attempt l env) (ht : s.step l = some t) :
    t.terminated = false ∧ Untouched s.shared t.shared ↔
      Launching s.shared.mgr ∧ env.eventfd < 0 := by
  obtain ⟨rfl, hpc, hr⟩ := ha
  obtain ⟨rfl, hterm⟩ := accept_step hpc ht
  rcases runListener_cases s (acceptBranch s.listenerEvfd env) .head with
    ⟨⟨u, hu⟩, he⟩ | ⟨hub, pc, he⟩
  · rw [he]
    refine iff_of_false (by simp) ?_
    rintro ⟨⟨n, hn⟩, hneg⟩
    obtain ⟨v, hv⟩ := acceptBranch_undefined hu
    exact refused_defined hr hn hneg v hv
  · rw [he, ← refused_untouched h hr hub]
    exact and_iff_right hterm

theorem step_traceless {l : Label} (hs : s.Sound) (h : LaunchCount s.shared.mgr)
    (hr : RealClients s.shared) (hl : s.EventfdFails l t) (ht : s.step l = some t) :
    s.Traceless l t :=
  ⟨step_real hs hr hl ht, fun env ha => (attempt_iff h ha ht).mpr (hl env ha)⟩

end State

theorem refusals_traceless (cfg : Config) (svSocket listenerEvfd : Nat) (ls : List Label) :
    Every State.step State.Traceless (State.init cfg svSocket listenerEvfd) ls ↔
      Every State.step State.EventfdFails (State.init cfg svSocket listenerEvfd) ls := by
  have hsound := State.init_sound cfg svSocket listenerEvfd
  have hcount : LaunchCount (State.init cfg svSocket listenerEvfd).shared.mgr := by
    have := cfg.threads_pos
    refine ⟨?_, ?_, fun _ => ?_⟩
    all_goals simp [State.init]
    omega
  constructor
  · refine Every.imp (I := fun s => s.Sound ∧ LaunchCount s.shared.mgr) ⟨hsound, hcount⟩ ls
      fun s l t hI ht hp => ⟨fun env ha => ?_, ?_⟩
    · exact (State.attempt_iff hI.2 ha ht).mp (hp.2 env ha)
    · exact ⟨State.step_sound hI.1 ht, State.step_launchCount hI.1 hI.2 ht⟩
  · refine Every.imp (I := fun s => s.Sound ∧ LaunchCount s.shared.mgr ∧ RealClients s.shared)
      ⟨hsound, hcount, by simp [State.init], by simp [State.init]⟩ ls
      fun s l t hI ht hp => ?_
    obtain ⟨h1, h2, h3⟩ := hI
    have htr := State.step_traceless h1 h2 h3 hp ht
    exact ⟨htr, State.step_sound h1 ht, State.step_launchCount h1 h2 ht, htr.1⟩

-- the seventh finds the table full and raises the limit, the eighth is assigned with fd -1
def eightConnections : List Label :=
  (List.range 8).flatMap fun k => listenerRound false true (connection (5 + 2 * k) (6 + 2 * k))

theorem eightConnections_trace :
    ¬ Every State.step State.Traceless (State.init Config.deployed 3 4) eightConnections := by
  refine not_every_of_run
    (q := fun t => acceptText 0 (-1) (-1) ∉ t.shared.mgr.qListenerToWorker) (by decide +kernel)
    (fun s l t h => ?_) (by decide +kernel)
  simp only [decide_eq_true_eq]
  intro hm
  have := (h.1.queued 0 (-1) (-1) hm).1
  omega

end ChatApp
