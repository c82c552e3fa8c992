import ChatApp.Traffic

namespace ChatApp

open Effects Runs

variable {cfg : Config}

def Limited (s : Shared cfg) : Prop :=
  (∀ w ∈ s.mgr.workerThreads.values, 1 ≤ w.count ∧ w.count ≤ s.mgr.maxClientsPerThread) ∧
    s.mgr.maxClientsPerThread ≤ cfg.maxClientsPerThread

-- the limit a departure computes from an array without workers is 0
def LimitKnown (s : Shared cfg) (l : Traffic cfg) (_ : Shared cfg) : Prop :=
  match l with
  | .connect .. => 1 ≤ s.mgr.maxClientsPerThread
  | _ => True

section Steps

variable {s t : Shared cfg} {i : Nat} {w : WorkerEntry} {socket id listenerEvfd eventfd : Int}

theorem SameLedger.limited (h : SameLedger s t) (hs : Limited s) : Limited t := by
  rw [Limited, h.workers, h.max]
  exact hs

theorem limited_addTo (h : Limited s) (hw : w.count < s.mgr.maxClientsPerThread) :
    Limited (s.addTo i w) := by
  refine ⟨fun v hv => ?_, h.2⟩
  rcases Slots.mem_values_set hv with hv | hv
  · exact h.1 v hv
  · cases hv
    exact ⟨by simp, hw⟩

theorem limited_raise (h : Limited s) (hw : w ∈ s.mgr.workerThreads.values)
    (hM : s.mgr.maxClientsPerThread + 1 ≤ cfg.maxClientsPerThread) :
    Limited (s.raiseMax.addTo i w) := by
  refine limited_addTo ⟨fun v hv => ?_, hM⟩ ?_
  · obtain ⟨h1, h2⟩ := h.1 v hv
    exact ⟨h1, by simp only [Shared.raiseMax]; omega⟩
  · have := (h.1 w hw).2
    simp only [Shared.raiseMax]
    omega

theorem limited_launch {n : Nat} {old : Option WorkerEntry} (h : Limited s)
    (hmax : 1 ≤ s.mgr.maxClientsPerThread) :
    Limited (s.launch socket id n listenerEvfd eventfd old) := by
  refine ⟨fun v hv => ?_, h.2⟩
  rcases Slots.mem_values_set hv with hv | hv
  · exact h.1 v hv
  · cases hv
    exact ⟨le_rfl, hmax⟩

theorem limited_release (h : Limited s) (hw : s.mgr.workerThreads.entries[i]? = some (some w)) :
    Limited (s.release i w) := by
  have hmax : (s.release i w).mgr.maxClientsPerThread =
      largest (s.release i w).mgr.workerThreads := getMaxAndIdx_eq _
  have hcount : ∀ v ∈ (s.release i w).mgr.workerThreads.values,
      1 ≤ v.count ∧ v.count ≤ s.mgr.maxClientsPerThread := by
    intro v hv
    obtain ⟨h1, h2⟩ := h.1 w (Slots.mem_values_iff.mpr ⟨i, hw⟩)
    rcases Slots.mem_values_set hv with hv | hv
    · exact h.1 v hv
    · split_ifs at hv with hc
      cases hv
      constructor <;> simp only <;> omega
  refine ⟨fun v hv => ⟨(hcount v hv).1, ?_⟩, ?_⟩
  · rw [hmax]
    exact count_le_largest hv
  · rw [hmax]
    exact le_trans (largest_le_iff.mpr fun v hv => (hcount v hv).2) h.2

theorem not_limited_launch {n : Nat} {old : Option WorkerEntry}
    (hold : s.mgr.workerThreads.entries[s.mgr.nrOfLaunchedThreads]? = some old)
    (hmax : ¬ 1 ≤ s.mgr.maxClientsPerThread) :
    ¬ Limited (s.launch socket id n listenerEvfd eventfd old) := by
  intro h
  have hmem : (⟨1, eventfd, s.kernel.spawned.length⟩ : WorkerEntry) ∈
      (s.launch socket id n listenerEvfd eventfd old).mgr.workerThreads.values := by
    refine Slots.mem_values_iff.mpr ⟨s.mgr.nrOfLaunchedThreads, ?_⟩
    simp [Shared.launch, Slots.get_set, Slots.lt_of_get hold]
  exact hmax (h.1 _ hmem).2

theorem connect_limited (h : Limited s)
    (ht : traffic false s (.connect socket id listenerEvfd eventfd) = some t) :
    Limited t ↔ 1 ≤ s.mgr.maxClientsPerThread := by
  cases connect_cases ht with
  | launched hc he hold =>
    exact ⟨fun ht => by_contra fun hmax => not_limited_launch hold hmax ht, limited_launch h⟩
  | noEventfd _ _ hr => cases hr
  | assigned hc hw hl =>
    have hlt := choose_assign hc hw
    exact iff_of_true (hl.limited (limited_addTo h hlt)) (by omega)
  | raised hc hw hl =>
    have hmem := Slots.mem_values_iff.mpr ⟨_, hw⟩
    obtain ⟨h1, h2⟩ := h.1 _ hmem
    exact iff_of_true (hl.limited (limited_raise h hmem (choose_raise hc).2)) (by omega)
  | overLimit _ hr => cases hr
  | allLaunched _ hr => cases hr

theorem traffic_limited {l : Traffic cfg} (h : Limited s) (ht : traffic false s l = some t) :
    Limited t ↔ LimitKnown s l t := by
  cases l with
  | connect socket id listenerEvfd eventfd => exact connect_limited h ht
  | disconnect i =>
    refine iff_of_true ?_ trivial
    rcases disconnect_cases ht with ⟨_, hr⟩ | ⟨w, hw, _, rfl⟩
    · cases hr
    · exact limited_release h hw
  | elsewhere u => exact iff_of_true ((elsewhere_cases ht).limited h) trivial

end Steps

theorem limited_fresh (sv : Server cfg) (kernel : Kernel) (hist : History) :
    Limited (Shared.fresh sv kernel hist) :=
  ⟨by simp [Shared.fresh], cfg.clients_pos⟩

theorem thread_limit (cfg : Config) (sv : Server cfg) (kernel : Kernel) (hist : History)
    (ls : List (Traffic cfg)) :
    Every (traffic false) (fun _ _ t => Limited t) (Shared.fresh sv kernel hist) ls ↔
      Every (traffic false) LimitKnown (Shared.fresh sv kernel hist) ls := by
  constructor
  · exact Every.imp (I := Limited) (limited_fresh sv kernel hist) ls fun s l t hI ht hp =>
      ⟨(traffic_limited hI ht).mp hp, hp⟩
  · refine Every.imp (I := Limited) (limited_fresh sv kernel hist) ls fun s l t hI ht hp => ?_
    have hl := (traffic_limited hI ht).mpr hp
    exact ⟨hl, hl⟩

def rejoin : List (Traffic Config.deployed) :=
  [.connect 5 0 4 6, .disconnect 0, .connect 5 1 4 6]

-- with everyone gone the limit is 0, and the next worker starts with one client
theorem rejoin_exceeds :
    ¬ Every (traffic false) (fun _ _ t => Limited t) deployedFresh rejoin := by
  refine not_every_of_run (q := fun t =>
    largest t.mgr.workerThreads ≤ t.mgr.maxClientsPerThread) (by decide)
    (fun s l t h => ?_) (by decide)
  exact decide_eq_true (largest_le_iff.mpr fun w hw => (h.1 w hw).2)

end ChatApp
