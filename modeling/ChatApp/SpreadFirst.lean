import ChatApp.Traffic

namespace ChatApp

open Effects Runs

variable {cfg : Config}

def HasEmpty (s : Shared cfg) : Prop :=
  ∃ i : Nat, s.mgr.workerThreads.entries[i]? = some none

-- a worker with one client, put into an entry that was empty
def LaunchedEmpty (s t : Shared cfg) : Prop :=
  ∃ (i : Nat) (evfd : Int) (thread : Nat), s.mgr.workerThreads.entries[i]? = some none ∧
    t.mgr.workerThreads = s.mgr.workerThreads.set i (some ⟨1, evfd, thread⟩)

def AddedTo (s t : Shared cfg) (i : Nat) (w : WorkerEntry) : Prop :=
  s.mgr.workerThreads.entries[i]? = some (some w) ∧
    t.mgr.workerThreads = s.mgr.workerThreads.set i (some { w with count := w.count + 1 })

-- eventfd() may fail, and then nothing is launched
def Spread (s : Shared cfg) (l : Traffic cfg) (t : Shared cfg) : Prop :=
  match l with
  | .connect _ _ _ eventfd =>
    (HasEmpty s → 0 ≤ eventfd → LaunchedEmpty s t) ∧
      ∀ i w, AddedTo s t i w → ¬ HasEmpty s ∧ Least s w
  | _ => True

-- no running worker is below the limit, and the entry to be written next is a free one
def Spreadable (s : Shared cfg) (l : Traffic cfg) (_ : Shared cfg) : Prop :=
  match l with
  | .connect _ _ _ eventfd =>
    HasEmpty s → (∀ w ∈ s.mgr.workerThreads.values, s.mgr.maxClientsPerThread ≤ w.count) ∧
      (0 ≤ eventfd → s.mgr.workerThreads.entries[s.mgr.nrOfLaunchedThreads]? = some none)
  | _ => True

section Entries

variable {s t : Shared cfg} {i j : Nat} {w v : WorkerEntry}

theorem occupied_lt (h : HasEmpty s) : s.occupied < cfg.maxNrOfThreads := by
  obtain ⟨i, hi⟩ := h
  have hle := Slots.length_values_le
    (s.mgr.workerThreads.set i (some (⟨0, 0, 0⟩ : WorkerEntry)))
  have hlen := (Slots.values_set_of_none hi ⟨0, 0, 0⟩).length_eq
  rw [List.length_cons] at hlen
  rw [Shared.occupied]
  omega

theorem hasEmpty_of_lt (h : s.occupied < cfg.maxNrOfThreads) : HasEmpty s := by
  have hfull : s.mgr.workerThreads.isFull = false := by
    rw [Bool.eq_false_iff, ne_eq, Slots.isFull_iff]
    exact fun he => absurd (he ▸ h) (lt_irrefl _)
  obtain ⟨i, hi, _⟩ := Slots.fill_eq_set hfull (⟨0, 0, 0⟩ : WorkerEntry)
  exact ⟨i, hi⟩

theorem get_addTo (hw : s.mgr.workerThreads.entries[i]? = some (some w)) (j : Nat) :
    (s.addTo i w).mgr.workerThreads.entries[j]? =
      if i = j then some (some { w with count := w.count + 1 })
      else s.mgr.workerThreads.entries[j]? := by
  have hi := Slots.lt_of_get hw
  simp only [Shared.addTo, Shared.setWorkers, Slots.get_set, hi, and_true]

theorem addedTo_unique (hw : s.mgr.workerThreads.entries[i]? = some (some w))
    (ht : t.mgr.workerThreads = (s.addTo i w).mgr.workerThreads) (h : AddedTo s t j v) :
    v = w := by
  have hj : j < cfg.maxNrOfThreads := Slots.lt_of_get h.1
  have hget : (s.addTo i w).mgr.workerThreads.entries[j]? =
      some (some { v with count := v.count + 1 }) := by
    rw [← ht, h.2]
    simp [Slots.get_set, hj]
  rw [get_addTo hw] at hget
  split_ifs at hget with hij
  · subst hij
    obtain rfl : w = v := by simpa [hw] using h.1
    rfl
  · rw [h.1] at hget
    have := congrArg WorkerEntry.count (Option.some.inj (Option.some.inj hget))
    simp only at this
    omega

theorem not_addedTo_of_kept (h : ∀ (i : Nat) (w : WorkerEntry),
    s.mgr.workerThreads.entries[i]? = some (some w) →
    t.mgr.workerThreads.entries[i]? = some (some w)) : ¬ AddedTo s t i w := by
  intro hadd
  have hi := Slots.lt_of_get hadd.1
  have hget := h i w hadd.1
  rw [hadd.2, Slots.get_set, if_pos ⟨rfl, hi⟩, Option.some.injEq, Option.some.injEq] at hget
  have := congrArg WorkerEntry.count hget
  simp only at this
  omega

theorem occupied_launched (h : LaunchedEmpty s t) : t.occupied = s.occupied + 1 := by
  obtain ⟨i, evfd, thread, hi, ht⟩ := h
  have := (Slots.values_set_of_none hi ⟨1, evfd, thread⟩).length_eq
  rw [Shared.occupied, ht, this]
  rfl

end Entries

section Steps

variable {s t : Shared cfg} {refusals : Bool} {socket id listenerEvfd eventfd : Int}

theorem not_hasEmpty_of_full (h : Counted s) (hT : s.mgr.nrOfLaunchedThreads = cfg.maxNrOfThreads) :
    ¬ HasEmpty s := by
  intro he
  have := occupied_lt he
  rw [← h, hT] at this
  exact lt_irrefl _ this

theorem launched_spread (h : Counted s) {old : Option WorkerEntry} (he : 0 ≤ eventfd)
    (hc : choose s.mgr = .launch s.mgr.nrOfLaunchedThreads)
    (hold : s.mgr.workerThreads.entries[s.mgr.nrOfLaunchedThreads]? = some old) :
    Spread s (.connect socket id listenerEvfd eventfd)
        (s.launch socket id s.mgr.nrOfLaunchedThreads listenerEvfd eventfd old) ↔
      Spreadable s (.connect socket id listenerEvfd eventfd)
        (s.launch socket id s.mgr.nrOfLaunchedThreads listenerEvfd eventfd old) := by
  have hm := (mustLaunch_of_choose h hc).1
  have hempty := hasEmpty_of_lt hm.2
  constructor
  · rintro ⟨hl, _⟩ _
    refine ⟨hm.1, fun _ => ?_⟩
    cases old with
    | none => exact hold
    | some w =>
      have hocc := occupied_launched (hl hempty he)
      have hsame := occupied_set_some hold ⟨1, eventfd, s.kernel.spawned.length⟩
      change (s.mgr.workerThreads.set _ _).values.length = _ at hocc
      omega
  · intro hs
    have hfree := (hs hempty).2 he
    refine ⟨fun _ _ => ⟨_, _, _, hfree, rfl⟩, fun i w hadd => ?_⟩
    refine absurd hadd (not_addedTo_of_kept fun j v hv => ?_)
    have hij : s.mgr.nrOfLaunchedThreads ≠ j := by
      rintro rfl
      rw [hfree] at hv
      cases hv
    simpa [Shared.launch, Slots.get_set, hij] using hv

theorem assigned_spread {i : Nat} {w : WorkerEntry} (hc : choose s.mgr = .assign i)
    (hw : s.mgr.workerThreads.entries[i]? = some (some w)) (hl : SameLedger (s.addTo i w) t) :
    Spread s (.connect socket id listenerEvfd eventfd) t ↔
      Spreadable s (.connect socket id listenerEvfd eventfd) t := by
  have hlt := choose_assign hc hw
  obtain ⟨u, hu, hleast⟩ := choose_least (.inl hc)
  obtain rfl : w = u := by simpa [hw] using hu
  constructor
  · rintro ⟨_, hadd⟩ he
    exact absurd he (hadd i w ⟨hw, hl.workers⟩).1
  · intro hs
    have hne : ¬ HasEmpty s := fun he => by
      have := (hs he).1 w (Slots.mem_values_iff.mpr ⟨i, hw⟩)
      omega
    refine ⟨fun he => absurd he hne, fun j v hadd => ⟨hne, ?_⟩⟩
    rw [addedTo_unique hw hl.workers hadd]
    exact hleast

theorem connect_spread (h : Counted s)
    (ht : traffic refusals s (.connect socket id listenerEvfd eventfd) = some t) :
    Spread s (.connect socket id listenerEvfd eventfd) t ↔
      Spreadable s (.connect socket id listenerEvfd eventfd) t := by
  cases connect_cases ht with
  | launched hc he hold => exact launched_spread h he hc hold
  | noEventfd hc he hr =>
    have hneg : ¬ 0 ≤ eventfd := by omega
    refine iff_of_true ⟨fun _ h0 => absurd h0 hneg, fun i w hadd => ?_⟩
      fun _ => ⟨(mustLaunch_of_choose h hc).1.1, fun h0 => absurd h0 hneg⟩
    exact absurd hadd (not_addedTo_of_kept fun _ _ hv => hv)
  | assigned hc hw hl => exact assigned_spread hc hw hl
  | raised hc hw hl =>
    have hne := not_hasEmpty_of_full h (choose_raise hc).1
    obtain ⟨u, hu, hleast⟩ := choose_least (.inr hc)
    refine iff_of_true ⟨fun he => absurd he hne, fun j v hadd => ⟨hne, ?_⟩⟩
      fun he => absurd he hne
    rw [addedTo_unique hw hl.workers hadd, Option.some.inj (Option.some.inj (hw.symm.trans hu))]
    exact hleast
  | overLimit hc hr =>
    have hne := not_hasEmpty_of_full h (choose_overLimit hc)
    refine iff_of_true ⟨fun he => absurd he hne, fun i w hadd => ?_⟩ fun he => absurd he hne
    exact absurd hadd (not_addedTo_of_kept fun _ _ hv => hv)
  | allLaunched hc hr =>
    rcases choose_of_counted h with ⟨hl, _⟩ | ⟨_, ho | ⟨i, w, _, ha | ha⟩⟩ <;> simp_all

theorem connect_counted (h : Counted s)
    (ht : traffic refusals s (.connect socket id listenerEvfd eventfd) = some t)
    (hs : Spreadable s (.connect socket id listenerEvfd eventfd) t) : Counted t := by
  cases connect_cases ht with
  | launched hc he hold =>
    have hm := (mustLaunch_of_choose h hc).1
    have hfree := (hs (hasEmpty_of_lt hm.2)).2 he
    rw [h] at hfree
    rw [Counted, occupied_launch_free hfree _ _ _ _ _ _ h, ← h]
    rfl
  | noEventfd _ _ _ => exact h
  | assigned _ hw hl => exact hl.counted (h.trans (occupied_set_some hw _).symm)
  | raised _ hw hl => exact hl.counted (h.trans (occupied_set_some hw _).symm)
  | overLimit _ _ => exact h
  | allLaunched _ _ => exact h

theorem traffic_spread {l : Traffic cfg} (h : Counted s) (ht : traffic refusals s l = some t) :
    (Spread s l t ↔ Spreadable s l t) ∧ (Spreadable s l t → Counted t) := by
  cases l with
  | connect socket id listenerEvfd eventfd => exact ⟨connect_spread h ht, connect_counted h ht⟩
  | disconnect i =>
    refine ⟨iff_of_true trivial trivial, fun _ => ?_⟩
    rcases disconnect_cases ht with ⟨rfl, _⟩ | ⟨w, hw, _, rfl⟩
    · exact h
    · exact counted_release h hw
  | elsewhere u => exact ⟨iff_of_true trivial trivial, fun _ => (elsewhere_cases ht).counted h⟩

end Steps

theorem spread_first (cfg : Config) (sv : Server cfg) (kernel : Kernel) (hist : History)
    (ls : List (Traffic cfg)) :
    Every (traffic true) Spread (Shared.fresh sv kernel hist) ls ↔
      Every (traffic true) Spreadable (Shared.fresh sv kernel hist) ls := by
  constructor
  · refine Every.imp (I := Counted) (counted_fresh sv kernel hist) ls fun s l t hI ht hp => ?_
    have hs := (traffic_spread hI ht).1.mp hp
    exact ⟨hs, (traffic_spread hI ht).2 hs⟩
  · refine Every.imp (I := Counted) (counted_fresh sv kernel hist) ls fun s l t hI ht hp => ?_
    exact ⟨(traffic_spread hI ht).1.mpr hp, (traffic_spread hI ht).2 hp⟩

theorem threeThreads_pos : 1 ≤ 3 := by decide

def threeThreads : Config := ⟨3, 3, some 128, threeThreads_pos, Config.deployed.clients_pos⟩

def threeFresh : Shared threeThreads := Shared.fresh { svSocket := 3 } {} {}

-- two workers with two clients and one, no third worker, and a limit of two
def uneven : List (Traffic threeThreads) :=
  [.connect 5 0 4 6, .connect 7 1 4 8, .connect 9 2 4 10, .connect 11 3 4 12, .disconnect 2]

def lone : WorkerEntry := ⟨1, 8, 1⟩

theorem unevenJoin_adds :
    ¬ Every (traffic true) Spread threeFresh (uneven ++ [.connect 13 4 4 14]) := by
  refine not_every_of_step (p := fun t u =>
    t.mgr.workerThreads.entries[2]? = some none →
    t.mgr.workerThreads.entries[1]? = some (some lone) →
    u.mgr.workerThreads ≠ t.mgr.workerThreads.set 1 (some { lone with count := 2 }))
    (fun t u h => ?_) (by decide)
  refine decide_eq_true fun hempty hlone hadd => ?_
  exact (h.2 1 lone ⟨hlone, hadd⟩).1 ⟨2, hempty⟩

end ChatApp
