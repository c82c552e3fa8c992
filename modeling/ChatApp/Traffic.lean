import ChatApp.SlotIntegrity

namespace ChatApp

open Effects Runs

variable {cfg : Config}

-- what process_new_client and worker_client_disconnect read and write
structure SameLedger (s t : Shared cfg) : Prop where
  max : t.mgr.maxClientsPerThread = s.mgr.maxClientsPerThread
  nr : t.mgr.nrOfLaunchedThreads = s.mgr.nrOfLaunchedThreads
  workers : t.mgr.workerThreads = s.mgr.workerThreads

instance (s t : Shared cfg) : Decidable (SameLedger s t) :=
  decidable_of_iff (t.mgr.maxClientsPerThread = s.mgr.maxClientsPerThread ∧
      t.mgr.nrOfLaunchedThreads = s.mgr.nrOfLaunchedThreads ∧
      t.mgr.workerThreads = s.mgr.workerThreads)
    ⟨fun h => ⟨h.1, h.2.1, h.2.2⟩, fun h => ⟨h.max, h.nr, h.workers⟩⟩

-- the listener's calls, and what the workers and the clients do to the rest in between
inductive Traffic (cfg : Config) where
  | connect (socket id listenerEvfd eventfd : Int)
  | disconnect (i : Nat)
  | elsewhere (s : Shared cfg)

def settle (refusals : Bool) : EStateM.Result Exn (Shared cfg) Unit → Option (Shared cfg)
  | .ok _ t => some t
  | .error .undefinedBehaviour _ => none
  | .error _ t => if refusals then some t else none

-- refusals says whether a call that throws is part of the run
def traffic (refusals : Bool) (s : Shared cfg) : Traffic cfg → Option (Shared cfg)
  | .connect socket id listenerEvfd eventfd =>
    settle refusals (processNewClient socket id listenerEvfd eventfd s)
  | .disconnect i => settle refusals (workerClientDisconnect i s)
  | .elsewhere t => if SameLedger s t then some t else none

section Search

-- the first of the entries with the least count, the one found so far counting more
theorem minFrom_first {l : List (Option WorkerEntry)} {best : Option (Nat × Nat)} {idx j : Nat}
    {w : WorkerEntry} (hw : l[j]? = some (some w)) (hbest : ∀ p, best = some p → w.count < p.1)
    (hfirst : ∀ (i : Nat) (v : WorkerEntry), i < j → l[i]? = some (some v) → w.count < v.count)
    (hleast : ∀ v ∈ l.reduceOption, w.count ≤ v.count) :
    minFrom best idx l = some (w.count, idx + j) := by
  have hstop {l : List (Option WorkerEntry)} {k : Nat}
      (h : ∀ v ∈ l.reduceOption, w.count ≤ v.count) :
      minFrom (some (w.count, idx + j)) k l = some (w.count, idx + j) := by
    induction l generalizing k with
    | nil => rfl
    | cons x l ih =>
      cases x with
      | none => exact ih (by simpa using h)
      | some v =>
        simp only [List.reduceOption_cons_of_some, List.forall_mem_cons] at h
        have hv : ¬ v.count < w.count := by omega
        rw [minFrom]
        simp only [hv, if_false]
        exact ih h.2
  induction l generalizing best idx j with
  | nil => simp at hw
  | cons x l ih =>
    cases j with
    | zero =>
      obtain rfl : x = some w := by simpa using hw
      simp only [List.reduceOption_cons_of_some, List.forall_mem_cons] at hleast
      cases best with
      | none => exact hstop hleast.2
      | some p =>
        have hp := hbest p rfl
        simp only [minFrom, hp, if_true]
        exact hstop hleast.2
    | succ j =>
      have hw' : l[j]? = some (some w) := by simpa using hw
      have hfirst' (i : Nat) (v : WorkerEntry) (hi : i < j) (hv : l[i]? = some (some v)) :
          w.count < v.count := hfirst (i + 1) v (by omega) (by simpa using hv)
      have hidx : idx + (j + 1) = idx + 1 + j := by omega
      rw [hidx] at hstop ⊢
      cases x with
      | none => exact ih hw' hbest hfirst' (by simpa using hleast) hstop
      | some v =>
        have hv : w.count < v.count := hfirst 0 v (by omega) (by simp)
        simp only [List.reduceOption_cons_of_some, List.forall_mem_cons] at hleast
        cases best with
        | none =>
          refine ih hw' (fun p hp => ?_) hfirst' hleast.2 hstop
          cases hp
          exact hv
        | some p =>
          have hp := hbest p rfl
          simp only [minFrom]
          split
          · refine ih hw' (fun q hq => ?_) hfirst' hleast.2 hstop
            cases hq
            exact hv
          · refine ih hw' (fun q hq => ?_) hfirst' hleast.2 hstop
            cases hq
            exact hp

def largest {n : Nat} (arr : Slots WorkerEntry n) : Nat :=
  (arr.values.map WorkerEntry.count).foldr max 0

theorem maxFrom_eq (m : Nat) (maxIdx : Int) (idx : Nat) (l : List (Option WorkerEntry)) :
    (maxFrom m maxIdx idx l).1 = max m ((l.reduceOption.map WorkerEntry.count).foldr max 0) := by
  induction l generalizing m maxIdx idx with
  | nil => simp [maxFrom]
  | cons x l ih =>
    cases x with
    | none => simpa [maxFrom] using ih m maxIdx (idx + 1)
    | some w =>
      simp only [maxFrom, List.reduceOption_cons_of_some, List.map_cons, List.foldr_cons]
      split
      · rw [ih]
        omega
      · rw [ih]
        omega

variable {n : Nat} {arr : Slots WorkerEntry n}

theorem getMaxAndIdx_eq (arr : Slots WorkerEntry n) : (getMaxAndIdx arr).1 = largest arr := by
  rw [getMaxAndIdx, maxFrom_eq]
  exact Nat.zero_max _

theorem largest_le_iff {b : Nat} : largest arr ≤ b ↔ ∀ w ∈ arr.values, w.count ≤ b := by
  unfold largest
  induction arr.values with
  | nil => simp
  | cons w l ih =>
    simp only [List.map_cons, List.foldr_cons, List.forall_mem_cons, ← ih]
    omega

theorem count_le_largest {w : WorkerEntry} (h : w ∈ arr.values) : w.count ≤ largest arr :=
  largest_le_iff.mp le_rfl w h

end Search

namespace SameLedger

variable {s t u : Shared cfg}

theorem occupied (h : SameLedger s t) : t.occupied = s.occupied := by
  rw [Shared.occupied, h.workers, Shared.occupied]

theorem counted (h : SameLedger s t) (hs : Counted s) : Counted t := by
  rw [Counted, h.nr, h.occupied]
  exact hs

end SameLedger

def Least (s : Shared cfg) (w : WorkerEntry) : Prop :=
  ∀ v ∈ s.mgr.workerThreads.values, w.count ≤ v.count

def Shared.addTo (s : Shared cfg) (i : Nat) (w : WorkerEntry) : Shared cfg :=
  s.setWorkers (s.mgr.workerThreads.set i (some { w with count := w.count + 1 }))

-- every way a call of process_new_client can end, up to what the ledger does not show
inductive Connected (refusals : Bool) (socket id listenerEvfd eventfd : Int) (s : Shared cfg) :
    Shared cfg → Prop
  | launched {old : Option WorkerEntry} (hc : choose s.mgr = .launch s.mgr.nrOfLaunchedThreads)
    (he : 0 ≤ eventfd)
    (hold : s.mgr.workerThreads.entries[s.mgr.nrOfLaunchedThreads]? = some old) :
    Connected refusals socket id listenerEvfd eventfd s
      (s.launch socket id s.mgr.nrOfLaunchedThreads listenerEvfd eventfd old)
  | noEventfd {n : Nat} (hc : choose s.mgr = .launch n) (he : eventfd < 0)
    (hr : refusals = true) : Connected refusals socket id listenerEvfd eventfd s s
  | assigned {i : Nat} {w : WorkerEntry} {t : Shared cfg} (hc : choose s.mgr = .assign i)
    (hw : s.mgr.workerThreads.entries[i]? = some (some w)) (ht : SameLedger (s.addTo i w) t) :
    Connected refusals socket id listenerEvfd eventfd s t
  | raised {i : Nat} {w : WorkerEntry} {t : Shared cfg} (hc : choose s.mgr = .raise i)
    (hw : s.mgr.workerThreads.entries[i]? = some (some w))
    (ht : SameLedger (s.raiseMax.addTo i w) t) :
    Connected refusals socket id listenerEvfd eventfd s t
  | overLimit (hc : choose s.mgr = .overLimit) (hr : refusals = true) :
    Connected refusals socket id listenerEvfd eventfd s s.raiseMax
  | allLaunched (hc : choose s.mgr = .allLaunched) (hr : refusals = true) :
    Connected refusals socket id listenerEvfd eventfd s s

section Inversion

variable {s t : Shared cfg} {refusals : Bool} {socket id listenerEvfd eventfd : Int} {i n : Nat}

theorem settle_final {r : EStateM.Result Exn (Shared cfg) Unit} (h : settle refusals r = some t) :
    t = final r := by
  unfold settle at h
  split at h
  · exact (Option.some.inj h).symm
  · cases h
  · exact (Option.some.inj (Option.ite_none_right_eq_some.mp h).2).symm

theorem settle_error {e : Exn} {u : Shared cfg} (h : settle refusals (.error e u) = some t) :
    t = u ∧ refusals = true := by
  refine ⟨settle_final h, ?_⟩
  unfold settle at h
  split at h
  · rename_i heq
    cases heq
  · cases h
  · exact (Option.ite_none_right_eq_some.mp h).1

theorem choose_least (h : choose s.mgr = .assign i ∨ choose s.mgr = .raise i) :
    ∃ w, s.mgr.workerThreads.entries[i]? = some (some w) ∧ Least s w := by
  unfold choose at h
  by_cases h0 : s.mgr.nrOfLaunchedThreads = 0
  · simp [h0] at h
  rw [if_neg h0] at h
  cases hm : getMinAndIdx s.mgr.workerThreads with
  | none => simp [hm] at h
  | some b =>
    obtain ⟨⟨w, hw, hc⟩, hleast⟩ := getMinAndIdx_least hm
    simp only [hm] at h
    obtain rfl : b.2 = i := by
      split_ifs at h with hlt hT hM
      · simpa using h
      · simp at h
      · simpa using h
      · simp at h
      · simp at h
    exact ⟨w, hw, fun v hv => by have := hleast v hv; omega⟩

theorem choose_assign {w : WorkerEntry} (h : choose s.mgr = .assign i)
    (hw : s.mgr.workerThreads.entries[i]? = some (some w)) :
    w.count < s.mgr.maxClientsPerThread := by
  unfold choose at h
  by_cases h0 : s.mgr.nrOfLaunchedThreads = 0
  · simp [h0] at h
  rw [if_neg h0] at h
  cases hm : getMinAndIdx s.mgr.workerThreads with
  | none => simp [hm] at h
  | some b =>
    obtain ⟨⟨v, hv, hc⟩, _⟩ := getMinAndIdx_least hm
    simp only [hm] at h
    split_ifs at h with hlt
    obtain rfl : b.2 = i := by simpa using h
    obtain rfl : v = w := by simpa [hw] using hv.symm
    omega

theorem choose_raise (h : choose s.mgr = .raise i) :
    s.mgr.nrOfLaunchedThreads = cfg.maxNrOfThreads ∧
      s.mgr.maxClientsPerThread + 1 ≤ cfg.maxClientsPerThread := by
  unfold choose at h
  by_cases h0 : s.mgr.nrOfLaunchedThreads = 0
  · simp [h0] at h
  rw [if_neg h0] at h
  cases hm : getMinAndIdx s.mgr.workerThreads with
  | none => simp [hm] at h
  | some b =>
    simp only [hm] at h
    split_ifs at h with _ hT hM
    exact ⟨hT, by omega⟩

theorem choose_overLimit (h : choose s.mgr = .overLimit) :
    s.mgr.nrOfLaunchedThreads = cfg.maxNrOfThreads := by
  unfold choose at h
  by_cases h0 : s.mgr.nrOfLaunchedThreads = 0
  · simp [h0] at h
  rw [if_neg h0] at h
  cases hm : getMinAndIdx s.mgr.workerThreads with
  | none => simp [hm] at h
  | some b =>
    simp only [hm] at h
    split_ifs at h with _ hT
    exact hT

-- a launch that does not count where it writes needs an array without workers
theorem choose_launch_cases (h : choose s.mgr = .launch n) :
    n = s.mgr.nrOfLaunchedThreads ∨
      n = 0 ∧ s.mgr.nrOfLaunchedThreads ≠ 0 ∧ s.mgr.workerThreads.values = [] := by
  unfold choose at h
  by_cases h0 : s.mgr.nrOfLaunchedThreads = 0
  · rw [if_pos h0] at h
    cases h
    exact .inl h0.symm
  rw [if_neg h0] at h
  cases hm : getMinAndIdx s.mgr.workerThreads with
  | none =>
    simp only [hm, Choice.launch.injEq] at h
    exact .inr ⟨h.symm, h0, getMinAndIdx_none_iff.mp hm⟩
  | some b =>
    simp only [hm] at h
    split_ifs at h
    cases h
    exact .inl rfl

theorem mustLaunch_of_choose (h : Counted s) (hc : choose s.mgr = .launch n) :
    MustLaunch s ∧ n = s.mgr.nrOfLaunchedThreads := by
  rcases choose_of_counted h with ⟨hl, hm⟩ | ⟨_, ho | ⟨i, w, _, ha | ha⟩⟩
  · exact ⟨hm, by rw [hl] at hc; exact (Choice.launch.inj hc).symm⟩
  · rw [ho] at hc
    cases hc
  · rw [ha] at hc
    cases hc
  · rw [ha] at hc
    cases hc

theorem incCount_unoccupied (h : ∀ w : WorkerEntry,
    s.mgr.workerThreads.entries[i]? ≠ some (some w)) :
    incCount i s = .error .undefinedBehaviour s := by
  refine bind_of_error ?_
  rw [derefWorker, get_bind_run]
  cases hx : s.mgr.workerThreads.entries[i]? with
  | none => rfl
  | some x =>
    cases x with
    | none => rfl
    | some w => exact absurd hx (h w)

theorem emplaceNewWorker_unoccupied (he : 0 ≤ eventfd) (h0 : s.mgr.nrOfLaunchedThreads ≠ 0)
    (hv : s.mgr.workerThreads.values = []) :
    ∃ u, emplaceNewWorker socket id 0 listenerEvfd eventfd s = .error .undefinedBehaviour u := by
  have hneg : ¬ eventfd < 0 := by omega
  have hnone (w : WorkerEntry) : s.mgr.workerThreads.entries[0]? ≠ some (some w) := by
    intro hw
    have := Slots.mem_values_iff.mpr ⟨0, hw⟩
    rw [hv] at this
    cases this
  have hset (x : Option WorkerEntry) (w : WorkerEntry) :
      (s.mgr.workerThreads.set s.mgr.nrOfLaunchedThreads x).entries[0]? ≠ some (some w) := by
    rw [Slots.get_set, if_neg (fun h => h0 h.1)]
    exact hnone w
  simp only [emplaceNewWorker, getEvfd, hneg, if_false, bind_run, modify_run, pure_run, get_run]
  cases hold : s.mgr.workerThreads.entries[s.mgr.nrOfLaunchedThreads]? with
  | none => exact ⟨_, rfl⟩
  | some old =>
    have hold' : old = none := by
      cases old with
      | none => rfl
      | some w =>
        have := Slots.mem_values_iff.mpr ⟨_, hold⟩
        rw [hv] at this
        cases this
    subst hold'
    simp only [joinOf, setWorker, modify_bind_run, pure_bind_run]
    exact ⟨_, bind_of_error (incCount_unoccupied (hset _))⟩

theorem emplaceNewWorker_outside (he : 0 ≤ eventfd)
    (h : s.mgr.workerThreads.entries[s.mgr.nrOfLaunchedThreads]? = none) :
    emplaceNewWorker socket id n listenerEvfd eventfd s = .error .undefinedBehaviour
      { s with kernel := { s.kernel with
        evfd := fun x => if x = eventfd then 0 else s.kernel.evfd x } } := by
  have hneg : ¬ eventfd < 0 := by omega
  simp only [emplaceNewWorker, getEvfd, hneg, if_false, bind_run, modify_run, pure_run, get_run, h,
    throw_run]

theorem assignTo_ledger {w : WorkerEntry} (hw : s.mgr.workerThreads.entries[i]? = some (some w)) :
    SameLedger (s.addTo i w) (final (assignTo i socket id s)) := by
  obtain ⟨q, hq⟩ := assignTo_final hw socket id
  constructor <;> rw [hq] <;> rfl

theorem connect_cases
    (h : traffic refusals s (.connect socket id listenerEvfd eventfd) = some t) :
    Connected refusals socket id listenerEvfd eventfd s t := by
  rw [traffic, processNewClient_eq] at h
  cases hc : choose s.mgr with
  | launch n =>
    rw [hc] at h
    simp only at h
    by_cases he : eventfd < 0
    · rw [emplaceNewWorker_eventfd he] at h
      obtain ⟨rfl, hr⟩ := settle_error h
      exact .noEventfd hc he hr
    · have he' : 0 ≤ eventfd := by omega
      rcases choose_launch_cases hc with rfl | ⟨rfl, h0, hv⟩
      · cases hold : s.mgr.workerThreads.entries[s.mgr.nrOfLaunchedThreads]? with
        | none =>
          rw [emplaceNewWorker_outside he' hold] at h
          cases h
        | some old =>
          rw [emplaceNewWorker_run he' hold] at h
          obtain rfl := settle_final h
          exact .launched hc he' hold
      · obtain ⟨u, hu⟩ := emplaceNewWorker_unoccupied he' h0 hv
        rw [hu] at h
        cases h
  | assign i =>
    obtain ⟨w, hw, _⟩ := choose_least (.inl hc)
    rw [hc] at h
    obtain rfl := settle_final h
    exact .assigned hc hw (assignTo_ledger hw)
  | raise i =>
    obtain ⟨w, hw, _⟩ := choose_least (.inr hc)
    rw [hc] at h
    obtain rfl := settle_final h
    exact .raised hc hw (assignTo_ledger (s := s.raiseMax) hw)
  | overLimit =>
    rw [hc] at h
    obtain ⟨rfl, hr⟩ := settle_error h
    exact .overLimit hc hr
  | allLaunched =>
    rw [hc] at h
    obtain ⟨rfl, hr⟩ := settle_error h
    exact .allLaunched hc hr

theorem disconnect_cases (h : traffic refusals s (.disconnect i) = some t) :
    t = s ∧ refusals = true ∨ ∃ w, s.mgr.workerThreads.entries[i]? = some (some w) ∧
      0 < w.count ∧ t = s.release i w := by
  rw [traffic] at h
  cases hx : s.mgr.workerThreads.entries[i]? with
  | none =>
    have hn : ¬ (i : Int) < 0 := by omega
    simp [workerClientDisconnect, workerAt, hn, hx, bind_run, settle] at h
  | some x =>
    cases x with
    | none =>
      rw [workerClientDisconnect_empty hx] at h
      obtain ⟨rfl, hr⟩ := settle_error h
      exact .inl ⟨rfl, hr⟩
    | some w =>
      by_cases h0 : w.count = 0
      · have hrun : workerClientDisconnect i s = .error (.threadManagingException
            "Can't disconnect from a thread that has no connections\n") s := by
          rw [workerClientDisconnect, bind_of_ok (workerAt_run hx)]
          simp [h0]
        rw [hrun] at h
        obtain ⟨rfl, hr⟩ := settle_error h
        exact .inl ⟨rfl, hr⟩
      · rw [workerClientDisconnect_run hx (by omega)] at h
        obtain rfl := settle_final h
        exact .inr ⟨w, rfl, by omega, rfl⟩

theorem elsewhere_cases {u : Shared cfg} (h : traffic refusals s (.elsewhere u) = some t) :
    SameLedger s t := by
  obtain ⟨hl, rfl⟩ : SameLedger s u ∧ u = t := by simpa [traffic] using h
  exact hl

end Inversion

end ChatApp
