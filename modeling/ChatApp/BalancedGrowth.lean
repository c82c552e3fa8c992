import Mathlib.Data.List.Range
import ChatApp.Accounts
import ChatApp.Traffic

namespace ChatApp

open Effects Runs

variable {cfg : Config}

-- eventfd() gives a descriptor where a worker is launched, elsewhere push and write go through
def GoesThrough (s : Shared cfg) (eventfd : Int) : Prop :=
  (MustLaunch s → 0 ≤ eventfd) ∧ (¬ MustLaunch s → HasSeat s)

-- the states that k connections lead to
inductive Joined : Nat → Shared cfg → Prop
  | fresh (sv : Server cfg) (kernel : Kernel) (hist : History) :
    Joined 0 (Shared.fresh sv kernel hist)
  | elsewhere {k : Nat} {s t : Shared cfg} (h : Joined k s) (ht : SameLedger s t) : Joined k t
  | connect {k : Nat} {s t : Shared cfg} {socket id listenerEvfd eventfd : Int} (h : Joined k s)
    (hs : GoesThrough s eventfd)
    (ht : traffic true s (.connect socket id listenerEvfd eventfd) = some t) : Joined (k + 1) t

-- the slots of the first k clients
def slots (n k : Nat) : List Nat := (List.range k).map (· % n)

def ceilDiv (k n : Nat) : Nat := (k + n - 1) / n

-- then they leave, in any order, each by the slot it was given
inductive Draining : List Nat → Shared cfg → Prop
  | full {k : Nat} {s : Shared cfg} (h : Joined k s) (hk : k ≤ cfg.maxClients) :
    Draining (slots cfg.maxNrOfThreads k) s
  | elsewhere {left : List Nat} {s t : Shared cfg} (h : Draining left s) (ht : SameLedger s t) :
    Draining left t
  | leave {left : List Nat} {i : Nat} {s t : Shared cfg} (h : Draining left s) (hi : i ∈ left)
    (ht : traffic true s (.disconnect i) = some t) : Draining (left.erase i) t

-- the client is given to the worker of slot i, a new one or one that runs
def Assigned (s t : Shared cfg) (i : Nat) (socket id listenerEvfd eventfd : Int) : Prop :=
  s.mgr.workerThreads.entries[i]? = some none ∧
    t.mgr.workerThreads =
      s.mgr.workerThreads.set i (some ⟨1, eventfd, s.kernel.spawned.length⟩) ∧
    t.kernel.spawned = s.kernel.spawned ++ [⟨socket, id, i, eventfd, listenerEvfd⟩] ∨
  ∃ w, s.mgr.workerThreads.entries[i]? = some (some w) ∧
    t.mgr.workerThreads =
      s.mgr.workerThreads.set i (some { w with count := w.count + 1 }) ∧
    t.mgr.qListenerToWorker =
      s.mgr.qListenerToWorker ++ [(acceptMsg i socket id).getConcatenatedMsg]

-- every slot counts its clients among those that are still there
structure Held (left : List Nat) (s : Shared cfg) : Prop where
  counted : Counted s
  live : Live s
  counts : ∀ i, countAt s.mgr.workerThreads i = left.count i

structure Grown (k : Nat) (s : Shared cfg) : Prop where
  held : Held (slots cfg.maxNrOfThreads k) s
  nr : s.mgr.nrOfLaunchedThreads = min k cfg.maxNrOfThreads
  limit : s.mgr.maxClientsPerThread = max 1 (ceilDiv k cfg.maxNrOfThreads)

section Shares

variable {n : Nat}

theorem slots_succ (n k : Nat) : slots n (k + 1) = slots n k ++ [k % n] := by
  simp [slots, List.range_succ]

theorem count_slots (hn : 0 < n) (k : Nat) {i : Nat} (hi : i < n) :
    (slots n k).count i = k / n + if i < k % n then 1 else 0 := by
  induction k with
  | zero => simp [slots]
  | succ k ih =>
    have hmod := Nat.mod_lt k hn
    have hk := Nat.div_add_mod k n
    rw [slots_succ, List.count_append, ih, List.count_singleton]
    by_cases hlast : k % n + 1 = n
    · have hdm : (k + 1) / n = k / n + 1 ∧ (k + 1) % n = 0 := by
        refine (Nat.div_mod_unique hn).mpr ⟨?_, hn⟩
        rw [Nat.mul_add, Nat.mul_one]
        omega
      rw [hdm.1, hdm.2]
      by_cases he : k % n = i
      · simp [he]
      · have hlt : i < k % n := by omega
        simp [he, hlt]
    · have hdm : (k + 1) / n = k / n ∧ (k + 1) % n = k % n + 1 := by
        refine (Nat.div_mod_unique hn).mpr ⟨?_, by omega⟩
        omega
      rw [hdm.1, hdm.2]
      by_cases he : k % n = i
      · simp [he]
      · have hiff : i < k % n + 1 ↔ i < k % n := by omega
        simp [he, hiff]

theorem mem_slots {k i : Nat} (hn : 0 < n) (h : i ∈ slots n k) : i < n := by
  obtain ⟨j, _, rfl⟩ := List.mem_map.mp h
  exact Nat.mod_lt j hn

theorem ceilDiv_eq (hn : 0 < n) (k : Nat) :
    ceilDiv k n = k / n + if k % n = 0 then 0 else 1 := by
  have hmod := Nat.mod_lt k hn
  have hk := Nat.div_add_mod k n
  have hdm {q r : Nat} (h : r + n * q = k + n - 1) (hr : r < n) : (k + n - 1) / n = q :=
    ((Nat.div_mod_unique hn).mpr ⟨h, hr⟩).1
  unfold ceilDiv
  split_ifs with h0
  · rw [Nat.add_zero]
    exact hdm (r := n - 1) (by omega) (by omega)
  · refine hdm (r := k % n - 1) ?_ (by omega)
    rw [Nat.mul_add, Nat.mul_one]
    omega

theorem ceilDiv_succ (hn : 0 < n) (k : Nat) : ceilDiv (k + 1) n = k / n + 1 := by
  have hk : k + 1 + n - 1 = k + n := by omega
  rw [ceilDiv, hk, Nat.add_div_right k hn]

end Shares

section Growth

variable {s t : Shared cfg} {k : Nat} {left : List Nat}
  {socket id listenerEvfd eventfd : Int}

theorem SameLedger.held (h : SameLedger s t) (hs : Held left s) : Held left t where
  counted := h.counted hs.counted
  live := by
    rw [Live, h.workers]
    exact hs.live
  counts := by
    rw [h.workers]
    exact hs.counts

theorem SameLedger.grown (h : SameLedger s t) (hs : Grown k s) : Grown k t :=
  ⟨h.held hs.held, h.nr.trans hs.nr, h.max.trans hs.limit⟩

theorem grown_fresh (sv : Server cfg) (kernel : Kernel) (hist : History) :
    Grown 0 (Shared.fresh sv kernel hist) where
  held := ⟨counted_fresh sv kernel hist, by simp [Live, Shared.fresh],
    fun i => by simp [Shared.fresh, slots]⟩
  nr := (Nat.zero_min _).symm
  limit := by
    rw [ceilDiv_eq cfg.threads_pos]
    simp [Shared.fresh]

-- an entry is empty exactly when no client is left there
theorem Held.entry (h : Held left s) {i : Nat} (hi : i < cfg.maxNrOfThreads) :
    (left.count i = 0 ∧ s.mgr.workerThreads.entries[i]? = some none) ∨
    (0 < left.count i ∧ ∃ w, s.mgr.workerThreads.entries[i]? = some (some w) ∧
      w.count = left.count i ∧ 0 ≤ w.evfd) := by
  have hc := h.counts i
  obtain ⟨x, hx⟩ := s.mgr.workerThreads.get_of_lt hi
  cases x with
  | none =>
    rw [countAt_none hx] at hc
    exact .inl ⟨hc.symm, hx⟩
  | some w =>
    rw [countAt_some hx] at hc
    obtain ⟨hpos, he⟩ := h.live w (Slots.mem_values_iff.mpr ⟨i, hx⟩)
    exact .inr ⟨by omega, w, hx, hc, he⟩

theorem Held.count (h : Held left s) {i : Nat} {w : WorkerEntry}
    (hw : s.mgr.workerThreads.entries[i]? = some (some w)) : w.count = left.count i := by
  rw [← h.counts, countAt_some hw]

theorem Held.first (h : Held left s) {r : Nat} (hr : r < cfg.maxNrOfThreads)
    (hpos : 0 < left.count r) (hfirst : ∀ i < r, left.count r < left.count i)
    (hleast : ∀ i < cfg.maxNrOfThreads, 0 < left.count i → left.count r ≤ left.count i) :
    getMinAndIdx s.mgr.workerThreads = some (left.count r, r) := by
  obtain ⟨h0, _⟩ | ⟨_, w, hw, hc, _⟩ := h.entry hr
  · omega
  have hmin : minFrom none 0 s.mgr.workerThreads.entries = some (w.count, 0 + r) := by
    refine minFrom_first hw (by simp) (fun i v hi hv => ?_) fun v hv => ?_
    · rw [hc, h.count hv]
      exact hfirst i hi
    · obtain ⟨i, hi⟩ := Slots.mem_values_iff.mp hv
      have hlive := (h.live v hv).1
      have hcount := h.count hi
      rw [hc, hcount]
      exact hleast i (Slots.lt_of_get hi) (by omega)
  rw [getMinAndIdx, hmin, hc, Nat.zero_add]

theorem Grown.choose_launching (h : Grown k s) (hk : k < cfg.maxNrOfThreads) :
    choose s.mgr = .launch k := by
  have hT := cfg.threads_pos
  have hdiv : k / cfg.maxNrOfThreads = 0 := Nat.div_eq_of_lt hk
  have hmod : k % cfg.maxNrOfThreads = k := Nat.mod_eq_of_lt hk
  have hnr : s.mgr.nrOfLaunchedThreads = k := by rw [h.nr]; omega
  unfold choose
  rw [hnr]
  by_cases h0 : k = 0
  · rw [if_pos h0, h0]
  have hshare {i : Nat} (hi : i < cfg.maxNrOfThreads) :
      (slots cfg.maxNrOfThreads k).count i = if i < k then 1 else 0 := by
    rw [count_slots hT k hi, hdiv, hmod, Nat.zero_add]
  have hone : (slots cfg.maxNrOfThreads k).count 0 = 1 := by
    rw [hshare hT, if_pos (by omega)]
  have hmin : getMinAndIdx s.mgr.workerThreads = some (1, 0) := by
    rw [h.held.first hT (by omega) (by omega) fun i _ hpos => by omega, hone]
  have hlimit : s.mgr.maxClientsPerThread = 1 := by
    rw [h.limit, ceilDiv_eq hT, hdiv, hmod, if_neg h0]
    rfl
  rw [if_neg h0, hmin, hlimit]
  simp only [lt_irrefl, if_false]
  rw [if_neg (by omega), if_neg (by omega)]

-- every worker runs: the next client goes to the first of those with the least count
theorem Grown.choose_filling (h : Grown k s) (hk : cfg.maxNrOfThreads ≤ k) :
    choose s.mgr =
      if k % cfg.maxNrOfThreads ≠ 0 then .assign (k % cfg.maxNrOfThreads)
      else if k < cfg.maxClients then .raise (k % cfg.maxNrOfThreads) else .overLimit := by
  have hT := cfg.threads_pos
  have hmod := Nat.mod_lt k hT
  have hdm := Nat.div_add_mod k cfg.maxNrOfThreads
  have hq : 1 ≤ k / cfg.maxNrOfThreads := (Nat.one_le_div_iff hT).mpr hk
  have hnr : s.mgr.nrOfLaunchedThreads = cfg.maxNrOfThreads := by rw [h.nr]; omega
  have hshare {i : Nat} (hi : i < cfg.maxNrOfThreads) := count_slots hT k hi
  have hself : (slots cfg.maxNrOfThreads k).count (k % cfg.maxNrOfThreads) =
      k / cfg.maxNrOfThreads := by rw [hshare hmod, if_neg (lt_irrefl _), Nat.add_zero]
  have hmin : getMinAndIdx s.mgr.workerThreads =
      some (k / cfg.maxNrOfThreads, k % cfg.maxNrOfThreads) := by
    rw [h.held.first hmod (by omega) (fun i hi => ?_) fun i hi _ => ?_, hself]
    · rw [hself, hshare (by omega), if_pos hi]
      omega
    · rw [hself, hshare hi]
      omega
  unfold choose
  rw [hnr, if_neg (by omega), hmin, h.limit, ceilDiv_eq hT]
  simp only
  by_cases hr : k % cfg.maxNrOfThreads = 0
  · have hmax : max 1 (k / cfg.maxNrOfThreads) = k / cfg.maxNrOfThreads := by omega
    have hfull : cfg.maxClientsPerThread < k / cfg.maxNrOfThreads + 1 ↔ ¬ k < cfg.maxClients := by
      have hmul : k = cfg.maxNrOfThreads * (k / cfg.maxNrOfThreads) := by omega
      have hlt := Nat.mul_lt_mul_left (a := cfg.maxNrOfThreads) (b := k / cfg.maxNrOfThreads)
        (c := cfg.maxClientsPerThread) hT
      rw [← hmul] at hlt
      rw [Config.maxClients, hlt]
      omega
    simp only [hr, if_true, Nat.add_zero, hmax, lt_irrefl, if_false, ne_eq, not_true, hfull]
    split_ifs <;> rfl
  · have hlt : k / cfg.maxNrOfThreads < max 1 (k / cfg.maxNrOfThreads + 1) := by omega
    simp only [hr, if_false, hlt, if_true, ne_eq, not_false_iff]

theorem Held.seated (h : Held (slots cfg.maxNrOfThreads k) s)
    (ht : Seated s t (k % cfg.maxNrOfThreads)) : Held (slots cfg.maxNrOfThreads (k + 1)) t where
  counted := ht.counted
  live := ht.live
  counts := fun i => by
    have hsame : (k % cfg.maxNrOfThreads == i) = true ↔ i = k % cfg.maxNrOfThreads := by
      rw [beq_iff_eq, eq_comm]
    rw [ht.counts, h.counts, slots_succ, List.count_append, List.count_singleton]
    simp only [hsame]

theorem Grown.launches (h : Grown k s) (hk : k < cfg.maxNrOfThreads)
    (hs : GoesThrough s eventfd) :
    ∃ t, processNewClient socket id listenerEvfd eventfd s = .ok () t ∧
      Assigned s t (k % cfg.maxNrOfThreads) socket id listenerEvfd eventfd ∧ Grown (k + 1) t := by
  have hmod : k % cfg.maxNrOfThreads = k := Nat.mod_eq_of_lt hk
  have hdiv : k / cfg.maxNrOfThreads = 0 := Nat.div_eq_of_lt hk
  have hc := h.choose_launching hk
  obtain ⟨hm, hnr⟩ := mustLaunch_of_choose h.held.counted hc
  have he := hs.1 hm
  have hfree : s.mgr.workerThreads.entries[k]? = some none := by
    rcases h.held.entry hk with ⟨_, hnone⟩ | ⟨hpos, _⟩
    · exact hnone
    · rw [count_slots cfg.threads_pos k hk, hdiv, hmod, if_neg (lt_irrefl k)] at hpos
      exact absurd hpos (lt_irrefl 0)
  have hocc : s.occupied = k := h.held.counted.symm.trans hnr.symm
  have hfree' : NextFree s := by rw [NextFree, hocc]; exact hfree
  have hseat : Seated s (s.launch socket id s.occupied listenerEvfd eventfd none) s.occupied :=
    seated_fill h.held.counted h.held.live hfree' he
  have hrun : emplaceNewWorker socket id k listenerEvfd eventfd s =
      .ok () (s.launch socket id k listenerEvfd eventfd none) := by
    rw [hnr] at hfree ⊢
    exact emplaceNewWorker_run he hfree
  rw [hocc] at hseat
  rw [hmod]
  refine ⟨_, by rw [processNewClient_eq, hc]; exact hrun, .inl ⟨hfree, ?_, rfl⟩, ?_, ?_, ?_⟩
  · rw [hnr]
    rfl
  · exact h.held.seated (by rw [hmod]; exact hseat)
  · change s.mgr.nrOfLaunchedThreads + 1 = _
    omega
  · change s.mgr.maxClientsPerThread = _
    rw [h.limit, ceilDiv_succ cfg.threads_pos, ceilDiv_eq cfg.threads_pos, hdiv]
    split_ifs <;> rfl

theorem Grown.fills (h : Grown k s) (hT : cfg.maxNrOfThreads ≤ k) (hk : k < cfg.maxClients)
    (hs : GoesThrough s eventfd) :
    ∃ t, processNewClient socket id listenerEvfd eventfd s = .ok () t ∧
      Assigned s t (k % cfg.maxNrOfThreads) socket id listenerEvfd eventfd ∧ Grown (k + 1) t := by
  have hmod := Nat.mod_lt k cfg.threads_pos
  have hq : 1 ≤ k / cfg.maxNrOfThreads := (Nat.one_le_div_iff cfg.threads_pos).mpr hT
  have hnr : s.mgr.nrOfLaunchedThreads = cfg.maxNrOfThreads := by rw [h.nr]; omega
  have hfull : ¬ MustLaunch s := fun hm => by
    have hlt := hm.2
    rw [← h.held.counted, hnr] at hlt
    exact lt_irrefl _ hlt
  obtain ⟨hroom, hseat⟩ := hs.2 hfull
  obtain ⟨hzero, _⟩ | ⟨_, w, hw, _, he⟩ := h.held.entry hmod
  · rw [count_slots cfg.threads_pos k hmod] at hzero
    omega
  have hnext : min (k + 1) cfg.maxNrOfThreads = cfg.maxNrOfThreads := by omega
  have hc := h.choose_filling hT
  have hlimit := h.limit
  rw [ceilDiv_eq cfg.threads_pos] at hlimit
  by_cases hr : k % cfg.maxNrOfThreads = 0
  · rw [if_neg (not_not.mpr hr), if_pos hk] at hc
    have hrun : processNewClient socket id listenerEvfd eventfd s =
        .ok () (s.raiseMax.assign (k % cfg.maxNrOfThreads) w socket id) := by
      rw [processNewClient_eq, hc]
      exact assignTo_of_room (s := s.raiseMax) hw hroom he (hseat _ w (by rw [slotFor, hc]) hw)
    refine ⟨_, hrun, .inr ⟨w, hw, rfl, rfl⟩,
      h.held.seated (seated_set h.held.counted h.held.live hw rfl rfl), hnr.trans hnext.symm, ?_⟩
    change s.mgr.maxClientsPerThread + 1 = _
    rw [hlimit, if_pos hr, ceilDiv_succ cfg.threads_pos]
    omega
  · rw [if_pos hr] at hc
    have hrun : processNewClient socket id listenerEvfd eventfd s =
        .ok () (s.assign (k % cfg.maxNrOfThreads) w socket id) := by
      rw [processNewClient_eq, hc]
      exact assignTo_of_room hw hroom he (hseat _ w (by rw [slotFor, hc]) hw)
    refine ⟨_, hrun, .inr ⟨w, hw, rfl, rfl⟩,
      h.held.seated (seated_set h.held.counted h.held.live hw rfl rfl), hnr.trans hnext.symm, ?_⟩
    change s.mgr.maxClientsPerThread = _
    rw [hlimit, if_neg hr, ceilDiv_succ cfg.threads_pos]

theorem Grown.next (h : Grown k s) (hk : k < cfg.maxClients) (hs : GoesThrough s eventfd) :
    ∃ t, processNewClient socket id listenerEvfd eventfd s = .ok () t ∧
      Assigned s t (k % cfg.maxNrOfThreads) socket id listenerEvfd eventfd ∧ Grown (k + 1) t := by
  by_cases hT : k < cfg.maxNrOfThreads
  · exact h.launches hT hs
  · exact h.fills (by omega) hk hs

theorem Grown.refuses (h : Grown cfg.maxClients s) :
    ∃ t what, processNewClient socket id listenerEvfd eventfd s =
      .error (.serverFullException what) t := by
  have hT : cfg.maxNrOfThreads ≤ cfg.maxClients := Nat.le_mul_of_pos_right _ cfg.clients_pos
  have hmod : cfg.maxClients % cfg.maxNrOfThreads = 0 := Nat.mul_mod_right _ _
  have hc := h.choose_filling hT
  rw [if_neg (not_not.mpr hmod), if_neg (lt_irrefl _)] at hc
  exact ⟨_, _, by rw [processNewClient_eq, hc]⟩

theorem Joined.grown (h : Joined k s) (hk : k ≤ cfg.maxClients) : Grown k s := by
  induction h with
  | fresh sv kernel hist => exact grown_fresh sv kernel hist
  | elsewhere _ ht ih => exact ht.grown (ih hk)
  | connect _ hs ht ih =>
    obtain ⟨u, hu, _, hgrown⟩ := (ih (by omega)).next (by omega) hs
    rw [traffic, hu] at ht
    cases ht
    exact hgrown

theorem Grown.occupied_iff (h : Grown k s) (i : Nat) :
    (∃ w, s.mgr.workerThreads.entries[i]? = some (some w)) ↔ i < min k cfg.maxNrOfThreads := by
  have hT := cfg.threads_pos
  have hdm := Nat.div_add_mod k cfg.maxNrOfThreads
  constructor
  · rintro ⟨w, hw⟩
    have hi := Slots.lt_of_get hw
    have hpos := (h.held.live w (Slots.mem_values_iff.mpr ⟨i, hw⟩)).1
    rw [h.held.count hw, count_slots hT k hi] at hpos
    by_cases hk : k < cfg.maxNrOfThreads
    · rw [Nat.div_eq_of_lt hk, Nat.mod_eq_of_lt hk] at hpos
      split_ifs at hpos <;> omega
    · omega
  · intro hi
    have hiT : i < cfg.maxNrOfThreads := by omega
    rcases h.held.entry hiT with ⟨hzero, _⟩ | ⟨_, w, hw, _⟩
    · rw [count_slots hT k hiT] at hzero
      by_cases hk : k < cfg.maxNrOfThreads
      · have hik : i < k := by omega
        rw [Nat.mod_eq_of_lt hk, if_pos hik] at hzero
        exact absurd hzero (Nat.succ_ne_zero _)
      · have : 1 ≤ k / cfg.maxNrOfThreads := (Nat.one_le_div_iff hT).mpr (by omega)
        omega
    · exact ⟨w, hw⟩

theorem Grown.even (h : Grown k s) {v w : WorkerEntry} (hv : v ∈ s.mgr.workerThreads.values)
    (hw : w ∈ s.mgr.workerThreads.values) : v.count ≤ w.count + 1 := by
  obtain ⟨i, hi⟩ := Slots.mem_values_iff.mp hv
  obtain ⟨j, hj⟩ := Slots.mem_values_iff.mp hw
  rw [h.held.count hi, h.held.count hj, count_slots cfg.threads_pos k (Slots.lt_of_get hi),
    count_slots cfg.threads_pos k (Slots.lt_of_get hj)]
  split_ifs <;> omega

end Growth

section Departures

variable {s t : Shared cfg} {left : List Nat} {i : Nat}

theorem Held.leaves (h : Held left s) (hi : i ∈ left) (hn : i < cfg.maxNrOfThreads) :
    ∃ t, workerClientDisconnect i s = .ok () t ∧ Held (left.erase i) t ∧
      t.mgr.maxClientsPerThread = largest t.mgr.workerThreads := by
  obtain ⟨hzero, _⟩ | ⟨hpos, w, hw, hc, _⟩ := h.entry hn
  · exact absurd hi (List.count_eq_zero.mp hzero)
  · have hwpos : 0 < w.count := by omega
    refine ⟨_, workerClientDisconnect_run hw hwpos, ⟨counted_release h.counted hw,
      live_release h.live hw hwpos, fun j => ?_⟩, getMaxAndIdx_eq _⟩
    have hj := countAt_release hw hwpos j
    rw [h.counts] at hj
    rw [List.count_erase]
    split_ifs at hj with hij
    · simp only [hij, beq_self_eq_true, if_true] at hj ⊢
      omega
    · have hne : (i == j) = false := by simpa using Ne.symm hij
      simp only [hne, Bool.false_eq_true, if_false]
      omega

theorem Draining.held (h : Draining left s) :
    Held left s ∧ ∀ i ∈ left, i < cfg.maxNrOfThreads := by
  induction h with
  | full h hk => exact ⟨(h.grown hk).held, fun i hi => mem_slots cfg.threads_pos hi⟩
  | elsewhere _ ht ih => exact ⟨ht.held ih.1, ih.2⟩
  | leave _ hi ht ih =>
    obtain ⟨u, hu, hheld, _⟩ := ih.1.leaves hi (ih.2 _ hi)
    rw [traffic, hu] at ht
    cases ht
    exact ⟨hheld, fun j hj => ih.2 j (List.mem_of_mem_erase hj)⟩

theorem Held.empty (h : Held [] s) : s.mgr.workerThreads.values = [] := by
  refine List.eq_nil_iff_forall_not_mem.mpr fun w hw => ?_
  obtain ⟨i, hi⟩ := Slots.mem_values_iff.mp hw
  have hpos := (h.live w hw).1
  rw [h.count hi, List.count_nil] at hpos
  omega

theorem Held.drains (h : Held left s) (hn : ∀ i ∈ left, i < cfg.maxNrOfThreads) {order : List Nat}
    (hp : order.Perm left) :
    ∃ t, run (traffic false) s (order.map .disconnect) = some t ∧ Held [] t := by
  induction order generalizing left s with
  | nil =>
    obtain rfl := List.nil_perm.mp hp
    exact ⟨s, rfl, h⟩
  | cons i order ih =>
    have hi : i ∈ left := hp.mem_iff.mp (by simp)
    obtain ⟨u, hu, hheld, _⟩ := h.leaves hi (hn i hi)
    have hrest : order.Perm (left.erase i) := by
      have := hp.erase i
      rwa [List.erase_cons_head] at this
    obtain ⟨t, ht, hdone⟩ := ih hheld (fun j hj => hn j (List.mem_of_mem_erase hj)) hrest
    refine ⟨t, ?_, hdone⟩
    have hstep : traffic false s (.disconnect i) = some u := by
      rw [traffic, hu]
      rfl
    simp only [List.map_cons, run, hstep, Option.bind_some]
    exact ht

end Departures

theorem growth_and_drain (cfg : Config) :
    (∀ k (s : Shared cfg), Joined k s → k ≤ cfg.maxClients →
      s.mgr.nrOfLaunchedThreads = min k cfg.maxNrOfThreads ∧
      (∀ i : Nat, (∃ w, s.mgr.workerThreads.entries[i]? = some (some w)) ↔
        i < min k cfg.maxNrOfThreads) ∧
      (∀ v ∈ s.mgr.workerThreads.values, ∀ w ∈ s.mgr.workerThreads.values,
        v.count ≤ w.count + 1) ∧
      s.mgr.maxClientsPerThread = max 1 (ceilDiv k cfg.maxNrOfThreads) ∧
      ∀ socket id listenerEvfd eventfd,
        (k < cfg.maxClients → GoesThrough s eventfd →
          ∃ t, processNewClient socket id listenerEvfd eventfd s = .ok () t ∧
            Assigned s t (k % cfg.maxNrOfThreads) socket id listenerEvfd eventfd) ∧
        (k = cfg.maxClients →
          ∃ t what, processNewClient socket id listenerEvfd eventfd s =
            .error (.serverFullException what) t)) ∧
    (∀ left (s : Shared cfg), Draining left s →
      (∀ i ∈ left, ∃ t, workerClientDisconnect i s = .ok () t ∧
        t.mgr.nrOfLaunchedThreads = t.occupied ∧
        t.mgr.maxClientsPerThread = largest t.mgr.workerThreads) ∧
      (left = [] → s.mgr.workerThreads.values = [])) ∧
    ∀ k (s : Shared cfg), Joined k s → k ≤ cfg.maxClients →
      ∀ order : List Nat, order.Perm (slots cfg.maxNrOfThreads k) →
        ∃ t, run (traffic false) s (order.map .disconnect) = some t ∧
          t.mgr.workerThreads.values = [] := by
  refine ⟨fun k s hs hk => ?_, fun left s hs => ?_, fun k s hs hk order hp => ?_⟩
  · have h := hs.grown hk
    refine ⟨h.nr, h.occupied_iff, fun v hv w hw => h.even hv hw, h.limit,
      fun socket id listenerEvfd eventfd => ⟨fun hlt hgo => ?_, fun he => ?_⟩⟩
    · obtain ⟨t, ht, ha, _⟩ := h.next hlt hgo
      exact ⟨t, ht, ha⟩
    · subst he
      exact h.refuses
  · obtain ⟨hheld, hn⟩ := hs.held
    refine ⟨fun i hi => ?_, fun he => ?_⟩
    · obtain ⟨t, ht, hleft, hmax⟩ := hheld.leaves hi (hn i hi)
      exact ⟨t, ht, hleft.counted, hmax⟩
    · subst he
      exact hheld.empty
  · have h := (hs.grown hk).held
    obtain ⟨t, ht, hdone⟩ := h.drains (fun i hi => mem_slots cfg.threads_pos hi) hp
    exact ⟨t, ht, hdone.empty⟩

section Full

instance (s : Shared cfg) : Decidable (MustLaunch s) := inferInstanceAs (Decidable (_ ∧ _))

def hasSeat (s : Shared cfg) : Bool :=
  cfg.hasRoom s.mgr.qListenerToWorker &&
    (slotFor s.mgr).all fun i => (s.mgr.workerThreads.entries[i]?).join.all fun w =>
      s.kernel.evfd w.evfd < evfdMax

theorem hasSeat_iff {s : Shared cfg} : hasSeat s = true ↔ HasSeat s := by
  rw [hasSeat, HasSeat, Bool.and_eq_true]
  refine and_congr_right fun _ => ?_
  simp only [Option.all_eq_true, Option.join_eq_some_iff, decide_eq_true_eq]
  exact ⟨fun h i w hi hw => h i hi w hw, fun h i hi w hw => h i w hi hw⟩

-- the client with id k connects
def letIn (s : Shared cfg) (k : Nat) : Option (Shared cfg) :=
  if (MustLaunch s → 0 ≤ (6 + 2 * k : Int)) ∧ (¬ MustLaunch s → hasSeat s = true) then
    traffic true s (.connect (5 + 2 * k) k 4 (6 + 2 * k))
  else none

theorem joined_of_letIn {ks : List Nat} {n : Nat} {s t : Shared cfg} (h : Joined n s)
    (hr : run letIn s ks = some t) : Joined (n + ks.length) t := by
  induction ks generalizing n s with
  | nil =>
    obtain rfl : s = t := Option.some.inj hr
    exact h
  | cons k ks ih =>
    obtain ⟨u, hu, hrest⟩ := run_cons hr
    obtain ⟨⟨hlaunch, hseat⟩, hconnect⟩ := Option.ite_none_right_eq_some.mp hu
    have hgo : GoesThrough s (6 + 2 * k) := ⟨hlaunch, fun hn => hasSeat_iff.mp (hseat hn)⟩
    have := ih (h.connect hgo hconnect) hrest
    rwa [Nat.add_right_comm] at this

theorem growth_and_drain_sixClients : ∃ s : Shared Config.deployed, Joined 6 s ∧
    s.mgr.nrOfLaunchedThreads = 2 ∧ s.mgr.maxClientsPerThread = 3 ∧
    (∃ t what, processNewClient 17 6 4 18 s = .error (.serverFullException what) t) ∧
    (∃ t, workerClientDisconnect 1 s = .ok () t ∧ t.mgr.nrOfLaunchedThreads = t.occupied ∧
      t.mgr.maxClientsPerThread = largest t.mgr.workerThreads) ∧
    ∃ t, run (traffic false) s ([1, 0, 0, 1, 1, 0].map .disconnect) = some t ∧
      t.mgr.workerThreads.values = [] := by
  have hrun : (run letIn deployedFresh [0, 1, 2, 3, 4, 5]).isSome = true := by decide +kernel
  obtain ⟨s, hs⟩ := Option.isSome_iff_exists.mp hrun
  have hsix : Joined 6 s := joined_of_letIn (.fresh _ _ _) hs
  obtain ⟨hgrowth, hleave, hdrain⟩ := growth_and_drain Config.deployed
  obtain ⟨hlaunched, _, _, hlimit, hnext⟩ := hgrowth 6 s hsix (by decide)
  refine ⟨s, hsix, hlaunched, hlimit, (hnext 17 6 4 18).2 (by decide), ?_, ?_⟩
  · exact (hleave _ _ (.full hsix (by decide))).1 1 (by decide)
  · exact hdrain 6 s hsix (by decide) [1, 0, 0, 1, 1, 0] (by decide)

end Full

end ChatApp
