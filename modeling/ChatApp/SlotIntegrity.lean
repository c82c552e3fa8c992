import ChatApp.Library.Runs
import ChatApp.LoadBalancer

namespace ChatApp

open Effects Runs

variable {cfg : Config}

inductive Call where
  | connect (socket id listenerEvfd eventfd : Int)
  | disconnect (i : Nat)
  deriving DecidableEq, Repr

-- the calls that succeed, on the arguments the callers are to pass
def call (s : Shared cfg) : Call → Option (Shared cfg)
  | .connect socket id listenerEvfd eventfd =>
    if 0 ≤ socket ∧ 0 ≤ id then
      match processNewClient socket id listenerEvfd eventfd s with
      | .ok _ t => some t
      | .error _ _ => none
    else none
  | .disconnect i =>
    match s.mgr.workerThreads.entries[i]? with
    | some (some w) =>
      if 1 ≤ w.count then
        match workerClientDisconnect i s with
        | .ok _ t => some t
        | .error _ _ => none
      else none
    | _ => none

def Shared.occupied (s : Shared cfg) : Nat := s.mgr.workerThreads.values.length

def Counted (s : Shared cfg) : Prop := s.mgr.nrOfLaunchedThreads = s.occupied

-- the entry a new worker is put into was empty and is the one whose count became 1
def LaunchedFree (s t : Shared cfg) : Prop :=
  s.kernel.spawned ≠ t.kernel.spawned → ∃ (i : Nat) (evfd : Int),
    s.mgr.workerThreads.entries[i]? = some none ∧
    t.mgr.workerThreads = s.mgr.workerThreads.set i (some ⟨1, evfd, s.kernel.spawned.length⟩)

def LiveKept (s t : Shared cfg) : Prop :=
  ∀ (i : Nat) (w : WorkerEntry), s.mgr.workerThreads.entries[i]? = some (some w) →
    ∃ n, w.count ≤ n ∧ t.mgr.workerThreads.entries[i]? = some (some { w with count := n })

def SlotsIntact (s : Shared cfg) (c : Call) (t : Shared cfg) : Prop :=
  Counted t ∧
    match c with
    | .connect .. => LaunchedFree s t ∧ LiveKept s t
    | .disconnect _ => True

-- no running worker has room and not every entry is taken
def MustLaunch (s : Shared cfg) : Prop :=
  (∀ w ∈ s.mgr.workerThreads.values, s.mgr.maxClientsPerThread ≤ w.count) ∧
    s.occupied < cfg.maxNrOfThreads

-- as many entries are taken as the index of a free one
def NextFree (s : Shared cfg) : Prop := s.mgr.workerThreads.entries[s.occupied]? = some none

def NoHole (s : Shared cfg) (c : Call) (_ : Shared cfg) : Prop :=
  match c with
  | .connect .. => MustLaunch s → NextFree s
  | .disconnect _ => True

section Choose

variable {s : Shared cfg}

theorem choose_of_counted (h : Counted s) :
    (choose s.mgr = .launch s.mgr.nrOfLaunchedThreads ∧ MustLaunch s) ∨
    (¬ MustLaunch s ∧ (choose s.mgr = .overLimit ∨
      ∃ i w, s.mgr.workerThreads.entries[i]? = some (some w) ∧
        (choose s.mgr = .assign i ∨ choose s.mgr = .raise i))) := by
  have hle : s.mgr.nrOfLaunchedThreads ≤ cfg.maxNrOfThreads := h ▸ Slots.length_values_le _
  unfold choose
  by_cases h0 : s.mgr.nrOfLaunchedThreads = 0
  · have hv : s.mgr.workerThreads.values = [] := List.length_eq_zero_iff.mp (h.symm.trans h0)
    refine Or.inl ⟨by simp [h0], by simp [hv], ?_⟩
    have := cfg.threads_pos
    rw [← h]
    omega
  · rw [if_neg h0]
    cases hm : getMinAndIdx s.mgr.workerThreads with
    | none =>
      have hv := getMinAndIdx_none_iff.mp hm
      exact absurd (by rw [h, Shared.occupied, hv]; rfl) h0
    | some b =>
      obtain ⟨⟨w, hw, hc⟩, hleast⟩ := getMinAndIdx_least hm
      have hmem : w ∈ s.mgr.workerThreads.values := Slots.mem_values_iff.mpr ⟨_, hw⟩
      simp only
      by_cases hlt : b.1 < s.mgr.maxClientsPerThread
      · refine Or.inr ⟨fun hl => ?_, Or.inr ⟨b.2, w, hw, Or.inl (by rw [if_pos hlt])⟩⟩
        have := hl.1 w hmem
        omega
      · rw [if_neg hlt]
        by_cases hT : s.mgr.nrOfLaunchedThreads = cfg.maxNrOfThreads
        · rw [if_pos hT]
          refine Or.inr ⟨fun hl => ?_, ?_⟩
          · have := hl.2
            rw [← h] at this
            omega
          · split
            · exact Or.inl rfl
            · exact Or.inr ⟨b.2, w, hw, Or.inr rfl⟩
        · rw [if_neg hT, if_neg (by omega)]
          refine Or.inl ⟨rfl, fun v hv => ?_, ?_⟩
          · have := hleast v hv
            omega
          · rw [← h]
            omega

theorem processNewClient_ok {t : Shared cfg} {socket id listenerEvfd eventfd : Int}
    (h : Counted s) (ht : processNewClient socket id listenerEvfd eventfd s = .ok () t) :
    (MustLaunch s ∧ slotFor s.mgr = some s.occupied ∧ 0 ≤ eventfd ∧
      ∃ old, s.mgr.workerThreads.entries[s.occupied]? = some old ∧
        t = s.launch socket id s.occupied listenerEvfd eventfd old) ∨
    (¬ MustLaunch s ∧ ∃ i w, slotFor s.mgr = some i ∧
      s.mgr.workerThreads.entries[i]? = some (some w) ∧
        (t = s.assign i w socket id ∨ t = s.raiseMax.assign i w socket id)) := by
  rw [processNewClient_eq] at ht
  rcases choose_of_counted h with ⟨hc, hm⟩ | ⟨hm, hc | ⟨i, w, hw, hc | hc⟩⟩
  · rw [hc] at ht
    simp only at ht
    obtain ⟨old, hold⟩ := s.mgr.workerThreads.get_of_lt hm.2
    have hold' : s.mgr.workerThreads.entries[s.mgr.nrOfLaunchedThreads]? = some old := by rwa [h]
    by_cases he : eventfd < 0
    · rw [emplaceNewWorker_eventfd he] at ht
      cases ht
    · rw [emplaceNewWorker_run (by omega) hold'] at ht
      cases ht
      exact Or.inl ⟨hm, by rw [slotFor, hc, h], by omega, old, hold, by rw [← h]⟩
  · rw [hc] at ht
    cases ht
  · rw [hc] at ht
    exact Or.inr ⟨hm, i, w, by rw [slotFor, hc], hw, Or.inl (assignTo_ok hw ht).1⟩
  · rw [hc] at ht
    exact Or.inr ⟨hm, i, w, by rw [slotFor, hc], hw,
      Or.inr (assignTo_ok (s := s.raiseMax) hw ht).1⟩

end Choose

section Occupancy

variable {s t : Shared cfg} {i : Nat} {w : WorkerEntry}

theorem occupied_launch_free (h : NextFree s) (socket id listenerEvfd evfd : Int) (n : Nat)
    (old : Option WorkerEntry) (hn : s.mgr.nrOfLaunchedThreads = s.occupied) :
    (s.launch socket id n listenerEvfd evfd old).occupied = s.occupied + 1 := by
  have := (Slots.values_set_of_none h ⟨1, evfd, s.kernel.spawned.length⟩).length_eq
  simpa [Shared.occupied, Shared.launch, hn] using this

theorem occupied_set_some (h : s.mgr.workerThreads.entries[i]? = some (some w)) (v : WorkerEntry) :
    (s.mgr.workerThreads.set i (some v)).values.length = s.occupied := Slots.length_set_some h v

theorem occupied_set_none (h : s.mgr.workerThreads.entries[i]? = some (some w)) :
    (s.mgr.workerThreads.set i none).values.length + 1 = s.occupied := Slots.length_set_none h

theorem counted_release (h : Counted s) (hw : s.mgr.workerThreads.entries[i]? = some (some w)) :
    Counted (s.release i w) := by
  have hn := occupied_set_none hw
  have hs := occupied_set_some hw { w with count := w.count - 1 }
  unfold Counted at h ⊢
  by_cases h1 : w.count = 1
  · simp only [Shared.release, Shared.occupied, h1, if_true] at h hn ⊢
    omega
  · simp only [Shared.release, Shared.occupied, h1, if_false] at h hs ⊢
    omega

theorem liveKept_set (h : s.mgr.workerThreads.entries[i]? = some (some w))
    (ht : t.mgr.workerThreads =
      s.mgr.workerThreads.set i (some { w with count := w.count + 1 })) : LiveKept s t := by
  intro j v hv
  rw [ht, Slots.get_set]
  by_cases hij : i = j
  · subst hij
    obtain rfl : w = v := by simpa [h] using hv
    exact ⟨w.count + 1, by omega, by simp [Slots.lt_of_get h]⟩
  · exact ⟨v.count, le_refl _, by simpa [hij] using hv⟩

theorem liveKept_fill (h : s.mgr.workerThreads.entries[i]? = some none)
    (ht : t.mgr.workerThreads = s.mgr.workerThreads.set i (some w)) : LiveKept s t := by
  intro j v hv
  have hij : i ≠ j := by
    rintro rfl
    rw [h] at hv
    cases hv
  exact ⟨v.count, le_refl _, by simpa [ht, Slots.get_set, hij] using hv⟩

end Occupancy

section Steps

variable {s t : Shared cfg}

theorem connect_intact {socket id listenerEvfd eventfd : Int} (h : Counted s)
    (ht : processNewClient socket id listenerEvfd eventfd s = .ok () t) :
    SlotsIntact s (.connect socket id listenerEvfd eventfd) t ↔ (MustLaunch s → NextFree s) := by
  rcases processNewClient_ok h ht with ⟨hm, _, _, old, hold, rfl⟩ | ⟨hm, i, w, _, hw, ht⟩
  · constructor
    · rintro ⟨hcount, _⟩ _
      cases old with
      | none => exact hold
      | some w =>
        -- an overwritten entry is counted as a launch but adds no occupied entry
        have hs := occupied_set_some hold ⟨1, eventfd, s.kernel.spawned.length⟩
        have hl : s.mgr.nrOfLaunchedThreads = s.occupied := h
        have hc : s.mgr.nrOfLaunchedThreads + 1 =
            (s.mgr.workerThreads.set s.mgr.nrOfLaunchedThreads
              (some ⟨1, eventfd, s.kernel.spawned.length⟩)).values.length := hcount
        rw [hl, hs] at hc
        omega
    · intro hfree
      have hf := hfree hm
      have hf' : s.mgr.workerThreads.entries[s.mgr.nrOfLaunchedThreads]? = some none := by
        rw [h]
        exact hf
      refine ⟨?_, fun _ => ⟨s.mgr.nrOfLaunchedThreads, eventfd, hf', rfl⟩, liveKept_fill hf' rfl⟩
      rw [Counted, occupied_launch_free hf _ _ _ _ _ _ h, ← h]
      rfl
  · refine ⟨fun _ hl => absurd hl hm, fun _ => ?_⟩
    rcases ht with rfl | rfl
    · refine ⟨?_, fun hne => absurd rfl hne, liveKept_set hw rfl⟩
      exact h.trans (occupied_set_some hw _).symm
    · refine ⟨?_, fun hne => absurd rfl hne, liveKept_set hw rfl⟩
      exact h.trans (occupied_set_some hw _).symm

theorem call_intact {c : Call} (h : Counted s) (ht : call s c = some t) :
    SlotsIntact s c t ↔ NoHole s c t := by
  cases c with
  | connect socket id listenerEvfd eventfd =>
    simp only [call, Option.ite_none_right_eq_some] at ht
    obtain ⟨_, ht⟩ := ht
    split at ht
    · rename_i u hu
      cases ht
      exact connect_intact h hu
    · cases ht
  | disconnect i =>
    refine iff_of_true ⟨?_, trivial⟩ trivial
    simp only [call] at ht
    split at ht
    · rename_i w hw
      simp only [Option.ite_none_right_eq_some] at ht
      obtain ⟨hc, ht⟩ := ht
      rw [workerClientDisconnect_run hw (by omega)] at ht
      cases ht
      exact counted_release h hw
    · cases ht

end Steps

def Shared.fresh (sv : Server cfg) (kernel : Kernel) (hist : History) : Shared cfg :=
  ⟨{}, sv, kernel, hist⟩

theorem counted_fresh (sv : Server cfg) (kernel : Kernel) (hist : History) :
    Counted (Shared.fresh sv kernel hist) := by
  simp [Counted, Shared.fresh, Shared.occupied]

theorem slot_integrity (cfg : Config) (sv : Server cfg) (kernel : Kernel) (hist : History)
    (cs : List Call) :
    Every call SlotsIntact (Shared.fresh sv kernel hist) cs ↔
      Every call NoHole (Shared.fresh sv kernel hist) cs := by
  constructor
  · refine Every.imp (I := Counted) (counted_fresh sv kernel hist) cs fun s l t hI ht hp => ?_
    exact ⟨(call_intact hI ht).mp hp, hp.1⟩
  · refine Every.imp (I := Counted) (counted_fresh sv kernel hist) cs fun s l t hI ht hp => ?_
    have := (call_intact hI ht).mpr hp
    exact ⟨this, this.1⟩

def deployedFresh : Shared Config.deployed := Shared.fresh { svSocket := 3 } {} {}

def joinAfterLeave : List Call :=
  [.connect 5 0 4 6, .connect 7 1 4 8, .disconnect 0, .connect 5 2 4 9]

theorem joinAfterLeave_overwrites :
    ¬ Every call SlotsIntact deployedFresh joinAfterLeave := by
  refine not_every_of_run (q := fun t => t.mgr.nrOfLaunchedThreads == t.occupied) (by decide)
    (fun s c t h => ?_) (by decide)
  exact beq_iff_eq.mpr h.1

end ChatApp
