import Mathlib.Logic.Basic

namespace Runs

variable {S L : Type} (step : S → L → Option S)

def run : S → List L → Option S
  | s, [] => some s
  | s, l :: ls => (step s l).bind (run · ls)

-- every step of the run meets P; a label that is not enabled ends the run there
def Every (P : S → L → S → Prop) : S → List L → Prop
  | _, [] => True
  | s, l :: ls => ∀ t, step s l = some t → P s l t ∧ Every P t ls

-- every label of the run meets P in the state it comes in, enabled there or not
def Before (P : S → L → Prop) : S → List L → Prop
  | _, [] => True
  | s, l :: ls => P s l ∧ ∀ t, step s l = some t → Before P t ls

-- some step of the run meets P
def Sometime (P : S → L → S → Prop) : S → List L → Prop
  | _, [] => False
  | s, l :: ls => ∃ t, step s l = some t ∧ (P s l t ∨ Sometime P t ls)

-- what f reads off the steps of the run
def observed {α : Type} (f : S → L → Option α) : S → List L → List α
  | _, [] => []
  | s, l :: ls =>
    match step s l with
    | none => []
    | some t => (f s l).toList ++ observed f t ls

-- reachable by steps that all meet C
inductive Reach (C : S → L → Prop) (s : S) : S → Prop
  | refl : Reach C s s
  | tail {t u : S} {l : L} : Reach C s t → C t l → step t l = some u → Reach C s u

variable {step} {C : S → L → Prop} {P Q : S → L → S → Prop} {I : S → Prop} {s t u : S}

theorem Reach.invariant (h : Reach step C s t) (h0 : I s)
    (hstep : ∀ t l u, I t → C t l → step t l = some u → I u) : I t := by
  induction h with
  | refl => exact h0
  | tail _ hc hs ih => exact hstep _ _ _ ih hc hs

theorem Reach.trans (h : Reach step C s t) (h' : Reach step C t u) : Reach step C s u := by
  induction h' with
  | refl => exact h
  | tail _ hc hs ih => exact ih.tail hc hs

theorem not_sometime {ls : List L} (hI : I s)
    (hstep : ∀ s l t, I s → step s l = some t → I t ∧ ¬ P s l t) : ¬ Sometime step P s ls := by
  induction ls generalizing s with
  | nil => exact id
  | cons l ls ih =>
    rintro ⟨t, ht, hp | hrest⟩
    · exact (hstep s l t hI ht).2 hp
    · exact ih (hstep s l t hI ht).1 hrest

theorem Every.imp (hI : I s) (ls : List L)
    (hstep : ∀ s l t, I s → step s l = some t → P s l t → Q s l t ∧ I t)
    (h : Every step P s ls) : Every step Q s ls := by
  induction ls generalizing s with
  | nil => trivial
  | cons l ls ih =>
    intro t ht
    obtain ⟨hp, hrest⟩ := h t ht
    obtain ⟨hq, hI'⟩ := hstep s l t hI ht hp
    exact ⟨hq, ih hI' hrest⟩

theorem every_congr (ls : List L) (h : ∀ s l t, step s l = some t → (P s l t ↔ Q s l t)) :
    Every step P s ls ↔ Every step Q s ls := by
  induction ls generalizing s with
  | nil => exact Iff.rfl
  | cons l ls ih =>
    exact forall_congr' fun t => forall_congr' fun ht => and_congr (h s l t ht) ih

-- when f is a function of what g reads, the g of a run determine its f
theorem observed_eq_filterMap {α β : Type} {f : S → L → Option β} {g : S → L → Option α}
    {spec : α → Option β} {ls : List L}
    (h : Every step (fun s l _ => f s l = (g s l).bind spec) s ls) :
    observed step f s ls = (observed step g s ls).filterMap spec := by
  induction ls generalizing s with
  | nil => rfl
  | cons l ls ih =>
    cases ht : step s l with
    | none => simp only [observed, ht, List.filterMap_nil]
    | some t =>
      obtain ⟨heq, hrest⟩ := h t ht
      simp only [observed, ht, List.filterMap_append, heq, ih hrest]
      cases g s l with
      | none => rfl
      | some a => cases hs : spec a <;> simp [hs]

theorem before_iff {A B : S → L → Prop} {D : L → Prop} (hI : I s) {ls : List L}
    (hD : ∀ l ∈ ls, D l) (hiff : ∀ s l, I s → D l → (A s l ↔ B s l))
    (hstep : ∀ s l t, I s → D l → step s l = some t → I t) :
    Before step A s ls ↔ Before step B s ls := by
  induction ls generalizing s with
  | nil => exact Iff.rfl
  | cons l ls ih =>
    obtain ⟨hl, hls⟩ := List.forall_mem_cons.mp hD
    refine and_congr (hiff s l hI hl) (forall_congr' fun t => forall_congr' fun ht => ?_)
    exact ih (hstep s l t hI hl ht) hls

theorem Before.of_step {A : S → L → Prop} {l : L} {ls : List L} (hs : step s l = some t)
    (hl : A s l) (h : Before step A t ls) : Before step A s (l :: ls) :=
  ⟨hl, fun _ hu => Option.some.inj (hs.symm.trans hu) ▸ h⟩

theorem run_cons {l : L} {ls : List L} (h : run step s (l :: ls) = some u) :
    ∃ t, step s l = some t ∧ run step t ls = some u := Option.bind_eq_some_iff.mp h

theorem run_append {ls ls' : List L} (h : run step s ls = some t) (h' : run step t ls' = some u) :
    run step s (ls ++ ls') = some u := by
  induction ls generalizing s with
  | nil =>
    obtain rfl : s = t := Option.some.inj h
    exact h'
  | cons l ls ih =>
    obtain ⟨v, hv, hrest⟩ := run_cons h
    rw [List.cons_append, run, hv]
    exact ih hrest

theorem Every.final {q : S → Prop} {ls : List L} (h : Every step P s ls) (h0 : q s)
    (hq : ∀ s l t, P s l t → q t) (hr : run step s ls = some t) : q t := by
  induction ls generalizing s with
  | nil =>
    obtain rfl : s = t := Option.some.inj hr
    exact h0
  | cons l ls ih =>
    obtain ⟨u, hu, hrest⟩ := run_cons hr
    obtain ⟨hp, he⟩ := h u hu
    exact ih he (hq _ _ _ hp) hrest

theorem not_every_of_run {q : S → Bool} {ls : List L} (h0 : q s = true)
    (hq : ∀ s l t, P s l t → q t = true) (hr : (run step s ls).any (fun t => !q t) = true) :
    ¬ Every step P s ls := by
  intro h
  cases ht : run step s ls with
  | none => simp [ht] at hr
  | some t =>
    have := h.final (q := fun t => q t = true) h0 hq ht
    simp [ht, this] at hr

theorem Every.of_append {ls : List L} {l : L} (h : Every step P s (ls ++ [l]))
    (ht : run step s ls = some t) (hu : step t l = some u) : P t l u := by
  induction ls generalizing s with
  | nil =>
    obtain rfl : s = t := Option.some.inj ht
    exact (h u hu).1
  | cons x ls ih =>
    obtain ⟨v, hv, hrest⟩ := run_cons ht
    exact ih (h v hv).2 hrest

theorem not_before_of_run {A : S → L → Prop} {l : L} {ls : List L} {p : S → Bool}
    (hp : ∀ t, A t l → p t = true) (hr : (run step s ls).any (fun t => !p t) = true) :
    ¬ Before step A s (ls ++ [l]) := by
  induction ls generalizing s with
  | nil =>
    rintro ⟨h, _⟩
    have := hp s h
    simp [run, this] at hr
  | cons x ls ih =>
    rintro ⟨_, h⟩
    cases hx : step s x with
    | none => simp [run, hx] at hr
    | some t =>
      refine ih ?_ (h t hx)
      simpa [run, hx] using hr

theorem not_every_of_step {l : L} {ls : List L} {p : S → S → Bool}
    (hp : ∀ t u, P t l u → p t u = true)
    (hr : (run step s ls).any (fun t => (step t l).any fun u => !p t u) = true) :
    ¬ Every step P s (ls ++ [l]) := by
  intro h
  cases ht : run step s ls with
  | none => simp [ht] at hr
  | some t =>
    cases hu : step t l with
    | none => simp [ht, hu] at hr
    | some u =>
      have := hp t u (h.of_append ht hu)
      simp [ht, hu, this] at hr

section Checked

variable (step)

def checked (c : S → L → Bool) : S → List L → Bool
  | _, [] => true
  | s, l :: ls => c s l && (step s l).all (checked c · ls)

variable {step}

theorem every_of_checked {c : S → L → Bool} (hc : ∀ s l t, c s l = true → P s l t) {ls : List L}
    (h : checked step c s ls = true) : Every step P s ls := by
  induction ls generalizing s with
  | nil => trivial
  | cons l ls ih =>
    intro t ht
    simp only [checked, ht, Option.all_some, Bool.and_eq_true] at h
    exact ⟨hc s l t h.1, ih h.2⟩

theorem before_of_checked {A : S → L → Prop} {c : S → L → Bool} (hc : ∀ s l, c s l = true → A s l)
    {ls : List L} (h : checked step c s ls = true) : Before step A s ls := by
  induction ls generalizing s with
  | nil => trivial
  | cons l ls ih =>
    simp only [checked, Bool.and_eq_true] at h
    refine ⟨hc s l h.1, fun t ht => ih ?_⟩
    simpa [ht] using h.2

end Checked

theorem reach_of_run {D : L → Prop} {ls : List L} (hD : ∀ l ∈ ls, D l)
    (h : run step s ls = some t) : Reach step (fun _ l => D l) s t := by
  induction ls generalizing s with
  | nil =>
    obtain rfl : s = t := Option.some.inj h
    exact .refl
  | cons l ls ih =>
    obtain ⟨u, hu, hrest⟩ := run_cons h
    obtain ⟨hl, hls⟩ := List.forall_mem_cons.mp hD
    exact (Reach.refl.tail hl hu).trans (ih hls hrest)

theorem exists_of_run {D : L → Prop} {ls : List L} {p : S → Bool} (hD : ∀ l ∈ ls, D l)
    (h : (run step s ls).any p = true) :
    ∃ t, Reach step (fun _ l => D l) s t ∧ p t = true := by
  cases hr : run step s ls with
  | none => simp [hr] at h
  | some t => exact ⟨t, reach_of_run hD hr, by simpa [hr] using h⟩

section Guarded

variable (step) (C) [∀ s l, Decidable (C s l)]

def guarded (s : S) (l : L) : Option S := if C s l then step s l else none

variable {step} {C}

theorem reach_of_guarded {ls : List L} (h : run (guarded step C) s ls = some t) :
    Reach step C s t := by
  induction ls generalizing s with
  | nil =>
    obtain rfl : s = t := Option.some.inj h
    exact .refl
  | cons l ls ih =>
    obtain ⟨u, hu, hrest⟩ := run_cons h
    obtain ⟨hc, hstep⟩ := Option.ite_none_right_eq_some.mp hu
    exact (Reach.refl.tail hc hstep).trans (ih hrest)

theorem exists_of_guarded {ls : List L} {p : S → Bool}
    (h : (run (guarded step C) s ls).any p = true) : ∃ t, Reach step C s t ∧ p t = true := by
  cases hr : run (guarded step C) s ls with
  | none => simp [hr] at h
  | some t => exact ⟨t, reach_of_guarded hr, by simpa [hr] using h⟩

end Guarded

section Ranked

variable (step)

def Stuck (s : S) : Prop := ∀ l, step s l = none

variable {step} {rank : S → Nat}

-- a measure that every step lowers pays for each step of a run
theorem run_length_le {ls : List L} (hI : I s)
    (hstep : ∀ s l t, I s → step s l = some t → I t ∧ rank t < rank s)
    (h : run step s ls = some t) : ls.length + rank t ≤ rank s := by
  induction ls generalizing s with
  | nil =>
    obtain rfl : s = t := Option.some.inj h
    exact Nat.le_of_eq (Nat.zero_add _)
  | cons l ls ih =>
    obtain ⟨u, hu, hrest⟩ := run_cons h
    obtain ⟨hIu, hlt⟩ := hstep s l u hI hu
    have := ih hIu hrest
    rw [List.length_cons]
    omega

theorem run_invariant {ls : List L} (hI : I s)
    (hstep : ∀ s l t, I s → step s l = some t → I t) (h : run step s ls = some t) : I t :=
  (reach_of_run (D := fun _ => True) (fun _ _ => trivial) h).invariant hI
    fun s l t hI _ ht => hstep s l t hI ht

theorem exists_stuck (hI : I s)
    (hstep : ∀ s l t, I s → step s l = some t → I t ∧ rank t < rank s) :
    ∃ ls t, run step s ls = some t ∧ Stuck step t := by
  induction hn : rank s using Nat.strongRecOn generalizing s with
  | ind n ih =>
    by_cases hs : Stuck step s
    · exact ⟨[], s, rfl, hs⟩
    · simp only [Stuck, not_forall] at hs
      obtain ⟨l, hl⟩ := hs
      obtain ⟨u, hu⟩ := Option.ne_none_iff_exists'.mp hl
      obtain ⟨hIu, hlt⟩ := hstep s l u hI hu
      obtain ⟨ls, t, hrun, ht⟩ := ih (rank u) (hn ▸ hlt) hIu rfl
      exact ⟨l :: ls, t, by rw [run, hu]; exact hrun, ht⟩

end Ranked

end Runs
