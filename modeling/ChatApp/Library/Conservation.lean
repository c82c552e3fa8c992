import ChatApp.Library.Runs
import Mathlib.Algebra.BigOperators.Group.Finset.Basic
import Mathlib.Algebra.Order.Group.Multiset

namespace Conservation

section Sums

variable {ι M : Type} [DecidableEq ι] [AddCommMonoid M] {f g : ι → M} {s : Finset ι} {i : ι}

theorem sum_exchange (hi : i ∈ s) (h : ∀ j, j ≠ i → g j = f j) :
    (∑ j ∈ s, g j) + f i = (∑ j ∈ s, f j) + g i := by
  have hrest : ∑ j ∈ s.erase i, g j = ∑ j ∈ s.erase i, f j :=
    Finset.sum_congr rfl fun j hj => h j (Finset.ne_of_mem_erase hj)
  rw [← Finset.sum_erase_add s g hi, ← Finset.sum_erase_add s f hi, hrest]
  exact add_right_comm _ _ _

end Sums

section Runs

variable {S L α : Type} {step : S → L → Option S} {put got : S → L → Option α}
  {held : S → Multiset α} {I : S → Prop} {s t : S}

theorem observed_balance {ls : List L} (hI : I s)
    (hstep : ∀ s l t, I s → step s l = some t →
      I t ∧ ((put s l).toList : Multiset α) + held s = ((got s l).toList : Multiset α) + held t)
    (h : Runs.run step s ls = some t) :
    (Runs.observed step put s ls : Multiset α) + held s =
      (Runs.observed step got s ls : Multiset α) + held t := by
  induction ls generalizing s with
  | nil =>
    obtain rfl : s = t := Option.some.inj h
    rfl
  | cons l ls ih =>
    obtain ⟨u, hu, hrest⟩ := Runs.run_cons h
    obtain ⟨hIu, hbal⟩ := hstep s l u hI hu
    have htail := ih hIu hrest
    simp only [Runs.observed, hu, ← Multiset.coe_add]
    calc ((put s l).toList : Multiset α) + Runs.observed step put u ls + held s
        = ((put s l).toList : Multiset α) + held s + Runs.observed step put u ls :=
          add_right_comm _ _ _
      _ = ((got s l).toList : Multiset α) + (Runs.observed step put u ls + held u) := by
          rw [hbal, add_assoc, add_comm (held u)]
      _ = ((got s l).toList : Multiset α) + Runs.observed step got u ls + held t := by
          rw [htail, add_assoc]

end Runs

end Conservation
