import Mathlib.Data.List.Basic
import Mathlib.Data.List.Sort

namespace Broadcast

variable {ι μ : Type}

section Order

def InOrder (xs : List (μ × Nat)) : Prop := xs.Pairwise fun a b => a.2 < b.2

variable {xs ys : List (μ × Nat)} {a b : μ × Nat}

theorem inOrder_zipIdx (log : List μ) (k : Nat) : InOrder (log.zipIdx k) := by
  induction log generalizing k with
  | nil => exact .nil
  | cons x log ih =>
    rw [List.zipIdx_cons]
    refine .cons (fun y hy => ?_) (ih (k + 1))
    have := List.le_snd_of_mem_zipIdx hy
    omega

theorem InOrder.sublist (h : InOrder ys) (hs : xs.Sublist ys) : InOrder xs :=
  List.Pairwise.sublist hs h

theorem InOrder.nodup (h : InOrder xs) : xs.Nodup := by
  refine List.Pairwise.imp (fun hab he => ?_) h
  rw [he] at hab
  exact lt_irrefl _ hab

theorem InOrder.lt (h : InOrder xs) (hs : [a, b].Sublist xs) : a.2 < b.2 := by
  have := h.sublist hs
  simpa [InOrder] using this

theorem InOrder.pair (h : InOrder ys) (hab : a.2 < b.2) (ha : a ∈ ys) (hb : b ∈ ys) :
    [a, b].Sublist ys := by
  induction ys with
  | nil => cases ha
  | cons y ys ih =>
    obtain ⟨hle, hrest⟩ := List.pairwise_cons.mp h
    rcases List.mem_cons.mp hb with rfl | hb'
    · rcases List.mem_cons.mp ha with rfl | ha'
      · exact absurd hab (lt_irrefl _)
      · have := hle a ha'
        omega
    · rcases List.mem_cons.mp ha with rfl | ha'
      · exact (List.singleton_sublist.mpr hb').cons_cons _
      · exact (ih hrest ha' hb').cons _

-- two entries that both lists have stand in both in the order of the log
theorem InOrder.same (hx : InOrder xs) (hy : InOrder ys) (hs : [a, b].Sublist xs) (ha : a ∈ ys)
    (hb : b ∈ ys) : [a, b].Sublist ys := hy.pair (hx.lt hs) ha hb

end Order

section Due

variable [DecidableEq ι] {log : List (ι × μ)} {n : Nat}

-- the entries of a log from position n on, each with its position, that do not leave i out
def due (log : List (ι × μ)) (n : Nat) (i : ι) : List ((ι × μ) × Nat) :=
  (log.zipIdx.drop n).filter fun x => x.1.1 ≠ i

@[simp] theorem due_length (log : List (ι × μ)) (i : ι) : due log log.length i = [] := by
  rw [due, List.drop_of_length_le (by simp), List.filter_nil]

theorem due_append (h : n ≤ log.length) (x : ι × μ) (i : ι) :
    due (log ++ [x]) n i = due log n i ++ if x.1 = i then [] else [(x, log.length)] := by
  have hn : n - log.zipIdx.length = 0 := by
    rw [List.length_zipIdx]
    omega
  rw [due, due, List.zipIdx_append, List.drop_append, List.filter_append, hn, List.drop_zero]
  congr 1
  split_ifs with hx <;> simp [hx]

theorem inOrder_due (log : List (ι × μ)) (n : Nat) (i : ι) : InOrder (due log n i) :=
  (inOrder_zipIdx log 0).sublist (List.filter_sublist.trans (List.drop_sublist n _))

end Due

end Broadcast
