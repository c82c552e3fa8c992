import Mathlib.Algebra.Ring.Nat
import Mathlib.Data.Nat.Size
import Mathlib.Data.Nat.Log

namespace Bits

variable {w : Nat} {x y z : BitVec w}

section Spreading

-- every bit of x is copied to the n - 1 places below it
def Spread (x y : BitVec w) (n : Nat) : Prop :=
  ∀ i, y.getLsbD i = true ↔ ∃ d < n, x.getLsbD (i + d) = true

theorem Spread.one (x : BitVec w) : Spread x x 1 := by
  intro i
  constructor
  · intro h
    exact ⟨0, Nat.one_pos, h⟩
  · rintro ⟨d, hd, h⟩
    obtain rfl : d = 0 := by omega
    exact h

theorem Spread.double {n : Nat} (h : Spread x y n) : Spread x (y ||| y >>> n) (n + n) := by
  intro i
  rw [BitVec.getLsbD_or, BitVec.getLsbD_ushiftRight, Bool.or_eq_true, h i, h (n + i)]
  constructor
  · rintro (⟨d, hd, hb⟩ | ⟨d, hd, hb⟩)
    · exact ⟨d, by omega, hb⟩
    · exact ⟨n + d, by omega, by rwa [show i + (n + d) = n + i + d by omega]⟩
  · rintro ⟨d, hd, hb⟩
    by_cases hlow : d < n
    · exact Or.inl ⟨d, hlow, hb⟩
    · exact Or.inr ⟨d - n, by omega, by rwa [show n + i + (d - n) = i + d by omega]⟩

theorem exists_bit_iff (x : BitVec w) (i : Nat) :
    (∃ d, x.getLsbD (i + d) = true) ↔ i < x.toNat.size := by
  rw [Nat.lt_size]
  constructor
  · rintro ⟨d, hd⟩
    have hle := Nat.ge_two_pow_of_testBit hd
    exact (Nat.pow_le_pow_right Nat.two_pos (Nat.le_add_right i d)).trans hle
  · intro h
    obtain ⟨j, hj, hb⟩ := Nat.exists_ge_and_testBit_of_ge_two_pow h
    obtain ⟨d, rfl⟩ := Nat.exists_eq_add_of_le hj
    exact ⟨d, hb⟩

-- below the highest bit of x every bit is set
theorem Spread.toNat {n : Nat} (h : Spread x y n) (hn : w ≤ n) :
    y.toNat = 2 ^ x.toNat.size - 1 := by
  refine Nat.eq_of_testBit_eq fun i => ?_
  rw [Nat.testBit_two_pow_sub_one, BitVec.testBit_toNat, Bool.eq_iff_iff, h i, decide_eq_true_iff,
    ← exists_bit_iff x i]
  constructor
  · rintro ⟨d, -, hb⟩
    exact ⟨d, hb⟩
  · rintro ⟨d, hb⟩
    have hlt := BitVec.lt_of_getLsbD hb
    exact ⟨d, by omega, hb⟩

theorem two_pow_size_pred {a : Nat} (h : 0 < a) : 2 ^ (a - 1).size = 2 ^ Nat.clog 2 a := by
  congr 1
  apply le_antisymm
  · rw [Nat.size_le]
    have := Nat.le_pow_clog Nat.one_lt_two a
    omega
  · rw [Nat.clog_le_iff_le_pow Nat.one_lt_two]
    have := Nat.lt_size_self (a - 1)
    omega

end Spreading

section Swapping

-- the place that a bit comes from when the lowest b bits and the next b change places
def swapAt (b i : Nat) : Nat := if i < b then i + b else if i < 2 * b then i - b else i

def Swapped (b : Nat) (x y : BitVec w) : Prop := ∀ i, y.getLsbD i = x.getLsbD (swapAt b i)

theorem swapAt_swapAt (b i : Nat) : swapAt b (swapAt b i) = i := by
  unfold swapAt
  split_ifs <;> omega

theorem swapAt_lt {b i k : Nat} (hb : 2 * b ≤ k) : swapAt b i < k ↔ i < k := by
  unfold swapAt
  split_ifs <;> omega

theorem swapped_xor {b : Nat} (hb : 2 * b ≤ w) {mask : BitVec w}
    (hm : ∀ i, mask.getLsbD i = decide (i < b)) (x : BitVec w) :
    Swapped b x (x ^^^ ((x ^^^ x >>> b) &&& mask) ^^^ ((x ^^^ x >>> b) &&& mask) <<< b) := by
  intro i
  simp only [BitVec.getLsbD_xor, BitVec.getLsbD_and, BitVec.getLsbD_shiftLeft,
    BitVec.getLsbD_ushiftRight, hm, swapAt]
  by_cases hw : i < w
  · by_cases h1 : i < b
    · simp [hw, h1, Nat.add_comm]
    · by_cases h2 : i < 2 * b
      · have h3 : i - b < b := by omega
        have h4 : b + (i - b) = i := by omega
        rw [h4, if_neg h1, if_pos h2]
        generalize x.getLsbD i = high, x.getLsbD (i - b) = low
        cases high <;> cases low <;> simp [hw, h1, h3]
      · have h3 : ¬ i - b < b := by omega
        simp [h1, h2, h3]
  · have h1 : ¬ i < b := by omega
    have h2 : ¬ i < 2 * b := by omega
    simp [hw, h1, h2]

theorem Swapped.trans {b : Nat} (h : Swapped b x y) (h' : Swapped b y z) : z = x := by
  refine BitVec.eq_of_getLsbD_eq fun i _ => ?_
  rw [h' i, h, swapAt_swapAt]

theorem Swapped.lt {b k : Nat} (h : Swapped b x y) (hb : 2 * b ≤ k) (hx : x.toNat < 2 ^ k) :
    y.toNat < 2 ^ k := by
  refine Nat.lt_pow_two_of_testBit _ fun i hi => ?_
  rw [BitVec.testBit_toNat, h i, ← BitVec.testBit_toNat]
  refine Nat.testBit_lt_two_pow (hx.trans_le (Nat.pow_le_pow_right Nat.two_pos ?_))
  have := (swapAt_lt hb (i := i)).not
  omega

-- the field of b bits that the lowest bits of x have moved to
theorem Swapped.shiftRight {b : Nat} (h : Swapped b x y) :
    (y >>> b).toNat % 2 ^ b = x.toNat % 2 ^ b := by
  refine Nat.eq_of_testBit_eq fun i => ?_
  rw [Nat.testBit_mod_two_pow, Nat.testBit_mod_two_pow]
  by_cases hi : i < b
  · have h1 : ¬ b + i < b := by omega
    have h2 : b + i < 2 * b := by omega
    simp only [BitVec.testBit_toNat, BitVec.getLsbD_ushiftRight, h (b + i), swapAt, h1, h2,
      if_false, if_true, Nat.add_sub_cancel_left]
  · simp [hi]

end Swapping

end Bits
