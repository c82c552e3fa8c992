import Mathlib.Data.Nat.ModEq
import ChatApp.Library.Bits

namespace ChatApp

namespace AtomicQueue

def getCacheLineIndexBits : Nat → Nat
  | 256 => 8
  | 128 => 7
  | 64 => 6
  | 32 => 5
  | 16 => 4
  | 8 => 3
  | 4 => 2
  | 2 => 1
  | _ => 0

def getIndexShuffleBits (minimizeContention : Bool) (arraySize : BitVec 32)
    (elementsPerCacheLine : Nat) : Nat :=
  if minimizeContention then
    if arraySize < 1#32 <<< (getCacheLineIndexBits elementsPerCacheLine * 2) then 0
    else getCacheLineIndexBits elementsPerCacheLine
  else 0

-- remap_index<0> is a specialisation of its own
def remapIndex (bits : Nat) (index : BitVec 32) : BitVec 32 :=
  if bits = 0 then index
  else
    let mix := (index ^^^ index >>> bits) &&& (1#32 <<< bits - 1#32)
    index ^^^ mix ^^^ mix <<< bits

def decrement {w : Nat} (x : BitVec w) : BitVec w := x - 1

def increment {w : Nat} (x : BitVec w) : BitVec w := x + 1

def orEqual {w : Nat} (x : BitVec w) : List Nat → BitVec w
  | [] => x
  | u :: rest => orEqual (x ||| x >>> u) rest

def roundUpToPowerOf2 (a : BitVec 32) : BitVec 32 :=
  increment (orEqual (decrement a) [1, 2, 4, 8, 16])

def roundUpToPowerOf2Wide (a : BitVec 64) : BitVec 64 :=
  increment (orEqual (decrement a) [1, 2, 4, 8, 16, 32])

section RoundUp

open Bits

theorem toNat_increment {w s : Nat} {y : BitVec w} (h : y.toNat = 2 ^ s - 1) (hs : s ≤ w) :
    (increment y).toNat = if s = w then 0 else 2 ^ s := by
  have hpos := Nat.one_le_two_pow (n := s)
  have hle := Nat.pow_le_pow_right Nat.two_pos hs
  rw [increment, BitVec.toNat_add, h]
  cases w with
  | zero =>
    obtain rfl : s = 0 := by omega
    rfl
  | succ w =>
    have hone : (1 : BitVec (w + 1)).toNat = 1 := by simp
    rw [hone, Nat.sub_add_cancel hpos]
    split_ifs with heq
    · rw [heq, Nat.mod_self]
    · exact Nat.mod_eq_of_lt (Nat.pow_lt_pow_right Nat.one_lt_two (by omega))

theorem toNat_decrement {w : Nat} {a : BitVec w} (h : 0 < a.toNat) :
    (decrement a).toNat = a.toNat - 1 := by
  have hlt := a.isLt
  have hone : (1 : BitVec w).toNat = 1 := by
    cases w with
    | zero =>
      have := a.isLt
      omega
    | succ w => simp
  rw [decrement, BitVec.toNat_sub, hone, show 2 ^ w - 1 + a.toNat = a.toNat - 1 + 2 ^ w by omega,
    Nat.add_mod_right, Nat.mod_eq_of_lt (by omega)]

theorem size_decrement_zero (w : Nat) : (decrement (0 : BitVec w)).toNat.size = w := by
  have hall : (decrement (0 : BitVec w)).toNat = 2 ^ w - 1 := by
    simp [decrement, BitVec.neg_one_eq_allOnes]
  have hpos := Nat.two_pow_pos w
  apply le_antisymm
  · exact Nat.size_le.mpr (decrement (0 : BitVec w)).isLt
  · rw [← Nat.pow_le_pow_iff_right Nat.one_lt_two]
    have := Nat.lt_size_self (decrement (0 : BitVec w)).toNat
    omega

-- the shifts double until they reach the width, so every place below the highest bit is filled
theorem toNat_roundUp {w n : Nat} {a y : BitVec w} (h : Spread (decrement a) y n) (hn : w ≤ n) :
    (increment y).toNat =
      if 0 < a.toNat ∧ a.toNat ≤ 2 ^ (w - 1) then 2 ^ Nat.clog 2 a.toNat else 0 := by
  have hs := toNat_increment (h.toNat hn) (Nat.size_le.mpr (decrement a).isLt)
  rw [hs]
  by_cases h0 : 0 < a.toNat
  · have hw : w ≠ 0 := by
      rintro rfl
      have := a.isLt
      omega
    rw [toNat_decrement h0]
    have hiff : (a.toNat - 1).size = w ↔ ¬ a.toNat ≤ 2 ^ (w - 1) := by
      have hle : (a.toNat - 1).size ≤ w := Nat.size_le.mpr (by have := a.isLt; omega)
      have hlt := Nat.lt_size (m := w - 1) (n := a.toNat - 1)
      have hpos := Nat.one_le_two_pow (n := w - 1)
      omega
    by_cases hle : a.toNat ≤ 2 ^ (w - 1)
    · rw [if_neg (fun hc => hiff.mp hc hle), if_pos ⟨h0, hle⟩, two_pow_size_pred h0]
    · rw [if_pos (hiff.mpr hle), if_neg (fun hc => hle hc.2)]
  · obtain rfl : a = 0 := BitVec.eq_of_toNat_eq (Nat.eq_zero_of_not_pos h0)
    rw [if_pos (size_decrement_zero w), if_neg (fun hc => h0 hc.1)]

end RoundUp

theorem toNat_roundUpToPowerOf2 (a : BitVec 32) :
    (roundUpToPowerOf2 a).toNat =
      if 0 < a.toNat ∧ a.toNat ≤ 2 ^ 31 then 2 ^ Nat.clog 2 a.toNat else 0 :=
  toNat_roundUp (Bits.Spread.one (decrement a)).double.double.double.double.double le_rfl

theorem toNat_roundUpToPowerOf2Wide (a : BitVec 64) :
    (roundUpToPowerOf2Wide a).toNat =
      if 0 < a.toNat ∧ a.toNat ≤ 2 ^ 63 then 2 ^ Nat.clog 2 a.toNat else 0 :=
  toNat_roundUp (Bits.Spread.one (decrement a)).double.double.double.double.double.double le_rfl

def LeastPowerOf2 (a r : Nat) : Prop :=
  (∃ k, r = 2 ^ k) ∧ a ≤ r ∧ ∀ k, a ≤ 2 ^ k → r ≤ 2 ^ k

theorem leastPowerOf2_clog (a : Nat) : LeastPowerOf2 a (2 ^ Nat.clog 2 a) := by
  refine ⟨⟨_, rfl⟩, Nat.le_pow_clog Nat.one_lt_two a, fun k hk => ?_⟩
  exact Nat.pow_le_pow_right Nat.two_pos ((Nat.clog_le_iff_le_pow Nat.one_lt_two).mpr hk)

theorem roundUpToPowerOf2_least (a : BitVec 32) (b : BitVec 64) :
    (if 0 < a.toNat ∧ a.toNat ≤ 2 ^ 31 then LeastPowerOf2 a.toNat (roundUpToPowerOf2 a).toNat
      else roundUpToPowerOf2 a = 0) ∧
    (if 0 < b.toNat ∧ b.toNat ≤ 2 ^ 63 then LeastPowerOf2 b.toNat (roundUpToPowerOf2Wide b).toNat
      else roundUpToPowerOf2Wide b = 0) := by
  have ha := toNat_roundUpToPowerOf2 a
  have hb := toNat_roundUpToPowerOf2Wide b
  constructor
  · split_ifs at ha ⊢
    · rw [ha]
      exact leastPowerOf2_clog _
    · exact BitVec.eq_of_toNat_eq ha
  · split_ifs at hb ⊢
    · rw [hb]
      exact leastPowerOf2_clog _
    · exact BitVec.eq_of_toNat_eq hb

section Remap

open Bits

theorem getLsbD_mixMask {bits : Nat} (h : bits < 32) (i : Nat) :
    (1#32 <<< bits - 1#32).getLsbD i = decide (i < bits) := by
  have hlt : 2 ^ bits < 2 ^ 32 := Nat.pow_lt_pow_right Nat.one_lt_two h
  have hpos := Nat.two_pow_pos bits
  have hshift : (1#32 <<< bits).toNat = 2 ^ bits := by
    rw [BitVec.toNat_shiftLeft, Nat.shiftLeft_eq]
    simpa using Nat.mod_eq_of_lt hlt
  have hmask : (1#32 <<< bits - 1#32).toNat = 2 ^ bits - 1 := by
    rw [BitVec.toNat_sub, hshift, BitVec.toNat_ofNat]
    omega
  rw [← BitVec.testBit_toNat, hmask, Nat.testBit_two_pow_sub_one]

theorem remapIndex_swapped {bits : Nat} (h : 2 * bits ≤ 32) (index : BitVec 32) :
    Swapped bits index (remapIndex bits index) := by
  by_cases h0 : bits = 0
  · subst h0
    intro i
    simp [remapIndex, swapAt]
  · rw [remapIndex, if_neg h0]
    exact swapped_xor h (getLsbD_mixMask (by omega)) index

theorem remapIndex_remapIndex {bits : Nat} (h : 2 * bits ≤ 32) (index : BitVec 32) :
    remapIndex bits (remapIndex bits index) = index :=
  (remapIndex_swapped h index).trans (remapIndex_swapped h _)

theorem remapIndex_injective {bits : Nat} (h : 2 * bits ≤ 32) :
    Function.Injective (remapIndex bits) :=
  Function.LeftInverse.injective (remapIndex_remapIndex h)

end Remap

-- the compile-time constants of an instance of AtomicQueue2
structure Layout where
  size : BitVec 32
  shuffleBits : Nat
  exponent : Nat
  size_eq : size.toNat = 2 ^ exponent
  exponent_le : exponent ≤ 30
  shuffle_le : 2 * shuffleBits ≤ exponent

namespace Layout

variable (L : Layout)

-- where do_push and do_pop find the element of a ticket
def slot (ticket : BitVec 32) : Nat := (remapIndex L.shuffleBits (ticket % L.size)).toNat

theorem size_pos : 0 < L.size.toNat := by
  rw [L.size_eq]
  exact Nat.two_pow_pos _

theorem size_le : L.size.toNat ≤ 2 ^ 30 := by
  rw [L.size_eq]
  exact Nat.pow_le_pow_right Nat.two_pos L.exponent_le

theorem size_dvd : L.size.toNat ∣ 2 ^ 32 := by
  rw [L.size_eq]
  exact Nat.pow_dvd_pow 2 (L.exponent_le.trans (by omega))

theorem shuffle_le_width : 2 * L.shuffleBits ≤ 32 := by
  have := L.shuffle_le
  have := L.exponent_le
  omega

theorem slot_lt (ticket : BitVec 32) : L.slot ticket < L.size.toNat := by
  have h := (remapIndex_swapped L.shuffle_le_width (ticket % L.size)).lt L.shuffle_le (by
    rw [BitVec.toNat_umod, ← L.size_eq]
    exact Nat.mod_lt _ L.size_pos)
  rwa [← L.size_eq] at h

theorem slot_eq_iff (m n : Nat) :
    L.slot (BitVec.ofNat 32 m) = L.slot (BitVec.ofNat 32 n) ↔
      m % L.size.toNat = n % L.size.toNat := by
  have hmod : ∀ k, (BitVec.ofNat 32 k % L.size).toNat = k % L.size.toNat := by
    intro k
    rw [BitVec.toNat_umod, BitVec.toNat_ofNat, Nat.mod_mod_of_dvd _ L.size_dvd]
  unfold slot
  rw [← hmod m, ← hmod n]
  constructor
  · intro h
    rw [remapIndex_injective L.shuffle_le_width (BitVec.eq_of_toNat_eq h)]
  · intro h
    rw [BitVec.eq_of_toNat_eq h]

-- tickets fewer than size apart have slots of their own, also where the counter wraps
theorem slot_injective (ticket : BitVec 32) {d e : Nat} (hd : d < L.size.toNat)
    (he : e < L.size.toNat)
    (h : L.slot (ticket + BitVec.ofNat 32 d) = L.slot (ticket + BitVec.ofNat 32 e)) : d = e := by
  have hsum : ∀ k, ticket + BitVec.ofNat 32 k = BitVec.ofNat 32 (ticket.toNat + k) := by
    intro k
    rw [BitVec.ofNat_add, BitVec.ofNat_toNat, BitVec.setWidth_eq]
  rw [hsum, hsum, slot_eq_iff] at h
  have hmod : d % L.size.toNat = e % L.size.toNat := Nat.ModEq.add_left_cancel' _ h
  rwa [Nat.mod_eq_of_lt hd, Nat.mod_eq_of_lt he] at hmod

-- a cache line holds two to the shuffleBits elements: so many successive tickets share none
theorem line_injective (ticket : BitVec 32) {d e : Nat} (hd : d < 2 ^ L.shuffleBits)
    (he : e < 2 ^ L.shuffleBits)
    (h : L.slot (ticket + BitVec.ofNat 32 d) / 2 ^ L.shuffleBits =
      L.slot (ticket + BitVec.ofNat 32 e) / 2 ^ L.shuffleBits) : d = e := by
  have hdvd : 2 ^ L.shuffleBits ∣ L.size.toNat := by
    rw [L.size_eq]
    exact Nat.pow_dvd_pow 2 (by have := L.shuffle_le; omega)
  have hline : ∀ k, L.slot (ticket + BitVec.ofNat 32 k) / 2 ^ L.shuffleBits % 2 ^ L.shuffleBits =
      (ticket.toNat + k) % 2 ^ L.shuffleBits := by
    intro k
    have hs := (remapIndex_swapped L.shuffle_le_width
      ((ticket + BitVec.ofNat 32 k) % L.size)).shiftRight
    rw [BitVec.toNat_ushiftRight, Nat.shiftRight_eq_div_pow, BitVec.toNat_umod,
      Nat.mod_mod_of_dvd _ hdvd, BitVec.toNat_add, BitVec.toNat_ofNat, Nat.add_mod_mod,
      Nat.mod_mod_of_dvd _ (Nat.dvd_trans hdvd L.size_dvd)] at hs
    exact hs
  have hmod : d % 2 ^ L.shuffleBits = e % 2 ^ L.shuffleBits :=
    Nat.ModEq.add_left_cancel' ticket.toNat
      (by rw [Nat.ModEq, ← hline d, ← hline e, h])
  rwa [Nat.mod_eq_of_lt hd, Nat.mod_eq_of_lt he] at hmod

end Layout

theorem two_pow_getCacheLineIndexBits {elements : Nat} (h : getCacheLineIndexBits elements ≠ 0) :
    2 ^ getCacheLineIndexBits elements = elements := by
  unfold getCacheLineIndexBits at h ⊢
  split at h <;> first | rfl | exact absurd rfl h

theorem getCacheLineIndexBits_le (elements : Nat) : getCacheLineIndexBits elements ≤ 8 := by
  unfold getCacheLineIndexBits
  split <;> decide

theorem shuffle_le_exponent {size : BitVec 32} {k : Nat} (h : size.toNat = 2 ^ k)
    (elements : Nat) : 2 * getIndexShuffleBits true size elements ≤ k := by
  have hle := getCacheLineIndexBits_le elements
  rw [getIndexShuffleBits, if_pos rfl]
  split_ifs with hlt
  · omega
  · rw [BitVec.lt_def, BitVec.toNat_shiftLeft, Nat.shiftLeft_eq, h] at hlt
    have hpow : 2 ^ (getCacheLineIndexBits elements * 2) < 2 ^ 32 :=
      Nat.pow_lt_pow_right Nat.one_lt_two (by omega)
    rw [show (1#32).toNat = 1 from rfl, Nat.one_mul, Nat.mod_eq_of_lt hpow, not_lt,
      Nat.pow_le_pow_iff_right Nat.one_lt_two] at hlt
    omega

theorem toNat_roundUp_of_le {SIZE : BitVec 32} (h : 0 < SIZE.toNat ∧ SIZE.toNat ≤ 2 ^ 30) :
    (roundUpToPowerOf2 SIZE).toNat = 2 ^ Nat.clog 2 SIZE.toNat := by
  rw [toNat_roundUpToPowerOf2, if_pos ⟨h.1, h.2.trans (by decide)⟩]

-- size_ and SHUFFLE_BITS with MINIMIZE_CONTENTION, its default
def atomicQueue2 (SIZE : BitVec 32) (elementsPerCacheLine : Nat)
    (h : 0 < SIZE.toNat ∧ SIZE.toNat ≤ 2 ^ 30) : Layout where
  size := roundUpToPowerOf2 SIZE
  shuffleBits := getIndexShuffleBits true (roundUpToPowerOf2 SIZE) elementsPerCacheLine
  exponent := Nat.clog 2 SIZE.toNat
  size_eq := toNat_roundUp_of_le h
  exponent_le := (Nat.clog_le_iff_le_pow Nat.one_lt_two).mpr h.2
  shuffle_le := shuffle_le_exponent (toNat_roundUp_of_le h) elementsPerCacheLine

theorem atomicQueue2_layout (SIZE : BitVec 32) (elements : Nat)
    (h : 0 < SIZE.toNat ∧ SIZE.toNat ≤ 2 ^ 30) :
    LeastPowerOf2 SIZE.toNat (atomicQueue2 SIZE elements h).size.toNat ∧
    (∀ ticket, (atomicQueue2 SIZE elements h).slot ticket <
      (atomicQueue2 SIZE elements h).size.toNat) ∧
    (∀ ticket d e, d < (atomicQueue2 SIZE elements h).size.toNat →
      e < (atomicQueue2 SIZE elements h).size.toNat →
      (atomicQueue2 SIZE elements h).slot (ticket + BitVec.ofNat 32 d) =
        (atomicQueue2 SIZE elements h).slot (ticket + BitVec.ofNat 32 e) → d = e) ∧
    ((atomicQueue2 SIZE elements h).shuffleBits ≠ 0 → ∀ ticket d e, d < elements → e < elements →
      (atomicQueue2 SIZE elements h).slot (ticket + BitVec.ofNat 32 d) / elements =
        (atomicQueue2 SIZE elements h).slot (ticket + BitVec.ofNat 32 e) / elements → d = e) := by
  have hsize : (atomicQueue2 SIZE elements h).size.toNat = 2 ^ Nat.clog 2 SIZE.toNat :=
    toNat_roundUp_of_le h
  refine ⟨?_, Layout.slot_lt _, fun ticket d e => Layout.slot_injective _ ticket, ?_⟩
  · rw [hsize]
    exact leastPowerOf2_clog _
  · intro hbits ticket d e hd he hline
    have hpow : 2 ^ (atomicQueue2 SIZE elements h).shuffleBits = elements := by
      change 2 ^ getIndexShuffleBits true (roundUpToPowerOf2 SIZE) elements = elements
      change getIndexShuffleBits true (roundUpToPowerOf2 SIZE) elements ≠ 0 at hbits
      unfold getIndexShuffleBits at hbits ⊢
      rw [if_pos rfl] at hbits ⊢
      split_ifs at hbits ⊢ with hlt
      · exact absurd rfl hbits
      · exact two_pow_getCacheLineIndexBits hbits
    exact Layout.line_injective _ ticket (by rwa [hpow]) (by rwa [hpow]) (by rwa [hpow])

theorem queueSize_bounds : 0 < (128#32).toNat ∧ (128#32).toNat ≤ 2 ^ 30 := by decide

-- AtomicQueue2<std::string, QUEUE_SIZE>: a cache line of 64 bytes has room for 64 states
def deployed : Layout := atomicQueue2 128#32 64 queueSize_bounds

example : deployed.size = 128#32 ∧ deployed.shuffleBits = 0 := by decide

-- a ring large enough to shuffle its indexes
theorem largeSize_bounds : 0 < (5000#32).toNat ∧ (5000#32).toNat ≤ 2 ^ 30 := by decide

theorem atomicQueue2_layout_deployed :
    (LeastPowerOf2 128 deployed.size.toNat ∧
      ∀ ticket d e, d < deployed.size.toNat → e < deployed.size.toNat →
        deployed.slot (ticket + BitVec.ofNat 32 d) = deployed.slot (ticket + BitVec.ofNat 32 e) →
          d = e) ∧
    ∀ ticket d e, d < 64 → e < 64 →
      (atomicQueue2 5000#32 64 largeSize_bounds).slot (ticket + BitVec.ofNat 32 d) / 64 =
        (atomicQueue2 5000#32 64 largeSize_bounds).slot (ticket + BitVec.ofNat 32 e) / 64 →
          d = e :=
  ⟨⟨(atomicQueue2_layout 128#32 64 queueSize_bounds).1,
      (atomicQueue2_layout 128#32 64 queueSize_bounds).2.2.1⟩,
    (atomicQueue2_layout 5000#32 64 largeSize_bounds).2.2.2 (by decide)⟩

end AtomicQueue

end ChatApp
