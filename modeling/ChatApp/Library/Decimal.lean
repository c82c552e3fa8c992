import Mathlib.Data.List.TakeWhile

namespace Decimal

def intMin : Int := -2147483648

def intMax : Int := 2147483647

def InRange (n : Int) : Prop := intMin ≤ n ∧ n ≤ intMax

instance (n : Int) : Decidable (InRange n) := inferInstanceAs (Decidable (_ ∧ _))

inductive ConversionError where
  | invalidArgument
  | outOfRange
  deriving DecidableEq, Repr

def isSpace (c : Char) : Bool := c == ' ' || (9 ≤ c.toNat && c.toNat ≤ 13)

def sign : List Char → Bool × List Char
  | [] => (false, [])
  | c :: cs => if c = '-' then (true, cs) else if c = '+' then (false, cs) else (false, c :: cs)

def signed (neg : Bool) (n : Nat) : Int := if neg then -(n : Int) else n

-- leading blanks, one sign, then as many digits as there are; what follows them is ignored
def stoi (s : List Char) : Except ConversionError Int :=
  let body := sign (s.dropWhile isSpace)
  let digits := body.2.takeWhile Char.isDigit
  if digits = [] then .error .invalidArgument
  else if InRange (signed body.1 (Nat.ofDigitChars 10 digits 0)) then
    .ok (signed body.1 (Nat.ofDigitChars 10 digits 0))
  else .error .outOfRange

def toString : Int → List Char
  | .ofNat n => Nat.toDigits 10 n
  | .negSucc n => '-' :: Nat.toDigits 10 (n + 1)

theorem isDigit_of_mem {n : Nat} {c : Char} (h : c ∈ Nat.toDigits 10 n) : c.isDigit = true :=
  Nat.isDigit_of_mem_toDigits (by decide) (by decide) h

theorem mem_toString {n : Int} {c : Char} (h : c ∈ toString n) : c.isDigit = true ∨ c = '-' := by
  cases n with
  | ofNat n => exact Or.inl (isDigit_of_mem h)
  | negSucc n =>
    rcases List.mem_cons.mp h with rfl | h
    · exact Or.inr rfl
    · exact Or.inl (isDigit_of_mem h)

theorem not_mem_toString {n : Int} {c : Char} (hd : c.isDigit = false) (hm : c ≠ '-') :
    c ∉ toString n := by
  intro h
  rcases mem_toString h with hc | hc
  · simp [hd] at hc
  · exact hm hc

theorem isSpace_eq_false_of_isDigit {c : Char} (h : c.isDigit = true) : isSpace c = false := by
  have hn : 48 ≤ c.toNat := by
    simp only [Char.isDigit, Bool.and_eq_true, decide_eq_true_eq] at h
    exact h.1
  have hs : c ≠ ' ' := by rintro rfl; simp at h
  have ht : ¬ c.toNat ≤ 13 := by omega
  simp [isSpace, hs, ht]

theorem sign_of_isDigit {c : Char} {cs : List Char} (h : c.isDigit = true) :
    sign (c :: cs) = (false, c :: cs) := by
  have hm : c ≠ '-' := by rintro rfl; simp at h
  have hp : c ≠ '+' := by rintro rfl; simp at h
  simp [sign, hm, hp]

theorem takeWhile_toDigits (n : Nat) :
    (Nat.toDigits 10 n).takeWhile Char.isDigit = Nat.toDigits 10 n :=
  List.takeWhile_eq_self_iff.mpr fun _ hc => isDigit_of_mem hc

theorem stoi_body {n : Nat} {neg : Bool} {s : List Char}
    (hs : sign (s.dropWhile isSpace) = (neg, Nat.toDigits 10 n)) :
    stoi s = if InRange (signed neg n) then .ok (signed neg n) else .error .outOfRange := by
  simp only [stoi, hs, takeWhile_toDigits, Nat.toDigits_ne_nil, if_false,
    Nat.ofDigitChars_ten_toDigits]

theorem stoi_toString_eq (n : Int) :
    stoi (toString n) = if InRange n then .ok n else .error .outOfRange := by
  cases n with
  | ofNat n =>
    have hs : sign ((Nat.toDigits 10 n).dropWhile isSpace) = (false, Nat.toDigits 10 n) := by
      obtain ⟨c, cs, hc⟩ := List.exists_cons_of_ne_nil (Nat.toDigits_ne_nil (n := n) (b := 10))
      have hd : c.isDigit = true := isDigit_of_mem (n := n) (by rw [hc]; exact List.mem_cons_self)
      rw [hc, List.dropWhile_cons_of_neg (by simp [isSpace_eq_false_of_isDigit hd])]
      exact sign_of_isDigit hd
    exact stoi_body hs
  | negSucc n =>
    have hs : sign (('-' :: Nat.toDigits 10 (n + 1)).dropWhile isSpace) =
        (true, Nat.toDigits 10 (n + 1)) := by
      rw [List.dropWhile_cons_of_neg (by decide)]
      rfl
    have hbody := stoi_body hs
    rwa [show signed true (n + 1) = Int.negSucc n from rfl] at hbody

theorem stoi_toString {n : Int} (h : InRange n) : stoi (toString n) = .ok n :=
  (stoi_toString_eq n).trans (if_pos h)

theorem toDigits_injective {m n : Nat} (h : Nat.toDigits 10 m = Nat.toDigits 10 n) : m = n := by
  have e := Nat.ofDigitChars_ten_toDigits (n := m)
  rw [h, Nat.ofDigitChars_ten_toDigits] at e
  exact e.symm

theorem toDigits_ne_neg (n : Nat) (cs : List Char) : Nat.toDigits 10 n ≠ '-' :: cs := by
  intro h
  have := isDigit_of_mem (n := n) (c := '-') (by simp [h])
  simp at this

theorem toString_injective : Function.Injective toString := by
  intro m n h
  cases m with
  | ofNat m =>
    cases n with
    | ofNat n => exact congrArg Int.ofNat (toDigits_injective h)
    | negSucc n => exact absurd h (toDigits_ne_neg m _)
  | negSucc m =>
    cases n with
    | ofNat n => exact absurd h.symm (toDigits_ne_neg n _)
    | negSucc n =>
      have := toDigits_injective (List.cons.inj h).2
      exact congrArg Int.negSucc (by omega)

@[simp] theorem toString_inj {m n : Int} : toString m = toString n ↔ m = n :=
  toString_injective.eq_iff

end Decimal
