import Mathlib.Data.List.ReduceOption
import Mathlib.Data.List.Perm.Basic
import Mathlib.Algebra.BigOperators.Group.List.Basic

structure Slots (α : Type) (n : Nat) where
  entries : List (Option α)
  size : entries.length = n
  deriving DecidableEq

namespace Slots

variable {α : Type} {n : Nat}

def empty (α : Type) (n : Nat) : Slots α n := ⟨List.replicate n none, by simp⟩

def values (s : Slots α n) : List α := s.entries.reduceOption

def set (s : Slots α n) (i : Nat) (x : Option α) : Slots α n :=
  ⟨s.entries.set i x, by simp [s.size]⟩

def find? (s : Slots α n) (p : α → Bool) : Option α := (s.entries.find? (·.any p)).join

def modifyFirst (p : α → Bool) (f : α → α) : List (Option α) → List (Option α)
  | [] => []
  | none :: l => none :: modifyFirst p f l
  | some a :: l => if p a then some (f a) :: l else some a :: modifyFirst p f l

def clearFirst (p : α → Bool) : List (Option α) → List (Option α)
  | [] => []
  | none :: l => none :: clearFirst p l
  | some a :: l => if p a then none :: l else some a :: clearFirst p l

def fillFirst (a : α) : List (Option α) → List (Option α)
  | [] => []
  | none :: l => some a :: l
  | some b :: l => some b :: fillFirst a l

@[simp] theorem length_modifyFirst (p : α → Bool) (f : α → α) (l : List (Option α)) :
    (modifyFirst p f l).length = l.length := by
  induction l with
  | nil => rfl
  | cons x l ih =>
    cases x with
    | none => simp [modifyFirst, ih]
    | some a => by_cases h : p a <;> simp [modifyFirst, h, ih]

@[simp] theorem length_clearFirst (p : α → Bool) (l : List (Option α)) :
    (clearFirst p l).length = l.length := by
  induction l with
  | nil => rfl
  | cons x l ih =>
    cases x with
    | none => simp [clearFirst, ih]
    | some a => by_cases h : p a <;> simp [clearFirst, h, ih]

@[simp] theorem length_fillFirst (a : α) (l : List (Option α)) :
    (fillFirst a l).length = l.length := by
  induction l with
  | nil => rfl
  | cons x l ih => cases x <;> simp [fillFirst, ih]

def modify (s : Slots α n) (p : α → Bool) (f : α → α) : Slots α n :=
  ⟨modifyFirst p f s.entries, by simp [s.size]⟩

def clear (s : Slots α n) (p : α → Bool) : Slots α n :=
  ⟨clearFirst p s.entries, by simp [s.size]⟩

def fill (s : Slots α n) (a : α) : Slots α n :=
  ⟨fillFirst a s.entries, by simp [s.size]⟩

def isFull (s : Slots α n) : Bool := s.entries.all Option.isSome

@[simp] theorem values_empty : (empty α n).values = [] := by
  simp [values, empty, List.reduceOption_replicate_none]

theorem values_find? (s : Slots α n) (p : α → Bool) : s.find? p = s.values.find? p := by
  obtain ⟨l, hl⟩ := s
  simp only [find?, values]
  clear hl
  induction l with
  | nil => rfl
  | cons x l ih =>
    cases x with
    | none => simpa using ih
    | some a =>
      by_cases h : p a
      · simp [h]
      · simpa [h] using ih

theorem values_clear (s : Slots α n) (p : α → Bool) : (s.clear p).values = s.values.eraseP p := by
  obtain ⟨l, hl⟩ := s
  simp only [clear, values]
  clear hl
  induction l with
  | nil => rfl
  | cons x l ih =>
    cases x with
    | none => simpa [clearFirst] using ih
    | some a => by_cases h : p a <;> simp [clearFirst, h, ih]

theorem mem_eraseP_or_eq {p : α → Bool} {l : List α} {a b : α} (ha : a ∈ l)
    (hb : l.find? p = some b) : a ∈ l.eraseP p ∨ a = b := by
  induction l with
  | nil => cases ha
  | cons x l ih =>
    rw [List.find?_cons] at hb
    cases hx : p x with
    | true =>
      simp only [hx, Option.some.injEq] at hb
      rw [List.eraseP_cons_of_pos hx, ← hb]
      exact (List.mem_cons.mp ha).symm
    | false =>
      simp only [hx] at hb
      rw [List.eraseP_cons_of_neg (by simp [hx])]
      rcases List.mem_cons.mp ha with rfl | ha
      · exact .inl List.mem_cons_self
      · exact (ih ha hb).imp_left (List.mem_cons_of_mem _)

theorem mem_clear_or_eq {s : Slots α n} {p : α → Bool} {a b : α} (ha : a ∈ s.values)
    (hb : s.find? p = some b) : a ∈ (s.clear p).values ∨ a = b := by
  rw [values_clear]
  exact mem_eraseP_or_eq ha (values_find? s p ▸ hb)

theorem length_values_le (s : Slots α n) : s.values.length ≤ n := by
  have := List.reduceOption_length_le s.entries
  rwa [s.size] at this

theorem isFull_iff (s : Slots α n) : s.isFull = true ↔ s.values.length = n := by
  obtain ⟨l, h⟩ := s
  subst h
  simp only [isFull, values, List.all_eq_true]
  rw [List.reduceOption_length_eq_iff]

theorem values_fill {s : Slots α n} (h : s.isFull = false) (a : α) :
    (s.fill a).values.Perm (a :: s.values) := by
  obtain ⟨l, hl⟩ := s
  simp only [isFull, fill, values] at h ⊢
  clear hl
  induction l with
  | nil => simp at h
  | cons x l ih =>
    cases x with
    | none => simp [fillFirst]
    | some b =>
      have := ih (by simpa using h)
      simpa [fillFirst] using (this.cons b).trans (List.Perm.swap a b _)

theorem values_modify {s : Slots α n} {p : α → Bool} (f : α → α)
    (h : s.values.Pairwise fun a b => ¬ (p a = true ∧ p b = true)) :
    (s.modify p f).values = s.values.map fun a => if p a then f a else a := by
  obtain ⟨l, hl⟩ := s
  simp only [modify, values] at h ⊢
  clear hl
  induction l with
  | nil => rfl
  | cons x l ih =>
    cases x with
    | none => simpa [modifyFirst] using ih (by simpa using h)
    | some a =>
      simp only [List.reduceOption_cons_of_some, List.pairwise_cons] at h
      by_cases ha : p a
      · have hrest : l.reduceOption.map (fun b => if p b then f b else b) = l.reduceOption := by
          refine (List.map_congr_left fun b hb => ?_).trans (List.map_id _)
          have := h.1 b hb
          simp_all
        simp [modifyFirst, ha, hrest]
      · simp [modifyFirst, ha, ih h.2]

theorem mem_values_modify {s : Slots α n} {p : α → Bool} {f : α → α} {a : α}
    (h : a ∈ (s.modify p f).values) :
    a ∈ s.values ∨ ∃ b ∈ s.values, p b = true ∧ a = f b := by
  obtain ⟨l, hl⟩ := s
  simp only [modify, values] at h ⊢
  clear hl
  induction l with
  | nil => simp [modifyFirst] at h
  | cons x l ih =>
    cases x with
    | none => simpa using ih (by simpa [modifyFirst] using h)
    | some b =>
      simp only [modifyFirst] at h
      split at h
      · rename_i hb
        rcases (by simpa using h : a = f b ∨ a ∈ l.reduceOption) with rfl | h
        · exact .inr ⟨b, by simp, hb, rfl⟩
        · exact .inl (by simp [h])
      · rcases (by simpa using h : a = b ∨ a ∈ (modifyFirst p f l).reduceOption) with rfl | h
        · exact .inl (by simp)
        · rcases ih h with h | ⟨c, hc, hp, rfl⟩
          · exact .inl (by simp [h])
          · exact .inr ⟨c, by simp [hc], hp, rfl⟩

theorem modify_missing {s : Slots α n} {p : α → Bool} (h : s.find? p = none) (f : α → α) :
    s.modify p f = s := by
  obtain ⟨l, hl⟩ := s
  rw [values_find?, List.find?_eq_none] at h
  have : modifyFirst p f l = l := by
    simp only [values] at h
    clear hl
    induction l with
    | nil => rfl
    | cons x l ih =>
      cases x with
      | none => rw [modifyFirst, ih (by simpa using h)]
      | some a =>
        simp only [List.reduceOption_cons_of_some, List.forall_mem_cons] at h
        rw [modifyFirst, if_neg h.1, ih h.2]
  simp only [modify, this]

theorem modify_congr {s : Slots α n} {p : α → Bool} {f g : α → α}
    (h : ∀ a, s.find? p = some a → f a = g a) : s.modify p f = s.modify p g := by
  obtain ⟨l, hl⟩ := s
  simp only [values_find?] at h
  have : modifyFirst p f l = modifyFirst p g l := by
    simp only [values] at h
    clear hl
    induction l with
    | nil => rfl
    | cons x l ih =>
      cases x with
      | none => rw [modifyFirst, modifyFirst, ih (by simpa using h)]
      | some a =>
        by_cases ha : p a = true
        · simp only [modifyFirst, ha, if_true, h a (by simp [ha])]
        · simp only [modifyFirst, ha, if_false, Bool.false_eq_true, ih (by simpa [ha] using h)]
  simp only [modify, this]

theorem modify_id (s : Slots α n) (p : α → Bool) : s.modify p id = s := by
  obtain ⟨l, hl⟩ := s
  have : modifyFirst p id l = l := by
    clear hl
    induction l with
    | nil => rfl
    | cons x l ih =>
      cases x with
      | none => rw [modifyFirst, ih]
      | some a => simp only [modifyFirst, id, ih, ite_self]
  simp only [modify, this]

theorem modify_modify {p : α → Bool} {f : α → α} (hf : ∀ a, p a = true → p (f a) = true)
    (s : Slots α n) (g : α → α) : (s.modify p f).modify p g = s.modify p fun a => g (f a) := by
  obtain ⟨l, hl⟩ := s
  have : modifyFirst p g (modifyFirst p f l) = modifyFirst p (fun a => g (f a)) l := by
    clear hl
    induction l with
    | nil => rfl
    | cons x l ih =>
      cases x with
      | none => simp only [modifyFirst, ih]
      | some a =>
        by_cases ha : p a = true
        · simp only [modifyFirst, ha, if_true, hf a ha]
        · simp only [modifyFirst, ha, if_false, Bool.false_eq_true, ih]
  simp only [modify, this]

theorem map_values_modify {β : Type} {g : α → β} {f : α → α} (hg : ∀ a, g (f a) = g a)
    (s : Slots α n) (p : α → Bool) : (s.modify p f).values.map g = s.values.map g := by
  obtain ⟨l, hl⟩ := s
  simp only [modify, values]
  clear hl
  induction l with
  | nil => rfl
  | cons x l ih =>
    cases x with
    | none => simpa [modifyFirst] using ih
    | some a =>
      simp only [modifyFirst]
      split
      · simp [hg]
      · simpa using ih

theorem find?_modify {s : Slots α n} {p : α → Bool} {f : α → α} {a : α} (h : s.find? p = some a)
    (hf : ∀ b, p b = true → p (f b) = true) : (s.modify p f).find? p = some (f a) := by
  obtain ⟨l, hl⟩ := s
  rw [values_find?] at h ⊢
  simp only [modify, values] at h ⊢
  clear hl
  induction l with
  | nil => simp at h
  | cons x l ih =>
    cases x with
    | none => simpa [modifyFirst] using ih (by simpa using h)
    | some b =>
      simp only [modifyFirst]
      cases hb : p b with
      | true =>
        obtain rfl : b = a := by simpa [hb] using h
        simp [hf b hb]
      | false => simpa [hb] using ih (by simpa [hb] using h)

theorem find?_modify_other {s : Slots α n} {p q : α → Bool} {f : α → α}
    (hf : ∀ b, p b = true → q b = false ∧ q (f b) = false) :
    (s.modify p f).find? q = s.find? q := by
  obtain ⟨l, hl⟩ := s
  rw [values_find?, values_find?]
  simp only [modify, values]
  clear hl
  induction l with
  | nil => rfl
  | cons x l ih =>
    cases x with
    | none => simpa [modifyFirst] using ih
    | some b =>
      simp only [modifyFirst]
      cases hb : p b with
      | true => simp [hf b hb]
      | false =>
        simp only [Bool.false_eq_true, if_false, List.reduceOption_cons_of_some, List.find?_cons]
        rw [ih]

section Indexed

theorem values_set_of_none {s : Slots α n} {i : Nat} (h : s.entries[i]? = some none) (a : α) :
    (s.set i (some a)).values.Perm (a :: s.values) := by
  obtain ⟨l, hl⟩ := s
  simp only [set, values] at h ⊢
  clear hl
  induction l generalizing i with
  | nil => simp at h
  | cons x l ih =>
    cases i with
    | zero =>
      obtain rfl : x = none := by simpa using h
      simp
    | succ i =>
      have := ih (i := i) (by simpa using h)
      cases x with
      | none => simpa using this
      | some b => simpa using (this.cons b).trans (List.Perm.swap a b _)

theorem values_perm_of_some {s : Slots α n} {i : Nat} {a : α} (h : s.entries[i]? = some (some a)) :
    s.values.Perm (a :: (s.set i none).values) := by
  obtain ⟨l, hl⟩ := s
  simp only [set, values] at h ⊢
  clear hl
  induction l generalizing i with
  | nil => simp at h
  | cons x l ih =>
    cases i with
    | zero =>
      obtain rfl : x = some a := by simpa using h
      simp
    | succ i =>
      have := ih (i := i) (by simpa using h)
      cases x with
      | none => simpa using this
      | some b => simpa using (this.cons b).trans (List.Perm.swap a b _)

theorem set_set (s : Slots α n) (i : Nat) (x y : Option α) : (s.set i x).set i y = s.set i y := by
  simp [set]

theorem get_set (s : Slots α n) (i j : Nat) (x : Option α) :
    (s.set i x).entries[j]? = if i = j ∧ i < n then some x else s.entries[j]? := by
  by_cases hij : i = j
  · subst hij
    by_cases hn : i < n
    · simp [set, hn, s.size]
    · simp [set, hn, s.size]
  · simp [set, hij]

theorem values_set_some {s : Slots α n} {i : Nat} {a : α} (h : s.entries[i]? = some (some a))
    (b : α) : (s.set i (some b)).values.Perm (b :: (s.set i none).values) := by
  have hi : i < n := by
    by_contra hn
    rw [List.getElem?_eq_none (by rw [s.size]; omega)] at h
    cases h
  have hnone : (s.set i none).entries[i]? = some none := by simp [get_set, hi]
  have := values_set_of_none hnone b
  rwa [set_set] at this

theorem length_set_some {s : Slots α n} {i : Nat} {a : α} (h : s.entries[i]? = some (some a))
    (b : α) : (s.set i (some b)).values.length = s.values.length := by
  rw [(values_set_some h b).length_eq, (values_perm_of_some h).length_eq]
  rfl

theorem length_set_none {s : Slots α n} {i : Nat} {a : α} (h : s.entries[i]? = some (some a)) :
    (s.set i none).values.length + 1 = s.values.length := (values_perm_of_some h).length_eq.symm

theorem mem_values_iff {s : Slots α n} {a : α} :
    a ∈ s.values ↔ ∃ i : Nat, s.entries[i]? = some (some a) := by
  rw [values, List.reduceOption_mem_iff]
  exact List.mem_iff_getElem?

theorem lt_of_get {s : Slots α n} {i : Nat} {x : Option α} (h : s.entries[i]? = some x) : i < n := by
  obtain ⟨hi, _⟩ := List.getElem?_eq_some_iff.mp h
  rwa [s.size] at hi

theorem fill_eq_set {s : Slots α n} (h : s.isFull = false) (a : α) :
    ∃ i, s.entries[i]? = some none ∧ s.fill a = s.set i (some a) := by
  obtain ⟨l, hl⟩ := s
  simp only [isFull, fill, set, mk.injEq] at h ⊢
  clear hl
  induction l with
  | nil => simp at h
  | cons x l ih =>
    cases x with
    | none => exact ⟨0, rfl, rfl⟩
    | some b =>
      obtain ⟨i, hi, he⟩ := ih (by simpa using h)
      exact ⟨i + 1, by simpa using hi, by simp [fillFirst, he]⟩

theorem mem_values_set {s : Slots α n} {i : Nat} {x : Option α} {a : α}
    (h : a ∈ (s.set i x).values) : a ∈ s.values ∨ x = some a := by
  obtain ⟨j, hj⟩ := mem_values_iff.mp h
  rw [get_set] at hj
  split_ifs at hj
  · exact .inr (Option.some.inj hj)
  · exact .inl (mem_values_iff.mpr ⟨j, hj⟩)

theorem get_of_lt (s : Slots α n) {i : Nat} (h : i < n) :
    ∃ x : Option α, s.entries[i]? = some x :=
  ⟨s.entries.get ⟨i, by rwa [s.size]⟩, by simp⟩

end Indexed

end Slots
