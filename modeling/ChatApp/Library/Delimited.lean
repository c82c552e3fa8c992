import Mathlib.Data.List.TakeWhile
import Mathlib.Data.List.DropRight
import Mathlib.Data.List.Count
import Mathlib.Data.List.Forall2
import Mathlib.Data.List.Infix
import Mathlib.Algebra.BigOperators.Group.List.Basic
import Mathlib.Algebra.GroupWithZero.Nat

namespace Delimited

variable {α : Type}

def terminate (d : α) (fs : List (List α)) : List α := fs.flatMap (· ++ [d])

def Clean (d : α) (fs : List (List α)) : Prop := ∀ f ∈ fs, d ∉ f

@[simp] theorem terminate_nil (d : α) : terminate d [] = [] := rfl

@[simp] theorem terminate_cons (d : α) (f : List α) (fs : List (List α)) :
    terminate d (f :: fs) = f ++ d :: terminate d fs := by simp [terminate]

theorem clean_cons {d : α} {f : List α} {fs : List (List α)} :
    Clean d (f :: fs) ↔ d ∉ f ∧ Clean d fs := by simp [Clean]

theorem getLast_terminate (d : α) {fs : List (List α)} (h : fs ≠ []) :
    ∃ s, terminate d fs = s ++ [d] := by
  induction fs with
  | nil => exact absurd rfl h
  | cons f fs ih =>
    cases fs with
    | nil => exact ⟨f, by simp⟩
    | cons g fs =>
      obtain ⟨s, hs⟩ := ih (by simp)
      exact ⟨f ++ d :: s, by rw [terminate_cons, hs]; simp⟩

variable [DecidableEq α]

def fields (d : α) : Nat → List α → List (List α)
  | 0, _ => []
  | n + 1, s => s.takeWhile (· ≠ d) :: fields d n (s.dropWhile (· ≠ d)).tail

def remainder (d : α) : Nat → List α → List α
  | 0, s => s
  | n + 1, s => remainder d n (s.dropWhile (· ≠ d)).tail

def decode (d : α) (n : Nat) (s : List α) : Option (List (List α)) :=
  if s.count d = n then some (fields d n s) else none

@[simp] theorem fields_length (d : α) (n : Nat) (s : List α) : (fields d n s).length = n := by
  induction n generalizing s with
  | zero => rfl
  | succ n ih => simp [fields, ih]

theorem clean_fields (d : α) (n : Nat) (s : List α) : Clean d (fields d n s) := by
  induction n generalizing s with
  | zero => simp [fields, Clean]
  | succ n ih =>
    refine clean_cons.mpr ⟨?_, ih _⟩
    intro h
    simpa using List.mem_takeWhile_imp h

theorem count_terminate {d : α} {fs : List (List α)} (h : Clean d fs) :
    (terminate d fs).count d = fs.length := by
  induction fs with
  | nil => rfl
  | cons f fs ih =>
    obtain ⟨hf, hfs⟩ := clean_cons.mp h
    simp [List.count_eq_zero_of_not_mem hf, ih hfs]

theorem count_take_terminate {d : α} {fs : List (List α)} (h : Clean d fs) {k : Nat}
    (hk : k < (terminate d fs).length) : ((terminate d fs).take k).count d < fs.length := by
  cases fs with
  | nil => simp at hk
  | cons f rest =>
    obtain ⟨s, hs⟩ := getLast_terminate d (List.cons_ne_nil f rest)
    have hcount := count_terminate h
    rw [hs] at hk hcount ⊢
    rw [List.length_append, List.length_singleton] at hk
    rw [List.count_append, List.count_singleton_self] at hcount
    rw [List.take_append_of_le_length (by omega)]
    have hle := (List.take_sublist k s).count_le d
    omega

theorem length_le_count_terminate (d : α) (fs : List (List α)) :
    fs.length ≤ (terminate d fs).count d := by
  induction fs with
  | nil => exact Nat.zero_le _
  | cons f fs ih =>
    rw [terminate_cons, List.count_append, List.count_cons_self, List.length_cons]
    omega

theorem clean_of_count_terminate {d : α} {fs : List (List α)}
    (h : (terminate d fs).count d = fs.length) : Clean d fs := by
  induction fs with
  | nil => simp [Clean]
  | cons f fs ih =>
    have hle := length_le_count_terminate d fs
    rw [terminate_cons, List.count_append, List.count_cons_self, List.length_cons] at h
    exact clean_cons.mpr ⟨List.count_eq_zero.mp (by omega), ih (by omega)⟩

theorem takeWhile_field {d : α} {f : List α} (h : d ∉ f) (s : List α) :
    (f ++ d :: s).takeWhile (· ≠ d) = f := by
  rw [List.takeWhile_append_of_pos (by intro a ha; simpa using ne_of_mem_of_not_mem ha h)]
  simp

theorem dropWhile_field {d : α} {f : List α} (h : d ∉ f) (s : List α) :
    (f ++ d :: s).dropWhile (· ≠ d) = d :: s := by
  rw [List.dropWhile_append_of_pos (by intro a ha; simpa using ne_of_mem_of_not_mem ha h)]
  simp

theorem fields_terminate {d : α} {fs : List (List α)} (h : Clean d fs) (t : List α) :
    fields d fs.length (terminate d fs ++ t) = fs := by
  induction fs with
  | nil => rfl
  | cons f fs ih =>
    obtain ⟨hf, hfs⟩ := clean_cons.mp h
    simp only [terminate_cons, List.append_assoc, List.cons_append, List.length_cons, fields,
      takeWhile_field hf, dropWhile_field hf, List.tail_cons, ih hfs]

theorem split_at {d : α} {s : List α} (h : d ∈ s) :
    s = s.takeWhile (· ≠ d) ++ d :: (s.dropWhile (· ≠ d)).tail := by
  induction s with
  | nil => simp at h
  | cons a s ih =>
    by_cases ha : a = d
    · subst ha; simp
    · have hs : d ∈ s := by simpa [Ne.symm ha] using h
      simpa [ha] using ih hs

theorem count_tail {d : α} {s : List α} (h : d ∈ s) :
    s.count d = (s.dropWhile (· ≠ d)).tail.count d + 1 := by
  have hz : (s.takeWhile (· ≠ d)).count d = 0 := by
    refine List.count_eq_zero_of_not_mem fun hm => ?_
    simpa using List.mem_takeWhile_imp hm
  conv_lhs => rw [split_at h]
  rw [List.count_append, List.count_cons_self, hz]
  omega

-- reading n fields off a string with at least n delimiters loses nothing
theorem terminate_fields {d : α} {n : Nat} {s : List α} (h : n ≤ s.count d) :
    s = terminate d (fields d n s) ++ remainder d n s := by
  induction n generalizing s with
  | zero => rfl
  | succ n ih =>
    have hm : d ∈ s := List.count_pos_iff.mp (by omega)
    have hc := count_tail hm
    have ht := ih (s := (s.dropWhile (· ≠ d)).tail) (by omega)
    calc s = s.takeWhile (· ≠ d) ++ d :: (s.dropWhile (· ≠ d)).tail := split_at hm
      _ = s.takeWhile (· ≠ d) ++ d :: (terminate d (fields d n (s.dropWhile (· ≠ d)).tail) ++
            remainder d n (s.dropWhile (· ≠ d)).tail) := by rw [← ht]
      _ = terminate d (fields d (n + 1) s) ++ remainder d (n + 1) s := by
            simp [fields, remainder]

theorem decode_eq_some_iff {d : α} {n : Nat} {s : List α} {fs : List (List α)} :
    decode d n s = some fs ↔
      fs.length = n ∧ Clean d fs ∧ ∃ t, d ∉ t ∧ s = terminate d fs ++ t := by
  constructor
  · intro h
    simp only [decode, Option.ite_none_right_eq_some, Option.some.injEq] at h
    obtain ⟨hn, rfl⟩ := h
    have hs := terminate_fields (d := d) (n := n) (s := s) (by omega)
    have hc := clean_fields d n s
    refine ⟨fields_length d n s, hc, remainder d n s, ?_, hs⟩
    have hcount := congrArg (List.count d) hs
    rw [List.count_append, count_terminate hc, fields_length, hn] at hcount
    exact List.count_eq_zero.mp (by omega)
  · rintro ⟨rfl, hc, t, ht, rfl⟩
    have hcount : (terminate d fs ++ t).count d = fs.length := by
      rw [List.count_append, count_terminate hc, List.count_eq_zero_of_not_mem ht, Nat.add_zero]
    rw [decode, if_pos hcount, fields_terminate hc]

theorem decode_terminate {d : α} {fs : List (List α)} (h : Clean d fs) :
    decode d fs.length (terminate d fs) = some fs :=
  decode_eq_some_iff.mpr ⟨rfl, h, [], by simp, by simp⟩

theorem splitOn_terminate {d : α} {fs : List (List α)} {t : List α} (h : Clean d fs) (ht : d ∉ t) :
    (terminate d fs ++ t).splitOn d = fs ++ [t] := by
  induction fs with
  | nil => exact List.splitOn_eq_singleton ht
  | cons f fs ih =>
    obtain ⟨hf, hfs⟩ := clean_cons.mp h
    rw [terminate_cons, List.append_assoc, List.cons_append,
      List.splitOn_append_cons_self_of_not_mem hf, ih hfs, List.cons_append]

theorem rdropWhile_terminate {d : α} {fs : List (List α)} {t : List α} (hne : fs ≠ [])
    (ht : d ∉ t) : (terminate d fs ++ t).rdropWhile (· ≠ d) = terminate d fs := by
  obtain ⟨s, hs⟩ := getLast_terminate d hne
  rw [hs]
  induction t using List.reverseRecOn with
  | nil => simp
  | append_singleton t a ih =>
    obtain ⟨ht, ha⟩ : d ∉ t ∧ a ≠ d := by simpa [eq_comm] using ht
    rw [← List.append_assoc, List.rdropWhile_concat_pos _ _ _ (by simpa using ha), ih ht]

section Framing

variable {d : α} {n : Nat} {chunks : List (List α)} {msgs : List (List (List α))}

theorem count_flatten (chunks : List (List α)) :
    chunks.flatten.count d = (chunks.map (List.count d)).sum := by
  induction chunks with
  | nil => rfl
  | cons c cs ih => simp [ih]

theorem eq_of_le_of_sum_eq {xs ys : List Nat} (h : List.Forall₂ (· ≤ ·) xs ys)
    (hs : xs.sum = ys.sum) : xs = ys := by
  have sum_le {as bs : List Nat} (h : List.Forall₂ (· ≤ ·) as bs) : as.sum ≤ bs.sum := by
    induction h with
    | nil => exact le_refl _
    | cons hab _ ih => simp only [List.sum_cons]; omega
  induction h with
  | nil => rfl
  | cons hab h ih =>
    have hle := sum_le h
    simp only [List.sum_cons] at hs
    rw [ih (by omega)]
    congr 1
    omega

-- every chunk must bring its n delimiters itself, since all of them together bring no more
theorem count_of_decodes (hn : ∀ m ∈ msgs, m.length = n ∧ Clean d m)
    (hf : chunks.flatten = (msgs.map (terminate d)).flatten)
    (hd : List.Forall₂ (fun c m => ∃ g, decode d n (c ++ g) = some m) chunks msgs) :
    chunks.map (List.count d) = msgs.map fun _ => n := by
  apply eq_of_le_of_sum_eq
  · rw [List.forall₂_map_left_iff, List.forall₂_map_right_iff]
    refine hd.imp fun c m ⟨g, hg⟩ => ?_
    simp only [decode, Option.ite_none_right_eq_some] at hg
    have := hg.1
    rw [List.count_append] at this
    omega
  · rw [← count_flatten, hf, count_flatten, List.map_map]
    congr 1
    apply List.map_congr_left
    intro m hm
    simp [count_terminate (hn m hm).2, (hn m hm).1]

theorem chunk_of_decode (hn : 0 < n) {c g : List α} {m : List (List α)}
    (hc : c.count d = n) (hd : decode d n (c ++ g) = some m) :
    d ∉ g ∧ ∃ t, c = terminate d m ++ t := by
  obtain ⟨hm, hclean, t, ht, he⟩ := decode_eq_some_iff.mp hd
  have hg : d ∉ g := by
    have := congrArg (List.count d) he
    rw [List.count_append, List.count_append, hc, count_terminate hclean, hm,
      List.count_eq_zero_of_not_mem ht] at this
    exact List.count_eq_zero.mp (by omega)
  refine ⟨hg, ?_⟩
  rcases List.append_eq_append_iff.mp he with ⟨r, hr, hgr⟩ | ⟨r, hr, _⟩
  · cases r with
    | nil => exact ⟨[], by simpa using hr.symm⟩
    | cons a r =>
      exfalso
      have hne : m ≠ [] := by rintro rfl; simp at hm; omega
      obtain ⟨s, hs⟩ := getLast_terminate d hne
      have hlast : d ∈ a :: r := by
        have h1 : (terminate d m).getLast? = some d := by simp [hs]
        rw [hr, List.getLast?_append_of_ne_nil _ (by simp)] at h1
        exact List.mem_of_getLast? h1
      exact hg (by rw [hgr]; exact List.mem_append_left _ hlast)
  · exact ⟨r, hr⟩

theorem chunks_of_decodes (hpos : 0 < n) (hn : ∀ m ∈ msgs, m.length = n ∧ Clean d m)
    (hf : chunks.flatten = (msgs.map (terminate d)).flatten)
    (hd : List.Forall₂ (fun c m => ∃ g, decode d n (c ++ g) = some m) chunks msgs) :
    chunks = msgs.map (terminate d) := by
  have hcount := count_of_decodes hn hf hd
  have hpre : List.Forall₂ (fun c m => ∃ t, c = terminate d m ++ t) chunks msgs := by
    clear hf hn
    induction hd with
    | nil => exact .nil
    | cons h _ ih =>
      obtain ⟨g, hg⟩ := h
      simp only [List.map_cons, List.cons.injEq] at hcount
      exact .cons (chunk_of_decode hpos hcount.1 hg).2 (ih hcount.2)
  have hlen : msgs.map (fun m => (terminate d m).length) = chunks.map List.length := by
    apply eq_of_le_of_sum_eq
    · rw [List.forall₂_map_left_iff, List.forall₂_map_right_iff]
      refine hpre.flip.imp fun m c ⟨t, ht⟩ => ?_
      simp [ht]
    · have := congrArg List.length hf
      simp only [List.length_flatten, List.map_map] at this
      exact this.symm
  clear hf hcount hd hn
  induction hpre with
  | nil => rfl
  | cons h _ ih =>
    obtain ⟨t, rfl⟩ := h
    simp only [List.map_cons, List.cons.injEq, List.length_append] at hlen
    have ht : t = [] := List.length_eq_zero_iff.mp (by omega)
    simp [ht, ih hlen.2]

end Framing

end Delimited
