import ChatApp.AtomicQueueSlots

namespace ChatApp

namespace AtomicQueue

variable {L : Layout} {T Tid : Type}

namespace Pc

-- the counter value with which a call may still increase its counter
def loaded : Pc T → Option (Call T × Ticket)
  | .test c own | .increase c own => some (c, own)
  | _ => none

-- the ticket that a call has taken
def ticket : Pc T → Option (Call T × Ticket)
  | .claim c own | .spin c own | .move c own | .finish c own _ => some (c, own)
  | _ => none

theorem ticket_of_working {p : Pc T} {k : Call T × Ticket} (h : p.working = some k) :
    p.ticket = some k := by
  cases p with
  | move c own => exact h
  | finish c own element => exact h
  | _ => cases h

end Pc

def Call.isPush : Call T → Bool
  | .push _ => true
  | .pop => false

section Distance

theorem distance_eq {a b : Ticket} (h : -2 ^ 31 ≤ (a.count : Int) - b.count)
    (h' : (a.count : Int) - b.count < 2 ^ 31) : distance a b = a.count - b.count := by
  rw [distance, a.value_eq, b.value_eq, BitVec.toInt_sub, BitVec.toInt_ofNat', BitVec.toInt_ofNat',
    ← Int.sub_bmod]
  exact Int.bmod_eq_of_le_mul_two (by omega) (by omega)

theorem toInt_size (L : Layout) : L.size.toInt = L.size.toNat := by
  have := L.size_le
  exact BitVec.toInt_eq_toNat_of_lt (by omega)

theorem refuses_push {own loaded : Ticket} (x : T) (h : loaded.count < own.count + 2 ^ 31)
    (h' : own.count ≤ loaded.count + L.size.toNat) :
    refuses L own loaded (.push x) = true ↔ own.count = loaded.count + L.size.toNat := by
  have hsize := L.size_le
  rw [refuses, decide_eq_true_iff, toInt_size, distance_eq (by omega) (by omega)]
  omega

theorem refuses_pop {own loaded : Ticket} (h : own.count ≤ loaded.count)
    (h' : loaded.count < own.count + 2 ^ 31) :
    refuses L own loaded (.pop : Call T) = true ↔ loaded.count = own.count := by
  rw [refuses, decide_eq_true_iff, distance_eq (by omega) (by omega)]
  omega

theorem count_eq_of_value_eq {a b : Ticket} (h : a.value = b.value) (hle : a.count ≤ b.count)
    (hlt : b.count < a.count + 2 ^ 32) : a.count = b.count := by
  have heq : a.count % 2 ^ 32 = b.count % 2 ^ 32 := by
    have := congrArg BitVec.toNat h
    rwa [a.value_eq, b.value_eq, BitVec.toNat_ofNat, BitVec.toNat_ofNat] at this
  omega

end Distance

namespace RingBuffer

-- what the test of a call has established by the time it tries to increase its counter
def Passed (s : RingBuffer L T Tid) (own : Ticket) : Call T → Prop
  | .push _ => own.count < s.tail.count + L.size.toNat
  | .pop => own.count < s.head.count

structure Ticketed (s : RingBuffer L T Tid) : Prop where
  tail_le : s.tail.count ≤ s.head.count
  head_le : s.head.count ≤ s.tail.count + L.size.toNat
  entered : s.entered.length = s.head.count
  loaded : ∀ t c own, (s.pc t).loaded = some (c, own) → own.count ≤ (s.counter c).count
  passed : ∀ t c own, s.pc t = .increase c own → s.Passed own c
  taken : ∀ t c own, (s.pc t).ticket = some (c, own) → own.count < (s.counter c).count
  element : ∀ t x own, (s.pc t).ticket = some (.push x, own) → s.entered[own.count]? = some x
  distinct : ∀ t u c d own own', (s.pc t).ticket = some (c, own) →
    (s.pc u).ticket = some (d, own') → c.isPush = d.isPush → own.count = own'.count → t = u

-- loads return the latest value, and between the load of a counter and the test or the increment
-- that relies on it the counter stays less than 2^30 values ahead
def UpToDate (s : RingBuffer L T Tid) (l : Tid × Action T) : Prop :=
  match s.pc l.1, l.2 with
  | .idle, .call c loaded => loaded = s.counter c
  | .test c own, .test loaded => loaded = s.other c ∧ (s.counter c).count < own.count + 2 ^ 30
  | .increase c own, .increase none => (s.counter c).count < own.count + 2 ^ 30
  | .increase c _, .increase (some loaded) => loaded = s.counter c
  | _, _ => True

variable {s : RingBuffer L T Tid}

theorem ticketed_start : ({} : RingBuffer L T Tid).Ticketed := by
  constructor
  · exact le_rfl
  · exact Nat.zero_le _
  · rfl
  · intro t c own h
    cases h
  · intro t c own h
    cases h
  · intro t c own h
    cases h
  · intro t x own h
    cases h
  · intro t u c d own own' h
    cases h

-- in a step that is up to date a refusal is true of the counters as they are then
theorem Ticketed.refused (h : s.Ticketed) {c : Call T} {own : Ticket}
    (hle : own.count ≤ (s.counter c).count) (hlag : (s.counter c).count < own.count + 2 ^ 30)
    (hr : refuses L own (s.other c) c = true) :
    match c with
    | .push _ => s.head.count = s.tail.count + L.size.toNat
    | .pop => s.head.count = s.tail.count := by
  have htail := h.tail_le
  have hhead := h.head_le
  have hsize := L.size_le
  cases c with
  | push x =>
    have hle' : own.count ≤ s.head.count := hle
    have hlag' : s.head.count < own.count + 2 ^ 30 := hlag
    have hiff : refuses L own s.tail (.push x) = true ↔ own.count = s.tail.count + L.size.toNat :=
      refuses_push x (by omega) (by omega)
    have heq := hiff.mp hr
    change s.head.count = s.tail.count + L.size.toNat
    omega
  | pop =>
    have hle' : own.count ≤ s.tail.count := hle
    have hlag' : s.tail.count < own.count + 2 ^ 30 := hlag
    have hiff : refuses L own s.head (.pop : Call T) = true ↔ s.head.count = own.count :=
      refuses_pop (by omega) (by omega)
    have heq := hiff.mp hr
    change s.head.count = s.tail.count
    omega

theorem Ticketed.accepts (h : s.Ticketed) {c : Call T} {own : Ticket}
    (hle : own.count ≤ (s.counter c).count) (hlag : (s.counter c).count < own.count + 2 ^ 30)
    (hr : refuses L own (s.other c) c = false) : s.Passed own c := by
  have htail := h.tail_le
  have hhead := h.head_le
  have hsize := L.size_le
  cases c with
  | push x =>
    have hle' : own.count ≤ s.head.count := hle
    have hlag' : s.head.count < own.count + 2 ^ 30 := hlag
    have hiff : refuses L own s.tail (.push x) = true ↔ own.count = s.tail.count + L.size.toNat :=
      refuses_push x (by omega) (by omega)
    have hne : ¬ own.count = s.tail.count + L.size.toNat := hiff.not.mp (Bool.eq_false_iff.mp hr)
    change own.count < s.tail.count + L.size.toNat
    omega
  | pop =>
    have hle' : own.count ≤ s.tail.count := hle
    have hlag' : s.tail.count < own.count + 2 ^ 30 := hlag
    have hiff : refuses L own s.head (.pop : Call T) = true ↔ s.head.count = own.count :=
      refuses_pop (by omega) (by omega)
    have hne : ¬ s.head.count = own.count := hiff.not.mp (Bool.eq_false_iff.mp hr)
    change own.count < s.head.count
    omega

theorem counter_increment (c d : Call T) :
    ((s.increment c).counter d).count =
      (s.counter d).count + if c.isPush = d.isPush then 1 else 0 := by
  cases c <;> cases d <;> rfl

theorem counter_congr {c d : Call T} (h : c.isPush = d.isPush) : s.counter c = s.counter d := by
  cases c <;> cases d <;> first | rfl | cases h

theorem increment_entered (c : Call T) : ∃ l, (s.increment c).entered = s.entered ++ l := by
  cases c with
  | push x => exact ⟨[x], rfl⟩
  | pop => exact ⟨[], (List.append_nil _).symm⟩

theorem Passed.increment {own : Ticket} {c d : Call T} (h : s.Passed own d) :
    (s.increment c).Passed own d := by
  cases c <;> cases d <;> simp only [Passed, RingBuffer.increment, Ticket.next_count] at h ⊢ <;>
    omega

theorem Ticketed.current (h : s.Ticketed) {t : Tid} {c : Call T}
    {own : Ticket} (hp : s.pc t = .increase c own) (hv : own.value = (s.counter c).value)
    (hlag : (s.counter c).count < own.count + 2 ^ 30) : own = s.counter c := by
  have hle := h.loaded t c own (by rw [hp]; rfl)
  have hcount := count_eq_of_value_eq hv hle (by omega)
  rcases own with ⟨value, count, hvalue⟩
  rcases hcounter : s.counter c with ⟨value', count', hvalue'⟩
  rw [hcounter] at hv hcount
  obtain rfl : value = value' := hv
  obtain rfl : count = count' := hcount
  rfl

section Preservation

variable [DecidableEq Tid] {t : Tid}

-- a step that leaves the counters as they are
theorem Ticketed.keeps {r : RingBuffer L T Tid} {p : Pc T} (h : s.Ticketed)
    (hhead : r.head = s.head) (htail : r.tail = s.tail) (hin : r.entered = s.entered)
    (hpc : r.pc = s.pc)
    (hl : ∀ c own, p.loaded = some (c, own) → own.count ≤ (s.counter c).count)
    (hp : ∀ c own, p = .increase c own → s.Passed own c)
    (ht : ∀ c own, p.ticket = some (c, own) → (s.pc t).ticket = some (c, own)) :
    (r.goto t p).Ticketed := by
  have hcount : ∀ c, (r.goto t p).counter c = s.counter c := by
    intro c
    cases c with
    | push x => exact hhead
    | pop => exact htail
  have hw : ∀ u c own, ((r.goto t p).pc u).ticket = some (c, own) →
      (s.pc u).ticket = some (c, own) := by
    intro u c own hu
    by_cases hut : u = t
    · rw [hut, goto_self] at hu
      exact hut ▸ ht c own hu
    · rwa [goto_of_ne r hut, hpc] at hu
  constructor
  · rw [goto_head, goto_tail, hhead, htail]
    exact h.tail_le
  · rw [goto_head, goto_tail, hhead, htail]
    exact h.head_le
  · rw [goto_entered, goto_head, hin, hhead]
    exact h.entered
  · intro u c own hu
    rw [hcount]
    by_cases hut : u = t
    · rw [hut, goto_self] at hu
      exact hl c own hu
    · rw [goto_of_ne r hut, hpc] at hu
      exact h.loaded u c own hu
  · intro u c own hu
    have hpass : s.Passed own c := by
      by_cases hut : u = t
      · rw [hut, goto_self] at hu
        exact hp c own hu
      · rw [goto_of_ne r hut, hpc] at hu
        exact h.passed u c own hu
    cases c with
    | push x =>
      change own.count < r.tail.count + L.size.toNat
      rw [htail]
      exact hpass
    | pop =>
      change own.count < r.head.count
      rw [hhead]
      exact hpass
  · intro u c own hu
    rw [hcount]
    exact h.taken u c own (hw u c own hu)
  · intro u x own hu
    rw [goto_entered, hin]
    exact h.element u x own (hw u _ own hu)
  · intro u v c d own own' hu hv
    exact h.distinct u v c d own own' (hw u c own hu) (hw v d own' hv)

-- a call that goes on with the ticket it has, or returns
theorem Ticketed.goesOn {r : RingBuffer L T Tid} {p : Pc T} (h : s.Ticketed)
    (hhead : r.head = s.head) (htail : r.tail = s.tail) (hin : r.entered = s.entered)
    (hpc : r.pc = s.pc) (hl : p.loaded = none)
    (ht : p.ticket = none ∨ p.ticket = (s.pc t).ticket) : (r.goto t p).Ticketed := by
  refine h.keeps hhead htail hin hpc (fun c own hp => ?_) (fun c own hp => ?_) (fun c own hp => ?_)
  · rw [hl] at hp
    cases hp
  · rw [hp] at hl
    cases hl
  · rcases ht with ht | ht
    · rw [ht] at hp
      cases hp
    · rwa [← ht]

-- a call that loads its counter
theorem Ticketed.loads {c : Call T} {own : Ticket} (h : s.Ticketed) (hown : own = s.counter c) :
    (s.goto t (.test c own)).Ticketed := by
  refine h.keeps rfl rfl rfl rfl (fun d own' hp => ?_) (fun d own' hp => ?_) (fun d own' hp => ?_)
  · obtain ⟨rfl, rfl⟩ := Prod.mk.inj (Option.some.inj hp)
    exact hown ▸ le_rfl
  · cases hp
  · cases hp

-- a call increases its counter: the test it made still holds, since its own counter has stood still
theorem Ticketed.take {c : Call T} (h : s.Ticketed) (hp : s.Passed (s.counter c) c) :
    ((s.increment c).goto t (.claim c (s.counter c))).Ticketed := by
  have hmono : ∀ d, (s.counter d).count ≤ ((s.increment c).counter d).count := by
    intro d
    rw [counter_increment]
    omega
  have hother : ∀ u d own, u ≠ t →
      (((s.increment c).goto t (.claim c (s.counter c))).pc u).ticket = some (d, own) →
      (s.pc u).ticket = some (d, own) := by
    intro u d own hut hu
    rwa [goto_of_ne _ hut, increment_pc] at hu
  have hnew : ∀ d own,
      (((s.increment c).goto t (.claim c (s.counter c))).pc t).ticket = some (d, own) →
      c = d ∧ s.counter c = own := by
    intro d own hu
    rw [goto_self] at hu
    exact Prod.mk.inj (Option.some.inj hu)
  obtain ⟨l, hl⟩ := increment_entered (s := s) c
  have htail := h.tail_le
  have hhead := h.head_le
  constructor
  · cases c with
    | push x =>
      change s.tail.count ≤ s.head.count + 1
      omega
    | pop => exact hp
  · cases c with
    | push x => exact hp
    | pop =>
      change s.head.count ≤ s.tail.count + 1 + L.size.toNat
      omega
  · cases c with
    | push x =>
      change (s.entered ++ [x]).length = s.head.count + 1
      rw [List.length_append, h.entered, List.length_singleton]
    | pop => exact h.entered
  · intro u d own hu
    by_cases hut : u = t
    · rw [hut, goto_self] at hu
      cases hu
    · rw [goto_of_ne _ hut, increment_pc] at hu
      exact (h.loaded u d own hu).trans (hmono d)
  · intro u d own hu
    by_cases hut : u = t
    · rw [hut, goto_self] at hu
      cases hu
    · rw [goto_of_ne _ hut, increment_pc] at hu
      have hpass := (h.passed u d own hu).increment (c := c)
      cases d <;> exact hpass
  · intro u d own hu
    by_cases hut : u = t
    · rw [hut] at hu
      obtain ⟨rfl, rfl⟩ := hnew d own hu
      change (s.counter c).count < ((s.increment c).counter c).count
      rw [counter_increment, if_pos rfl]
      exact Nat.lt_succ_self _
    · exact (h.taken u d own (hother u d own hut hu)).trans_le (hmono d)
  · intro u x own hu
    rw [goto_entered]
    by_cases hut : u = t
    · rw [hut] at hu
      obtain ⟨rfl, rfl⟩ := hnew _ own hu
      change (s.entered ++ [x])[s.head.count]? = some x
      rw [← h.entered, List.getElem?_concat_length]
    · have hold := h.element u x own (hother u _ own hut hu)
      obtain ⟨hlt, -⟩ := List.getElem?_eq_some_iff.mp hold
      rw [hl, List.getElem?_append_left hlt]
      exact hold
  · intro u v d e own own' hu hv hkind heq
    by_cases hut : u = t <;> by_cases hvt : v = t
    · rw [hut, hvt]
    · rw [hut] at hu
      obtain ⟨rfl, rfl⟩ := hnew d own hu
      have hlt := h.taken v e own' (hother v e own' hvt hv)
      rw [← heq, counter_congr hkind] at hlt
      exact absurd hlt (Nat.lt_irrefl _)
    · rw [hvt] at hv
      obtain ⟨rfl, rfl⟩ := hnew e own' hv
      have hlt := h.taken u d own (hother u d own hut hu)
      rw [heq, counter_congr hkind] at hlt
      exact absurd hlt (Nat.lt_irrefl _)
    · exact h.distinct u v d e own own' (hother u d own hut hu) (hother v e own' hvt hv) hkind heq

theorem Ticketed.step {l : Tid × Action T} {s' : RingBuffer L T Tid} (h : s.Ticketed)
    (hl : s.UpToDate l) (hs : s.step l = some s') : s'.Ticketed := by
  obtain ⟨t, a⟩ := l
  cases step_moves hs with
  | call c loaded hp =>
    simp only [UpToDate, hp] at hl
    exact h.loads hl
  | refuse c own loaded hp hr => exact h.goesOn rfl rfl rfl rfl rfl (Or.inl rfl)
  | pass c own loaded hp hr =>
    simp only [UpToDate, hp] at hl
    obtain ⟨rfl, hlag⟩ := hl
    have hle := h.loaded t c own (by rw [hp]; rfl)
    refine h.keeps rfl rfl rfl rfl (fun d own' hd => ?_) (fun d own' hd => ?_) (fun d own' hd => ?_)
    · obtain ⟨rfl, rfl⟩ := Prod.mk.inj (Option.some.inj hd)
      exact hle
    · obtain ⟨rfl, rfl⟩ := Pc.increase.inj hd
      exact h.accepts hle hlag hr
    · cases hd
  | take c own hp hv =>
    simp only [UpToDate, hp] at hl
    have hown := h.current hp hv hl
    exact h.take (hown ▸ h.passed t c own hp)
  | retry c own loaded hp =>
    simp only [UpToDate, hp] at hl
    exact h.loads hl
  | claim c own hp hx => exact h.goesOn rfl rfl rfl rfl rfl (Or.inr (by rw [hp]; rfl))
  | miss c own hp => exact h.goesOn rfl rfl rfl rfl rfl (Or.inr (by rw [hp]; rfl))
  | wake c own hp => exact h.goesOn rfl rfl rfl rfl rfl (Or.inr (by rw [hp]; rfl))
  | wait c own loaded hp => exact h
  | move c own hp =>
    exact h.goesOn (transfer_head s _ c) (transfer_tail s _ c) (transfer_entered s _ c)
      (transfer_pc s _ c) rfl (Or.inr (by rw [hp]; rfl))
  | finish c own element hp =>
    exact h.goesOn (tally_head _ _ c) (tally_tail _ _ c) (tally_entered _ _ c) (tally_pc _ _ c) rfl
      (Or.inl rfl)

end Preservation

end RingBuffer

end AtomicQueue

end ChatApp
