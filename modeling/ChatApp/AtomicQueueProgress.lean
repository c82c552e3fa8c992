import ChatApp.AtomicQueueOrder
import Mathlib.Data.Finset.Card
import Mathlib.Data.Fintype.Sets

namespace ChatApp

namespace AtomicQueue

variable {L : Layout} {T Tid : Type}

-- the steps after the increment of head_ or tail_
def Action.returning : Action T → Bool
  | .claim _ | .spin _ | .move | .finish => true
  | _ => false

namespace RingBuffer

section Settled

-- a call of a kind that is still at work holds the n-th ticket
def TicketHeld (s : RingBuffer L T Tid) (c : Call T) (n : Nat) : Prop :=
  ∃ t d own, (s.pc t).ticket = some (d, own) ∧ d.isPush = c.isPush ∧ own.count = n

def issued (s : RingBuffer L T Tid) (c : Call T) (i : Nat) : Finset Nat :=
  (Finset.range (s.counter c).count).filter fun n => L.place n = i

open scoped Classical in
noncomputable def settled (s : RingBuffer L T Tid) (c : Call T) (i : Nat) : Finset Nat :=
  (s.issued c i).filter fun n => ¬ s.TicketHeld c n

structure TicketsCounted (s : RingBuffer L T Tid) : Prop where
  balance : ∀ i, s.puts i = s.takes i + if (s.states i).full then 1 else 0
  owned : ∀ i, s.states i = .storing ∨ s.states i = .loading →
    ∃ t c own, (s.pc t).working = some (c, own) ∧ L.slot own.value = i
  counts : ∀ c i, s.done c i = (s.settled c i).card

variable {s : RingBuffer L T Tid} {c : Call T} {i n : Nat}

theorem mem_issued : n ∈ s.issued c i ↔ n < (s.counter c).count ∧ L.place n = i := by
  rw [issued, Finset.mem_filter, Finset.mem_range]

theorem mem_settled :
    n ∈ s.settled c i ↔ (n < (s.counter c).count ∧ L.place n = i) ∧ ¬ s.TicketHeld c n := by
  classical rw [settled, Finset.mem_filter, mem_issued]

theorem settled_subset (s : RingBuffer L T Tid) (c : Call T) (i : Nat) :
    s.settled c i ⊆ s.issued c i := fun _ hn => mem_issued.mpr (mem_settled.mp hn).1

-- all issued tickets of the slot are settled unless one of them is held
theorem settled_eq_issued (h : ∀ n, L.place n = i → ¬ s.TicketHeld c n) :
    s.settled c i = s.issued c i := by
  refine Finset.Subset.antisymm (settled_subset s c i) fun n hn => ?_
  exact mem_settled.mpr ⟨mem_issued.mp hn, h n (mem_issued.mp hn).2⟩

theorem card_settled_lt (h : n < (s.counter c).count) (hp : L.place n = i)
    (hheld : s.TicketHeld c n) :
    (s.settled c i).card < (s.issued c i).card := by
  refine Finset.card_lt_card ⟨settled_subset s c i, fun hsub => ?_⟩
  exact (mem_settled.mp (hsub (mem_issued.mpr ⟨h, hp⟩))).2 hheld

-- as many pops as pushes have been given a ticket of a slot, or one less
theorem issued_pop_subset (h : s.Ticketed) (x : T) (i : Nat) :
    s.issued .pop i ⊆ s.issued (.push x) i := fun n hn => by
  obtain ⟨hlt, hp⟩ := mem_issued.mp hn
  exact mem_issued.mpr ⟨hlt.trans_le h.tail_le, hp⟩

theorem card_issued_le (h : s.Ticketed) (x : T) (i : Nat) :
    (s.issued (.push x) i).card ≤ (s.issued .pop i).card + 1 := by
  have hone : ((s.issued (.push x) i) \ (s.issued .pop i)).card ≤ 1 := by
    refine Finset.card_le_one.mpr fun m hm n hn => ?_
    obtain ⟨hm1, hm2⟩ := Finset.mem_sdiff.mp hm
    obtain ⟨hn1, hn2⟩ := Finset.mem_sdiff.mp hn
    obtain ⟨hmlt, hmp⟩ := mem_issued.mp hm1
    obtain ⟨hnlt, hnp⟩ := mem_issued.mp hn1
    have hmge : s.tail.count ≤ m := by
      by_contra hnot
      exact hm2 (mem_issued.mpr ⟨not_le.mp hnot, hmp⟩)
    have hnge : s.tail.count ≤ n := by
      by_contra hnot
      exact hn2 (mem_issued.mpr ⟨not_le.mp hnot, hnp⟩)
    have hle := h.head_le
    have hmlt' : m < s.head.count := hmlt
    have hnlt' : n < s.head.count := hnlt
    have hmod := (L.slot_eq_iff m n).mp (hmp.trans hnp.symm)
    have hdm := Nat.div_add_mod (m - s.tail.count) L.size.toNat
    have hm3 : (m - s.tail.count) % L.size.toNat = (n - s.tail.count) % L.size.toNat := by
      have hadd : (s.tail.count + (m - s.tail.count)) % L.size.toNat =
          (s.tail.count + (n - s.tail.count)) % L.size.toNat := by
        rw [Nat.add_sub_cancel' hmge, Nat.add_sub_cancel' hnge, hmod]
      exact Nat.ModEq.add_left_cancel' s.tail.count hadd
    rw [Nat.mod_eq_of_lt (by omega), Nat.mod_eq_of_lt (by omega)] at hm3
    omega
  have := Finset.card_le_card_sdiff_add_card (s := s.issued (.push x) i) (t := s.issued .pop i)
  omega

end Settled

section Preservation

variable {s : RingBuffer L T Tid}

theorem counted_start : ({} : RingBuffer L T Tid).TicketsCounted := by
  constructor
  · intro i
    rfl
  · intro i hi
    rcases hi with hi | hi <;> cases hi
  · intro c i
    have hempty : ({} : RingBuffer L T Tid).settled c i = ∅ := by
      refine Finset.eq_empty_of_forall_notMem fun n hn => ?_
      have hlt := (mem_settled.mp hn).1.1
      cases c <;> cases hlt
    rw [hempty]
    cases c <;> rfl

theorem settled_congr {r : RingBuffer L T Tid} (c : Call T) (i : Nat)
    (hcount : (r.counter c).count = (s.counter c).count)
    (hheld : ∀ n, r.TicketHeld c n ↔ s.TicketHeld c n) :
    r.settled c i = s.settled c i := by
  ext n
  rw [mem_settled, mem_settled, hcount, hheld]

variable [DecidableEq Tid] {t : Tid}

-- the tickets in hand stay the same, the slots do as the argument says
theorem TicketsCounted.keeps {r : RingBuffer L T Tid} {p : Pc T} (h : s.TicketsCounted)
    (hcount : ∀ c, (r.counter c).count = (s.counter c).count)
    (hputs : r.puts = s.puts) (htakes : r.takes = s.takes) (hpc : r.pc = s.pc)
    (ht : p.ticket = (s.pc t).ticket)
    (hfull : ∀ i, (r.states i).full = (s.states i).full)
    (howned : ∀ i, r.states i = .storing ∨ r.states i = .loading →
      ∃ u c own, ((r.goto t p).pc u).working = some (c, own) ∧ L.slot own.value = i) :
    (r.goto t p).TicketsCounted := by
  have hticket : ∀ u, ((r.goto t p).pc u).ticket = (s.pc u).ticket := by
    intro u
    by_cases hut : u = t
    · rw [hut, goto_self, ht]
    · rw [goto_of_ne r hut, hpc]
  constructor
  · intro i
    rw [goto_puts, goto_takes, goto_states, hputs, htakes, hfull]
    exact h.balance i
  · exact howned
  · intro c i
    have hsettled : (r.goto t p).settled c i = s.settled c i := by
      refine settled_congr c i (hcount c) fun n => ?_
      simp only [TicketHeld, hticket]
    have hdone : (r.goto t p).done c = s.done c := by
      cases c
      · exact hputs
      · exact htakes
    rw [hsettled, hdone]
    exact h.counts c i

theorem TicketsCounted.goesOn {p : Pc T} (h : s.TicketsCounted) (hold : (s.pc t).working = none)
    (ht : p.ticket = (s.pc t).ticket) :
    (s.goto t p).TicketsCounted := by
  refine h.keeps (fun _ => rfl) rfl rfl rfl ht (fun _ => rfl) fun i hi => ?_
  obtain ⟨u, c, own, hu, hslot⟩ := h.owned i hi
  have hut : u ≠ t := by
    rintro rfl
    rw [hold] at hu
    cases hu
  exact ⟨u, c, own, by rw [goto_of_ne s hut]; exact hu, hslot⟩

theorem TicketsCounted.take {c : Call T} (h : s.TicketsCounted)
    (hold : (s.pc t).ticket = none) :
    ((s.increment c).goto t (.claim c (s.counter c))).TicketsCounted := by
  have hpc : ∀ u, u ≠ t →
      ((s.increment c).goto t (.claim c (s.counter c))).pc u = s.pc u := by
    intro u hut
    rw [goto_of_ne _ hut, increment_pc]
  have hheld : ∀ d n, ((s.increment c).goto t (.claim c (s.counter c))).TicketHeld d n ↔
      s.TicketHeld d n ∨ c.isPush = d.isPush ∧ n = (s.counter c).count := by
    intro d n
    constructor
    · rintro ⟨u, e, own, hu, hkind, hn⟩
      by_cases hut : u = t
      · rw [hut, goto_self] at hu
        obtain ⟨rfl, rfl⟩ := Prod.mk.inj (Option.some.inj hu)
        exact Or.inr ⟨hkind, hn.symm⟩
      · rw [hpc u hut] at hu
        exact Or.inl ⟨u, e, own, hu, hkind, hn⟩
    · rintro (⟨u, e, own, hu, hrest⟩ | ⟨hkind, hn⟩)
      · have hut : u ≠ t := by
          rintro rfl
          rw [hold] at hu
          cases hu
        exact ⟨u, e, own, by rw [hpc u hut]; exact hu, hrest⟩
      · exact ⟨t, c, s.counter c, by rw [goto_self]; rfl, hkind, hn.symm⟩
  constructor
  · intro i
    rw [goto_puts, goto_takes, goto_states, increment_puts, increment_takes, increment_states]
    exact h.balance i
  · intro i hi
    rw [goto_states, increment_states] at hi
    obtain ⟨u, d, own, hu, hslot⟩ := h.owned i hi
    have hut : u ≠ t := by
      rintro rfl
      rw [Pc.ticket_of_working hu] at hold
      cases hold
    exact ⟨u, d, own, by rw [hpc u hut]; exact hu, hslot⟩
  · intro d i
    have hsettled : ((s.increment c).goto t (.claim c (s.counter c))).settled d i =
        s.settled d i := by
      ext n
      rw [mem_settled, mem_settled, hheld]
      change (n < ((s.increment c).counter d).count ∧ _) ∧ _ ↔ _
      rw [counter_increment]
      by_cases hkind : c.isPush = d.isPush
      · rw [if_pos hkind, counter_congr hkind]
        simp only [hkind, true_and, not_or]
        constructor
        · rintro ⟨⟨hlt, hp⟩, hno, hne⟩
          exact ⟨⟨by omega, hp⟩, hno⟩
        · rintro ⟨⟨hlt, hp⟩, hno⟩
          exact ⟨⟨by omega, hp⟩, hno, by omega⟩
      · rw [if_neg hkind]
        simp only [hkind, false_and, or_false, Nat.add_zero]
    rw [hsettled]
    have hdone : ((s.increment c).goto t (.claim c (s.counter c))).done d = s.done d := by
      cases d
      · exact increment_puts s c
      · exact increment_takes s c
    rw [hdone]
    exact h.counts d i

theorem TicketsCounted.claim {c : Call T} {own : Ticket} (h : s.TicketsCounted)
    (hp : s.pc t = .claim c own)
    (hx : s.states (L.slot own.value) = c.transfer.expected) :
    ((s.setState (L.slot own.value) c.transfer.claimed).goto t (.move c own)).TicketsCounted := by
  refine h.keeps (fun d => by cases d <;> rfl) rfl rfl rfl (by rw [hp]; rfl) (fun i => ?_)
    fun i hi => ?_
  · by_cases hs : i = L.slot own.value
    · rw [hs, setState_self, hx]
      cases c <;> rfl
    · rw [setState_of_ne s hs]
  · by_cases hs : i = L.slot own.value
    · exact ⟨t, c, own, by rw [goto_self]; rfl, hs.symm⟩
    · rw [setState_of_ne s hs] at hi
      obtain ⟨u, d, own', hu, hslot⟩ := h.owned i hi
      have hut : u ≠ t := by
        rintro rfl
        rw [hp] at hu
        cases hu
      exact ⟨u, d, own', by rw [goto_of_ne _ hut]; exact hu, hslot⟩

theorem TicketsCounted.move {c : Call T} {own : Ticket} (h : s.TicketsCounted)
    (hp : s.pc t = .move c own) :
    ((s.transfer (L.slot own.value) c).1.goto t
      (.finish c own (s.transfer (L.slot own.value) c).2)).TicketsCounted := by
  refine h.keeps (fun d => by cases c <;> cases d <;> rfl) (transfer_puts s _ c)
    (transfer_takes s _ c) (transfer_pc s _ c) (by rw [hp]; rfl)
    (fun i => by rw [transfer_states]) fun i hi => ?_
  rw [transfer_states] at hi
  obtain ⟨u, d, own', hu, hslot⟩ := h.owned i hi
  by_cases hut : u = t
  · rw [hut, hp] at hu
    exact ⟨t, d, own', by rw [goto_self]; exact hu, hslot⟩
  · exact ⟨u, d, own', by rw [goto_of_ne _ hut, transfer_pc]; exact hu, hslot⟩

-- the ticket of the finished call, and no other, becomes settled
theorem TicketsCounted.finish {c : Call T} {own : Ticket} {element : Option T}
    (h : s.TicketsCounted)
    (hk : s.Ticketed) (hx : s.Exclusive) (hp : s.pc t = .finish c own element) :
    (((s.setState (L.slot own.value) c.transfer.left).tally (L.slot own.value) c).goto t
      .idle).TicketsCounted := by
  have hmine : (s.pc t).working = some (c, own) := by rw [hp]; rfl
  have hmine' : (s.pc t).ticket = some (c, own) := Pc.ticket_of_working hmine
  have hstate := hx.claimed t c own hmine
  have hpc : ∀ u, u ≠ t → (((s.setState (L.slot own.value) c.transfer.left).tally
      (L.slot own.value) c).goto t .idle).pc u = s.pc u := by
    intro u hut
    rw [goto_of_ne _ hut, tally_pc, setState_pc]
  have hcount : ∀ d, (((s.setState (L.slot own.value) c.transfer.left).tally
      (L.slot own.value) c).goto t .idle).counter d = s.counter d := by
    intro d
    cases c <;> cases d <;> rfl
  have hheld : ∀ d n, (((s.setState (L.slot own.value) c.transfer.left).tally
      (L.slot own.value) c).goto t .idle).TicketHeld d n ↔
      s.TicketHeld d n ∧ ¬ (c.isPush = d.isPush ∧ n = own.count) := by
    intro d n
    constructor
    · rintro ⟨u, e, own', hu, hkind, hn⟩
      have hut : u ≠ t := by
        rintro rfl
        rw [goto_self] at hu
        cases hu
      rw [hpc u hut] at hu
      refine ⟨⟨u, e, own', hu, hkind, hn⟩, ?_⟩
      rintro ⟨hkind', hn'⟩
      exact hut (hk.distinct u t e c own' own hu hmine' (hkind.trans hkind'.symm) (hn.trans hn'))
    · rintro ⟨⟨u, e, own', hu, hkind, hn⟩, hnot⟩
      have hut : u ≠ t := by
        rintro rfl
        rw [hmine'] at hu
        obtain ⟨rfl, rfl⟩ := Prod.mk.inj (Option.some.inj hu)
        exact hnot ⟨hkind, hn.symm⟩
      exact ⟨u, e, own', by rw [hpc u hut]; exact hu, hkind, hn⟩
  constructor
  · exact balance_finish h.balance hstate
  · intro i hi
    rw [goto_states, tally_states] at hi
    by_cases hs : i = L.slot own.value
    · rw [hs, setState_self] at hi
      cases c <;> rcases hi with hi | hi <;> cases hi
    · rw [setState_of_ne s hs] at hi
      obtain ⟨u, d, own', hu, hslot⟩ := h.owned i hi
      have hut : u ≠ t := by
        rintro rfl
        rw [hmine] at hu
        obtain ⟨rfl, rfl⟩ := Prod.mk.inj (Option.some.inj hu)
        exact hs hslot.symm
      exact ⟨u, d, own', by rw [hpc u hut]; exact hu, hslot⟩
  · intro d i
    change ((s.setState (L.slot own.value) c.transfer.left).tally (L.slot own.value) c).done d i = _
    rw [done_tally]
    change s.done d i + _ = _
    rw [h.counts d i]
    by_cases hsame : d.isPush = c.isPush ∧ i = L.slot own.value
    · rw [if_pos hsame]
      obtain ⟨hkind, rfl⟩ := hsame
      have hinsert : (((s.setState (L.slot own.value) c.transfer.left).tally
          (L.slot own.value) c).goto t .idle).settled d (L.slot own.value) =
          insert own.count (s.settled d (L.slot own.value)) := by
        ext n
        rw [Finset.mem_insert, mem_settled, mem_settled, hheld, hcount]
        constructor
        · rintro ⟨hissued, hnot⟩
          by_cases hn : n = own.count
          · exact Or.inl hn
          · exact Or.inr ⟨hissued, fun hn' => hnot ⟨hn', fun hboth => hn hboth.2⟩⟩
        · rintro (rfl | ⟨hissued, hnot⟩)
          · refine ⟨⟨?_, (L.slot_value own).symm⟩, fun hboth => hboth.2 ⟨hkind.symm, rfl⟩⟩
            rw [counter_congr hkind]
            exact hk.taken t c own hmine'
          · exact ⟨hissued, fun hboth => hnot hboth.1⟩
      rw [hinsert, Finset.card_insert_of_notMem]
      intro hmem
      exact (mem_settled.mp hmem).2 ⟨t, c, own, hmine', hkind.symm, rfl⟩
    · rw [if_neg hsame, Nat.add_zero]
      congr 1
      ext n
      rw [mem_settled, mem_settled, hheld, hcount]
      refine and_congr_right fun hissued => not_congr ⟨fun hn => ⟨hn, ?_⟩, And.left⟩
      rintro ⟨hkind, rfl⟩
      exact hsame ⟨hkind.symm, by rw [← hissued.2, L.slot_value]⟩

end Preservation

-- what holds after any run whose steps are up to date, also when calls overtake each other
structure Steady (s : RingBuffer L T Tid) : Prop where
  exclusive : s.Exclusive
  ticketed : s.Ticketed
  counted : s.TicketsCounted

theorem steady_start : ({} : RingBuffer L T Tid).Steady :=
  ⟨exclusive_start, ticketed_start, counted_start⟩

section Progress

variable {s s' : RingBuffer L T Tid}

-- a call that holds a ticket, or another one at its slot, finds the slot as it needs it
theorem Steady.exists_ready (h : s.Steady) {t : Tid} {c : Call T} {own : Ticket}
    (ht : (s.pc t).ticket = some (c, own)) :
    ∃ u d own', (s.pc u).ticket = some (d, own') ∧
      ((s.pc u).working = some (d, own') ∨
        s.states (L.slot own'.value) = d.transfer.expected) := by
  have hbal := h.counted.balance (L.slot own.value)
  have hlt := h.ticketed.taken t c own ht
  have hplace : L.place own.count = L.slot own.value := (L.slot_value own).symm
  have hheld : s.TicketHeld c own.count := ⟨t, c, own, ht, rfl, rfl⟩
  have hwork : ∀ {x}, s.states (L.slot own.value) = x → x = .storing ∨ x = .loading →
      ∃ u d own', (s.pc u).ticket = some (d, own') ∧
        ((s.pc u).working = some (d, own') ∨
          s.states (L.slot own'.value) = d.transfer.expected) := by
    rintro x hx hbusy
    obtain ⟨u, d, own', hu, -⟩ := h.counted.owned (L.slot own.value) (hx ▸ hbusy)
    exact ⟨u, d, own', Pc.ticket_of_working hu, Or.inl hu⟩
  cases hs : s.states (L.slot own.value) with
  | storing => exact hwork hs (Or.inl rfl)
  | loading => exact hwork hs (Or.inr rfl)
  | empty =>
    cases c with
    | push x => exact ⟨t, .push x, own, ht, Or.inr hs⟩
    | pop =>
      -- as many pushes as pops have been finished here, and a pop is still at work
      by_contra hnone
      have hpos : own.count < s.entered.length := by
        rw [h.ticketed.entered]
        exact hlt.trans_le h.ticketed.tail_le
      have hfree : ∀ n, L.place n = L.slot own.value →
          ¬ s.TicketHeld (.push s.entered[own.count]) n := by
        rintro n hn ⟨u, d, own', hu, hkind, hcount⟩
        have hslot : L.slot own'.value = L.slot own.value := by
          rw [L.slot_value, hcount, hn]
        cases d with
        | push y => exact hnone ⟨u, .push y, own', hu, Or.inr (by rw [hslot]; exact hs)⟩
        | pop => cases hkind
      have hpops := h.counted.counts .pop (L.slot own.value)
      have hpushes := h.counted.counts (.push s.entered[own.count]) (L.slot own.value)
      rw [settled_eq_issued hfree] at hpushes
      have hlt' := card_settled_lt hlt hplace hheld
      have hle := Finset.card_le_card
        (issued_pop_subset h.ticketed s.entered[own.count] (L.slot own.value))
      rw [hs] at hbal
      change s.takes _ = _ at hpops
      change s.puts _ = _ at hpushes
      change s.puts _ = s.takes _ + 0 at hbal
      omega
  | stored =>
    cases c with
    | pop => exact ⟨t, .pop, own, ht, Or.inr hs⟩
    | push x =>
      by_contra hnone
      have hfree : ∀ n, L.place n = L.slot own.value → ¬ s.TicketHeld .pop n := by
        rintro n hn ⟨u, d, own', hu, hkind, hcount⟩
        have hslot : L.slot own'.value = L.slot own.value := by
          rw [L.slot_value, hcount, hn]
        cases d with
        | push y => cases hkind
        | pop => exact hnone ⟨u, .pop, own', hu, Or.inr (by rw [hslot]; exact hs)⟩
      have hpops := h.counted.counts .pop (L.slot own.value)
      have hpushes := h.counted.counts (.push x) (L.slot own.value)
      rw [settled_eq_issued hfree] at hpops
      have hlt' := card_settled_lt hlt hplace hheld
      have hle := card_issued_le h.ticketed x (L.slot own.value)
      rw [hs] at hbal
      change s.takes _ = _ at hpops
      change s.puts _ = _ at hpushes
      change s.puts _ = s.takes _ + 1 at hbal
      omega

def holders [Fintype Tid] (s : RingBuffer L T Tid) : Finset Tid :=
  Finset.univ.filter fun t => (s.pc t).ticket.isSome

theorem mem_holders [Fintype Tid] {t : Tid} :
    t ∈ s.holders ↔ (s.pc t).ticket.isSome = true := by
  rw [holders, Finset.mem_filter]
  exact and_iff_right (Finset.mem_univ t)

theorem upToDate_of_returning {l : Tid × Action T} (h : l.2.returning = true) : s.UpToDate l := by
  obtain ⟨t, a⟩ := l
  cases hp : s.pc t <;> rcases a with _ | _ | _ | _ | _ | _ | _ <;>
    first
      | exact absurd h Bool.false_ne_true
      | simp only [UpToDate, hp]

variable [DecidableEq Tid]

theorem Steady.step_counted {l : Tid × Action T} (h : s.Steady) (hs : s.step l = some s') :
    s'.TicketsCounted := by
  obtain ⟨t, a⟩ := l
  cases step_moves hs with
  | call c loaded hp => exact h.counted.goesOn (by rw [hp]; rfl) (by rw [hp]; rfl)
  | refuse c own loaded hp hr => exact h.counted.goesOn (by rw [hp]; rfl) (by rw [hp]; rfl)
  | pass c own loaded hp hr => exact h.counted.goesOn (by rw [hp]; rfl) (by rw [hp]; rfl)
  | take c own hp hv => exact h.counted.take (by rw [hp]; rfl)
  | retry c own loaded hp => exact h.counted.goesOn (by rw [hp]; rfl) (by rw [hp]; rfl)
  | claim c own hp hx => exact h.counted.claim hp hx
  | miss c own hp => exact h.counted.goesOn (by rw [hp]; rfl) (by rw [hp]; rfl)
  | wake c own hp => exact h.counted.goesOn (by rw [hp]; rfl) (by rw [hp]; rfl)
  | wait c own loaded hp => exact h.counted
  | move c own hp => exact h.counted.move hp
  | finish c own element hp => exact h.counted.finish h.ticketed h.exclusive hp

theorem Steady.step {l : Tid × Action T} (h : s.Steady) (hp : s.UpToDate l)
    (hs : s.step l = some s') : s'.Steady :=
  ⟨h.exclusive.step hs, h.ticketed.step hp hs, h.step_counted hs⟩

-- thread t, running alone, returns from its call in at most n steps
def ReturnsIn (n : Nat) (s : RingBuffer L T Tid) (t : Tid) (s' : RingBuffer L T Tid) : Prop :=
  (∃ as : List (Action T), as.length ≤ n ∧ (∀ a ∈ as, a.returning = true) ∧
    Runs.run RingBuffer.step s (as.map fun a => (t, a)) = some s') ∧
  s'.pc t = .idle ∧ ∀ u, u ≠ t → s'.pc u = s.pc u

theorem ReturnsIn.cons {n : Nat} {t : Tid} {a : Action T} {r : RingBuffer L T Tid}
    (h : ReturnsIn n r t s') (ha : a.returning = true) (hs : s.step (t, a) = some r)
    (hr : ∀ u, u ≠ t → r.pc u = s.pc u) : ReturnsIn (n + 1) s t s' := by
  obtain ⟨⟨as, hlen, hall, hrun⟩, hidle, hothers⟩ := h
  refine ⟨⟨a :: as, Nat.succ_le_succ hlen, List.forall_mem_cons.mpr ⟨ha, hall⟩, ?_⟩, hidle,
    fun u hu => ?_⟩
  · rw [List.map_cons, Runs.run, hs]
    exact hrun
  · rw [hothers u hu, hr u hu]

theorem ReturnsIn.mono {m n : Nat} {t : Tid} (h : ReturnsIn m s t s') (hmn : m ≤ n) :
    ReturnsIn n s t s' := by
  obtain ⟨⟨as, hlen, hrest⟩, hfinal⟩ := h
  exact ⟨⟨as, hlen.trans hmn, hrest⟩, hfinal⟩

theorem returnsIn_finish {t : Tid} {c : Call T} {own : Ticket} {element : Option T}
    (hp : s.pc t = .finish c own element) : ∃ s', ReturnsIn 1 s t s' := by
  refine ⟨((s.setState (L.slot own.value) c.transfer.left).tally (L.slot own.value) c).goto t .idle,
    ReturnsIn.cons (n := 0) (a := .finish) ⟨⟨[], le_rfl, ?_, rfl⟩, goto_self .., fun u _ => rfl⟩
      rfl ?_ fun u hu => ?_⟩
  · intro a ha
    cases ha
  · simp only [RingBuffer.step, hp]
  · rw [goto_of_ne _ hu, tally_pc, setState_pc]

theorem returnsIn_move {t : Tid} {c : Call T} {own : Ticket} (hp : s.pc t = .move c own) :
    ∃ s', ReturnsIn 2 s t s' := by
  obtain ⟨s', h⟩ := returnsIn_finish (s := (s.transfer (L.slot own.value) c).1.goto t
    (.finish c own (s.transfer (L.slot own.value) c).2)) (goto_self ..)
  refine ⟨s', h.cons (a := .move) rfl ?_ fun u hu => ?_⟩
  · simp only [RingBuffer.step, hp]
  · rw [goto_of_ne _ hu, transfer_pc]

theorem returnsIn_claim {t : Tid} {c : Call T} {own : Ticket} (hp : s.pc t = .claim c own)
    (hx : s.states (L.slot own.value) = c.transfer.expected) : ∃ s', ReturnsIn 3 s t s' := by
  obtain ⟨s', h⟩ := returnsIn_move (s := (s.setState (L.slot own.value) c.transfer.claimed).goto t
    (.move c own)) (goto_self ..)
  refine ⟨s', h.cons (a := .claim true) rfl ?_ fun u hu => ?_⟩
  · simp only [RingBuffer.step, hp, hx, if_true]
  · rw [goto_of_ne _ hu, setState_pc]

theorem returnsIn_spin {t : Tid} {c : Call T} {own : Ticket} (hp : s.pc t = .spin c own)
    (hx : s.states (L.slot own.value) = c.transfer.expected) : ∃ s', ReturnsIn 4 s t s' := by
  obtain ⟨s', h⟩ := returnsIn_claim (s := s.goto t (.claim c own)) (goto_self ..) hx
  refine ⟨s', h.cons (a := .spin c.transfer.expected) rfl ?_ fun u hu => goto_of_ne s hu _⟩
  simp only [RingBuffer.step, hp, if_true]

theorem Steady.exists_returnsIn (h : s.Steady) {t : Tid} {c : Call T} {own : Ticket}
    (ht : (s.pc t).ticket = some (c, own)) :
    ∃ u s', (s.pc u).ticket ≠ none ∧ ReturnsIn 4 s u s' := by
  obtain ⟨u, d, own', hu, hready⟩ := h.exists_ready ht
  have hsome : (s.pc u).ticket ≠ none := by
    rw [hu]
    exact Option.some_ne_none _
  cases hp : s.pc u with
  | idle => rw [hp] at hu; cases hu
  | test e k => rw [hp] at hu; cases hu
  | increase e k => rw [hp] at hu; cases hu
  | claim e k =>
    rw [hp] at hu hready
    obtain ⟨rfl, rfl⟩ := Prod.mk.inj (Option.some.inj hu)
    rcases hready with hw | hx
    · cases hw
    · obtain ⟨s', hs'⟩ := returnsIn_claim hp hx
      exact ⟨u, s', hsome, hs'.mono (by decide)⟩
  | spin e k =>
    rw [hp] at hu hready
    obtain ⟨rfl, rfl⟩ := Prod.mk.inj (Option.some.inj hu)
    rcases hready with hw | hx
    · cases hw
    · obtain ⟨s', hs'⟩ := returnsIn_spin hp hx
      exact ⟨u, s', hsome, hs'⟩
  | move e k =>
    obtain ⟨s', hs'⟩ := returnsIn_move hp
    exact ⟨u, s', hsome, hs'.mono (by decide)⟩
  | finish e k element =>
    obtain ⟨s', hs'⟩ := returnsIn_finish hp
    exact ⟨u, s', hsome, hs'.mono (by decide)⟩

theorem Steady.of_run {ls : List (Tid × Action T)} (h : s.Steady)
    (hp : Runs.Before RingBuffer.step UpToDate s ls)
    (hr : Runs.run RingBuffer.step s ls = some s') :
    s'.Steady := by
  induction ls generalizing s with
  | nil => exact Option.some.inj hr ▸ h
  | cons l ls ih =>
    obtain ⟨u, hu, hrest⟩ := Runs.run_cons hr
    exact ih (h.step hp.1 hu) (hp.2 u hu) hrest

theorem before_of_returning {ls : List (Tid × Action T)}
    (h : ∀ l ∈ ls, l.2.returning = true) : Runs.Before RingBuffer.step UpToDate s ls := by
  induction ls generalizing s with
  | nil => trivial
  | cons l ls ih =>
    obtain ⟨hl, hls⟩ := List.forall_mem_cons.mp h
    exact ⟨upToDate_of_returning hl, fun u _ => ih hls⟩

-- by induction on how many calls hold a ticket: one of them can always return
theorem Steady.all_return [Fintype Tid] (h : s.Steady) :
    ∃ ls s', (∀ l ∈ ls, l.2.returning = true) ∧ Runs.run RingBuffer.step s ls = some s' ∧
      ∀ t, (s'.pc t).ticket = none := by
  induction hn : s.holders.card using Nat.strong_induction_on generalizing s with
  | _ n ih =>
    by_cases hall : ∀ t, (s.pc t).ticket = none
    · exact ⟨[], s, by simp, rfl, hall⟩
    · obtain ⟨t, ht⟩ := not_forall.mp hall
      obtain ⟨⟨c, own⟩, hown⟩ := Option.ne_none_iff_exists'.mp ht
      obtain ⟨u, r, hu, ⟨as, -, hret, hrun⟩, hidle, hothers⟩ := h.exists_returnsIn hown
      have hret' : ∀ l ∈ as.map fun a => (u, a), l.2.returning = true := by
        intro l hl
        obtain ⟨a, ha, rfl⟩ := List.mem_map.mp hl
        exact hret a ha
      have hless : r.holders.card < s.holders.card := by
        refine Finset.card_lt_card ⟨fun v hv => ?_, fun hsub => ?_⟩
        · rw [mem_holders] at hv ⊢
          have hvu : v ≠ u := by
            rintro rfl
            rw [hidle] at hv
            cases hv
          rwa [hothers v hvu] at hv
        · have hmem := mem_holders.mp (hsub (mem_holders.mpr (Option.isSome_iff_ne_none.mpr hu)))
          rw [hidle] at hmem
          cases hmem
      obtain ⟨ls, s', hls, hrest, hnone⟩ :=
        ih _ (hn ▸ hless) (h.of_run (before_of_returning hret') hrun) rfl
      refine ⟨(as.map fun a => (u, a)) ++ ls, s', fun l hl => ?_, Runs.run_append hrun hrest, hnone⟩
      rcases List.mem_append.mp hl with hl | hl
      · exact hret' l hl
      · exact hls l hl

theorem calls_return [Fintype Tid] {ls : List (Tid × Action T)}
    (hp : Runs.Before RingBuffer.step UpToDate ({} : RingBuffer L T Tid) ls)
    (hr : Runs.run RingBuffer.step ({} : RingBuffer L T Tid) ls = some s) :
    ((∃ t, (s.pc t).ticket ≠ none) → ∃ t s', (s.pc t).ticket ≠ none ∧ ReturnsIn 4 s t s') ∧
    ∃ ls' s', (∀ l ∈ ls', l.2.returning = true) ∧ Runs.run RingBuffer.step s ls' = some s' ∧
      ∀ t, (s'.pc t).ticket = none := by
  have h := steady_start.of_run hp hr
  refine ⟨fun ⟨t, ht⟩ => ?_, h.all_return⟩
  obtain ⟨⟨c, own⟩, hown⟩ := Option.ne_none_iff_exists'.mp ht
  exact h.exists_returnsIn hown

-- the first of the two pushes stands still with its ticket
theorem calls_return_twoPushes :
    ∃ s, Runs.run RingBuffer.step ({} : RingBuffer deployed Nat Bool) (twoPushes.take 7) = some s ∧
      ((∃ t, (s.pc t).ticket ≠ none) → ∃ t s', (s.pc t).ticket ≠ none ∧ ReturnsIn 4 s t s') ∧
      ∃ ls' s', (∀ l ∈ ls', l.2.returning = true) ∧ Runs.run RingBuffer.step s ls' = some s' ∧
        ∀ t, (s'.pc t).ticket = none := by
  have hbefore : Runs.Before RingBuffer.step UpToDate ({} : RingBuffer deployed Nat Bool)
      (twoPushes.take 7) := by
    have hlag : ∀ n : Nat, n < n + 2 ^ 30 := fun n => Nat.lt_add_of_pos_right (by decide)
    refine .of_step rfl rfl ?_
    refine .of_step rfl ⟨rfl, hlag 0⟩ ?_
    refine .of_step rfl (hlag 0) ?_
    refine .of_step rfl rfl ?_
    refine .of_step rfl ⟨rfl, hlag 1⟩ ?_
    refine .of_step rfl (hlag 1) ?_
    exact .of_step rfl trivial trivial
  exact ⟨_, rfl, calls_return hbefore rfl⟩

end Progress

end RingBuffer

end AtomicQueue

end ChatApp
