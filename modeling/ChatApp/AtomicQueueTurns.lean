import ChatApp.AtomicQueueTickets

namespace ChatApp

namespace AtomicQueue

variable {L : Layout} {T Tid : Type}

def SlotState.full : SlotState → Bool
  | .stored | .loading => true
  | _ => false

namespace Layout

-- the slot of the n-th ticket, and how many tickets of that slot came before it
def place (L : Layout) (n : Nat) : Nat := L.slot (BitVec.ofNat 32 n)

def lap (L : Layout) (n : Nat) : Nat := n / L.size.toNat

theorem slot_value (own : Ticket) : L.slot own.value = L.place own.count := by
  rw [own.value_eq, place]

theorem ticket_unique {m n : Nat} (hp : L.place m = L.place n) (hl : L.lap m = L.lap n) :
    m = n := by
  have hmod := (L.slot_eq_iff m n).mp hp
  rw [← Nat.div_add_mod m L.size.toNat, ← Nat.div_add_mod n L.size.toNat, hmod]
  exact congrArg (fun k => L.size.toNat * k + n % L.size.toNat) hl

-- an earlier ticket of the same slot, for every lap before
theorem exists_earlier {n k : Nat} (h : k < L.lap n) :
    ∃ m < n, L.place m = L.place n ∧ L.lap m = k := by
  have hpos := L.size_pos
  have hdiv := Nat.div_add_mod n L.size.toNat
  have hmod := Nat.mod_lt n hpos
  refine ⟨L.size.toNat * k + n % L.size.toNat, ?_, ?_, ?_⟩
  · have hmul := Nat.mul_lt_mul_of_pos_left h hpos
    rw [lap] at hmul
    omega
  · apply (L.slot_eq_iff _ _).mpr
    rw [Nat.mul_add_mod, Nat.mod_mod]
  · rw [lap, Nat.mul_add_div hpos, Nat.div_eq_of_lt hmod, Nat.add_zero]

end Layout

namespace RingBuffer

-- how many transfers of a kind have been finished at a slot
def done (s : RingBuffer L T Tid) : Call T → Nat → Nat
  | .push _ => s.puts
  | .pop => s.takes

structure Turns (s : RingBuffer L T Tid) : Prop where
  balance : ∀ i, s.puts i = s.takes i + if (s.states i).full then 1 else 0
  ahead : ∀ t c own, (s.pc t).ticket = some (c, own) →
    s.done c (L.place own.count) ≤ L.lap own.count
  turn : ∀ t c own, (s.pc t).working = some (c, own) →
    s.done c (L.place own.count) = L.lap own.count
  pending : ∀ c n, n < (s.counter c).count → s.done c (L.place n) ≤ L.lap n →
    ∃ t d own, (s.pc t).ticket = some (d, own) ∧ d.isPush = c.isPush ∧ own.count = n
  finished : ∀ c n, L.lap n < s.done c (L.place n) → n < (s.counter c).count
  content : ∀ n, s.states (L.place n) = .stored → L.lap n = s.takes (L.place n) →
    s.elements (L.place n) = s.entered[n]?
  moving : ∀ t own, s.pc t = .move .pop own →
    s.elements (L.place own.count) = s.entered[own.count]?
  moved : ∀ t own element, s.pc t = .finish .pop own element → element = s.entered[own.count]?

-- no call claims its slot while one of the same kind has an earlier ticket of that slot
def InTurn (s : RingBuffer L T Tid) (l : Tid × Action T) : Prop :=
  match s.pc l.1, l.2 with
  | .claim c own, .claim true => ∀ u d own', (s.pc u).ticket = some (d, own') →
      d.isPush = c.isPush → L.slot own'.value = L.slot own.value → own.count ≤ own'.count
  | _, _ => True

variable {s : RingBuffer L T Tid}

theorem done_congr {c d : Call T} (h : c.isPush = d.isPush) : s.done c = s.done d := by
  cases c <;> cases d <;> first | rfl | cases h

theorem turns_start : ({} : RingBuffer L T Tid).Turns := by
  constructor
  · intro i
    rfl
  · intro t c own h
    cases h
  · intro t c own h
    cases h
  · intro c n h
    cases c <;> cases h
  · intro c n h
    cases c <;> cases h
  · intro n h
    cases h
  · intro t own h
    cases h
  · intro t own element h
    cases h

-- a ticket below the counter whose slot is not ready for it has an unfinished one before it
theorem Turns.own_turn (h : s.Turns) {c : Call T} {own : Ticket} {t : Tid}
    (hp : (s.pc t).ticket = some (c, own)) (hlt : own.count < (s.counter c).count)
    (hfirst : ∀ u d own', (s.pc u).ticket = some (d, own') → d.isPush = c.isPush →
      L.place own'.count = L.place own.count → own.count ≤ own'.count) :
    s.done c (L.place own.count) = L.lap own.count := by
  apply le_antisymm (h.ahead t c own hp)
  by_contra hnot
  obtain ⟨m, hm, hplace, hlap⟩ := L.exists_earlier (not_le.mp hnot)
  obtain ⟨u, d, own', hu, hkind, hcount⟩ :=
    h.pending c m (hm.trans hlt) (by rw [hplace, hlap])
  have := hfirst u d own' hu hkind (by rw [hcount, hplace])
  omega

theorem done_tally (c d : Call T) (i j : Nat) :
    (s.tally i c).done d j = s.done d j + if d.isPush = c.isPush ∧ j = i then 1 else 0 := by
  by_cases hj : j = i
  · subst hj
    cases c <;> cases d <;> simp [tally, done, Call.isPush]
  · cases c <;> cases d <;> simp [tally, done, hj]

section Preservation

variable [DecidableEq Tid] {t : Tid}

-- a step that leaves the counters and the slots as they are
theorem Turns.goesOn {p : Pc T} (h : s.Turns) (hw : p.working = none)
    (ht : p.ticket = (s.pc t).ticket) : (s.goto t p).Turns := by
  have hticket : ∀ u, ((s.goto t p).pc u).ticket = (s.pc u).ticket := by
    intro u
    by_cases hut : u = t
    · rw [hut, goto_self, ht]
    · rw [goto_of_ne s hut]
  have hother : ∀ u q, (s.goto t p).pc u = q → q.working ≠ none → s.pc u = q := by
    intro u q hu hq
    by_cases hut : u = t
    · rw [hut, goto_self] at hu
      exact absurd (hu ▸ hw) hq
    · rwa [goto_of_ne s hut] at hu
  constructor
  · exact h.balance
  · intro u c own hu
    exact h.ahead u c own (hticket u ▸ hu)
  · intro u c own hu
    refine h.turn u c own ?_
    rw [hother u _ rfl (by rw [hu]; exact Option.some_ne_none _)]
    exact hu
  · intro c n hn hd
    obtain ⟨u, d, own, hu, hrest⟩ := h.pending c n hn hd
    exact ⟨u, d, own, (hticket u).trans hu, hrest⟩
  · exact h.finished
  · exact h.content
  · intro u own hu
    exact h.moving u own (hother u _ hu (Option.some_ne_none _))
  · intro u own element hu
    exact h.moved u own element (hother u _ hu (Option.some_ne_none _))

theorem Turns.take {c : Call T} (h : s.Turns) (hk : s.Ticketed) (hx : s.Exclusive)
    (hold : (s.pc t).ticket = none) :
    ((s.increment c).goto t (.claim c (s.counter c))).Turns := by
  have hdone : ∀ d, (s.increment c).done d = s.done d := by
    intro d
    cases d
    · exact increment_puts s c
    · exact increment_takes s c
  have hother : ∀ u q, ((s.increment c).goto t (.claim c (s.counter c))).pc u = q →
      u ≠ t → s.pc u = q := by
    intro u q hu hut
    rwa [goto_of_ne _ hut, increment_pc] at hu
  have hin : ∀ n < s.head.count, (s.increment c).entered[n]? = s.entered[n]? := by
    intro n hn
    obtain ⟨l, hl⟩ := increment_entered (s := s) c
    rw [hl, List.getElem?_append_left (by rw [hk.entered]; exact hn)]
  have hpop : ∀ u d own, (s.pc u).ticket = some (d, own) → own.count < s.head.count := by
    intro u d own hu
    have hlt := hk.taken u d own hu
    have htail := hk.tail_le
    cases d with
    | push x => exact hlt
    | pop => exact hlt.trans_le htail
  constructor
  · intro i
    rw [goto_puts, goto_takes, goto_states, increment_puts, increment_takes, increment_states]
    exact h.balance i
  · intro u d own hu
    change (s.increment c).done d _ ≤ _
    rw [hdone]
    by_cases hut : u = t
    · rw [hut, goto_self] at hu
      obtain ⟨rfl, rfl⟩ := Prod.mk.inj (Option.some.inj hu)
      by_contra hnot
      exact absurd (h.finished c _ (not_le.mp hnot)) (Nat.lt_irrefl _)
    · exact h.ahead u d own (hother u _ rfl hut ▸ hu)
  · intro u d own hu
    change (s.increment c).done d _ = _
    rw [hdone]
    by_cases hut : u = t
    · rw [hut, goto_self] at hu
      cases hu
    · exact h.turn u d own (hother u _ rfl hut ▸ hu)
  · intro d n hn hd
    change n < ((s.increment c).counter d).count at hn
    change (s.increment c).done d _ ≤ _ at hd
    rw [hdone] at hd
    rw [counter_increment] at hn
    by_cases hlt : n < (s.counter d).count
    · obtain ⟨u, e, own, hu, hrest⟩ := h.pending d n hlt hd
      have hut : u ≠ t := by
        rintro rfl
        rw [hold] at hu
        cases hu
      refine ⟨u, e, own, ?_, hrest⟩
      rw [goto_of_ne _ hut, increment_pc]
      exact hu
    · split_ifs at hn with hkind
      · refine ⟨t, c, s.counter c, ?_, hkind, ?_⟩
        · rw [goto_self]
          rfl
        · rw [counter_congr hkind]
          omega
      · omega
  · intro d n hd
    change (s.increment c).done d _ > _ at hd
    rw [hdone] at hd
    have := h.finished d n hd
    change n < ((s.increment c).counter d).count
    rw [counter_increment]
    omega
  · intro n hs hn
    rw [goto_states, increment_states] at hs
    rw [goto_takes, increment_takes] at hn
    rw [goto_elements, increment_elements, goto_entered]
    have hcell := h.content n hs hn
    have hlt : n < s.head.count := by
      have hsome := hx.stored _ hs
      rw [hcell, ne_eq, List.getElem?_eq_none_iff, hk.entered] at hsome
      omega
    rw [hin n hlt]
    exact hcell
  · intro u own hu
    have hut : u ≠ t := by
      rintro rfl
      rw [goto_self] at hu
      cases hu
    have hu' := hother u _ hu hut
    rw [goto_elements, increment_elements, goto_entered,
      hin _ (hpop u .pop own (by rw [hu']; rfl))]
    exact h.moving u own hu'
  · intro u own element hu
    have hut : u ≠ t := by
      rintro rfl
      rw [goto_self] at hu
      cases hu
    have hu' := hother u _ hu hut
    rw [goto_entered, hin _ (hpop u .pop own (by rw [hu']; rfl))]
    exact h.moved u own element hu'

theorem Turns.claim {c : Call T} {own : Ticket} (h : s.Turns)
    (hp : s.pc t = .claim c own) (hs : s.states (L.slot own.value) = c.transfer.expected)
    (hturn : s.done c (L.place own.count) = L.lap own.count) :
    ((s.setState (L.slot own.value) c.transfer.claimed).goto t (.move c own)).Turns := by
  have hticket : ∀ u, (((s.setState (L.slot own.value) c.transfer.claimed).goto t
      (.move c own)).pc u).ticket = (s.pc u).ticket := by
    intro u
    by_cases hut : u = t
    · rw [hut, goto_self, hp]
      rfl
    · rw [goto_of_ne _ hut, setState_pc]
  have hother : ∀ u, u ≠ t →
      ((s.setState (L.slot own.value) c.transfer.claimed).goto t (.move c own)).pc u = s.pc u := by
    intro u hut
    rw [goto_of_ne _ hut, setState_pc]
  constructor
  · intro i
    rw [goto_puts, goto_takes, goto_states, setState_puts, setState_takes, h.balance i]
    by_cases hi : i = L.slot own.value
    · rw [hi, setState_self, hs]
      cases c <;> rfl
    · rw [setState_of_ne s hi]
  · intro u d own' hu
    exact h.ahead u d own' (hticket u ▸ hu)
  · intro u d own' hu
    by_cases hut : u = t
    · rw [hut, goto_self] at hu
      obtain ⟨rfl, rfl⟩ := Prod.mk.inj (Option.some.inj hu)
      exact hturn
    · rw [hother u hut] at hu
      exact h.turn u d own' hu
  · intro d n hn hd
    obtain ⟨u, e, own', hu, hrest⟩ := h.pending d n hn hd
    exact ⟨u, e, own', (hticket u).trans hu, hrest⟩
  · exact h.finished
  · intro n hst hn
    rw [goto_states] at hst
    by_cases hi : L.place n = L.slot own.value
    · rw [hi, setState_self] at hst
      cases c <;> cases hst
    · rw [setState_of_ne s hi] at hst
      exact h.content n hst hn
  · intro u own' hu
    by_cases hut : u = t
    · rw [hut, goto_self] at hu
      obtain ⟨rfl, rfl⟩ := Pc.move.inj hu
      rw [L.slot_value] at hs
      exact h.content own.count hs hturn.symm
    · rw [hother u hut] at hu
      exact h.moving u own' hu
  · intro u own' element hu
    by_cases hut : u = t
    · rw [hut, goto_self] at hu
      cases hu
    · rw [hother u hut] at hu
      exact h.moved u own' element hu

theorem Turns.move {c : Call T} {own : Ticket} (h : s.Turns) (hx : s.Exclusive)
    (hp : s.pc t = .move c own) :
    ((s.transfer (L.slot own.value) c).1.goto t
      (.finish c own (s.transfer (L.slot own.value) c).2)).Turns := by
  have hmine : (s.pc t).working = some (c, own) := by rw [hp]; rfl
  have hstate := hx.claimed t c own hmine
  have hsame : ∀ u, (((s.transfer (L.slot own.value) c).1.goto t
      (.finish c own (s.transfer (L.slot own.value) c).2)).pc u).ticket = (s.pc u).ticket ∧
      (((s.transfer (L.slot own.value) c).1.goto t
        (.finish c own (s.transfer (L.slot own.value) c).2)).pc u).working =
        (s.pc u).working := by
    intro u
    by_cases hut : u = t
    · rw [hut, goto_self, hp]
      exact ⟨rfl, rfl⟩
    · rw [goto_of_ne _ hut, transfer_pc]
      exact ⟨rfl, rfl⟩
  have hdone : ∀ d, (s.transfer (L.slot own.value) c).1.done d = s.done d := by
    intro d
    cases d
    · exact transfer_puts s _ c
    · exact transfer_takes s _ c
  constructor
  · intro i
    rw [goto_puts, goto_takes, goto_states, transfer_puts, transfer_takes, transfer_states]
    exact h.balance i
  · intro u d own' hu
    change (s.transfer (L.slot own.value) c).1.done d _ ≤ _
    rw [hdone]
    exact h.ahead u d own' ((hsame u).1 ▸ hu)
  · intro u d own' hu
    change (s.transfer (L.slot own.value) c).1.done d _ = _
    rw [hdone]
    exact h.turn u d own' ((hsame u).2 ▸ hu)
  · intro d n hn hd
    change (s.transfer (L.slot own.value) c).1.done d _ ≤ _ at hd
    rw [hdone] at hd
    have hn' : n < (s.counter d).count := by
      cases c <;> cases d <;> exact hn
    obtain ⟨u, e, own', hu, hrest⟩ := h.pending d n hn' hd
    exact ⟨u, e, own', (hsame u).1.trans hu, hrest⟩
  · intro d n hd
    change _ < (s.transfer (L.slot own.value) c).1.done d _ at hd
    rw [hdone] at hd
    have := h.finished d n hd
    cases c <;> cases d <;> exact this
  · intro n hst hn
    rw [goto_states, transfer_states] at hst
    rw [goto_takes, transfer_takes] at hn
    have hi : L.place n ≠ L.slot own.value := by
      intro hi
      rw [hi, hstate] at hst
      cases c <;> cases hst
    rw [goto_elements, transfer_of_ne s hi, goto_entered, transfer_entered]
    exact h.content n hst hn
  · intro u own' hu
    by_cases hut : u = t
    · rw [hut, goto_self] at hu
      cases hu
    · rw [goto_of_ne _ hut, transfer_pc] at hu
      have hi : L.place own'.count ≠ L.slot own.value := by
        intro hi
        rw [← L.slot_value] at hi
        exact hut (hx.alone u t .pop c own' own (by rw [hu]; rfl) hmine hi)
      rw [goto_elements, transfer_of_ne s hi, goto_entered, transfer_entered]
      exact h.moving u own' hu
  · intro u own' element hu
    rw [goto_entered, transfer_entered]
    by_cases hut : u = t
    · rw [hut, goto_self] at hu
      obtain ⟨rfl, rfl, rfl⟩ := Pc.finish.inj hu
      have hcell := h.moving t own hp
      rw [← L.slot_value] at hcell
      exact hcell
    · rw [goto_of_ne _ hut, transfer_pc] at hu
      exact h.moved u own' element hu

theorem balance_finish {c : Call T} {own : Ticket}
    (h : ∀ i, s.puts i = s.takes i + if (s.states i).full then 1 else 0)
    (hstate : s.states (L.slot own.value) = c.transfer.claimed) (i : Nat) :
    (((s.setState (L.slot own.value) c.transfer.left).tally (L.slot own.value) c).goto t
      .idle).puts i = (((s.setState (L.slot own.value) c.transfer.left).tally (L.slot own.value)
      c).goto t .idle).takes i + if ((((s.setState (L.slot own.value) c.transfer.left).tally
      (L.slot own.value) c).goto t .idle).states i).full then 1 else 0 := by
  rw [goto_puts, goto_takes, goto_states, tally_states]
  have hbal := h i
  by_cases hi : i = L.slot own.value
  · subst hi
    rw [setState_self]
    rw [hstate] at hbal
    cases c with
    | push x =>
      change Function.update s.puts _ _ _ = s.takes _ + 1
      rw [Function.update_self, setState_puts, hbal]
      rfl
    | pop =>
      change s.puts _ = Function.update s.takes _ _ _ + 0
      rw [Function.update_self, setState_takes, hbal]
      rfl
  · rw [setState_of_ne s hi]
    cases c with
    | push x =>
      change Function.update s.puts _ _ _ = _
      rw [Function.update_of_ne hi]
      exact hbal
    | pop =>
      change s.puts _ = Function.update s.takes _ _ _ + _
      rw [Function.update_of_ne hi]
      exact hbal

-- the finished ticket was the first of its slot that was not: the next one may go
theorem Turns.finish {c : Call T} {own : Ticket} {element : Option T} (h : s.Turns)
    (hk : s.Ticketed) (hx : s.Exclusive) (hp : s.pc t = .finish c own element) :
    (((s.setState (L.slot own.value) c.transfer.left).tally (L.slot own.value) c).goto t
      .idle).Turns := by
  have hmine : (s.pc t).working = some (c, own) := by rw [hp]; rfl
  have hmine' : (s.pc t).ticket = some (c, own) := Pc.ticket_of_working hmine
  have hstate := hx.claimed t c own hmine
  have hturn := h.turn t c own hmine
  have hpc : ∀ u, u ≠ t → (((s.setState (L.slot own.value) c.transfer.left).tally
      (L.slot own.value) c).goto t .idle).pc u = s.pc u := by
    intro u hut
    rw [goto_of_ne _ hut, tally_pc, setState_pc]
  have hne : ∀ u k, (((s.setState (L.slot own.value) c.transfer.left).tally
      (L.slot own.value) c).goto t .idle).pc u = k → k ≠ .idle → u ≠ t := by
    rintro u k hu hk rfl
    exact hk (hu ▸ goto_self ..)
  have hdone : ∀ d n, (((s.setState (L.slot own.value) c.transfer.left).tally
      (L.slot own.value) c).goto t .idle).done d (L.place n) = s.done d (L.place n) +
        if d.isPush = c.isPush ∧ L.place n = L.place own.count then 1 else 0 := by
    intro d n
    rw [← L.slot_value own]
    exact done_tally c d _ _
  have hcount : ∀ d, (((s.setState (L.slot own.value) c.transfer.left).tally
      (L.slot own.value) c).goto t .idle).counter d = s.counter d := by
    intro d
    cases c <;> cases d <;> rfl
  constructor
  · exact balance_finish h.balance hstate
  · intro u d own' hu
    have hut := hne u _ rfl (by rintro hidle; rw [hidle] at hu; cases hu)
    rw [hpc u hut] at hu
    rw [hdone]
    have hle := h.ahead u d own' hu
    split_ifs with hsame
    · -- two tickets of one slot are not in one lap
      refine Nat.lt_of_le_of_ne hle fun heq => ?_
      rw [hsame.2, done_congr hsame.1, hturn] at heq
      have hcounts := L.ticket_unique hsame.2 heq.symm
      exact hut (hk.distinct u t d c own' own hu hmine' hsame.1 hcounts)
    · exact hle
  · intro u d own' hu
    have hut := hne u _ rfl (by rintro hidle; rw [hidle] at hu; cases hu)
    rw [hpc u hut] at hu
    have hplace : L.place own'.count ≠ L.place own.count := by
      intro heq
      rw [← L.slot_value, ← L.slot_value] at heq
      exact hut (hx.alone u t d c own' own hu hmine heq)
    rw [hdone, if_neg (fun hsame => hplace hsame.2), Nat.add_zero]
    exact h.turn u d own' hu
  · intro d n hn hd
    rw [hcount] at hn
    rw [hdone] at hd
    obtain ⟨u, e, own', hu, hkind, hcount'⟩ := h.pending d n hn (by omega)
    refine ⟨u, e, own', ?_, hkind, hcount'⟩
    have hut : u ≠ t := by
      rintro rfl
      rw [hmine'] at hu
      obtain ⟨rfl, rfl⟩ := Prod.mk.inj (Option.some.inj hu)
      rw [if_pos ⟨hkind.symm, by rw [hcount']⟩, done_congr hkind.symm, ← hcount', hturn] at hd
      omega
    rw [hpc u hut]
    exact hu
  · intro d n hd
    rw [hdone] at hd
    rw [hcount]
    split_ifs at hd with hsame
    · rcases Nat.lt_succ_iff_lt_or_eq.mp hd with hlt | heq
      · exact h.finished d n hlt
      · rw [hsame.2, done_congr hsame.1, hturn] at heq
        rw [L.ticket_unique hsame.2 heq, counter_congr hsame.1]
        exact hk.taken t c own hmine'
    · exact h.finished d n hd
  · intro n hst hn
    rw [goto_states, tally_states] at hst
    rw [goto_elements, tally_elements, setState_elements, goto_entered, tally_entered,
      setState_entered]
    by_cases hi : L.place n = L.slot own.value
    · rw [hi, setState_self] at hst
      cases c with
      | pop => cases hst
      | push x =>
        -- the element just stored is that of the ticket whose turn it is to be popped
        have hcell : s.elements (L.slot own.value) = some x := by
          have hhold := hx.holds t
          rwa [hp] at hhold
        have hbal := h.balance (L.slot own.value)
        rw [hstate] at hbal
        have hlap : L.lap n = L.lap own.count := by
          rw [← hturn, ← L.slot_value]
          change L.lap n = s.puts (L.slot own.value)
          rw [hbal, hn, hi]
          rfl
        have hcounts := L.ticket_unique (by rw [hi, L.slot_value]) hlap
        rw [hi, hcell, hcounts]
        exact (hk.element t x own hmine').symm
    · rw [setState_of_ne s hi] at hst
      refine h.content n hst ?_
      rw [hn]
      have := hdone .pop n
      rw [if_neg (fun hsame => hi (hsame.2.trans (L.slot_value own).symm))] at this
      exact this
  · intro u own' hu
    have hut := hne u _ hu (by simp)
    rw [hpc u hut] at hu
    rw [goto_elements, tally_elements, setState_elements, goto_entered, tally_entered,
      setState_entered]
    exact h.moving u own' hu
  · intro u own' element' hu
    have hut := hne u _ hu (by simp)
    rw [hpc u hut] at hu
    rw [goto_entered, tally_entered, setState_entered]
    exact h.moved u own' element' hu

end Preservation

end RingBuffer

end AtomicQueue

end ChatApp
