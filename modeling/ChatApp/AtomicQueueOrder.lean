import ChatApp.AtomicQueueTurns

namespace ChatApp

namespace AtomicQueue

variable {L : Layout} {T Tid : Type}

namespace RingBuffer

variable {s : RingBuffer L T Tid}

structure Orderly (s : RingBuffer L T Tid) : Prop where
  exclusive : s.Exclusive
  ticketed : s.Ticketed
  turns : s.Turns

theorem orderly_start : ({} : RingBuffer L T Tid).Orderly :=
  ⟨exclusive_start, ticketed_start, turns_start⟩

section Run

variable [DecidableEq Tid] {l : Tid × Action T} {s' : RingBuffer L T Tid}

theorem Orderly.step_turns (h : s.Orderly) (hl : s.InTurn l) (hs : s.step l = some s') :
    s'.Turns := by
  obtain ⟨t, a⟩ := l
  cases step_moves hs with
  | call c loaded hp => exact h.turns.goesOn rfl (by rw [hp]; rfl)
  | refuse c own loaded hp hr => exact h.turns.goesOn rfl (by rw [hp]; rfl)
  | pass c own loaded hp hr => exact h.turns.goesOn rfl (by rw [hp]; rfl)
  | take c own hp hv => exact h.turns.take h.ticketed h.exclusive (by rw [hp]; rfl)
  | retry c own loaded hp => exact h.turns.goesOn rfl (by rw [hp]; rfl)
  | claim c own hp hx =>
    simp only [InTurn, hp] at hl
    have hmine : (s.pc t).ticket = some (c, own) := by rw [hp]; rfl
    refine h.turns.claim hp hx (h.turns.own_turn hmine (h.ticketed.taken t c own hmine) ?_)
    intro u d own' hu hkind hplace
    exact hl u d own' hu hkind (by rw [L.slot_value, L.slot_value, hplace])
  | miss c own hp => exact h.turns.goesOn rfl (by rw [hp]; rfl)
  | wake c own hp => exact h.turns.goesOn rfl (by rw [hp]; rfl)
  | wait c own loaded hp => exact h.turns
  | move c own hp => exact h.turns.move h.exclusive hp
  | finish c own element hp => exact h.turns.finish h.ticketed h.exclusive hp

theorem Orderly.step (h : s.Orderly) (hp : s.UpToDate l) (hi : s.InTurn l)
    (hs : s.step l = some s') : s'.Orderly :=
  ⟨h.exclusive.step hs, h.ticketed.step hp hs, h.step_turns hi hs⟩

end Run

end RingBuffer

-- the queue that the calls are meant to work on
def fifo (T : Type) (capacity : Nat) : SharedObject.Object (List T) (Call T) (Result T) where
  start := []
  apply q
    | .push x => if q.length < capacity then (.pushed, q ++ [x]) else (.refused, q)
    | .pop =>
      match q with
      | [] => (.refused, [])
      | x :: rest => (.popped (some x), rest)

namespace RingBuffer

-- a call that has taken its ticket has had its effect, whatever remains for it to do
def effect (s : RingBuffer L T Tid) : Pc T → SharedObject.Pending (Call T) (Result T)
  | .idle => .none
  | .test c _ | .increase c _ => .called c
  | .claim c own | .spin c own | .move c own | .finish c own _ =>
    .applied (Result.of c s.entered[own.count]?)

def view (s : RingBuffer L T Tid) :
    SharedObject.Config (List T) (Call T) (Result T) Tid where
  value := s.entered.drop s.tail.count
  pending t := s.effect (s.pc t)

section Simulation

open SharedObject

variable {s : RingBuffer L T Tid} {t : Tid}

theorem length_view (h : s.Ticketed) : s.view.value.length = s.head.count - s.tail.count := by
  rw [view, List.length_drop, h.entered]

theorem apply_refused (h : s.Ticketed) {c : Call T}
    (hr : match c with
      | .push _ => s.head.count = s.tail.count + L.size.toNat
      | .pop => s.head.count = s.tail.count) :
    (fifo T L.size.toNat).apply s.view.value c = (.refused, s.view.value) := by
  have hlength := length_view h
  cases c with
  | push x =>
    have hfull : ¬ s.view.value.length < L.size.toNat := by
      have hr' : s.head.count = s.tail.count + L.size.toNat := hr
      omega
    exact if_neg hfull
  | pop =>
    have hempty : s.view.value = [] := by
      have hr' : s.head.count = s.tail.count := hr
      exact List.eq_nil_of_length_eq_zero (by omega)
    rw [hempty]
    rfl

-- the increment of its counter is the moment at which a call takes effect
theorem apply_taken (h : s.Ticketed) {c : Call T} (hp : s.Passed (s.counter c) c) :
    (fifo T L.size.toNat).apply s.view.value c =
      (Result.of c ((s.increment c).entered[(s.counter c).count]?),
        ((s.increment c).entered).drop (s.increment c).tail.count) := by
  have hlength := length_view h
  have htail := h.tail_le
  cases c with
  | push x =>
    have hroom : s.view.value.length < L.size.toNat := by
      have hp' : s.head.count < s.tail.count + L.size.toNat := hp
      omega
    have hdrop : (s.entered ++ [x]).drop s.tail.count = s.view.value ++ [x] :=
      List.drop_append_of_le_length (by rw [h.entered]; exact htail)
    change (if s.view.value.length < L.size.toNat then _ else _) =
      (Result.pushed, (s.entered ++ [x]).drop s.tail.count)
    rw [if_pos hroom, hdrop]
  | pop =>
    have hlt : s.tail.count < s.entered.length := by
      rw [h.entered]
      exact hp
    have hcons : s.view.value = s.entered[s.tail.count] :: s.entered.drop (s.tail.count + 1) :=
      List.drop_eq_getElem_cons hlt
    change _ = (Result.popped s.entered[s.tail.count]?, s.entered.drop (s.tail.count + 1))
    rw [hcons, List.getElem?_eq_getElem hlt]
    rfl

theorem effect_increment (h : s.Ticketed) (c : Call T) (u : Tid) :
    (s.increment c).effect (s.pc u) = s.effect (s.pc u) := by
  obtain ⟨l, hl⟩ := increment_entered (s := s) c
  have hin : ∀ d own, (s.pc u).ticket = some (d, own) →
      (s.increment c).entered[own.count]? = s.entered[own.count]? := by
    intro d own hu
    have hlt := h.taken u d own hu
    have htail := h.tail_le
    rw [hl, List.getElem?_append_left]
    rw [h.entered]
    cases d with
    | push x => exact hlt
    | pop => exact hlt.trans_le htail
  cases hp : s.pc u with
  | idle => rfl
  | test d own => rfl
  | increase d own => rfl
  | claim d own => exact congrArg _ (congrArg _ (hin d own (by rw [hp]; rfl)))
  | spin d own => exact congrArg _ (congrArg _ (hin d own (by rw [hp]; rfl)))
  | move d own => exact congrArg _ (congrArg _ (hin d own (by rw [hp]; rfl)))
  | finish d own element => exact congrArg _ (congrArg _ (hin d own (by rw [hp]; rfl)))

theorem view_increment (h : s.Ticketed) (c : Call T) :
    (s.increment c).view = { s.view with
      value := ((s.increment c).entered).drop (s.increment c).tail.count } := by
  simp only [view, Config.mk.injEq, true_and]
  funext u
  rw [increment_pc, effect_increment h c u]

variable [DecidableEq Tid]

theorem view_goto {r : RingBuffer L T Tid} (p : Pc T) (hin : r.entered = s.entered)
    (htail : r.tail = s.tail) (hpc : r.pc = s.pc) :
    (r.goto t p).view = s.view.set t (s.effect p) := by
  have heffect : (r.goto t p).effect = s.effect := by
    funext q
    cases q <;> simp only [effect, goto_entered, hin]
  simp only [view, Config.set, goto_entered, goto_tail, hin, htail, Config.mk.injEq, true_and]
  funext u
  by_cases hut : u = t
  · rw [hut, goto_self, Function.update_self, heffect]
  · rw [goto_of_ne r hut, Function.update_of_ne hut, heffect, hpc]

theorem set_self {c : Config (List T) (Call T) (Result T) Tid} {p : Pending (Call T) (Result T)}
    (h : c.pending t = p) : c.set t p = c := by
  rw [Config.set, ← h, Function.update_eq_self]

-- a step between the effects and the events
theorem view_same {r : RingBuffer L T Tid} {p : Pc T} (hin : r.entered = s.entered)
    (htail : r.tail = s.tail) (hpc : r.pc = s.pc) (hp : s.effect (s.pc t) = s.effect p) :
    (r.goto t p).view = s.view := by
  rw [view_goto p hin htail hpc, ← hp]
  exact set_self rfl

theorem set_set (c : Config (List T) (Call T) (Result T) Tid)
    (p q : Pending (Call T) (Result T)) : (c.set t p).set t q = c.set t q := by
  simp only [Config.set, Function.update_idem]

theorem trace_silent {r : RingBuffer L T Tid} (h : r.view = s.view) :
    Trace (fifo T L.size.toNat) s.view [] r.view := by
  rw [h]
  exact .nil _

theorem step_trace {l : Tid × Action T} {s' : RingBuffer L T Tid} (h : s.Orderly)
    (hl : s.UpToDate l) (hs : s.step l = some s') :
    Trace (fifo T L.size.toNat) s.view (s.event l).toList s'.view := by
  obtain ⟨t, a⟩ := l
  cases step_moves hs with
  | call c loaded hp =>
    rw [view_goto _ rfl rfl rfl]
    exact .call t c (congrArg s.effect hp) (.nil _)
  | refuse c own loaded hp hr =>
    simp only [UpToDate, hp] at hl
    obtain ⟨rfl, hlag⟩ := hl
    have hle := h.ticketed.loaded t c own (by rw [hp]; rfl)
    have happly := apply_refused h.ticketed (h.ticketed.refused hle hlag hr)
    have hevent : s.event (t, .test (s.other c)) = some (.ret t .refused) := by
      simp only [event, hp, hr, if_true]
    rw [hevent, view_goto _ rfl rfl rfl]
    refine .apply t c (congrArg s.effect hp) ?_
    rw [happly]
    refine .ret t _ (Function.update_self ..) ?_
    rw [set_set]
    exact .nil _
  | pass c own loaded hp hr =>
    have hevent : s.event (t, .test loaded) = none := by
      simp only [event, hp, hr, Bool.false_eq_true, if_false]
    rw [hevent]
    exact trace_silent (view_same rfl rfl rfl (by rw [hp]; rfl))
  | take c own hp hv =>
    simp only [UpToDate, hp] at hl
    have hown := h.ticketed.current hp hv hl
    have happly := apply_taken h.ticketed (hown ▸ h.ticketed.passed t c own hp)
    refine .apply t c (congrArg s.effect hp) ?_
    rw [happly]
    rw [view_goto (s := s.increment c) _ rfl rfl rfl, view_increment h.ticketed c]
    exact .nil _
  | retry c own loaded hp => exact trace_silent (view_same rfl rfl rfl (by rw [hp]; rfl))
  | claim c own hp hx => exact trace_silent (view_same rfl rfl rfl (by rw [hp]; rfl))
  | miss c own hp => exact trace_silent (view_same rfl rfl rfl (by rw [hp]; rfl))
  | wake c own hp => exact trace_silent (view_same rfl rfl rfl (by rw [hp]; rfl))
  | wait c own loaded hp => exact .nil _
  | move c own hp =>
    exact trace_silent (view_same (transfer_entered s _ c) (transfer_tail s _ c)
      (transfer_pc s _ c) (by rw [hp]; rfl))
  | finish c own element hp =>
    have hevent : s.event (t, .finish) = some (.ret t (Result.of c element)) := by
      simp only [event, hp]
    have heffect : s.view.pending t = .applied (Result.of c element) := by
      have hpending : s.view.pending t = .applied (Result.of c s.entered[own.count]?) :=
        congrArg s.effect hp
      rw [hpending]
      cases c with
      | push x => rfl
      | pop => rw [h.turns.moved t own element hp]
    rw [hevent, view_goto (s := s) .idle (by rw [tally_entered, setState_entered])
      (by rw [tally_tail, setState_tail]) (by rw [tally_pc, setState_pc])]
    exact .ret t _ heffect (.nil _)

end Simulation

-- any number of threads, as long as no call overtakes another one at a slot
theorem linearizable_of_inTurn [DecidableEq Tid] {ls : List (Tid × Action T)}
    (h : Runs.Before step (fun s l => s.UpToDate l ∧ s.InTurn l) ({} : RingBuffer L T Tid) ls) :
    SharedObject.Linearizable (fifo T L.size.toNat)
      (Runs.observed step event ({} : RingBuffer L T Tid) ls) := by
  have hstep : ∀ (s : RingBuffer L T Tid) l s', s.Orderly → s.UpToDate l ∧ s.InTurn l →
      s.step l = some s' → s'.Orderly ∧
        SharedObject.Trace (fifo T L.size.toNat) s.view (s.event l).toList s'.view :=
    fun s l s' hs hl hst => ⟨hs.step hl.1 hl.2 hst, step_trace hs hl.1 hst⟩
  exact SharedObject.linearizable_of_simulation rfl orderly_start hstep h

-- the second of two pushes is the first to claim a slot, one of its own
def twoPushes : List (Bool × Action Nat) :=
  [(false, .call (.push 1) .zero), (false, .test .zero), (false, .increase none),
    (true, .call (.push 2) Ticket.zero.next), (true, .test .zero), (true, .increase none),
    (true, .claim true), (true, .move), (true, .finish),
    (false, .claim true), (false, .move), (false, .finish)]

theorem before_twoPushes :
    Runs.Before step (fun s l => s.UpToDate l ∧ s.InTurn l) ({} : RingBuffer deployed Nat Bool)
      twoPushes := by
  have hlag : ∀ n : Nat, n < n + 2 ^ 30 := fun n => Nat.lt_add_of_pos_right (by decide)
  refine .of_step rfl ⟨rfl, trivial⟩ ?_
  refine .of_step rfl ⟨⟨rfl, hlag 0⟩, trivial⟩ ?_
  refine .of_step rfl ⟨hlag 0, trivial⟩ ?_
  refine .of_step rfl ⟨rfl, trivial⟩ ?_
  refine .of_step rfl ⟨⟨rfl, hlag 1⟩, trivial⟩ ?_
  refine .of_step rfl ⟨hlag 1, trivial⟩ ?_
  refine .of_step rfl ⟨trivial, fun u d own hu _ hslot => ?_⟩ ?_
  · cases u
    · obtain ⟨rfl, rfl⟩ := Prod.mk.inj (Option.some.inj hu)
      exact absurd hslot (by decide)
    · obtain ⟨rfl, rfl⟩ := Prod.mk.inj (Option.some.inj hu)
      exact le_rfl
  refine .of_step rfl ⟨trivial, trivial⟩ ?_
  refine .of_step rfl ⟨trivial, trivial⟩ ?_
  refine .of_step rfl ⟨trivial, fun u d own hu _ _ => ?_⟩ ?_
  · cases u
    · obtain ⟨rfl, rfl⟩ := Prod.mk.inj (Option.some.inj hu)
      exact le_rfl
    · cases hu
  refine .of_step rfl ⟨trivial, trivial⟩ ?_
  refine .of_step rfl ⟨trivial, trivial⟩ ?_
  trivial

theorem linearizable_of_inTurn_twoPushes :
    SharedObject.Linearizable (fifo Nat deployed.size.toNat)
      (Runs.observed step event ({} : RingBuffer deployed Nat Bool) twoPushes) :=
  linearizable_of_inTurn before_twoPushes

section TwoThreads

-- loads return the latest value
def Current (s : RingBuffer L T Tid) (l : Tid × Action T) : Prop :=
  match s.pc l.1, l.2 with
  | .idle, .call c loaded => loaded = s.counter c
  | .test c _, .test loaded => loaded = s.other c
  | .increase c _, .increase (some loaded) => loaded = s.counter c
  | _, _ => True

-- one thread makes all the pushes and one all the pops
def OneEach (producer consumer : Tid) : Tid × Action T → Prop
  | (t, .call c _) => t = if c.isPush then producer else consumer
  | _ => True

structure Paired (producer consumer : Tid) (s : RingBuffer L T Tid) : Prop where
  loaded : ∀ t c own, (s.pc t).loaded = some (c, own) →
    own = s.counter c ∧ t = if c.isPush then producer else consumer
  ticket : ∀ t c own, (s.pc t).ticket = some (c, own) →
    t = if c.isPush then producer else consumer

variable {producer consumer : Tid} {s : RingBuffer L T Tid}

theorem paired_start : ({} : RingBuffer L T Tid).Paired producer consumer := by
  constructor
  · intro t c own h
    cases h
  · intro t c own h
    cases h

theorem Paired.upToDate (h : s.Paired producer consumer) {l : Tid × Action T}
    (hl : s.Current l) : s.UpToDate l := by
  obtain ⟨t, a⟩ := l
  cases hp : s.pc t <;> rcases a with _ | _ | (_ | _) | _ | _ | _ | _ <;>
    simp only [UpToDate, Current, hp] at hl ⊢
  case idle.call => exact hl
  case test.test c own loaded =>
    have hown := (h.loaded t c own (by rw [hp]; rfl)).1
    exact ⟨hl, by rw [hown]; omega⟩
  case increase.increase.none c own =>
    have hown := (h.loaded t c own (by rw [hp]; rfl)).1
    rw [hown]
    omega
  case increase.increase.some => exact hl

theorem Paired.inTurn (h : s.Paired producer consumer) (l : Tid × Action T) : s.InTurn l := by
  obtain ⟨t, a⟩ := l
  cases hp : s.pc t <;> rcases a with _ | _ | _ | (_ | _) | _ | _ | _ <;>
    simp only [InTurn, hp]
  case claim.claim.true c own =>
    intro u d own' hu hkind _
    have ht := h.ticket t c own (by rw [hp]; rfl)
    have hut := h.ticket u d own' hu
    rw [hkind, ← ht] at hut
    rw [hut, hp] at hu
    obtain ⟨rfl, rfl⟩ := Prod.mk.inj (Option.some.inj hu)
    exact le_rfl

variable [DecidableEq Tid] {t : Tid}

theorem Paired.keeps {r : RingBuffer L T Tid} {p : Pc T} (h : s.Paired producer consumer)
    (hcount : ∀ c, r.counter c = s.counter c) (hpc : r.pc = s.pc)
    (hl : ∀ c own, p.loaded = some (c, own) →
      own = s.counter c ∧ t = if c.isPush then producer else consumer)
    (ht : ∀ c own, p.ticket = some (c, own) → t = if c.isPush then producer else consumer) :
    (r.goto t p).Paired producer consumer := by
  constructor
  · intro u c own hu
    change own = r.counter c ∧ _
    rw [hcount]
    by_cases hut : u = t
    · rw [hut, goto_self] at hu
      exact hut ▸ hl c own hu
    · rw [goto_of_ne r hut, hpc] at hu
      exact h.loaded u c own hu
  · intro u c own hu
    by_cases hut : u = t
    · rw [hut, goto_self] at hu
      exact hut ▸ ht c own hu
    · rw [goto_of_ne r hut, hpc] at hu
      exact h.ticket u c own hu

-- the counter that a call increases was loaded by no other thread
theorem Paired.take {c : Call T} {own : Ticket} (h : s.Paired producer consumer)
    (hp : s.pc t = .increase c own) :
    ((s.increment c).goto t (.claim c (s.counter c))).Paired producer consumer := by
  have hmine := (h.loaded t c own (by rw [hp]; rfl)).2
  constructor
  · intro u d own' hu
    by_cases hut : u = t
    · rw [hut, goto_self] at hu
      cases hu
    · rw [goto_of_ne _ hut, increment_pc] at hu
      obtain ⟨hown, hside⟩ := h.loaded u d own' hu
      have hkind : c.isPush ≠ d.isPush := by
        intro hkind
        rw [← hkind, ← hmine] at hside
        exact hut hside
      refine ⟨?_, hside⟩
      rw [hown]
      cases c <;> cases d <;> first | rfl | exact absurd rfl hkind
  · intro u d own' hu
    by_cases hut : u = t
    · rw [hut, goto_self] at hu
      obtain ⟨rfl, rfl⟩ := Prod.mk.inj (Option.some.inj hu)
      exact hut ▸ hmine
    · rw [goto_of_ne _ hut, increment_pc] at hu
      exact h.ticket u d own' hu

theorem Paired.step {l : Tid × Action T} {s' : RingBuffer L T Tid}
    (h : s.Paired producer consumer) (hl : s.Current l) (hone : OneEach producer consumer l)
    (hs : s.step l = some s') : s'.Paired producer consumer := by
  obtain ⟨t, a⟩ := l
  have hgoes : ∀ (r : RingBuffer L T Tid) p, (∀ c, r.counter c = s.counter c) → r.pc = s.pc →
      p.loaded = none → (p.ticket = none ∨ p.ticket = (s.pc t).ticket) →
      (r.goto t p).Paired producer consumer := by
    intro r p hcount hpc hloaded hticket
    refine h.keeps hcount hpc (fun c own hp => ?_) (fun c own hp => ?_)
    · rw [hloaded] at hp
      cases hp
    · rcases hticket with hticket | hticket
      · rw [hticket] at hp
        cases hp
      · exact h.ticket t c own (hticket ▸ hp)
  cases step_moves hs with
  | call c loaded hp =>
    simp only [Current, hp] at hl
    refine h.keeps (fun _ => rfl) rfl (fun d own hd => ?_) (fun d own hd => ?_)
    · obtain ⟨rfl, rfl⟩ := Prod.mk.inj (Option.some.inj hd)
      exact ⟨hl, hone⟩
    · cases hd
  | refuse c own loaded hp hr => exact hgoes s _ (fun _ => rfl) rfl rfl (Or.inl rfl)
  | pass c own loaded hp hr =>
    have hold := h.loaded t c own (by rw [hp]; rfl)
    refine h.keeps (fun _ => rfl) rfl (fun d own' hd => ?_) (fun d own' hd => ?_)
    · obtain ⟨rfl, rfl⟩ := Prod.mk.inj (Option.some.inj hd)
      exact hold
    · cases hd
  | take c own hp hv => exact h.take hp
  | retry c own loaded hp =>
    simp only [Current, hp] at hl
    have hold := h.loaded t c own (by rw [hp]; rfl)
    refine h.keeps (fun _ => rfl) rfl (fun d own' hd => ?_) (fun d own' hd => ?_)
    · obtain ⟨rfl, rfl⟩ := Prod.mk.inj (Option.some.inj hd)
      exact ⟨hl, hold.2⟩
    · cases hd
  | claim c own hp hx =>
    exact hgoes _ _ (fun d => by cases d <;> rfl) rfl rfl (Or.inr (by rw [hp]; rfl))
  | miss c own hp => exact hgoes s _ (fun _ => rfl) rfl rfl (Or.inr (by rw [hp]; rfl))
  | wake c own hp => exact hgoes s _ (fun _ => rfl) rfl rfl (Or.inr (by rw [hp]; rfl))
  | wait c own loaded hp => exact h
  | move c own hp =>
    exact hgoes _ _ (fun d => by cases c <;> cases d <;> rfl) (transfer_pc s _ c) rfl
      (Or.inr (by rw [hp]; rfl))
  | finish c own element hp =>
    exact hgoes _ _ (fun d => by cases c <;> cases d <;> rfl) (tally_pc _ _ c) rfl (Or.inl rfl)

theorem linearizable_of_oneEach {ls : List (Tid × Action T)}
    (h : Runs.Before step (fun s l => s.Current l ∧ OneEach producer consumer l)
      ({} : RingBuffer L T Tid) ls) :
    SharedObject.Linearizable (fifo T L.size.toNat)
      (Runs.observed step event ({} : RingBuffer L T Tid) ls) := by
  have hstep : ∀ (s : RingBuffer L T Tid) l s', s.Orderly ∧ s.Paired producer consumer →
      s.Current l ∧ OneEach producer consumer l → s.step l = some s' →
      (s'.Orderly ∧ s'.Paired producer consumer) ∧
        SharedObject.Trace (fifo T L.size.toNat) s.view (s.event l).toList s'.view := by
    rintro s l s' ⟨ho, hp⟩ ⟨hc, hone⟩ hs
    have hlatest := hp.upToDate hc
    exact ⟨⟨ho.step hlatest (hp.inTurn l) hs, hp.step hc hone hs⟩, step_trace ho hlatest hs⟩
  exact SharedObject.linearizable_of_simulation rfl ⟨orderly_start, paired_start⟩ hstep h

theorem before_meeting :
    Runs.Before step (fun s l => s.Current l ∧ OneEach false true l)
      ({} : RingBuffer deployed Nat Bool) meeting := by
  refine .of_step rfl ⟨rfl, rfl⟩ ?_
  refine .of_step rfl ⟨rfl, trivial⟩ ?_
  refine .of_step rfl ⟨trivial, trivial⟩ ?_
  refine .of_step rfl ⟨rfl, rfl⟩ ?_
  refine .of_step rfl ⟨rfl, trivial⟩ ?_
  refine .of_step rfl ⟨trivial, trivial⟩ ?_
  refine .of_step rfl ⟨trivial, trivial⟩ ?_
  refine .of_step rfl ⟨trivial, trivial⟩ ?_
  refine .of_step rfl ⟨trivial, trivial⟩ ?_
  refine .of_step rfl ⟨trivial, trivial⟩ ?_
  refine .of_step rfl ⟨trivial, trivial⟩ ?_
  refine .of_step rfl ⟨trivial, trivial⟩ ?_
  trivial

theorem linearizable_of_oneEach_meeting :
    SharedObject.Linearizable (fifo Nat deployed.size.toNat)
      (Runs.observed step event ({} : RingBuffer deployed Nat Bool) meeting) :=
  linearizable_of_oneEach before_meeting

end TwoThreads

end RingBuffer

end AtomicQueue

end ChatApp
