import ChatApp.AtomicQueue
import ChatApp.Library.Conservation
import Mathlib.Data.Fintype.Basic

namespace ChatApp

namespace AtomicQueue

variable {L : Layout} {T Tid : Type}

-- the transfer whose element a thread is moving
def Pc.working : Pc T → Option (Call T × Ticket)
  | .move c own | .finish c own _ => some (c, own)
  | _ => none

namespace Call

theorem claimed_ne_expected (c d : Call T) : c.transfer.claimed ≠ d.transfer.expected := by
  cases c <;> cases d <;> simp [Call.transfer, doPushAny, doPopAny]

end Call

namespace RingBuffer

-- what a thread finds in its slot while the slot is its own
def Holds (s : RingBuffer L T Tid) : Pc T → Prop
  | .move (.push _) own => s.elements (L.slot own.value) = none
  | .move .pop own => s.elements (L.slot own.value) ≠ none
  | .finish (.push x) own _ => s.elements (L.slot own.value) = some x
  | .finish .pop own element => element ≠ none ∧ s.elements (L.slot own.value) = none
  | _ => True

structure Exclusive (s : RingBuffer L T Tid) : Prop where
  claimed : ∀ t c own, (s.pc t).working = some (c, own) →
    s.states (L.slot own.value) = c.transfer.claimed
  alone : ∀ t u c d own own', (s.pc t).working = some (c, own) →
    (s.pc u).working = some (d, own') → L.slot own.value = L.slot own'.value → t = u
  empty : ∀ i, s.states i = .empty → s.elements i = none
  stored : ∀ i, s.states i = .stored → s.elements i ≠ none
  holds : ∀ t, s.Holds (s.pc t)

section Preservation

variable {s : RingBuffer L T Tid}

theorem holds_of_working {p : Pc T} (h : p.working = none) : s.Holds p := by
  cases p with
  | move c own => exact absurd h (by simp [Pc.working])
  | finish c own element => exact absurd h (by simp [Pc.working])
  | _ => trivial

theorem Holds.frame {r : RingBuffer L T Tid} {p : Pc T} (h : s.Holds p)
    (hr : ∀ c own, p.working = some (c, own) →
      r.elements (L.slot own.value) = s.elements (L.slot own.value)) : r.Holds p := by
  cases p with
  | move c own =>
    have heq := hr c own rfl
    cases c <;> simpa only [Holds, heq] using h
  | finish c own element =>
    have heq := hr c own rfl
    cases c <;> simpa only [Holds, heq] using h
  | _ => trivial

theorem exclusive_start : ({} : RingBuffer L T Tid).Exclusive := by
  constructor
  · intro t c own h
    cases h
  · intro t u c d own own' h
    cases h
  · intro i _
    rfl
  · intro i h
    cases h
  · intro t
    trivial

variable [DecidableEq Tid] {t : Tid}

-- a step that touches no slot, of a thread that owns none
theorem Exclusive.elsewhere {r : RingBuffer L T Tid} {p : Pc T} (h : s.Exclusive)
    (hs : r.states = s.states) (he : r.elements = s.elements) (hpc : r.pc = s.pc)
    (hp : p.working = none) : (r.goto t p).Exclusive := by
  have hw : ∀ u c own, ((r.goto t p).pc u).working = some (c, own) →
      (s.pc u).working = some (c, own) := by
    intro u c own hu
    by_cases hut : u = t
    · rw [hut, goto_self, hp] at hu
      cases hu
    · rwa [goto_of_ne r hut, hpc] at hu
  constructor
  · intro u c own hu
    rw [goto_states, hs]
    exact h.claimed u c own (hw u c own hu)
  · intro u v c d own own' hu hv
    exact h.alone u v c d own own' (hw u c own hu) (hw v d own' hv)
  · intro i
    rw [goto_states, goto_elements, hs, he]
    exact h.empty i
  · intro i
    rw [goto_states, goto_elements, hs, he]
    exact h.stored i
  · intro u
    by_cases hut : u = t
    · rw [hut, goto_self]
      exact holds_of_working hp
    · rw [goto_of_ne r hut, hpc]
      refine (h.holds u).frame fun c own _ => ?_
      rw [goto_elements, he]

-- a thread claims the slot of its ticket: nobody else was working there
theorem Exclusive.claim {c : Call T} {own : Ticket} (h : s.Exclusive)
    (hx : s.states (L.slot own.value) = c.transfer.expected) :
    ((s.setState (L.slot own.value) c.transfer.claimed).goto t (.move c own)).Exclusive := by
  have hfree : ∀ u d own', (s.pc u).working = some (d, own') →
      L.slot own'.value ≠ L.slot own.value := by
    intro u d own' hu heq
    have hc := h.claimed u d own' hu
    rw [heq, hx] at hc
    exact Call.claimed_ne_expected d c hc.symm
  constructor
  · intro u d own' hu
    by_cases hut : u = t
    · rw [hut, goto_self] at hu
      obtain ⟨rfl, rfl⟩ := Prod.mk.inj (Option.some.inj hu)
      exact setState_self ..
    · rw [goto_of_ne _ hut] at hu
      rw [goto_states, setState_of_ne s (hfree u d own' hu)]
      exact h.claimed u d own' hu
  · intro u v d e own1 own2 hu hv heq
    by_cases hut : u = t <;> by_cases hvt : v = t
    · rw [hut, hvt]
    · rw [goto_of_ne _ hvt] at hv
      rw [hut, goto_self] at hu
      obtain ⟨rfl, rfl⟩ := Prod.mk.inj (Option.some.inj hu)
      exact absurd heq.symm (hfree v e own2 hv)
    · rw [goto_of_ne _ hut] at hu
      rw [hvt, goto_self] at hv
      obtain ⟨rfl, rfl⟩ := Prod.mk.inj (Option.some.inj hv)
      exact absurd heq (hfree u d own1 hu)
    · rw [goto_of_ne _ hut] at hu
      rw [goto_of_ne _ hvt] at hv
      exact h.alone u v d e own1 own2 hu hv heq
  · intro i hi
    by_cases hs : i = L.slot own.value
    · rw [hs, goto_states, setState_self] at hi
      cases c <;> cases hi
    · rw [goto_states, setState_of_ne s hs] at hi
      exact h.empty i hi
  · intro i hi
    by_cases hs : i = L.slot own.value
    · rw [hs, goto_states, setState_self] at hi
      cases c <;> cases hi
    · rw [goto_states, setState_of_ne s hs] at hi
      exact h.stored i hi
  · intro u
    by_cases hut : u = t
    · rw [hut, goto_self]
      cases c with
      | push x => exact h.empty _ hx
      | pop => exact h.stored _ hx
    · rw [goto_of_ne _ hut]
      exact (h.holds u).frame fun _ _ _ => rfl

theorem Exclusive.move {c : Call T} {own : Ticket} (h : s.Exclusive)
    (hp : s.pc t = .move c own) :
    ((s.transfer (L.slot own.value) c).1.goto t
      (.finish c own (s.transfer (L.slot own.value) c).2)).Exclusive := by
  have hmine : (s.pc t).working = some (c, own) := by rw [hp]; rfl
  have hother : ∀ u d own', u ≠ t → (s.pc u).working = some (d, own') →
      L.slot own'.value ≠ L.slot own.value := fun u d own' hut hu heq =>
    hut (h.alone u t d c own' own hu hmine heq)
  have hw : ∀ u d own', (((s.transfer (L.slot own.value) c).1.goto t
      (.finish c own (s.transfer (L.slot own.value) c).2)).pc u).working = some (d, own') →
      (s.pc u).working = some (d, own') := by
    intro u d own' hu
    by_cases hut : u = t
    · rw [hut, goto_self] at hu
      rw [hut, hmine, ← hu]
      rfl
    · rwa [goto_of_ne _ hut, transfer_pc] at hu
  have hstate := h.claimed t c own hmine
  constructor
  · intro u d own' hu
    rw [goto_states, transfer_states]
    exact h.claimed u d own' (hw u d own' hu)
  · intro u v d e own1 own2 hu hv
    exact h.alone u v d e own1 own2 (hw u d own1 hu) (hw v e own2 hv)
  · intro i hi
    rw [goto_states, transfer_states] at hi
    have hs : i ≠ L.slot own.value := by
      rintro rfl
      rw [hstate] at hi
      cases c <;> cases hi
    rw [goto_elements, transfer_of_ne s hs]
    exact h.empty i hi
  · intro i hi
    rw [goto_states, transfer_states] at hi
    have hs : i ≠ L.slot own.value := by
      rintro rfl
      rw [hstate] at hi
      cases c <;> cases hi
    rw [goto_elements, transfer_of_ne s hs]
    exact h.stored i hi
  · intro u
    by_cases hut : u = t
    · have hhold := h.holds t
      rw [hp] at hhold
      rw [hut, goto_self]
      cases c with
      | push x => exact Function.update_self ..
      | pop => exact ⟨hhold, Function.update_self ..⟩
    · rw [goto_of_ne _ hut, transfer_pc]
      refine (h.holds u).frame fun d own' hu => ?_
      rw [goto_elements, transfer_of_ne s (hother u d own' hut hu)]

theorem Exclusive.finish {c : Call T} {own : Ticket} {element : Option T} (h : s.Exclusive)
    (hp : s.pc t = .finish c own element) :
    (((s.setState (L.slot own.value) c.transfer.left).tally (L.slot own.value) c).goto t
      .idle).Exclusive := by
  have hmine : (s.pc t).working = some (c, own) := by rw [hp]; rfl
  have hw : ∀ u d own', ((((s.setState (L.slot own.value) c.transfer.left).tally
      (L.slot own.value) c).goto t .idle).pc u).working = some (d, own') →
      u ≠ t ∧ (s.pc u).working = some (d, own') := by
    intro u d own' hu
    by_cases hut : u = t
    · rw [hut, goto_self] at hu
      cases hu
    · rw [goto_of_ne _ hut, tally_pc] at hu
      exact ⟨hut, hu⟩
  have hhold := h.holds t
  rw [hp] at hhold
  constructor
  · intro u d own' hu
    obtain ⟨hut, hu'⟩ := hw u d own' hu
    have hne : L.slot own'.value ≠ L.slot own.value := fun heq =>
      hut (h.alone u t d c own' own hu' hmine heq)
    rw [goto_states, tally_states, setState_of_ne s hne]
    exact h.claimed u d own' hu'
  · intro u v d e own1 own2 hu hv
    exact h.alone u v d e own1 own2 (hw u d own1 hu).2 (hw v e own2 hv).2
  · intro i hi
    rw [goto_elements, tally_elements, setState_elements]
    rw [goto_states, tally_states] at hi
    by_cases hs : i = L.slot own.value
    · rw [hs, setState_self] at hi
      cases c with
      | push x => cases hi
      | pop => exact hs ▸ hhold.2
    · rw [setState_of_ne s hs] at hi
      exact h.empty i hi
  · intro i hi
    rw [goto_elements, tally_elements, setState_elements]
    rw [goto_states, tally_states] at hi
    by_cases hs : i = L.slot own.value
    · rw [hs, setState_self] at hi
      cases c with
      | push x =>
        have hx : s.elements (L.slot own.value) = some x := hhold
        rw [hs, hx]
        exact Option.some_ne_none x
      | pop => cases hi
    · rw [setState_of_ne s hs] at hi
      exact h.stored i hi
  · intro u
    by_cases hut : u = t
    · rw [hut, goto_self]
      trivial
    · rw [goto_of_ne _ hut, tally_pc]
      refine (h.holds u).frame fun d own' _ => ?_
      rw [goto_elements, tally_elements, setState_elements]

theorem Exclusive.step {l : Tid × Action T} {s' : RingBuffer L T Tid} (h : s.Exclusive)
    (hs : s.step l = some s') : s'.Exclusive := by
  obtain ⟨t, a⟩ := l
  cases step_moves hs with
  | call c loaded hp => exact h.elsewhere rfl rfl rfl rfl
  | refuse c own loaded hp hr => exact h.elsewhere rfl rfl rfl rfl
  | pass c own loaded hp hr => exact h.elsewhere rfl rfl rfl rfl
  | take c own hp hv =>
    exact h.elsewhere (increment_states s c) (increment_elements s c) (increment_pc s c) rfl
  | retry c own loaded hp => exact h.elsewhere rfl rfl rfl rfl
  | claim c own hp hx => exact h.claim hx
  | miss c own hp => exact h.elsewhere rfl rfl rfl rfl
  | wake c own hp => exact h.elsewhere rfl rfl rfl rfl
  | wait c own loaded hp => exact h
  | move c own hp => exact h.move hp
  | finish c own element hp => exact h.finish hp

end Preservation

theorem exclusive_of_run [DecidableEq Tid] {s t : RingBuffer L T Tid}
    {ls : List (Tid × Action T)} (hs : s.Exclusive) (h : Runs.run step s ls = some t) :
    t.Exclusive := by
  induction ls generalizing s with
  | nil => exact Option.some.inj h ▸ hs
  | cons l ls ih =>
    obtain ⟨u, hu, hrest⟩ := Runs.run_cons h
    exact ih (hs.step hu) hrest

section Contents

-- the elements of the calls that return true, as they return
def accepted (s : RingBuffer L T Tid) : Tid × Action T → Option T
  | (t, .finish) =>
    match s.pc t with
    | .finish (.push x) _ _ => some x
    | _ => none
  | _ => none

def returned (s : RingBuffer L T Tid) : Tid × Action T → Option T
  | (t, .finish) =>
    match s.pc t with
    | .finish .pop _ element => element
    | _ => none
  | _ => none

def cell (s : RingBuffer L T Tid) (i : Nat) : Multiset T :=
  match s.states i with
  | .stored | .loading => (s.elements i).toList
  | _ => 0

-- the element that a pop has moved out and not yet returned
def hand : Pc T → Multiset T
  | .finish .pop _ element => element.toList
  | _ => 0

def contents [Fintype Tid] (s : RingBuffer L T Tid) : Multiset T :=
  (∑ i ∈ Finset.range L.size.toNat, s.cell i) + ∑ t, hand (s.pc t)

variable {s : RingBuffer L T Tid} {t : Tid}

theorem cell_of_states {r : RingBuffer L T Tid} {i : Nat} (hs : r.states i = s.states i)
    (he : r.elements i = s.elements i) : r.cell i = s.cell i := by
  rw [cell, cell, hs, he]

theorem cells_change {r : RingBuffer L T Tid} (own : Ticket)
    (h : ∀ i, i ≠ L.slot own.value → r.cell i = s.cell i) :
    (∑ i ∈ Finset.range L.size.toNat, r.cell i) + s.cell (L.slot own.value) =
      (∑ i ∈ Finset.range L.size.toNat, s.cell i) + r.cell (L.slot own.value) :=
  Conservation.sum_exchange (Finset.mem_range.mpr (L.slot_lt _)) h

variable [DecidableEq Tid] [Fintype Tid]

theorem hands_change {r : RingBuffer L T Tid} {p : Pc T} (hpc : r.pc = s.pc) :
    (∑ u, hand ((r.goto t p).pc u)) + hand (s.pc t) = (∑ u, hand (s.pc u)) + hand p := by
  have h := Conservation.sum_exchange (f := fun u => hand (s.pc u))
    (g := fun u => hand ((r.goto t p).pc u)) (Finset.mem_univ t)
    (fun u hu => by rw [goto_of_ne r hu, hpc])
  simpa only [goto_self] using h

theorem contents_change {r : RingBuffer L T Tid} {p : Pc T} (own : Ticket) (hpc : r.pc = s.pc)
    (h : ∀ i, i ≠ L.slot own.value → r.cell i = s.cell i) :
    (r.goto t p).contents + (s.cell (L.slot own.value) + hand (s.pc t)) =
      s.contents + (r.cell (L.slot own.value) + hand p) := by
  have hc := cells_change own h
  have hh := hands_change (t := t) (p := p) hpc
  calc (r.goto t p).contents + (s.cell (L.slot own.value) + hand (s.pc t))
      = (∑ i ∈ Finset.range L.size.toNat, r.cell i) + s.cell (L.slot own.value) +
          ((∑ u, hand ((r.goto t p).pc u)) + hand (s.pc t)) := add_add_add_comm _ _ _ _
    _ = (∑ i ∈ Finset.range L.size.toNat, s.cell i) + r.cell (L.slot own.value) +
          ((∑ u, hand (s.pc u)) + hand p) := by rw [hc, hh]
    _ = s.contents + (r.cell (L.slot own.value) + hand p) := add_add_add_comm _ _ _ _

theorem contents_same {r : RingBuffer L T Tid} {p : Pc T} (hs : r.states = s.states)
    (he : r.elements = s.elements) (hpc : r.pc = s.pc) (hp : hand p = 0)
    (hq : hand (s.pc t) = 0) : (r.goto t p).contents = s.contents := by
  have hcell : ∀ i, r.cell i = s.cell i := fun i => by rw [cell, cell, hs, he]
  have h := contents_change (t := t) (p := p) .zero hpc fun i _ => hcell i
  rw [hcell, hp, hq] at h
  exact add_right_cancel h

theorem step_contents {l : Tid × Action T} {s' : RingBuffer L T Tid} (h : s.Exclusive)
    (hs : s.step l = some s') :
    ((s.accepted l).toList : Multiset T) + s.contents =
      ((s.returned l).toList : Multiset T) + s'.contents := by
  obtain ⟨t, a⟩ := l
  cases step_moves hs with
  | call c loaded hp =>
    exact congrArg _ (contents_same (r := s) rfl rfl rfl rfl (by rw [hp]; rfl)).symm
  | refuse c own loaded hp hr =>
    exact congrArg _ (contents_same (r := s) rfl rfl rfl rfl (by rw [hp]; rfl)).symm
  | pass c own loaded hp hr =>
    exact congrArg _ (contents_same (r := s) rfl rfl rfl rfl (by rw [hp]; rfl)).symm
  | take c own hp hv =>
    exact congrArg _ (contents_same (increment_states s c) (increment_elements s c)
      (increment_pc s c) rfl (by rw [hp]; rfl)).symm
  | retry c own loaded hp =>
    exact congrArg _ (contents_same (r := s) rfl rfl rfl rfl (by rw [hp]; rfl)).symm
  | miss c own hp =>
    exact congrArg _ (contents_same (r := s) rfl rfl rfl rfl (by rw [hp]; rfl)).symm
  | wake c own hp =>
    exact congrArg _ (contents_same (r := s) rfl rfl rfl rfl (by rw [hp]; rfl)).symm
  | wait c own loaded hp => rfl
  | claim c own hp hx =>
    -- a slot that is being stored to counts for nothing, one that is being loaded from as before
    have hcell : (s.setState (L.slot own.value) c.transfer.claimed).cell (L.slot own.value) =
        s.cell (L.slot own.value) := by
      simp only [cell, setState_self, hx, setState_elements]
      cases c <;> rfl
    have hc := contents_change (s := s) (t := t) (p := .move c own)
      (r := s.setState (L.slot own.value) c.transfer.claimed) own rfl
      fun i hi => cell_of_states (setState_of_ne s hi _) rfl
    rw [hcell, hp] at hc
    exact congrArg _ (add_right_cancel hc).symm
  | move c own hp =>
    have hstate := h.claimed t c own (by rw [hp]; rfl)
    have hc := contents_change (s := s) (t := t)
      (p := .finish c own (s.transfer (L.slot own.value) c).2)
      (r := (s.transfer (L.slot own.value) c).1) own (transfer_pc s _ c)
      fun i hi => cell_of_states (by rw [transfer_states]) (transfer_of_ne s hi c)
    have hsame : (s.transfer (L.slot own.value) c).1.cell (L.slot own.value) +
        hand (.finish c own (s.transfer (L.slot own.value) c).2) =
        s.cell (L.slot own.value) + hand (s.pc t) := by
      rw [hp]
      cases c with
      | push x =>
        simp only [cell, transfer_states, hstate]
        rfl
      | pop =>
        have hgone : (s.transfer (L.slot own.value) .pop).1.elements (L.slot own.value) = none :=
          Function.update_self ..
        simp only [cell, transfer_states, hstate, hgone]
        exact add_comm _ _
    rw [hsame] at hc
    exact congrArg _ (add_right_cancel hc).symm
  | finish c own element hp =>
    have hmine : (s.pc t).working = some (c, own) := by rw [hp]; rfl
    have hstate := h.claimed t c own hmine
    have hhold := h.holds t
    have hc := contents_change (s := s) (t := t) (p := .idle)
      (r := (s.setState (L.slot own.value) c.transfer.left).tally (L.slot own.value) c) own
      (tally_pc _ _ c) fun i hi => cell_of_states
        (by rw [tally_states, setState_of_ne s hi]) (by rw [tally_elements, setState_elements])
    rw [hp] at hhold hc
    cases c with
    | push x =>
      have hx : s.elements (L.slot own.value) = some x := hhold
      have hnew : ((s.setState (L.slot own.value) doPushAny.left).tally (L.slot own.value)
          (.push x)).cell (L.slot own.value) = {x} := by
        simp only [cell, tally_states, setState_self, tally_elements, setState_elements, hx]
        rfl
      have hold : s.cell (L.slot own.value) = 0 := by
        simp only [cell, hstate]
        rfl
      have hin : s.accepted (t, .finish) = some x := by simp only [accepted, hp]
      have hout : s.returned (t, .finish) = none := by simp only [returned, hp]
      rw [hold] at hc
      rw [hin, hout]
      have hc' := hc.trans (congrArg (s.contents + ·) (congrArg (· + 0) hnew))
      simpa [hand, add_comm] using hc'.symm
    | pop =>
      have hnew : ((s.setState (L.slot own.value) doPopAny.left).tally (L.slot own.value)
          .pop).cell (L.slot own.value) = 0 := by
        simp only [cell, tally_states, setState_self]
        rfl
      have hold : s.cell (L.slot own.value) = 0 := by
        have hgone : s.elements (L.slot own.value) = none := hhold.2
        simp only [cell, hstate, hgone]
        rfl
      have hin : s.accepted (t, .finish) = none := by simp only [accepted, hp]
      have hout : s.returned (t, .finish) = element := by simp only [returned, hp]
      rw [hold] at hc
      rw [hin, hout]
      have hc' := hc.trans (congrArg (s.contents + ·) (congrArg (· + 0) hnew))
      simpa [hand, add_comm] using hc'.symm

end Contents

-- whatever values the loads of head_ and tail_ return
theorem slots_exclusive [DecidableEq Tid] {s : RingBuffer L T Tid} {ls : List (Tid × Action T)}
    (h : Runs.run step {} ls = some s) :
    (∀ t u c d own own', (s.pc t).working = some (c, own) → (s.pc u).working = some (d, own') →
      L.slot own.value = L.slot own'.value → t = u) ∧
    (∀ t x own, s.pc t = .move (.push x) own → s.elements (L.slot own.value) = none) ∧
    (∀ t own, s.pc t = .move .pop own → s.elements (L.slot own.value) ≠ none) ∧
    ∀ t own element, s.pc t = .finish .pop own element → element ≠ none := by
  have hx := exclusive_of_run exclusive_start h
  refine ⟨hx.alone, fun t x own hp => ?_, fun t own hp => ?_, fun t own element hp => ?_⟩
  · have hhold := hx.holds t
    rwa [hp] at hhold
  · have hhold := hx.holds t
    rwa [hp] at hhold
  · have hhold := hx.holds t
    rw [hp] at hhold
    exact hhold.1

theorem slots_exclusive_meeting :
    ∃ s, Runs.run step ({} : RingBuffer deployed Nat Bool) (meeting.take 11) = some s ∧
      ∀ t own element, s.pc t = .finish .pop own element → element ≠ none :=
  ⟨_, rfl, (slots_exclusive (show Runs.run step {} (meeting.take 11) = some _ from rfl)).2.2.2⟩

theorem contents_start [Fintype Tid] : ({} : RingBuffer L T Tid).contents = 0 := by
  have hcells : ∑ i ∈ Finset.range L.size.toNat, ({} : RingBuffer L T Tid).cell i = 0 :=
    Finset.sum_eq_zero fun _ _ => rfl
  have hhands : ∑ t, hand (({} : RingBuffer L T Tid).pc t) = 0 := Finset.sum_eq_zero fun _ _ => rfl
  rw [contents, hcells, hhands, add_zero]

theorem contents_conserved [DecidableEq Tid] [Fintype Tid] {s : RingBuffer L T Tid}
    {ls : List (Tid × Action T)} (h : Runs.run step {} ls = some s) :
    (Runs.observed step accepted ({} : RingBuffer L T Tid) ls : Multiset T) =
      (Runs.observed step returned ({} : RingBuffer L T Tid) ls : Multiset T) + s.contents := by
  have hstep : ∀ (r : RingBuffer L T Tid) l t, r.Exclusive → r.step l = some t → t.Exclusive ∧
      ((r.accepted l).toList : Multiset T) + r.contents =
        ((r.returned l).toList : Multiset T) + t.contents :=
    fun r l t hr ht => ⟨hr.step ht, step_contents hr ht⟩
  have hbal := Conservation.observed_balance exclusive_start hstep h
  rwa [contents_start, add_zero] at hbal

theorem contents_conserved_meeting :
    ∃ s, Runs.run step ({} : RingBuffer deployed Nat Bool) meeting = some s ∧
      (Runs.observed step accepted ({} : RingBuffer deployed Nat Bool) meeting : Multiset Nat) =
        (Runs.observed step returned ({} : RingBuffer deployed Nat Bool) meeting : Multiset Nat) +
          s.contents :=
  ⟨_, rfl, contents_conserved (show Runs.run step {} meeting = some _ from rfl)⟩

end RingBuffer

end AtomicQueue

end ChatApp
