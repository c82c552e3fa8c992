import ChatApp.Library.Linearizable
import ChatApp.QueueLayout

namespace ChatApp

namespace AtomicQueue

inductive SlotState where
  | empty
  | storing
  | stored
  | loading
  deriving DecidableEq, Repr

-- a value of head_ or tail_; the count is ghost: how often the counter has been increased
structure Ticket where
  value : BitVec 32
  count : Nat
  value_eq : value = BitVec.ofNat 32 count
  deriving DecidableEq

namespace Ticket

def zero : Ticket := ⟨0, 0, rfl⟩

def next (k : Ticket) : Ticket :=
  ⟨k.value + 1#32, k.count + 1, by rw [k.value_eq, BitVec.ofNat_add]⟩

@[simp] theorem zero_count : zero.count = 0 := rfl

@[simp] theorem next_count (k : Ticket) : k.next.count = k.count + 1 := rfl

end Ticket

inductive Call (T : Type) where
  | push (x : T)
  | pop
  deriving DecidableEq

-- what compare_exchange expects of a slot, what it stores and what is stored after the move
structure Transfer where
  expected : SlotState
  claimed : SlotState
  left : SlotState

def doPushAny : Transfer := ⟨.empty, .storing, .stored⟩

def doPopAny : Transfer := ⟨.stored, .loading, .empty⟩

def Call.transfer {T : Type} : Call T → Transfer
  | .push _ => doPushAny
  | .pop => doPopAny

-- own is the head of a try_push or the tail of a try_pop
inductive Pc (T : Type) where
  | idle
  | test (c : Call T) (own : Ticket)
  | increase (c : Call T) (own : Ticket)
  | claim (c : Call T) (own : Ticket)
  | spin (c : Call T) (own : Ticket)
  | move (c : Call T) (own : Ticket)
  | finish (c : Call T) (own : Ticket) (element : Option T)
  deriving DecidableEq

-- an element is none before the first move into its slot and after each move out of it;
-- entered, puts and takes are ghost: the elements by ticket, and the finished transfers by slot
structure RingBuffer (L : Layout) (T Tid : Type) where
  head : Ticket := .zero
  tail : Ticket := .zero
  states : Nat → SlotState := fun _ => .empty
  elements : Nat → Option T := fun _ => none
  pc : Tid → Pc T := fun _ => .idle
  entered : List T := []
  puts : Nat → Nat := fun _ => 0
  takes : Nat → Nat := fun _ => 0

inductive Action (T : Type) where
  | call (c : Call T) (loaded : Ticket)
  | test (loaded : Ticket)
  -- compare_exchange_weak on head_ or tail_, which loads the counter when it fails
  | increase (loaded : Option Ticket)
  -- compare_exchange_weak on the state of the slot, which may fail spuriously
  | claim (ok : Bool)
  | spin (loaded : SlotState)
  | move
  | finish
  deriving DecidableEq

inductive Result (T : Type) where
  | refused
  | pushed
  | popped (element : Option T)
  deriving DecidableEq

variable {L : Layout} {T Tid : Type}

namespace RingBuffer

def counter (s : RingBuffer L T Tid) : Call T → Ticket
  | .push _ => s.head
  | .pop => s.tail

def other (s : RingBuffer L T Tid) : Call T → Ticket
  | .push _ => s.tail
  | .pop => s.head

end RingBuffer

-- static_cast<int> of the difference of two counters
def distance (a b : Ticket) : Int := (a.value - b.value).toInt

variable (L) in
def refuses (own loaded : Ticket) : Call T → Bool
  | .push _ => L.size.toInt ≤ distance own loaded
  | .pop => distance loaded own ≤ 0

namespace RingBuffer

variable [DecidableEq Tid] (s : RingBuffer L T Tid)

def goto (t : Tid) (p : Pc T) : RingBuffer L T Tid := { s with pc := Function.update s.pc t p }

def setState (i : Nat) (x : SlotState) : RingBuffer L T Tid :=
  { s with states := Function.update s.states i x }

def increment : Call T → RingBuffer L T Tid
  | .push x => { s with head := s.head.next, entered := s.entered ++ [x] }
  | .pop => { s with tail := s.tail.next }

-- q_element = std::forward<U>(element), or T element{std::move(q_element)}
def transfer (i : Nat) : Call T → RingBuffer L T Tid × Option T
  | .push x => ({ s with elements := Function.update s.elements i (some x) }, none)
  | .pop => ({ s with elements := Function.update s.elements i none }, s.elements i)

def tally (i : Nat) : Call T → RingBuffer L T Tid
  | .push _ => { s with puts := Function.update s.puts i (s.puts i + 1) }
  | .pop => { s with takes := Function.update s.takes i (s.takes i + 1) }

def step (s : RingBuffer L T Tid) : Tid × Action T → Option (RingBuffer L T Tid)
  | (t, .call c loaded) =>
    match s.pc t with
    | .idle => some (s.goto t (.test c loaded))
    | _ => none
  | (t, .test loaded) =>
    match s.pc t with
    | .test c own =>
      if refuses L own loaded c then some (s.goto t .idle) else some (s.goto t (.increase c own))
    | _ => none
  | (t, .increase none) =>
    match s.pc t with
    | .increase c own =>
      if own.value = (s.counter c).value then
        some ((s.increment c).goto t (.claim c (s.counter c)))
      else none
    | _ => none
  | (t, .increase (some loaded)) =>
    match s.pc t with
    | .increase c _ => some (s.goto t (.test c loaded))
    | _ => none
  | (t, .claim true) =>
    match s.pc t with
    | .claim c own =>
      if s.states (L.slot own.value) = c.transfer.expected then
        some ((s.setState (L.slot own.value) c.transfer.claimed).goto t (.move c own))
      else none
    | _ => none
  | (t, .claim false) =>
    match s.pc t with
    | .claim c own => some (s.goto t (.spin c own))
    | _ => none
  | (t, .spin loaded) =>
    match s.pc t with
    | .spin c own => if loaded = c.transfer.expected then some (s.goto t (.claim c own)) else some s
    | _ => none
  | (t, .move) =>
    match s.pc t with
    | .move c own =>
      let (r, element) := s.transfer (L.slot own.value) c
      some (r.goto t (.finish c own element))
    | _ => none
  | (t, .finish) =>
    match s.pc t with
    | .finish c own _ =>
      some (((s.setState (L.slot own.value) c.transfer.left).tally (L.slot own.value) c).goto t
        .idle)
    | _ => none

def Result.of : Call T → Option T → Result T
  | .push _, _ => .pushed
  | .pop, element => .popped element

-- the call and the return of each operation
def event (s : RingBuffer L T Tid) :
    Tid × Action T → Option (SharedObject.Event (Call T) (Result T) Tid)
  | (t, .call c _) => some (.call t c)
  | (t, .test loaded) =>
    match s.pc t with
    | .test c own => if refuses L own loaded c then some (.ret t .refused) else none
    | _ => none
  | (t, .finish) =>
    match s.pc t with
    | .finish c _ element => some (.ret t (Result.of c element))
    | _ => none
  | _ => none

end RingBuffer

section Frames

variable (s : RingBuffer L T Tid)

namespace RingBuffer

@[simp] theorem increment_states (c : Call T) : (s.increment c).states = s.states := by
  cases c <;> rfl

@[simp] theorem increment_elements (c : Call T) : (s.increment c).elements = s.elements := by
  cases c <;> rfl

@[simp] theorem increment_pc (c : Call T) : (s.increment c).pc = s.pc := by
  cases c <;> rfl

@[simp] theorem increment_puts (c : Call T) : (s.increment c).puts = s.puts := by
  cases c <;> rfl

@[simp] theorem increment_takes (c : Call T) : (s.increment c).takes = s.takes := by
  cases c <;> rfl

@[simp] theorem transfer_states (i : Nat) (c : Call T) : (s.transfer i c).1.states = s.states := by
  cases c <;> rfl

@[simp] theorem transfer_pc (i : Nat) (c : Call T) : (s.transfer i c).1.pc = s.pc := by
  cases c <;> rfl

@[simp] theorem transfer_head (i : Nat) (c : Call T) : (s.transfer i c).1.head = s.head := by
  cases c <;> rfl

@[simp] theorem transfer_tail (i : Nat) (c : Call T) : (s.transfer i c).1.tail = s.tail := by
  cases c <;> rfl

@[simp] theorem transfer_entered (i : Nat) (c : Call T) :
    (s.transfer i c).1.entered = s.entered := by
  cases c <;> rfl

@[simp] theorem transfer_puts (i : Nat) (c : Call T) : (s.transfer i c).1.puts = s.puts := by
  cases c <;> rfl

@[simp] theorem transfer_takes (i : Nat) (c : Call T) : (s.transfer i c).1.takes = s.takes := by
  cases c <;> rfl

theorem transfer_of_ne {i j : Nat} (h : j ≠ i) (c : Call T) :
    (s.transfer i c).1.elements j = s.elements j := by
  cases c <;> exact Function.update_of_ne h ..

@[simp] theorem tally_states (i : Nat) (c : Call T) : (s.tally i c).states = s.states := by
  cases c <;> rfl

@[simp] theorem tally_elements (i : Nat) (c : Call T) : (s.tally i c).elements = s.elements := by
  cases c <;> rfl

@[simp] theorem tally_pc (i : Nat) (c : Call T) : (s.tally i c).pc = s.pc := by
  cases c <;> rfl

@[simp] theorem tally_head (i : Nat) (c : Call T) : (s.tally i c).head = s.head := by
  cases c <;> rfl

@[simp] theorem tally_tail (i : Nat) (c : Call T) : (s.tally i c).tail = s.tail := by
  cases c <;> rfl

@[simp] theorem tally_entered (i : Nat) (c : Call T) : (s.tally i c).entered = s.entered := by
  cases c <;> rfl

theorem setState_self (i : Nat) (x : SlotState) : (s.setState i x).states i = x :=
  Function.update_self ..

theorem setState_of_ne {i j : Nat} (h : j ≠ i) (x : SlotState) :
    (s.setState i x).states j = s.states j := Function.update_of_ne h ..

@[simp] theorem setState_elements (i : Nat) (x : SlotState) :
    (s.setState i x).elements = s.elements := rfl

@[simp] theorem setState_pc (i : Nat) (x : SlotState) : (s.setState i x).pc = s.pc := rfl

@[simp] theorem setState_head (i : Nat) (x : SlotState) : (s.setState i x).head = s.head := rfl

@[simp] theorem setState_tail (i : Nat) (x : SlotState) : (s.setState i x).tail = s.tail := rfl

@[simp] theorem setState_entered (i : Nat) (x : SlotState) :
    (s.setState i x).entered = s.entered := rfl

@[simp] theorem setState_puts (i : Nat) (x : SlotState) : (s.setState i x).puts = s.puts := rfl

@[simp] theorem setState_takes (i : Nat) (x : SlotState) : (s.setState i x).takes = s.takes := rfl

section Goto

variable [DecidableEq Tid]

theorem goto_self (t : Tid) (p : Pc T) : (s.goto t p).pc t = p := Function.update_self ..

theorem goto_of_ne {t u : Tid} (h : u ≠ t) (p : Pc T) : (s.goto t p).pc u = s.pc u :=
  Function.update_of_ne h ..

@[simp] theorem goto_states (t : Tid) (p : Pc T) : (s.goto t p).states = s.states := rfl

@[simp] theorem goto_elements (t : Tid) (p : Pc T) : (s.goto t p).elements = s.elements := rfl

@[simp] theorem goto_head (t : Tid) (p : Pc T) : (s.goto t p).head = s.head := rfl

@[simp] theorem goto_tail (t : Tid) (p : Pc T) : (s.goto t p).tail = s.tail := rfl

@[simp] theorem goto_entered (t : Tid) (p : Pc T) : (s.goto t p).entered = s.entered := rfl

@[simp] theorem goto_puts (t : Tid) (p : Pc T) : (s.goto t p).puts = s.puts := rfl

@[simp] theorem goto_takes (t : Tid) (p : Pc T) : (s.goto t p).takes = s.takes := rfl

end Goto

end RingBuffer

end Frames

section Steps

variable [DecidableEq Tid] {s : RingBuffer L T Tid}

open RingBuffer

-- what thread t does to the ring
inductive Moves (s : RingBuffer L T Tid) (t : Tid) : Action T → RingBuffer L T Tid → Prop
  | call (c : Call T) (loaded : Ticket) (h : s.pc t = .idle) :
      Moves s t (.call c loaded) (s.goto t (.test c loaded))
  | refuse (c : Call T) (own loaded : Ticket) (h : s.pc t = .test c own)
      (hr : refuses L own loaded c = true) : Moves s t (.test loaded) (s.goto t .idle)
  | pass (c : Call T) (own loaded : Ticket) (h : s.pc t = .test c own)
      (hr : refuses L own loaded c = false) :
      Moves s t (.test loaded) (s.goto t (.increase c own))
  | take (c : Call T) (own : Ticket) (h : s.pc t = .increase c own)
      (hv : own.value = (s.counter c).value) :
      Moves s t (.increase none) ((s.increment c).goto t (.claim c (s.counter c)))
  | retry (c : Call T) (own loaded : Ticket) (h : s.pc t = .increase c own) :
      Moves s t (.increase (some loaded)) (s.goto t (.test c loaded))
  | claim (c : Call T) (own : Ticket) (h : s.pc t = .claim c own)
      (hx : s.states (L.slot own.value) = c.transfer.expected) :
      Moves s t (.claim true)
        ((s.setState (L.slot own.value) c.transfer.claimed).goto t (.move c own))
  | miss (c : Call T) (own : Ticket) (h : s.pc t = .claim c own) :
      Moves s t (.claim false) (s.goto t (.spin c own))
  | wake (c : Call T) (own : Ticket) (h : s.pc t = .spin c own) :
      Moves s t (.spin c.transfer.expected) (s.goto t (.claim c own))
  | wait (c : Call T) (own : Ticket) (loaded : SlotState) (h : s.pc t = .spin c own) :
      Moves s t (.spin loaded) s
  | move (c : Call T) (own : Ticket) (h : s.pc t = .move c own) :
      Moves s t .move
        ((s.transfer (L.slot own.value) c).1.goto t
          (.finish c own (s.transfer (L.slot own.value) c).2))
  | finish (c : Call T) (own : Ticket) (element : Option T) (h : s.pc t = .finish c own element) :
      Moves s t .finish
        (((s.setState (L.slot own.value) c.transfer.left).tally (L.slot own.value) c).goto t
          .idle)

theorem step_moves {t : Tid} {a : Action T} {s' : RingBuffer L T Tid}
    (h : s.step (t, a) = some s') : Moves s t a s' := by
  cases hp : s.pc t <;> rcases a with _ | _ | (_ | _) | (_ | _) | _ | _ | _ <;>
    simp only [step, hp, reduceCtorEq, Option.some.injEq] at h
  case idle.call c loaded => exact h ▸ .call c loaded hp
  case test.test c own loaded =>
    cases hr : refuses L own loaded c <;> simp only [hr, if_true, Bool.false_eq_true, if_false,
      Option.some.injEq] at h
    · exact h ▸ .pass c own loaded hp hr
    · exact h ▸ .refuse c own loaded hp hr
  case increase.increase.none c own =>
    split_ifs at h with hv
    exact Option.some.inj h ▸ .take c own hp hv
  case increase.increase.some c own loaded => exact h ▸ .retry c own loaded hp
  case claim.claim.true c own =>
    split_ifs at h with hx
    exact Option.some.inj h ▸ .claim c own hp hx
  case claim.claim.false c own => exact h ▸ .miss c own hp
  case spin.spin c own loaded =>
    split_ifs at h with hx
    · exact Option.some.inj h ▸ hx ▸ .wake c own hp
    · exact Option.some.inj h ▸ .wait c own loaded hp
  case move.move c own => exact h ▸ .move c own hp
  case finish.finish c own element => exact h ▸ .finish c own element hp

end Steps

-- a push and a pop that meet at a slot
def meeting : List (Bool × Action Nat) :=
  [(false, .call (.push 7) .zero), (false, .test .zero), (false, .increase none),
    (true, .call .pop .zero), (true, .test Ticket.zero.next), (true, .increase none),
    (false, .claim true), (false, .move), (false, .finish),
    (true, .claim true), (true, .move), (true, .finish)]

end AtomicQueue

end ChatApp
