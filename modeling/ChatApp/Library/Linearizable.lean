import ChatApp.Library.Runs
import Mathlib.Logic.Function.Basic

namespace SharedObject

variable {Q Op Res Tid : Type}

-- a sequential object: what a call returns and what it leaves
structure Object (Q Op Res : Type) where
  start : Q
  apply : Q → Op → Res × Q

inductive Pending (Op Res : Type) where
  | none
  | called (op : Op)
  | applied (r : Res)

inductive Event (Op Res Tid : Type) where
  | call (t : Tid) (op : Op)
  | ret (t : Tid) (r : Res)

structure Config (Q Op Res Tid : Type) where
  value : Q
  pending : Tid → Pending Op Res

variable [DecidableEq Tid]

def Config.set (s : Config Q Op Res Tid) (i : Tid) (p : Pending Op Res) : Config Q Op Res Tid :=
  { s with pending := Function.update s.pending i p }

def start (o : Object Q Op Res) : Config Q Op Res Tid := ⟨o.start, fun _ => .none⟩

-- a call takes effect at one moment between the events of its call and of its return
inductive Trace (o : Object Q Op Res) :
    Config Q Op Res Tid → List (Event Op Res Tid) → Config Q Op Res Tid → Prop
  | nil (s : Config Q Op Res Tid) : Trace o s [] s
  | call {s u : Config Q Op Res Tid} {es : List (Event Op Res Tid)} (i : Tid) (op : Op)
      (h : s.pending i = .none) (rest : Trace o (s.set i (.called op)) es u) :
      Trace o s (.call i op :: es) u
  | apply {s u : Config Q Op Res Tid} {es : List (Event Op Res Tid)} (i : Tid) (op : Op)
      (h : s.pending i = .called op)
      (rest : Trace o
        (Config.set { s with value := (o.apply s.value op).2 } i
          (.applied (o.apply s.value op).1)) es u) : Trace o s es u
  | ret {s u : Config Q Op Res Tid} {es : List (Event Op Res Tid)} (i : Tid) (r : Res)
      (h : s.pending i = .applied r) (rest : Trace o (s.set i .none) es u) :
      Trace o s (.ret i r :: es) u

variable {o : Object Q Op Res} {s t u : Config Q Op Res Tid}

def Linearizable (o : Object Q Op Res) (es : List (Event Op Res Tid)) : Prop :=
  ∃ s, Trace o (start o) es s

theorem Trace.append {es es' : List (Event Op Res Tid)} (h : Trace o s es t)
    (h' : Trace o t es' u) : Trace o s (es ++ es') u := by
  induction h with
  | nil _ => exact h'
  | call i op hp _ ih => exact .call i op hp (ih h')
  | apply i op hp _ ih => exact .apply i op hp (ih h')
  | ret i r hp _ ih => exact .ret i r hp (ih h')

section Simulation

variable {S L : Type} {step : S → L → Option S} {C : S → L → Prop}
  {event : S → L → Option (Event Op Res Tid)} {abs : S → Config Q Op Res Tid} {I : S → Prop}

theorem trace_of_simulation {ls : List L} {a : S} (hI : I a)
    (hstep : ∀ a l b, I a → C a l → step a l = some b →
      I b ∧ Trace o (abs a) (event a l).toList (abs b))
    (h : Runs.Before step C a ls) :
    ∃ u, Trace o (abs a) (Runs.observed step event a ls) u := by
  induction ls generalizing a with
  | nil => exact ⟨abs a, .nil _⟩
  | cons l ls ih =>
    obtain ⟨hc, hrest⟩ := h
    cases hb : step a l with
    | none =>
      simp only [Runs.observed, hb]
      exact ⟨abs a, .nil _⟩
    | some b =>
      obtain ⟨hIb, htrace⟩ := hstep a l b hI hc hb
      obtain ⟨u, hu⟩ := ih hIb (hrest b hb)
      simp only [Runs.observed, hb]
      exact ⟨u, htrace.append hu⟩

theorem linearizable_of_simulation {ls : List L} {a : S} (hstart : abs a = start o) (hI : I a)
    (hstep : ∀ a l b, I a → C a l → step a l = some b →
      I b ∧ Trace o (abs a) (event a l).toList (abs b))
    (h : Runs.Before step C a ls) : Linearizable o (Runs.observed step event a ls) := by
  obtain ⟨u, hu⟩ := trace_of_simulation hI hstep h
  exact ⟨u, hstart ▸ hu⟩

end Simulation

end SharedObject
