import ChatApp.Library.Effects

namespace Scripts

open Effects

-- a program between two of its operations; whoever else there is may move before the next one
inductive Script (σ δ α : Type) where
  | done (a : α)
  | fail (d : δ)
  | act (f : σ → σ) (k : σ → Script σ δ α)

namespace Script

variable {σ δ ε α β : Type}

def bind : Script σ δ α → (α → Script σ δ β) → Script σ δ β
  | .done a, g => g a
  | .fail d, _ => .fail d
  | .act f k, g => .act f fun s => (k s).bind g

instance : Monad (Script σ δ) where
  pure := .done
  bind := .bind

def handle (h : δ → Script σ δ α) : Script σ δ α → Script σ δ α
  | .done a => .done a
  | .fail d => h d
  | .act f k => .act f fun s => (k s).handle h

-- the whole of m as one operation
def op (w : ε → δ) (m : EStateM ε σ α) : Script σ δ α :=
  .act (fun s => final (m s)) fun s =>
    match m s with
    | .ok a _ => .done a
    | .error e _ => .fail (w e)

def lift (w : ε → δ) : Except ε α → Script σ δ α
  | .ok a => .done a
  | .error e => .fail (w e)

def next (s : σ) : Script σ δ α → σ × Script σ δ α
  | .done a => (s, .done a)
  | .fail d => (s, .fail d)
  | .act f k => (f s, k s)

-- the states it comes through when nobody else moves
def trace : Script σ δ α → σ → List σ
  | .done _, _ => []
  | .fail _, _ => []
  | .act f k, s => f s :: (k s).trace (f s)

-- the program when nobody else moves
def alone (w : δ → ε) : Script σ δ α → EStateM ε σ α
  | .done a => pure a
  | .fail d => throw (w d)
  | .act f k => fun s => (k s).alone w (f s)

section Alone

variable {w : δ → ε} {p : Script σ δ α} {g : α → Script σ δ β}

@[simp] theorem alone_pure (a : α) : (pure a : Script σ δ α).alone w = pure a := rfl

@[simp] theorem alone_fail (d : δ) : (.fail d : Script σ δ α).alone w = throw (w d) := rfl

@[simp] theorem alone_bind : (p >>= g).alone w = p.alone w >>= fun a => (g a).alone w := by
  induction p with
  | done a => rfl
  | fail d => rfl
  | act f k ih =>
    funext s
    exact congrFun (ih s) (f s)

theorem alone_op {v : ε → δ} (hv : ∀ e, w (v e) = e) (m : EStateM ε σ α) :
    (op v m).alone w = m := by
  funext s
  simp only [op, alone]
  cases hr : m s with
  | ok a t => rfl
  | error e t =>
    simp only [final_error, alone, hv]
    rfl

end Alone

section Outlines

variable {φ γ : Type}

-- p goes through its operations, each from what I says of the state, by a move that M allows;
-- g is what p holds of the state, r what the others hold
def Outline (I : φ → γ → σ → Prop) (M : φ → γ → σ → γ → σ → Prop) (F : δ → Prop)
    (Q : γ → α → Prop) : Script σ δ α → γ → Prop
  | .done a, g => Q g a
  | .fail d, _ => F d
  | .act f k, g => ∀ r s, I r g s → ∃ g', M r g s g' (f s) ∧ (k s).Outline I M F Q g'

variable {I : φ → γ → σ → Prop} {M : φ → γ → σ → γ → σ → Prop} {F : δ → Prop}
variable {Q : γ → α → Prop} {R : γ → β → Prop} {p : Script σ δ α} {k : α → Script σ δ β} {g : γ}

theorem Outline.imp {Q' : γ → α → Prop} (h : p.Outline I M F Q g) (hQ : ∀ g a, Q g a → Q' g a) :
    p.Outline I M F Q' g := by
  induction p generalizing g with
  | done a => exact hQ g a h
  | fail d => exact h
  | act f k ih =>
    intro r s hs
    obtain ⟨g', hm, hk⟩ := h r s hs
    exact ⟨g', hm, ih s hk⟩

theorem Outline.weaken {G : δ → Prop} (h : p.Outline I M F Q g) (hG : ∀ d, F d → G d) :
    p.Outline I M G Q g := by
  induction p generalizing g with
  | done a => exact h
  | fail d => exact hG d h
  | act f k ih =>
    intro r s hs
    obtain ⟨g', hm, hk⟩ := h r s hs
    exact ⟨g', hm, ih s hk⟩

theorem Outline.bind (h : p.Outline I M F Q g) (hk : ∀ g a, Q g a → (k a).Outline I M F R g) :
    (p >>= k).Outline I M F R g := by
  induction p generalizing g with
  | done a => exact hk g a h
  | fail d => exact h
  | act f next ih =>
    intro r s hs
    obtain ⟨g', hm, hnext⟩ := h r s hs
    exact ⟨g', hm, ih s hnext⟩

theorem Outline.handle {h : δ → Script σ δ α} {G : δ → Prop} (hp : p.Outline I M F Q g)
    (hh : ∀ g d, F d → (h d).Outline I M G Q g) : (p.handle h).Outline I M G Q g := by
  induction p generalizing g with
  | done a => exact hp
  | fail d => exact hh g d hp
  | act f k ih =>
    intro r s hs
    obtain ⟨g', hm, hk⟩ := hp r s hs
    exact ⟨g', hm, ih s hk⟩

theorem Outline.op {w : ε → δ} {m : EStateM ε σ α}
    (h : ∀ r s, I r g s → ∃ g', M r g s g' (final (m s)) ∧
      (∀ a t, m s = .ok a t → Q g' a) ∧ ∀ e t, m s = .error e t → F (w e)) :
    (op w m).Outline I M F Q g := by
  intro r s hs
  obtain ⟨g', hm, hok, herr⟩ := h r s hs
  refine ⟨g', hm, ?_⟩
  cases hr : m s with
  | ok a t =>
    simp only [hr]
    exact hok a t hr
  | error e t =>
    simp only [hr]
    exact herr e t hr

theorem Outline.lift {w : ε → δ} {x : Except ε α} (hok : ∀ a, x = .ok a → Q g a)
    (herr : ∀ e, x = .error e → F (w e)) : (lift w x : Script σ δ α).Outline I M F Q g := by
  cases x with
  | ok a => exact hok a rfl
  | error e => exact herr e rfl

end Outlines

section Frames

variable {φ γ : Type} {view : σ → φ} {p : Script σ δ α} {k : α → Script σ δ β}

-- no operation of the program changes what view sees
def Frames (view : σ → φ) : Script σ δ α → Prop
  | .done _ => True
  | .fail _ => True
  | .act f k => ∀ s, view (f s) = view s ∧ (k s).Frames view

theorem Frames.bind (h : p.Frames view) (hk : ∀ a, (k a).Frames view) : (p >>= k).Frames view := by
  induction p with
  | done a => exact hk a
  | fail d => trivial
  | act f next ih => exact fun s => ⟨(h s).1, ih s (h s).2⟩

theorem Frames.op {w : ε → δ} {m : EStateM ε σ α} (h : Frame view m) : (op w m).Frames view := by
  intro s
  refine ⟨h s, ?_⟩
  cases hr : m s <;> simp only [hr] <;> trivial

theorem Frames.lift {w : ε → δ} (x : Except ε α) : (lift w x : Script σ δ α).Frames view := by
  cases x <;> trivial

theorem Frames.map {ψ : Type} (h : p.Frames view) (g : φ → ψ) :
    p.Frames fun s => g (view s) := by
  induction p with
  | done a => trivial
  | fail d => trivial
  | act f k ih => exact fun s => ⟨congrArg g (h s).1, ih s (h s).2⟩

theorem Frames.next (h : p.Frames view) (s : σ) :
    view (p.next s).1 = view s ∧ (p.next s).2.Frames view := by
  cases p with
  | done a => exact ⟨rfl, trivial⟩
  | fail d => exact ⟨rfl, trivial⟩
  | act f k => exact h s

theorem Frames.outline {I : φ → γ → σ → Prop} {M : φ → γ → σ → γ → σ → Prop} {F : δ → Prop}
    {Q : γ → α → Prop} {ψ : Type} {view : σ → ψ} {g : γ} (h : p.Frames view)
    (hM : ∀ r s t, I r g s → view t = view s → M r g s g t) (hF : ∀ d, F d) (hQ : ∀ a, Q g a) :
    p.Outline I M F Q g := by
  induction p with
  | done a => exact hQ a
  | fail d => exact hF d
  | act f k ih => exact fun r s hs => ⟨g, hM r s (f s) hs (h s).1, ih s (h s).2⟩

end Frames

end Script

end Scripts
