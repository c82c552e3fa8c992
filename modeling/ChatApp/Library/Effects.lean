import Mathlib.Logic.Basic

namespace Effects

variable {ε σ α β : Type}

section Run

variable {m : EStateM ε σ α} {f : α → EStateM ε σ β} {s t : σ} {a : α} {b : β} {e : ε}

@[simp] theorem pure_run (a : α) (s : σ) : (pure a : EStateM ε σ α) s = .ok a s := rfl

@[simp] theorem throw_run (e : ε) (s : σ) : (throw e : EStateM ε σ α) s = .error e s := rfl

@[simp] theorem get_run (s : σ) : (get : EStateM ε σ σ) s = .ok s s := rfl

@[simp] theorem modify_run (g : σ → σ) (s : σ) :
    (modify g : EStateM ε σ PUnit) s = .ok ⟨⟩ (g s) := rfl

@[simp] theorem set_run (s t : σ) : (set t : EStateM ε σ PUnit) s = .ok ⟨⟩ t := rfl

theorem bind_run (m : EStateM ε σ α) (f : α → EStateM ε σ β) (s : σ) :
    (m >>= f) s = match m s with
      | .ok a t => f a t
      | .error e t => .error e t := by
  simp only [bind, EStateM.bind]
  cases m s <;> rfl

theorem map_run (g : α → β) (m : EStateM ε σ α) (s : σ) :
    (g <$> m) s = match m s with
      | .ok a t => .ok (g a) t
      | .error e t => .error e t := by
  simp only [Functor.map, EStateM.map]
  cases m s <;> rfl

@[simp] theorem pure_bind_run (a : α) (f : α → EStateM ε σ β) (s : σ) :
    (pure a >>= f : EStateM ε σ β) s = f a s := rfl

@[simp] theorem throw_bind_run (e : ε) (f : α → EStateM ε σ β) (s : σ) :
    ((throw e : EStateM ε σ α) >>= f) s = .error e s := rfl

@[simp] theorem get_bind_run (f : σ → EStateM ε σ β) (s : σ) : (get >>= f) s = f s s := rfl

@[simp] theorem modify_bind_run (g : σ → σ) (f : PUnit → EStateM ε σ β) (s : σ) :
    (modify g >>= f) s = f ⟨⟩ (g s) := rfl

@[simp] theorem set_bind_run (t : σ) (f : PUnit → EStateM ε σ β) (s : σ) :
    (set t >>= f) s = f ⟨⟩ t := rfl

theorem bind_of_ok (h : m s = .ok a t) : (m >>= f) s = f a t := by rw [bind_run, h]

theorem bind_of_error (h : m s = .error e t) : (m >>= f) s = .error e t := by rw [bind_run, h]

theorem bind_ok (h : (m >>= f) s = .ok b t) : ∃ a u, m s = .ok a u ∧ f a u = .ok b t := by
  rw [bind_run] at h
  cases hr : m s with
  | ok a u => rw [hr] at h; exact ⟨a, u, rfl, h⟩
  | error e u => rw [hr] at h; cases h

end Run

def final : EStateM.Result ε σ α → σ
  | .ok _ s => s
  | .error _ s => s

@[simp] theorem final_ok (a : α) (s : σ) : final (.ok a s : EStateM.Result ε σ α) = s := rfl

@[simp] theorem final_error (e : ε) (s : σ) : final (.error e s : EStateM.Result ε σ α) = s := rfl

def Triple (P : σ → Prop) (m : EStateM ε σ α) (Q : α → σ → Prop) (E : ε → σ → Prop) : Prop :=
  ∀ s, P s → match m s with
    | .ok a t => Q a t
    | .error e t => E e t

variable {P : σ → Prop} {m : EStateM ε σ α} {Q : α → σ → Prop} {E : ε → σ → Prop}

theorem Triple.ok (h : Triple P m Q E) {s t : σ} {a : α} (hs : P s) (hm : m s = .ok a t) :
    Q a t := by
  have := h s hs
  rwa [hm] at this

theorem Triple.error (h : Triple P m Q E) {s t : σ} {e : ε} (hs : P s) (hm : m s = .error e t) :
    E e t := by
  have := h s hs
  rwa [hm] at this

theorem Triple.bind {f : α → EStateM ε σ β} {R : β → σ → Prop} (h : Triple P m Q E)
    (hf : ∀ a, Triple (Q a) (f a) R E) : Triple P (m >>= f) R E := by
  intro s hs
  have hm := h s hs
  rw [bind_run]
  cases hr : m s with
  | ok a t => rw [hr] at hm; exact hf a t hm
  | error e t => rw [hr] at hm; exact hm

section Keeps

variable {I : σ → Prop}

-- m leaves I true, whether it throws or not
def Keeps (I : σ → Prop) (m : EStateM ε σ α) : Prop := ∀ s, I s → I (final (m s))

theorem Keeps.pure (a : α) : Keeps I (Pure.pure a : EStateM ε σ α) := fun _ h => h

theorem Keeps.throw (e : ε) : Keeps I (MonadExcept.throw e : EStateM ε σ α) := fun _ h => h

theorem Keeps.get : Keeps I (MonadState.get : EStateM ε σ σ) := fun _ h => h

theorem Keeps.modify {g : σ → σ} (h : ∀ s, I s → I (g s)) :
    Keeps I (modifyThe σ g : EStateM ε σ PUnit) := h

theorem Keeps.bind {k : α → EStateM ε σ β} (hm : Keeps I m) (hk : ∀ a, Keeps I (k a)) :
    Keeps I (m >>= k) := by
  intro s hs
  have h := hm s hs
  rw [bind_run]
  cases hr : m s with
  | ok a t =>
    rw [hr] at h
    exact hk a t h
  | error e t =>
    rw [hr] at h
    exact h

end Keeps

section Frame

variable {γ : Type} {f : σ → γ}

-- m leaves what f reads as it is, whether it throws or not
def Frame (f : σ → γ) (m : EStateM ε σ α) : Prop := ∀ s, f (final (m s)) = f s

theorem Frame.keeps (h : Frame f m) {I : γ → Prop} : Keeps (fun s => I (f s)) m := by
  intro s hs
  rwa [h s]

theorem Frame.of_keeps (h : ∀ c, Keeps (fun s => f s = c) m) : Frame f m := fun s => h (f s) s rfl

theorem Frame.pure (a : α) : Frame f (Pure.pure a : EStateM ε σ α) := fun _ => rfl

theorem Frame.throw (e : ε) : Frame f (MonadExcept.throw e : EStateM ε σ α) := fun _ => rfl

theorem Frame.get : Frame f (MonadState.get : EStateM ε σ σ) := fun _ => rfl

theorem Frame.modify {g : σ → σ} (h : ∀ s, f (g s) = f s) :
    Frame f (modifyThe σ g : EStateM ε σ PUnit) := h

theorem Frame.bind {k : α → EStateM ε σ β} (hm : Frame f m) (hk : ∀ a, Frame f (k a)) :
    Frame f (m >>= k) := by
  intro s
  have h := hm s
  rw [bind_run]
  cases hr : m s with
  | ok a t =>
    rw [hr] at h
    exact (hk a t).trans h
  | error e t =>
    rw [hr] at h
    exact h

-- a step that only reads either ends the computation or hands its result on
theorem Frame.reads {P : σ → Prop} {k : α → EStateM ε σ β} {s : σ} (hm : Frame id m) (h0 : P s)
    (hk : ∀ a, m s = .ok a s → P (final (k a s))) : P (final ((m >>= k) s)) := by
  have h := hm s
  rw [bind_run]
  cases hr : m s with
  | ok a t =>
    rw [hr] at h
    obtain rfl : t = s := h
    exact hk a hr
  | error e t =>
    rw [hr] at h
    obtain rfl : t = s := h
    exact h0

-- what holds wherever f is still c, after m or in the end
theorem Frame.leads {R : σ → Prop} {c : γ} {k : α → EStateM ε σ β} {s : σ} (hs : f s = c)
    (h0 : ∀ t, f t = c → R t) (hm : Frame f m) (hk : ∀ a t, f t = c → R (final (k a t))) :
    R (final ((m >>= k) s)) := by
  have h := (hm s).trans hs
  rw [bind_run]
  cases hr : m s with
  | ok a t =>
    rw [hr] at h
    exact hk a t h
  | error e t =>
    rw [hr] at h
    exact h0 t h

theorem Frame.ok {s t : σ} {a : α} (h : Frame f m) (hr : m s = .ok a t) : f t = f s := by
  have := h s
  rwa [hr] at this

end Frame

end Effects
