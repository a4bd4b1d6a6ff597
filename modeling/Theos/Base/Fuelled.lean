import Theos.Base.Rust

/-!
# Computations with a state and loops that may not end

A computation changes a state and ends with a value, an error or a panic, or it
has not ended within the fuel its loops were given (`none`).  An error or a
panic ends the whole computation, so no state goes with it.

`Ends panics x s Q` is the rule for such computations: from `s` the computation
does end, it panics only if `panics` holds, and if it returns, `Q` holds of the
value and the state.
-/

namespace Theos
namespace Base

def Fuelled (σ ε α : Type) : Type :=
  σ → Option (Rust ε (α × σ))

namespace Fuelled

variable {σ ε α β : Type}

/-- One computation after the other, as `?` has it. -/
def andThen (x : Fuelled σ ε α) (f : α → Fuelled σ ε β) (s : σ) : Option (Rust ε (β × σ)) :=
  match x s with
  | none => none
  | some (.error e) => some (.error e)
  | some (.ok (a, s')) => f a s'

instance : Monad (Fuelled σ ε) where
  pure a := fun s => some (.ok (a, s))
  bind := andThen

def get : Fuelled σ ε σ :=
  fun s => some (.ok (s, s))

def modify (f : σ → σ) : Fuelled σ ε Unit :=
  fun s => some (.ok ((), f s))

/-- `return Err(..)`, where the error may name parts of the state. -/
def err (e : σ → ε) : Fuelled σ ε α :=
  fun s => some (Rust.err (e s))

def panic : Fuelled σ ε α :=
  fun _ => some Rust.panic

/-- The fuel is used up. -/
def unfinished : Fuelled σ ε α :=
  fun _ => none

def orPanic : Option α → Fuelled σ ε α
  | some a => pure a
  | none => panic

variable {x : Fuelled σ ε α} {f : α → Fuelled σ ε β} {s s' : σ} {a : α}

theorem bind_of_ok
    (h : x s = some (.ok (a, s'))) :
    (x >>= f) s = f a s' := by
  change andThen x f s = _
  rw [andThen, h]

@[simp] theorem pure_bind
    (a : α) (f : α → Fuelled σ ε β) (s : σ) :
    ((pure a : Fuelled σ ε α) >>= f) s = f a s := rfl

@[simp] theorem get_bind
    (f : σ → Fuelled σ ε β) (s : σ) :
    (get >>= f) s = f s s := rfl

@[simp] theorem modify_bind
    (g : σ → σ) (f : Unit → Fuelled σ ε β) (s : σ) :
    (modify g >>= f) s = f () (g s) := rfl

@[simp] theorem orPanic_some_bind
    (a : α) (f : α → Fuelled σ ε β) (s : σ) :
    (orPanic (some a) >>= f) s = f a s := rfl

theorem bind_assoc {γ : Type}
    (x : Fuelled σ ε α) (f : α → Fuelled σ ε β) (g : β → Fuelled σ ε γ) :
    x >>= f >>= g = x >>= fun a => f a >>= g := by
  funext s
  change andThen (andThen x f) g s = andThen x (fun a => andThen (f a) g) s
  unfold andThen
  rcases x s with _ | (e | ⟨a, s'⟩) <;> rfl

/-! ## Panics -/

def Panics (x : Fuelled σ ε α) (s : σ) : Prop :=
  x s = some Rust.panic

theorem bind_panics_iff :
    Panics (x >>= f) s ↔ Panics x s ∨ ∃ a s', x s = some (.ok (a, s')) ∧ Panics (f a) s' := by
  change andThen x f s = some Rust.panic ↔
    x s = some Rust.panic ∨ ∃ a s', x s = some (.ok (a, s')) ∧ f a s' = some Rust.panic
  unfold andThen
  rcases x s with _ | (e | ⟨a, s'⟩) <;> simp [Rust.panic]

theorem bind_panics_of_ok (h : x s = some (.ok (a, s'))) :
    Panics (x >>= f) s ↔ Panics (f a) s' := by
  rw [Panics, bind_of_ok h]
  rfl

/-! ## The rule for computations that end -/

structure Ends (panics : Prop) (x : Fuelled σ ε α) (s : σ) (Q : α → σ → Prop) : Prop where
  outcome : match x s with
    | none => False
    | some (.ok (a, s')) => Q a s'
    | some (.error (.error _)) => True
    | some (.error .panic) => panics

variable {panics panics' : Prop} {Q Q' : α → σ → Prop} {R : β → σ → Prop}

theorem ends_of_ok (h : x s = some (.ok (a, s')))
    (hQ : Q a s') :
    Ends panics x s Q := by
  constructor
  rw [h]
  exact hQ

theorem Ends.mono (h : Ends panics x s Q) (hpanics : panics → panics')
    (hQ : ∀ a s', Q a s' → Q' a s') :
    Ends panics' x s Q' := by
  have h := h.outcome
  constructor
  rcases hx : x s with _ | ((e | _) | ⟨a, s'⟩) <;> simp only [hx] at h ⊢
  · exact hpanics h
  · exact hQ a s' h

theorem Ends.of_ok (h : Ends panics x s Q)
    (hx : x s = some (.ok (a, s'))) :
    Q a s' := by
  have h := h.outcome
  rwa [hx] at h

theorem Ends.not_panics (h : Ends False x s Q) :
    ¬Panics x s := by
  intro hx
  have h := h.outcome
  rwa [hx] at h

/-- A computation that may not panic may be used where panics are allowed. -/
theorem Ends.allow (h : Ends False x s Q) :
    Ends panics x s Q :=
  h.mono False.elim fun _ _ => id

theorem Ends.imp (h : Ends panics x s Q)
    (hQ : ∀ a s', Q a s' → Q' a s') :
    Ends panics x s Q' :=
  h.mono id hQ

theorem Ends.bind (h : Ends panics x s Q)
    (hf : ∀ a s', Q a s' → Ends panics (f a) s' R) :
    Ends panics (x >>= f) s R := by
  have h := h.outcome
  constructor
  change match andThen x f s with
    | none => False
    | some (.ok (a, s')) => R a s'
    | some (.error (.error _)) => True
    | some (.error .panic) => panics
  unfold andThen
  rcases hx : x s with _ | ((e | _) | ⟨a, s'⟩) <;> simp only [hx] at h ⊢
  · exact h
  · exact (hf a s' h).outcome

theorem ends_pure
    (h : Q a s) :
    Ends panics (pure a : Fuelled σ ε α) s Q :=
  ⟨h⟩

theorem ends_modify {g : σ → σ} {Q : Unit → σ → Prop}
    (h : Q () (g s)) :
    Ends panics (modify g : Fuelled σ ε Unit) s Q :=
  ⟨h⟩

theorem ends_err
    (e : σ → ε) :
    Ends panics (err e : Fuelled σ ε α) s Q :=
  ⟨trivial⟩

theorem ends_panic
    (h : panics) :
    Ends panics (panic : Fuelled σ ε α) s Q :=
  ⟨h⟩

theorem ends_bind_of_ok (h : x s = some (.ok (a, s')))
    (hf : Ends panics (f a) s' R) :
    Ends panics (x >>= f) s R := by
  constructor
  rw [bind_of_ok h]
  exact hf.outcome

theorem ends_get_bind {f : σ → Fuelled σ ε β}
    (hf : Ends panics (f s) s R) :
    Ends panics (get >>= f) s R :=
  ⟨hf.outcome⟩

theorem ends_modify_bind {g : σ → σ} {f : Unit → Fuelled σ ε β}
    (hf : Ends panics (f ()) (g s) R) :
    Ends panics (modify g >>= f) s R :=
  ⟨hf.outcome⟩

theorem ends_orPanic_bind {o : Option α} (ho : o = some a)
    (hf : Ends panics (f a) s R) :
    Ends panics (orPanic o >>= f) s R := by
  rw [ho]
  exact ⟨hf.outcome⟩

/-! ## More fuel -/

/-- Where `x` ends, `y` ends in the same way. -/
def Extends (x y : Fuelled σ ε α) : Prop :=
  ∀ s r, x s = some r → y s = some r

theorem Extends.refl
    (x : Fuelled σ ε α) :
    Extends x x :=
  fun _ _ => id

theorem Extends.bind {x y : Fuelled σ ε α} {f g : α → Fuelled σ ε β} (hx : Extends x y)
    (hf : ∀ a, Extends (f a) (g a)) :
    Extends (x >>= f) (y >>= g) := by
  intro s r h
  change andThen x f s = some r at h
  change andThen y g s = some r
  unfold andThen at h ⊢
  rcases hxs : x s with _ | (e | ⟨a, s'⟩) <;> rw [hxs] at h
  · cases h
  · rw [hx s _ hxs]
    exact h
  · rw [hx s _ hxs]
    exact hf a s' r h

theorem extends_ite {c : Prop} [Decidable c] {x x' y y' : Fuelled σ ε α}
    (hx : Extends x x') (hy : Extends y y') :
    Extends (if c then x else y) (if c then x' else y') := by
  by_cases h : c
  · rwa [if_pos h, if_pos h]
  · rwa [if_neg h, if_neg h]

theorem unfinished_extends
    (x : Fuelled σ ε α) :
    Extends unfinished x := by
  intro s r h
  cases h

end Fuelled
end Base
end Theos
