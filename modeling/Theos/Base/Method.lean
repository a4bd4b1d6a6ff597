import Theos.Base.Rust

/-!
# Methods on mutable state

A Rust method on `&mut self` that returns `Result<T, E>` changes the state on
its way to either result: an early `return Err(e)` keeps what was written
before it.  `Method σ ε α` is such a method on a state `σ`.  Besides returning,
it can stop for good, by a panic or by waiting for a lock it holds itself.
-/

namespace Theos
namespace Base

/-- The ways of never returning. -/
inductive Stop where
  | panic
  | deadlock
deriving DecidableEq, Repr

/-- A method that returns a value or an error together with the new state, or
stops. -/
def Method (σ ε α : Type) : Type :=
  σ → Except Stop (Except ε α × σ)

namespace Method

variable {σ τ ε ε' α β : Type}

def bind (x : Method σ ε α)
    (f : α → Method σ ε β) : Method σ ε β :=
  fun s =>
    match x s with
    | .error stop => .error stop
    | .ok (.error e, s') => .ok (.error e, s')
    | .ok (.ok a, s') => f a s'

instance : Monad (Method σ ε) where
  pure a := fun s => .ok (.ok a, s)
  bind := bind

/-- `return Err(e)`. -/
def err
    (e : ε) : Method σ ε α :=
  fun s => .ok (.error e, s)

def stop
    (why : Stop) : Method σ ε α :=
  fun _ => .error why

/-- Read the state. -/
def get : Method σ ε σ :=
  fun s => .ok (.ok s, s)

/-- Write the state. -/
def modify
    (f : σ → σ) : Method σ ε Unit :=
  fun s => .ok (.ok (), f s)

/-- `opt.ok_or(e)?`. -/
def okOr
    (e : ε) : Option α → Method σ ε α
  | some a => pure a
  | none => err e

/-- A step that panics when there is no value. -/
def orPanic : Option α → Method σ ε α
  | some a => pure a
  | none => stop .panic

/-- A method of a part of the state, its errors turned into the caller's. -/
def part (view : σ → τ) (put : τ → σ → σ) (conv : ε' → ε)
    (x : Method τ ε' α) : Method σ ε α :=
  fun s =>
    match x (view s) with
    | .error why => .error why
    | .ok (.error e, t) => .ok (.error (conv e), put t s)
    | .ok (.ok a, t) => .ok (.ok a, put t s)

/-- Run a method and hand its `Result` on as a value. -/
def attempt
    (x : Method σ ε' α) : Method σ ε (Except ε' α) :=
  fun s =>
    match x s with
    | .error why => .error why
    | .ok (r, s') => .ok (.ok r, s')

/-! ## Equations and inversion -/

@[simp]
theorem pure_apply (a : α)
    (s : σ) :
    (pure a : Method σ ε α) s = .ok (.ok a, s) :=
  rfl

@[simp]
theorem err_apply (e : ε)
    (s : σ) :
    (err e : Method σ ε α) s = .ok (.error e, s) :=
  rfl

@[simp]
theorem get_apply
    (s : σ) :
    (get : Method σ ε σ) s = .ok (.ok s, s) :=
  rfl

@[simp]
theorem modify_apply (f : σ → σ)
    (s : σ) :
    (modify f : Method σ ε Unit) s = .ok (.ok (), f s) :=
  rfl

@[simp]
theorem stop_apply (why : Stop)
    (s : σ) :
    (stop why : Method σ ε α) s = .error why :=
  rfl

@[simp]
theorem okOr_some (e : ε)
    (a : α) :
    (okOr e (some a) : Method σ ε α) = pure a :=
  rfl

@[simp]
theorem okOr_none
    (e : ε) :
    (okOr e none : Method σ ε α) = err e :=
  rfl

@[simp]
theorem orPanic_some
    (a : α) :
    (orPanic (some a) : Method σ ε α) = pure a :=
  rfl

@[simp]
theorem orPanic_none :
    (orPanic none : Method σ ε α) = stop .panic :=
  rfl

@[simp]
theorem stop_bind_apply (why : Stop) (f : α → Method σ ε β)
    (s : σ) :
    ((stop why : Method σ ε α) >>= f) s = .error why :=
  rfl

@[simp]
theorem pure_bind_apply (a : α) (f : α → Method σ ε β)
    (s : σ) :
    ((pure a : Method σ ε α) >>= f) s = f a s :=
  rfl

@[simp]
theorem get_bind_apply (f : σ → Method σ ε β)
    (s : σ) :
    ((get : Method σ ε σ) >>= f) s = f s s :=
  rfl

@[simp]
theorem modify_bind_apply (g : σ → σ) (f : Unit → Method σ ε β)
    (s : σ) :
    ((modify g : Method σ ε Unit) >>= f) s = f () (g s) :=
  rfl

@[simp]
theorem err_bind_apply (e : ε) (f : α → Method σ ε β)
    (s : σ) :
    ((err e : Method σ ε α) >>= f) s = .ok (.error e, s) :=
  rfl

theorem bind_of_ok {x : Method σ ε α} {f : α → Method σ ε β} {s s₁ : σ} {a : α}
    (h : x s = .ok (.ok a, s₁)) :
    (x >>= f) s = f a s₁ := by
  change bind x f s = f a s₁
  simp only [bind, h]

theorem bind_of_err {x : Method σ ε α} {f : α → Method σ ε β} {s s₁ : σ} {e : ε}
    (h : x s = .ok (.error e, s₁)) :
    (x >>= f) s = .ok (.error e, s₁) := by
  change bind x f s = _
  simp only [bind, h]

theorem part_of_ok {view : σ → τ} {put : τ → σ → σ} {conv : ε' → ε} {x : Method τ ε' α} {s : σ}
    {t : τ} {a : α}
    (h : x (view s) = .ok (.ok a, t)) :
    part view put conv x s = .ok (.ok a, put t s) := by
  simp only [part, h]

theorem attempt_of_ok {x : Method σ ε' α} {s s' : σ} {r : Except ε' α}
    (h : x s = .ok (r, s')) :
    (attempt x : Method σ ε (Except ε' α)) s = .ok (.ok r, s') := by
  simp only [attempt, h]

end Method

end Base
end Theos
