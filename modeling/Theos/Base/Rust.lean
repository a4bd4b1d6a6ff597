import Mathlib.Data.List.Basic
import Mathlib.Tactic

/-!
# Rust results: values, errors and panics

A Rust function that returns `Result<T, E>` ends in one of three ways: with
`Ok`, with `Err`, or by a panic (an index out of range, an `unwrap` on nothing,
an arithmetic overflow, which the build checks).  `Rust E T` keeps the three
apart.  The `?` operator is the monadic bind of `Except`, which passes errors
and panics on alike.

Functions that cannot return an error are modelled with plain `Option`, where
`none` is the panic.
-/

namespace Theos
namespace Base

universe u v w

/-- The two ways of not returning a value. -/
inductive Fault (ε : Type u) where
  | error (e : ε)
  | panic
deriving DecidableEq, Repr

/-- A computation that returns a value, an error, or panics. -/
abbrev Rust (ε : Type u) (α : Type v) := Except (Fault ε) α

theorem except_bind_eq_ok {ε : Type u} {α β : Type w}
    {x : Except ε α} {f : α → Except ε β} {b : β} :
    (x >>= f) = .ok b ↔ ∃ a, x = .ok a ∧ f a = .ok b := by
  cases x with
  | error e =>
    constructor
    · intro h
      cases h
    · rintro ⟨a, h, _⟩
      cases h
  | ok a =>
    constructor
    · intro h
      exact ⟨a, rfl, h⟩
    · rintro ⟨a', h, hb⟩
      cases h
      exact hb

theorem except_map_eq_ok {ε : Type u} {α : Type v} {β : Type w}
    {x : Except ε α} {f : α → β} {b : β} :
    x.map f = .ok b ↔ ∃ a, x = .ok a ∧ f a = b := by
  cases x <;> simp [Except.map]

namespace Rust

variable {ε : Type u} {ε' : Type v} {α : Type w}

/-- `return Err(e)`. -/
def err (e : ε) : Rust ε α :=
  .error (.error e)

/-- A panic. -/
def panic : Rust ε α :=
  .error .panic

/-- A step that panics when there is no value. -/
def orPanic : Option α → Rust ε α
  | some a => .ok a
  | none => panic

/-- `Option::ok_or(e)`. -/
def okOr (e : ε) : Option α → Rust ε α
  | some a => .ok a
  | none => err e

/-- `Result::map_err`, which leaves panics alone. -/
def mapErr (f : ε → ε') : Rust ε α → Rust ε' α
  | .ok a => .ok a
  | .error (.error e) => .error (.error (f e))
  | .error .panic => .error .panic

@[simp] theorem orPanic_some
    (a : α) :
    (orPanic (some a) : Rust ε α) = .ok a := rfl

@[simp] theorem okOr_some
    (e : ε) (a : α) :
    okOr e (some a) = .ok a := rfl

@[simp] theorem okOr_none
    (e : ε) :
    (okOr e none : Rust ε α) = err e := rfl

@[simp] theorem ok_bind {β : Type w}
    (a : α) (f : α → Rust ε β) :
    ((.ok a : Rust ε α) >>= f) = f a := rfl

@[simp] theorem err_bind {β : Type w}
    (e : ε) (f : α → Rust ε β) :
    ((err e : Rust ε α) >>= f) = err e := rfl

@[simp] theorem mapErr_ok
    (f : ε → ε') (a : α) :
    mapErr f (.ok a : Rust ε α) = .ok a := rfl

theorem mapErr_eq_ok_iff
    (f : ε → ε') (x : Rust ε α) (a : α) :
    mapErr f x = .ok a ↔ x = .ok a := by
  cases x with
  | ok b =>
    simp
  | error e =>
    cases e <;> simp [mapErr]

theorem okOr_eq_ok_iff
    (e : ε) (x : Option α) (a : α) :
    okOr e x = .ok a ↔ x = some a := by
  cases x with
  | none =>
    simp [err]
  | some b =>
    simp

theorem orPanic_eq_ok_iff
    (x : Option α) (a : α) :
    (orPanic x : Rust ε α) = .ok a ↔ x = some a := by
  cases x with
  | none =>
    simp [orPanic, panic]
  | some b =>
    simp

/-- The bind rule: a sequence returns a value only if both parts do. -/
theorem bind_eq_ok {β : Type w}
    {x : Rust ε α} {f : α → Rust ε β} {b : β} :
    (x >>= f) = .ok b ↔ ∃ a, x = .ok a ∧ f a = .ok b :=
  except_bind_eq_ok

/-- A sequence panics where its first part does, or the second after the first. -/
theorem bind_ne_panic {β : Type w}
    {x : Rust ε α} {f : α → Rust ε β} :
    (x >>= f) ≠ panic ↔ x ≠ panic ∧ ∀ a, x = .ok a → f a ≠ panic := by
  cases x with
  | error e =>
    have hbind : ((.error e : Rust ε α) >>= f) = .error e := rfl
    rw [hbind]
    simp [panic]
  | ok a =>
    rw [ok_bind]
    simp [panic]

theorem ok_ne_panic
    (a : α) :
    (.ok a : Rust ε α) ≠ panic := by
  simp [panic]

theorem err_ne_panic
    (e : ε) :
    (err e : Rust ε α) ≠ panic := by
  simp [panic, err]

theorem okOr_ne_panic
    (e : ε) (x : Option α) :
    okOr e x ≠ panic := by
  cases x with
  | none =>
    exact err_ne_panic e
  | some a =>
    exact ok_ne_panic a

theorem mapErr_ne_panic
    (f : ε → ε') (x : Rust ε α) :
    mapErr f x ≠ panic ↔ x ≠ panic := by
  rcases x with (e | _) | a <;> simp [mapErr, panic]

theorem orPanic_ne_panic
    (x : Option α) :
    (orPanic x : Rust ε α) ≠ panic ↔ ∃ a, x = some a := by
  cases x with
  | none =>
    simp [orPanic]
  | some a =>
    simp [panic]

end Rust

/-! ## Checked machine arithmetic -/

/-- `a + b` in a `w`-bit unsigned type, where an overflow panics. -/
def addU (w a b : Nat) : Option Nat :=
  if a + b < 2 ^ w then some (a + b) else none

/-- `a - b` in an unsigned type, where an underflow panics. -/
def subU (a b : Nat) : Option Nat :=
  if b ≤ a then some (a - b) else none

/-- `a * b` in a `w`-bit unsigned type, where an overflow panics. -/
def mulU (w a b : Nat) : Option Nat :=
  if a * b < 2 ^ w then some (a * b) else none

/-- `a.saturating_add(b)` in a `w`-bit unsigned type. -/
def satAddU (w a b : Nat) : Nat :=
  min (a + b) (2 ^ w - 1)

/-- `a.saturating_mul(b)` in a `w`-bit unsigned type. -/
def satMulU (w a b : Nat) : Nat :=
  min (a * b) (2 ^ w - 1)

/-- `a >> n` in a `w`-bit unsigned type, where a shift by the whole width panics. -/
def shrU (w a n : Nat) : Option Nat :=
  if n < w then some (a >>> n) else none

/-- `a << n` in a `w`-bit unsigned type, where a shift by the whole width panics. -/
def shlU (w a n : Nat) : Option Nat :=
  if n < w then some (a <<< n % 2 ^ w) else none

theorem addU_eq_some_iff
    (w a b c : Nat) :
    addU w a b = some c ↔ a + b < 2 ^ w ∧ a + b = c := by
  unfold addU
  split_ifs with h
  · simp [h]
  · simp [h]

theorem subU_eq_some_iff
    (a b c : Nat) :
    subU a b = some c ↔ b ≤ a ∧ a - b = c := by
  unfold subU
  split_ifs with h
  · simp [h]
  · simp [h]

theorem mulU_eq_some_iff
    (w a b c : Nat) :
    mulU w a b = some c ↔ a * b < 2 ^ w ∧ a * b = c := by
  unfold mulU
  split_ifs with h
  · simp [h]
  · simp [h]

theorem shrU_eq_some_iff
    (w a n c : Nat) :
    shrU w a n = some c ↔ n < w ∧ a / 2 ^ n = c := by
  rw [shrU, ← Nat.shiftRight_eq_div_pow]
  split_ifs with h
  · simp [h]
  · simp [h]

/-- `(1 << n) - 1`. -/
theorem shlU_one_bind_subU
    (w n : Nat) :
    (shlU w 1 n).bind (subU · 1) = if n < w then some (2 ^ n - 1) else none := by
  unfold shlU
  split_ifs with h
  · have hlt : 2 ^ n < 2 ^ w := Nat.pow_lt_pow_right (by decide) h
    have hpos : 1 ≤ 2 ^ n := Nat.one_le_two_pow
    rw [Option.bind_some, Nat.shiftLeft_eq, Nat.one_mul, Nat.mod_eq_of_lt hlt, subU, if_pos hpos]
  · rfl

end Base
end Theos
