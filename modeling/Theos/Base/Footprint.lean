import Theos.Base.Endian
import Theos.Base.Rust

/-!
# Code that stores through pointers

A function that is given addresses reads and writes a memory through them, and returns
early with an error or panics on the way.  `Storing` keeps, beside the outcome and the
memory, the addresses that were stored to.

`Within P x m Q` is the weakest precondition for the code `x` to store only where `P`
allows it and, if it returns a value, to end with `Q`.  Its rules compute it for every
piece of code, so that a whole function is characterised by rewriting with them.
-/

namespace Theos
namespace Base

/-- A memory of bytes at addresses of 64 bits. -/
abbrev Memory := Nat → UInt8

namespace Memory

/-- The bytes from an address on; the last address is followed by the first. -/
def load (m : Memory) (addr len : Nat) : Bytes :=
  (List.range len).map fun i => m ((addr + i) % 2 ^ 64)

/-- The number that is stored at an address. -/
def word (m : Memory) (addr width : Nat) : Nat :=
  ofLE (m.load addr width)

def store (m : Memory) (addr : Nat) (bytes : Bytes) : Memory :=
  fun x => (bytes[(x + (2 ^ 64 - addr % 2 ^ 64)) % 2 ^ 64]?).getD (m x)

/-- What was stored is loaded again. -/
theorem load_store (m : Memory) (addr : Nat) {bytes : Bytes}
    (hlen : bytes.length ≤ 2 ^ 64) :
    (m.store addr bytes).load addr bytes.length = bytes := by
  apply List.ext_getElem?
  intro i
  by_cases hi : i < bytes.length
  · have hoffset : ((addr + i) % 2 ^ 64 + (2 ^ 64 - addr % 2 ^ 64)) % 2 ^ 64 = i := by
      omega
    simp only [load, store, List.getElem?_map, List.getElem?_range hi, Option.map_some, hoffset,
      List.getElem?_eq_getElem hi, Option.getD_some]
  · simp [load, hi]

/-- A number that was stored is read again, modulo what its width can hold. -/
theorem word_store (m : Memory) (addr : Nat) {width n : Nat}
    (hwidth : width ≤ 2 ^ 64) :
    (m.store addr (toLE width n)).word addr width = n % 256 ^ width := by
  have hload := @load_store m addr (toLE width n) (by rwa [length_toLE])
  rw [length_toLE] at hload
  rw [word, hload, ofLE_toLE]

end Memory

/-- The addresses of `len` bytes. -/
def area (addr len : Nat) : List Nat :=
  (List.range len).map fun i => (addr + i) % 2 ^ 64

/-- Code with its outcome, the memory it leaves and the addresses it has stored to. -/
def Storing (ε α : Type) : Type :=
  Memory → Rust ε α × Memory × List Nat

namespace Storing

variable {ε α β : Type}

def bind (x : Storing ε α) (f : α → Storing ε β) : Storing ε β :=
  fun m =>
    match x m with
    | (.error fault, m', stored) => (.error fault, m', stored)
    | (.ok a, m', stored) =>
      let (r, m'', stored') := f a m'
      (r, m'', stored ++ stored')

instance : Monad (Storing ε) where
  pure a := fun m => (.ok a, m, [])
  bind := bind

/-- What is read off the memory, or fails. -/
def reads (f : Memory → Rust ε α) : Storing ε α :=
  fun m => (f m, m, [])

/-- An answer that does not depend on the memory. -/
def answer (r : Except ε α) : Storing ε α :=
  reads fun _ => r.mapError .error

/-- `return Err(e)`. -/
def err (e : ε) : Storing ε α :=
  answer (.error e)

/-- A step that panics when there is no value. -/
def orPanic (v : Option α) : Storing ε α :=
  reads fun _ => Rust.orPanic v

/-- `if c { return Err(e) }`. -/
def refuse (c : Prop) [Decidable c] (e : ε) : Storing ε Unit :=
  if c then err e else pure ()

def store (addr : Nat) (bytes : Bytes) : Storing ε Unit :=
  fun m => (.ok (), m.store addr bytes, area addr bytes.length)

/-- A store through a pointer unless it is null. -/
def storeOpt (addr : Nat) (bytes : Bytes) : Storing ε Unit :=
  if addr = 0 then pure () else store addr bytes

end Storing

/-! ## Where code stores -/

/-- All of an area is allowed. -/
def Owns (P : Nat → Prop) (addr len : Nat) : Prop :=
  ∀ i < len, P ((addr + i) % 2 ^ 64)

/-- The code stores only to allowed addresses, and the values it returns are as `Q` says. -/
def Within {ε α : Type} (P : Nat → Prop) (x : Storing ε α) (m : Memory)
    (Q : α → Memory → Prop) : Prop :=
  (∀ a ∈ (x m).2.2, P a) ∧ ∀ v, (x m).1 = .ok v → Q v (x m).2.1

section Rules

variable {ε α β : Type} {P : Nat → Prop} {m : Memory} {Q : α → Memory → Prop}

theorem forall_mem_area
    {addr len : Nat} :
    (∀ a ∈ area addr len, P a) ↔ Owns P addr len := by
  simp [area, Owns]

@[simp]
theorem owns_zero
    (P : Nat → Prop) (addr : Nat) :
    Owns P addr 0 :=
  fun i hi => absurd hi (Nat.not_lt_zero i)

theorem owns_add
    {addr len len' : Nat} :
    Owns P addr (len + len') ↔ Owns P addr len ∧ Owns P (addr + len) len' := by
  constructor
  · intro h
    refine ⟨fun i hi => h i (by omega), fun i hi => ?_⟩
    rw [Nat.add_assoc]
    exact h (len + i) (by omega)
  · rintro ⟨hlow, hhigh⟩ i hi
    by_cases hlt : i < len
    · exact hlow i hlt
    · have hi' := hhigh (i - len) (by omega)
      rwa [Nat.add_assoc, Nat.add_sub_cancel' (Nat.le_of_not_lt hlt)] at hi'

@[simp]
theorem within_pure
    (v : α) :
    Within P (pure v : Storing ε α) m Q ↔ Q v m := by
  constructor
  · intro h
    exact h.2 v rfl
  · intro h
    refine ⟨fun a ha => absurd ha List.not_mem_nil, ?_⟩
    intro v' hv'
    cases hv'
    exact h

@[simp]
theorem within_bind
    {x : Storing ε α} {f : α → Storing ε β} {Q : β → Memory → Prop} :
    Within P (x >>= f) m Q ↔ Within P x m fun v m' => Within P (f v) m' Q := by
  change Within P (x.bind f) m Q ↔ _
  simp only [Within, Storing.bind]
  obtain ⟨outcome, m', stored⟩ := x m
  cases outcome with
  | error fault =>
    simp
  | ok v =>
    simp only [List.mem_append, or_imp, forall_and, Except.ok.injEq, forall_eq', and_assoc]

@[simp]
theorem within_reads
    {f : Memory → Rust ε α} :
    Within P (Storing.reads f) m Q ↔ ∀ v, f m = .ok v → Q v m := by
  simp [Within, Storing.reads]

@[simp]
theorem within_answer
    {r : Except ε α} :
    Within P (Storing.answer r) m Q ↔ ∀ v, r = .ok v → Q v m := by
  cases r <;> simp [Storing.answer, Except.mapError]

@[simp]
theorem within_err
    (e : ε) :
    Within P (Storing.err e : Storing ε α) m Q := by
  simp [Storing.err]

@[simp]
theorem within_orPanic
    {o : Option α} :
    Within P (Storing.orPanic o : Storing ε α) m Q ↔ ∀ v, o = some v → Q v m := by
  simp [Storing.orPanic, Rust.orPanic_eq_ok_iff]

/-- An addition whose overflow panics. -/
theorem within_addU
    {w a b : Nat} {Q : Nat → Memory → Prop} :
    Within P (Storing.orPanic (addU w a b) : Storing ε Nat) m Q ↔
      (a + b < 2 ^ w → Q (a + b) m) := by
  rw [within_orPanic, addU]
  split <;> simp [*]

@[simp]
theorem within_ite
    {c : Prop} [Decidable c] {x y : Storing ε α} :
    Within P (if c then x else y) m Q ↔ if c then Within P x m Q else Within P y m Q := by
  split <;> rfl

@[simp]
theorem within_refuse
    {c : Prop} [Decidable c] {e : ε} {Q : Unit → Memory → Prop} :
    Within P (Storing.refuse c e) m Q ↔ (¬ c → Q () m) := by
  by_cases hc : c <;> simp [Storing.refuse, hc]

@[simp]
theorem within_store
    {addr : Nat} {bytes : Bytes} {Q : Unit → Memory → Prop} :
    Within P (Storing.store addr bytes : Storing ε Unit) m Q ↔
      Owns P addr bytes.length ∧ Q () (m.store addr bytes) := by
  simp only [Within, Storing.store, forall_mem_area]
  exact and_congr_right fun _ => ⟨fun h => h () trivial, fun h _ _ => h⟩

/-- The memory after a store through a pointer unless it is null. -/
def Memory.storeOpt (m : Memory) (addr : Nat) (bytes : Bytes) : Memory :=
  if addr = 0 then m else m.store addr bytes

@[simp]
theorem within_storeOpt
    {addr : Nat} {bytes : Bytes} {Q : Unit → Memory → Prop} :
    Within P (Storing.storeOpt addr bytes : Storing ε Unit) m Q ↔
      (addr ≠ 0 → Owns P addr bytes.length) ∧ Q () (m.storeOpt addr bytes) := by
  by_cases haddr : addr = 0 <;> simp [Storing.storeOpt, Memory.storeOpt, haddr]

end Rules

/-! ## Code that fails

Code may store before it finds out that it has to return an error.  `Clean P x` says that it has
then stored to allowed addresses only; code that returns no error is clean, and so is code that
first stores to allowed addresses and is clean from there on. -/

namespace Storing

section Laws

variable {ε α β : Type} {p : Prop} [Decidable p] {e : ε} {addr : Nat} {bytes : Bytes} {m : Memory}

theorem refuse_of
    (h : p) :
    refuse p e = err e :=
  if_pos h

theorem refuse_of_not
    (h : ¬ p) :
    refuse p e = pure () :=
  if_neg h

theorem pure_bind {v : α} {f : α → Storing ε β} :
    ((pure v : Storing ε α) >>= f) = f v :=
  rfl

theorem refuse_bind_of_not {f : Unit → Storing ε β}
    (h : ¬ p) :
    (refuse p e >>= f) = f () := by
  rw [refuse_of_not h, pure_bind]

theorem answer_bind_ok {v : α} {f : α → Storing ε β} :
    (answer (.ok v) >>= f) = f v :=
  rfl

/-- The outcome and the memory of what follows a store. -/
theorem storeOpt_bind {f : Unit → Storing ε β} :
    ((storeOpt addr bytes >>= f) m).1 = (f () (m.storeOpt addr bytes)).1 ∧
      ((storeOpt addr bytes >>= f) m).2.1 = (f () (m.storeOpt addr bytes)).2.1 := by
  rw [storeOpt, Memory.storeOpt]
  split <;> exact ⟨rfl, rfl⟩

end Laws

section Failures

variable {ε α β : Type} {P : Nat → Prop} {x : Storing ε α} {f : α → Storing ε β}

/-- Code that returns no error. -/
def Sure (x : Storing ε α) : Prop :=
  ∀ m e, (x m).1 ≠ Rust.err e

/-- Code that stores to allowed addresses only. -/
def Stays (P : Nat → Prop) (x : Storing ε α) : Prop :=
  ∀ m, ∀ a ∈ (x m).2.2, P a

/-- Code that stores to allowed addresses only if it returns an error. -/
def Clean (P : Nat → Prop) (x : Storing ε α) : Prop :=
  ∀ m e, (x m).1 = Rust.err e → ∀ a ∈ (x m).2.2, P a

theorem sure_pure
    (v : α) :
    Sure (pure v : Storing ε α) :=
  nofun

theorem sure_store
    (addr : Nat) (bytes : Bytes) :
    Sure (store addr bytes : Storing ε Unit) :=
  nofun

theorem sure_storeOpt
    (addr : Nat) (bytes : Bytes) :
    Sure (storeOpt addr bytes : Storing ε Unit) := by
  rw [storeOpt]
  split
  · exact sure_pure ()
  · exact sure_store addr bytes

theorem sure_orPanic
    (v : Option α) :
    Sure (orPanic v : Storing ε α) := by
  cases v <;> exact nofun

theorem Sure.bind
    (hx : Sure x)
    (hf : ∀ v, Sure (f v)) :
    Sure (x >>= f) := by
  intro m e
  have hxm := hx m e
  change (x.bind f m).1 ≠ _
  rw [Storing.bind]
  generalize x m = r at hxm
  obtain ⟨outcome, m', stored⟩ := r
  cases outcome with
  | error fault =>
    intro heq
    exact hxm (congrArg Except.error (Except.error.inj heq))
  | ok v =>
    exact hf v m' e

theorem stays_of_within
    (h : ∀ m, Within P x m fun _ _ => True) :
    Stays P x :=
  fun m => (h m).1

theorem stays_refuse {p : Prop} [Decidable p] {e : ε} :
    Stays P (refuse p e) :=
  stays_of_within fun m => by simp

theorem stays_answer {r : Except ε α} :
    Stays P (answer r) :=
  stays_of_within fun m => by simp

theorem clean_of_stays
    (h : Stays P x) :
    Clean P x :=
  fun m _ _ => h m

theorem clean_of_sure
    (h : Sure x) :
    Clean P x :=
  fun m e herr => absurd herr (h m e)

theorem Stays.bind
    (hx : Stays P x)
    (hf : ∀ v, Clean P (f v)) :
    Clean P (x >>= f) := by
  intro m e
  have hxm := hx m
  change (x.bind f m).1 = _ → ∀ a ∈ (x.bind f m).2.2, P a
  rw [Storing.bind]
  generalize x m = r at hxm
  obtain ⟨outcome, m', stored⟩ := r
  cases outcome with
  | error fault =>
    exact fun _ => hxm
  | ok v =>
    intro herr a ha
    rcases List.mem_append.mp ha with ha | ha
    · exact hxm a ha
    · exact hf v m' e herr a ha

end Failures

/-! ## Code that returns

Code returns if it comes to a value from every memory, and panics if it comes to a panic. -/

section Returning

variable {ε α β : Type} {x : Storing ε α} {f : α → Storing ε β}

def Returns (x : Storing ε α) : Prop :=
  ∀ m, ∃ v, (x m).1 = .ok v

def Panics (x : Storing ε α) : Prop :=
  ∀ m, (x m).1 = Rust.panic

theorem Returns.sure
    (h : Returns x) :
    Sure x := by
  intro m e heq
  obtain ⟨v, hv⟩ := h m
  cases hv.symm.trans heq

theorem returns_pure
    (v : α) :
    Returns (pure v : Storing ε α) :=
  fun _ => ⟨v, rfl⟩

theorem returns_store
    (addr : Nat) (bytes : Bytes) :
    Returns (store addr bytes : Storing ε Unit) :=
  fun _ => ⟨(), rfl⟩

theorem returns_storeOpt
    (addr : Nat) (bytes : Bytes) :
    Returns (storeOpt addr bytes : Storing ε Unit) := by
  rw [storeOpt]
  split
  · exact returns_pure ()
  · exact returns_store addr bytes

theorem returns_orPanic {o : Option α}
    (h : o.isSome) :
    Returns (orPanic o : Storing ε α) := by
  obtain ⟨v, rfl⟩ := Option.isSome_iff_exists.mp h
  exact fun _ => ⟨v, rfl⟩

theorem panics_orPanic_bind {o : Option α}
    (h : o = none) :
    Panics ((orPanic o : Storing ε α) >>= f) := by
  subst h
  exact fun _ => rfl

/-- Code that returns goes on as what follows it. -/
theorem Returns.exists_bind
    (hx : Returns x)
    (f : α → Storing ε β) (m : Memory) :
    ∃ v m', ((x >>= f) m).1 = (f v m').1 := by
  obtain ⟨v, hv⟩ := hx m
  refine ⟨v, (x m).2.1, ?_⟩
  change (x.bind f m).1 = _
  rw [Storing.bind]
  generalize x m = r at hv
  obtain ⟨outcome, m', stored⟩ := r
  cases hv
  rfl

theorem Returns.bind
    (hx : Returns x)
    (hf : ∀ v, Returns (f v)) :
    Returns (x >>= f) := by
  intro m
  obtain ⟨v, m', hbind⟩ := hx.exists_bind f m
  rw [hbind]
  exact hf v m'

theorem Returns.bind_panics
    (hx : Returns x)
    (hf : ∀ v, Panics (f v)) :
    Panics (x >>= f) := by
  intro m
  obtain ⟨v, m', hbind⟩ := hx.exists_bind f m
  rw [hbind]
  exact hf v m'

end Returning

end Storing

end Base
end Theos
