import Mathlib.Data.Option.Basic

/-!
# Something made before, with a stamp

A slot keeps something that was made, and a stamp that says from what.  When the same stamp is
asked for again, what is in the slot is used.

The stamp is written after the thing itself.  If the making fails in between, the stamp is the
old one and the slot may hold something else: a slot is sound only as long as that does not
happen.
-/

namespace Theos
namespace Base

universe u v

structure Slot (κ : Type u) (α : Type v) where
  stamp : Option κ
  content : Option α

namespace Slot

variable {κ : Type u} {α : Type v}

def empty : Slot κ α := ⟨none, none⟩

/-- The content is replaced, and stamped. -/
def fill (k : κ) (a : α) : Slot κ α := ⟨some k, some a⟩

/-- The content is replaced, and the stamp is left as it is. -/
def spoil (s : Slot κ α) (left : Option α) : Slot κ α := { s with content := left }

def lookup [DecidableEq κ] (s : Slot κ α) (k : κ) : Option α :=
  if s.stamp = some k then s.content else none

theorem lookup_eq_some_iff [DecidableEq κ] {s : Slot κ α} {k : κ} {a : α} :
    s.lookup k = some a ↔ s.stamp = some k ∧ s.content = some a := by
  rw [lookup]
  split <;> simp [*]

@[simp]
theorem lookup_fill [DecidableEq κ]
    (k : κ) (a : α) :
    (fill k a).lookup k = some a := by
  simp [lookup, fill]

/-- A slot that was spoilt serves what is in it. -/
theorem lookup_spoil [DecidableEq κ] {s : Slot κ α} {k : κ} {a b : α}
    (h : s.lookup k = some a) :
    (s.spoil (some b)).lookup k = some b := by
  rw [lookup_eq_some_iff] at h ⊢
  exact ⟨h.1, rfl⟩

end Slot

end Base
end Theos
