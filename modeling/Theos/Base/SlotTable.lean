import Mathlib.Data.List.Basic
import Mathlib.Data.List.Count

/-!
# Tables of slots

A table of slots is a list of optional entries: an entry is put into the first
free slot and is later taken out of its slot again.
-/

namespace Theos
namespace Base
namespace SlotTable

universe u

variable {α : Type u}

/-- The first slot that holds nothing. -/
def firstFree (table : List (Option α)) : Option Nat :=
  table.findIdx? Option.isNone

/-- The number of entries with the property `p`. -/
def count (p : α → Bool) (table : List (Option α)) : Nat :=
  table.countP (fun slot => slot.any p)

theorem getElem?_of_firstFree {table : List (Option α)} {i : Nat}
    (h : firstFree table = some i) :
    table[i]? = some none := by
  obtain ⟨hlt, hfree, -⟩ := List.findIdx?_eq_some_iff_getElem.mp h
  rw [List.getElem?_eq_getElem hlt, Option.some_inj]
  exact Option.isNone_iff_eq_none.mp hfree

/-- A free slot is not before the first one. -/
theorem exists_firstFree_le {table : List (Option α)} {j : Nat}
    (h : table[j]? = some none) :
    ∃ i ≤ j, firstFree table = some i := by
  have hsome : (firstFree table).isSome := by
    rw [firstFree, List.findIdx?_isSome, List.any_eq_true]
    exact ⟨none, List.mem_of_getElem? h, rfl⟩
  obtain ⟨i, hi⟩ := Option.isSome_iff_exists.mp hsome
  obtain ⟨hlt, -, hbefore⟩ := List.findIdx?_eq_some_iff_getElem.mp hi
  obtain ⟨hj, hnone⟩ := List.getElem?_eq_some_iff.mp h
  refine ⟨i, Nat.not_lt.mp fun hji => ?_, hi⟩
  exact hbefore j hji (by rw [hnone]; rfl)

end SlotTable
end Base
end Theos
