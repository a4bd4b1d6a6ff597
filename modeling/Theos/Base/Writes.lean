import Theos.Base.Buffer

/-!
# Writes at offsets

A structure is laid out in a buffer by a list of writes, each of some bytes at an offset,
and so is a file system on a disk.  A write outside the buffer is refused.

What is read from a range afterwards is decided by the last write that meets it: writes
that do not meet the range can be left out, and if the last one fills it, it is read back.
-/

namespace Theos
namespace Base

universe u

variable {α : Type u}

/-- The elements, and where they are written to. -/
structure Write (α : Type u) where
  off : Nat
  data : List α

namespace Write

/-- The end of the range that is written. -/
def stop (w : Write α) : Nat :=
  w.off + w.data.length

/-- The write does not meet the range of `len` elements at `off`. -/
def Misses (w : Write α) (off len : Nat) : Prop :=
  off + len ≤ w.off ∨ w.stop ≤ off

end Write

/-- One write after the other; `none` if one of them does not fit. -/
def writeAll : List α → List (Write α) → Option (List α)
  | buf, [] => some buf
  | buf, w :: ws =>
    if w.stop ≤ buf.length then writeAll (splice buf w.off w.data) ws else none

/-- The second of two writes to a range. -/
theorem splice_splice {buf first second : List α} {off : Nat} (h : off + first.length ≤ buf.length)
    (hlength : first.length = second.length) :
    splice (splice buf off first) off second = splice buf off second := by
  apply List.ext_getElem?
  intro i
  rw [getElem?_splice (by rw [length_splice h]; omega), getElem?_splice h,
    getElem?_splice (by omega)]
  split
  next =>
    rfl
  next hout =>
    rw [if_neg (by omega)]

theorem writeAll_append (buf : List α)
    (first second : List (Write α)) :
    writeAll buf (first ++ second) = (writeAll buf first).bind (writeAll · second) := by
  induction first generalizing buf with
  | nil =>
    rfl
  | cons w first ih =>
    simp only [List.cons_append, writeAll]
    split
    next =>
      exact ih _
    next =>
      rfl

/-- Writes that fit are all made. -/
theorem exists_writeAll {buf : List α} {ws : List (Write α)}
    (h : ∀ w ∈ ws, w.stop ≤ buf.length) :
    ∃ buf', writeAll buf ws = some buf' := by
  induction ws generalizing buf with
  | nil =>
    exact ⟨buf, rfl⟩
  | cons w ws ih =>
    obtain ⟨hw, hws⟩ := List.forall_mem_cons.mp h
    rw [writeAll, if_pos hw]
    refine ih fun w' hw' => ?_
    rw [length_splice hw]
    exact hws w' hw'

section Done

variable {buf buf' : List α} {ws : List (Write α)}

theorem length_writeAll
    (h : writeAll buf ws = some buf') :
    buf'.length = buf.length := by
  induction ws generalizing buf with
  | nil =>
    rw [writeAll, Option.some.injEq] at h
    rw [h]
  | cons w ws ih =>
    rw [writeAll] at h
    split at h
    next hw =>
      rw [ih h, length_splice hw]
    next =>
      cases h

/-- Writes that all miss a range leave it alone. -/
theorem slice_writeAll_of_misses {off len : Nat} (h : writeAll buf ws = some buf')
    (hmisses : ∀ w ∈ ws, w.Misses off len) :
    slice buf' off len = slice buf off len := by
  induction ws generalizing buf with
  | nil =>
    rw [writeAll, Option.some.injEq] at h
    rw [h]
  | cons w ws ih =>
    obtain ⟨hw, hws⟩ := List.forall_mem_cons.mp hmisses
    rw [writeAll] at h
    split at h
    next hfit =>
      rw [ih h hws]
      exact slice_splice_of_disjoint hfit hw
    next =>
      cases h

/-- A write is read back if those that come after it miss its range. -/
theorem slice_writeAll_of_append {before after : List (Write α)} {w : Write α}
    (h : writeAll buf (before ++ w :: after) = some buf')
    (hmisses : ∀ w' ∈ after, w'.Misses w.off w.data.length) :
    slice buf' w.off w.data.length = w.data := by
  rw [writeAll_append, Option.bind_eq_some_iff] at h
  obtain ⟨buf₁, -, h⟩ := h
  rw [writeAll] at h
  split at h
  next hfit =>
    rw [slice_writeAll_of_misses h hmisses]
    exact slice_splice_self hfit
  next =>
    cases h

/-- A write is read back if no two of the writes meet. -/
theorem slice_writeAll_of_mem {w : Write α} (h : writeAll buf ws = some buf')
    (hdisjoint : ws.Pairwise fun w w' => w'.Misses w.off w.data.length)
    (hw : w ∈ ws) :
    slice buf' w.off w.data.length = w.data := by
  obtain ⟨before, after, rfl⟩ := List.append_of_mem hw
  refine slice_writeAll_of_append h ?_
  exact (List.pairwise_cons.mp (List.pairwise_append.mp hdisjoint).2.1).1

end Done

/-! ## Writes in the order of their offsets -/

/-- The writes go up from `low` and stay below `high`. -/
def Ascending : Nat → List (Write α) → Nat → Prop
  | low, [], high => low ≤ high
  | low, w :: ws, high => low ≤ w.off ∧ Ascending w.stop ws high

namespace Ascending

variable {low mid high : Nat} {ws ws' : List (Write α)}

theorem le
    (h : Ascending low ws high) :
    low ≤ high := by
  induction ws generalizing low with
  | nil =>
    exact h
  | cons w ws ih =>
    have hrest := ih h.2
    have hlow := h.1
    simp only [Write.stop] at hrest
    omega

theorem append (h : Ascending low ws mid)
    (h' : Ascending mid ws' high) :
    Ascending low (ws ++ ws') high := by
  induction ws generalizing low with
  | nil =>
    cases ws' with
    | nil =>
      exact Nat.le_trans h h'
    | cons w ws' =>
      exact ⟨Nat.le_trans h h'.1, h'.2⟩
  | cons w ws ih =>
    exact ⟨h.1, ih h.2⟩

theorem bounds (h : Ascending low ws high) {w : Write α}
    (hw : w ∈ ws) :
    low ≤ w.off ∧ w.stop ≤ high := by
  induction ws generalizing low with
  | nil =>
    cases hw
  | cons w' ws ih =>
    rcases List.mem_cons.mp hw with rfl | hw
    · exact ⟨h.1, h.2.le⟩
    · obtain ⟨hlow, hhigh⟩ := ih h.2 hw
      have hfirst := h.1
      simp only [Write.stop] at hlow
      exact ⟨by omega, hhigh⟩

theorem stop_le (h : Ascending low ws high) {w : Write α}
    (hw : w ∈ ws) :
    w.stop ≤ high :=
  (h.bounds hw).2

/-- No two of them meet. -/
theorem pairwise
    (h : Ascending low ws high) :
    ws.Pairwise fun w w' => w'.Misses w.off w.data.length := by
  induction ws generalizing low with
  | nil =>
    exact List.Pairwise.nil
  | cons w ws ih =>
    exact List.pairwise_cons.mpr ⟨fun w' hw' => Or.inl (h.2.bounds hw').1, ih h.2⟩

end Ascending

end Base
end Theos
