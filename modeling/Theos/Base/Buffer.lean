import Mathlib.Data.List.Basic
import Mathlib.Tactic

/-!
# Parts of a buffer

`slice` reads and `splice` overwrites a range of a list, as `buf[a..b].to_vec()`
and `buf[a..b].copy_from_slice(..)` do.  The lemmas say that a write is read
back, that it leaves every range it does not meet alone, and that it keeps the
length.
-/

namespace Theos
namespace Base

universe u

variable {α : Type u}

/-- A string of bytes. -/
abbrev Bytes : Type :=
  List UInt8

/-- The `len` elements from `off` on. -/
def slice (buf : List α)
    (off len : Nat) : List α :=
  (buf.drop off).take len

/-- The buffer with `data` written at `off`. -/
def splice (buf : List α) (off : Nat)
    (data : List α) : List α :=
  buf.take off ++ data ++ buf.drop (off + data.length)

theorem length_slice {buf : List α} {off len : Nat}
    (h : off + len ≤ buf.length) :
    (slice buf off len).length = len := by
  simp only [slice, List.length_take, List.length_drop]
  omega

/-- A range is read in two parts. -/
theorem slice_add (buf : List α)
    (off m n : Nat) :
    slice buf off (m + n) = slice buf off m ++ slice buf (off + m) n := by
  rw [slice, slice, slice, List.take_add, List.drop_drop]

/-- A range behind the first of two parts. -/
theorem slice_append_right (front back : List α)
    (off len : Nat) :
    slice (front ++ back) (front.length + off) len = slice back off len := by
  rw [slice, slice, ← List.drop_drop, List.drop_left]

theorem slice_append_skip {front : List α} {off : Nat} (h : front.length ≤ off)
    (back : List α) (len : Nat) :
    slice (front ++ back) off len = slice back (off - front.length) len := by
  rw [← slice_append_right front back, Nat.add_sub_cancel' h]

theorem slice_append_left {front : List α} {off len : Nat} (h : off + len ≤ front.length)
    (back : List α) :
    slice (front ++ back) off len = slice front off len := by
  rw [slice, slice, List.drop_append_of_le_length (by omega),
    List.take_append_of_le_length (by rw [List.length_drop]; omega)]

theorem slice_append_here {front : List α} {len : Nat} (h : front.length = len) (back : List α) :
    slice (front ++ back) 0 len = front :=
  List.take_left' h

theorem length_splice {buf data : List α} {off : Nat}
    (h : off + data.length ≤ buf.length) :
    (splice buf off data).length = buf.length := by
  simp only [splice, List.length_append, List.length_take, List.length_drop]
  omega

theorem getElem?_slice (buf : List α)
    (off len i : Nat) :
    (slice buf off len)[i]? = if i < len then buf[off + i]? else none := by
  simp only [slice, List.getElem?_take, List.getElem?_drop]

theorem getElem?_splice {buf data : List α} {off : Nat} (h : off + data.length ≤ buf.length)
    (i : Nat) :
    (splice buf off data)[i]? =
      if off ≤ i ∧ i < off + data.length then data[i - off]? else buf[i]? := by
  have htake : (buf.take off).length = off := by
    simp only [List.length_take]
    omega
  simp only [splice, List.append_assoc]
  by_cases hlow : i < off
  · rw [List.getElem?_append_left (by omega), List.getElem?_take, if_pos hlow,
      if_neg (by omega)]
  · rw [List.getElem?_append_right (by omega), htake]
    by_cases hhigh : i < off + data.length
    · rw [List.getElem?_append_left (by omega), if_pos (by omega)]
    · rw [List.getElem?_append_right (by omega), List.getElem?_drop, if_neg (by omega)]
      congr 1
      omega

/-- A write is read back. -/
theorem slice_splice_self {buf data : List α} {off : Nat}
    (h : off + data.length ≤ buf.length) :
    slice (splice buf off data) off data.length = data := by
  apply List.ext_getElem?
  intro i
  rw [getElem?_slice, getElem?_splice h]
  by_cases hi : i < data.length
  · rw [if_pos hi, if_pos (by omega)]
    congr 1
    omega
  · rw [if_neg hi, List.getElem?_eq_none (by omega)]

/-- A write leaves every range it does not meet alone. -/
theorem slice_splice_of_disjoint {buf data : List α} {off off' len : Nat}
    (h : off + data.length ≤ buf.length)
    (hdisjoint : off' + len ≤ off ∨ off + data.length ≤ off') :
    slice (splice buf off data) off' len = slice buf off' len := by
  apply List.ext_getElem?
  intro i
  rw [getElem?_slice, getElem?_slice, getElem?_splice h]
  by_cases hi : i < len
  · rw [if_pos hi, if_pos hi, if_neg (by omega)]
  · rw [if_neg hi, if_neg hi]

theorem splice_full {buf data : List α}
    (h : data.length = buf.length) :
    splice buf 0 data = data := by
  simp [splice, h]

/-- A part of a part. -/
theorem slice_slice {buf : List α} {off len off' len' : Nat} (h : off' + len' ≤ len) :
    slice (slice buf off len) off' len' = slice buf (off + off') len' := by
  apply List.ext_getElem?
  intro i
  rw [getElem?_slice, getElem?_slice, getElem?_slice, Nat.add_assoc]
  by_cases hi : i < len'
  · rw [if_pos hi, if_pos hi, if_pos (by omega)]
  · rw [if_neg hi, if_neg hi]

/-- Reading a range, writing into it and writing it back is writing at its place. -/
theorem splice_splice_slice {buf data : List α} {off len off' : Nat} (hbuf : off + len ≤ buf.length)
    (hdata : off' + data.length ≤ len) :
    splice buf off (splice (slice buf off len) off' data) = splice buf (off + off') data := by
  have hlen := length_slice hbuf
  have hlen' : (splice (slice buf off len) off' data).length = len := by
    rw [length_splice (by rwa [hlen]), hlen]
  have hright := getElem?_splice (show off + off' + data.length ≤ buf.length by omega)
  apply List.ext_getElem?
  intro i
  rw [getElem?_splice (by rwa [hlen']), hright, hlen']
  by_cases hi : off ≤ i ∧ i < off + len
  · rw [if_pos hi, getElem?_splice (by rwa [hlen])]
    by_cases hin : off + off' ≤ i ∧ i < off + off' + data.length
    · rw [if_pos (by omega), if_pos hin]
      congr 1
      omega
    · rw [if_neg (by omega), if_neg hin, getElem?_slice, if_pos (by omega)]
      congr 1
      omega
  · rw [if_neg hi, if_neg (by omega)]

/-- Two writes, the second right behind the first. -/
theorem splice_append {buf first second : List α} {off : Nat}
    (h : off + first.length + second.length ≤ buf.length) :
    splice (splice buf off first) (off + first.length) second =
      splice buf off (first ++ second) := by
  have hfirst : (splice buf off first).length = buf.length := length_splice (by omega)
  apply List.ext_getElem?
  intro i
  rw [getElem?_splice (by omega), getElem?_splice (by omega),
    getElem?_splice (by rw [List.length_append]; omega), List.length_append]
  by_cases hsecond : off + first.length ≤ i ∧ i < off + first.length + second.length
  · rw [if_pos hsecond, if_pos (by omega), List.getElem?_append_right (by omega)]
    congr 1
    omega
  · rw [if_neg hsecond]
    by_cases hin : off ≤ i ∧ i < off + first.length
    · rw [if_pos hin, if_pos (by omega), List.getElem?_append_left (by omega)]
    · rw [if_neg hin, if_neg (by omega)]

end Base
end Theos
