import Theos.Base.Buffer

/-!
# Numbers in bytes

The little- and big-endian reading of a string of bytes, and the strings of a
given width that a number is written as.  A number that fits its width is read
back.
-/

namespace Theos
namespace Base

/-- The number that bytes stand for, the least significant one first. -/
def ofLE : Bytes → Nat
  | [] => 0
  | b :: rest => b.toNat + 256 * ofLE rest

/-- The number that bytes stand for, the most significant one first. -/
def ofBE (bytes : Bytes) : Nat :=
  ofLE bytes.reverse

/-- The lowest `width` bytes of a number, the least significant one first. -/
def toLE : Nat → Nat → Bytes
  | 0, _ => []
  | width + 1, n => UInt8.ofNat n :: toLE width (n / 256)

/-- The lowest `width` bytes of a number, the most significant one first. -/
def toBE (width n : Nat) : Bytes :=
  (toLE width n).reverse

/-- The little-endian numbers of two bytes each; an odd byte at the end is left out. -/
def utf16Units : Bytes → List Nat
  | a :: b :: rest => (a.toNat + 256 * b.toNat) :: utf16Units rest
  | _ => []

theorem ofLE_lt
    (bytes : Bytes) :
    ofLE bytes < 256 ^ bytes.length := by
  induction bytes with
  | nil =>
    simp [ofLE]
  | cons b rest ih =>
    have hb : b.toNat < 256 := b.toNat_lt
    rw [ofLE, List.length_cons, Nat.pow_succ]
    omega

/-- Strings of one length that stand for the same number are the same. -/
theorem ofLE_injective {a b : Bytes} (hlength : a.length = b.length)
    (h : ofLE a = ofLE b) :
    a = b := by
  induction a generalizing b with
  | nil =>
    exact (List.length_eq_zero_iff.mp hlength.symm).symm
  | cons x a ih =>
    cases b with
    | nil =>
      simp at hlength
    | cons y b =>
      have hx : x.toNat < 256 := x.toNat_lt
      have hy : y.toNat < 256 := y.toNat_lt
      rw [ofLE, ofLE] at h
      rw [UInt8.toNat_inj.mp (show x.toNat = y.toNat by omega),
        ih (Nat.succ.inj hlength) (by omega)]

@[simp]
theorem length_toLE
    (width n : Nat) :
    (toLE width n).length = width := by
  induction width generalizing n with
  | zero =>
    rfl
  | succ width ih =>
    simp only [toLE, List.length_cons, ih]

/-- A number is read back modulo what its width can hold. -/
theorem ofLE_toLE
    (width n : Nat) :
    ofLE (toLE width n) = n % 256 ^ width := by
  induction width generalizing n with
  | zero =>
    simp [toLE, ofLE, Nat.mod_one]
  | succ width ih =>
    have hb : (UInt8.ofNat n).toNat = n % 256 := by
      simp
    rw [toLE, ofLE, ih, hb, Nat.pow_succ', Nat.mod_mul]

@[simp]
theorem length_toBE
    (width n : Nat) :
    (toBE width n).length = width := by
  simp [toBE]

theorem ofBE_toBE
    (width n : Nat) :
    ofBE (toBE width n) = n % 256 ^ width := by
  simp [ofBE, toBE, ofLE_toLE]

end Base
end Theos
