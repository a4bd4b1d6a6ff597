import Theos.Base.Endian

/-!
# Cyclic redundancy checks

The remainder of a string of bytes modulo a polynomial, computed from the least significant
bit on, as a shift register: a bit is shifted out, and if it was set the polynomial is added
to what is left.

A shift is linear, and if the polynomial has its highest bit, which is the constant term in
this order of the bits, a shift loses nothing.  So a difference in the register is never
lost, and neither is a difference between two strings that are not longer than the
register.
-/

namespace Theos
namespace Base
namespace Crc

variable {w : Nat}

/-- One bit is shifted out. -/
def shift (poly x : BitVec w) : BitVec w :=
  (x >>> 1) ^^^ (if x.getLsbD 0 then poly else 0)

/-- `n` bits are shifted out. -/
def shifts (poly : BitVec w) : Nat → BitVec w → BitVec w
  | 0, x => x
  | n + 1, x => shifts poly n (shift poly x)

/-- The register after one more byte. -/
def feed (poly x : BitVec w) (byte : UInt8) : BitVec w :=
  shifts poly 8 (x ^^^ BitVec.ofNat w byte.toNat)

/-- The register after a string of bytes. -/
def remainder (poly : BitVec w) : BitVec w → Bytes → BitVec w
  | x, [] => x
  | x, byte :: bytes => remainder poly (feed poly x byte) bytes

theorem remainder_append (poly x : BitVec w)
    (front back : Bytes) :
    remainder poly x (front ++ back) = remainder poly (remainder poly x front) back := by
  induction front generalizing x with
  | nil =>
    rfl
  | cons byte front ih =>
    exact ih _

/-! ## Linearity -/

theorem shift_xor
    (poly x y : BitVec w) :
    shift poly (x ^^^ y) = shift poly x ^^^ shift poly y := by
  simp only [shift, BitVec.getLsbD_xor, BitVec.ushiftRight_xor_distrib]
  apply BitVec.eq_of_getLsbD_eq
  intro i hi
  simp only [BitVec.getLsbD_xor]
  cases x.getLsbD 0 <;> cases y.getLsbD 0 <;>
    cases (x >>> 1).getLsbD i <;> cases (y >>> 1).getLsbD i <;> cases poly.getLsbD i <;> simp

theorem shifts_xor (poly : BitVec w) (n : Nat)
    (x y : BitVec w) :
    shifts poly n (x ^^^ y) = shifts poly n x ^^^ shifts poly n y := by
  induction n generalizing x y with
  | zero =>
    rfl
  | succ n ih =>
    rw [shifts, shifts, shifts, shift_xor, ih]

theorem shifts_add (poly : BitVec w) (m n : Nat)
    (x : BitVec w) :
    shifts poly (m + n) x = shifts poly n (shifts poly m x) := by
  induction m generalizing x with
  | zero =>
    rw [Nat.zero_add]
    rfl
  | succ m ih =>
    rw [Nat.add_right_comm]
    exact ih _

/-! ## Nothing is lost -/

section Injective

variable {poly : BitVec w}

/-- The highest bit tells whether the polynomial was added. -/
theorem shift_injective
    (hpoly : poly.msb = true) :
    Function.Injective (shift poly) := by
  intro x y h
  have hmsb : ∀ z : BitVec w, (shift poly z).msb = z.getLsbD 0 := by
    intro z
    have hshift : (z >>> 1).msb = false := by
      rw [BitVec.msb_ushiftRight]
      simp
    cases hz : z.getLsbD 0 with
    | false =>
      simp [shift, hz, hshift]
    | true =>
      simp [shift, hz, hshift, hpoly]
  have hlow : x.getLsbD 0 = y.getLsbD 0 := by
    rw [← hmsb x, ← hmsb y, h]
  have hhigh : x >>> 1 = y >>> 1 := by
    have hadded := h
    rw [shift, shift, hlow] at hadded
    exact (BitVec.xor_left_inj _).mp hadded
  apply BitVec.eq_of_getLsbD_eq
  intro i hi
  cases i with
  | zero =>
    exact hlow
  | succ i =>
    have hbit := congrArg (BitVec.getLsbD · i) hhigh
    simpa [Nat.add_comm] using hbit

theorem shifts_injective (hpoly : poly.msb = true)
    (n : Nat) :
    Function.Injective (shifts poly n) := by
  induction n with
  | zero =>
    exact Function.injective_id
  | succ n ih =>
    exact ih.comp (shift_injective hpoly)

/-- The same bytes keep registers apart. -/
theorem remainder_injective (hpoly : poly.msb = true)
    (bytes : Bytes) :
    Function.Injective (remainder poly · bytes) := by
  induction bytes with
  | nil =>
    exact Function.injective_id
  | cons byte bytes ih =>
    refine ih.comp fun x y h => ?_
    exact (BitVec.xor_left_inj _).mp (shifts_injective hpoly 8 h)

end Injective

/-! ## Short strings -/

/-- Zeros at the low end are shifted out alone. -/
theorem shifts_eq_ushiftRight (poly x : BitVec w) {n : Nat}
    (h : ∀ i < n, x.getLsbD i = false) :
    shifts poly n x = x >>> n := by
  induction n generalizing x with
  | zero =>
    simp [shifts]
  | succ n ih =>
    have hlow : shift poly x = x >>> 1 := by
      simp [shift, h 0 (by omega)]
    rw [shifts, hlow, ih]
    · rw [← BitVec.shiftRight_add, Nat.add_comm]
    · intro i hi
      simpa [Nat.add_comm] using h (i + 1) (by omega)

theorem getLsbD_ofNat_mul
    (n i : Nat) :
    (BitVec.ofNat w (2 ^ 8 * n)).getLsbD i =
      (decide (i < w) && decide (8 ≤ i) && n.testBit (i - 8)) := by
  have hbits := Nat.testBit_two_pow_mul_add n (Nat.two_pow_pos 8) i
  rw [Nat.add_zero] at hbits
  rw [BitVec.getLsbD_ofNat, hbits]
  by_cases hi : i < 8
  · simp [hi]
  · simp [hi, Nat.le_of_not_lt hi]

theorem ofNat_ofLE_cons (byte : UInt8)
    (bytes : Bytes) :
    BitVec.ofNat w (ofLE (byte :: bytes)) =
      BitVec.ofNat w byte.toNat ^^^ BitVec.ofNat w (2 ^ 8 * ofLE bytes) := by
  have hbyte : byte.toNat < 2 ^ 8 := byte.toNat_lt
  apply BitVec.eq_of_getLsbD_eq
  intro i hi
  have hbits := Nat.testBit_two_pow_mul_add (ofLE bytes) hbyte i
  rw [BitVec.getLsbD_xor, getLsbD_ofNat_mul, BitVec.getLsbD_ofNat, BitVec.getLsbD_ofNat, ofLE,
    Nat.add_comm, hbits]
  by_cases hlow : i < 8
  · simp [hlow, hi, Nat.not_le.mpr hlow]
  · have hzero : byte.toNat.testBit i = false :=
      Nat.testBit_lt_two_pow (hbyte.trans_le (Nat.pow_le_pow_right (by omega) (by omega)))
    simp [hlow, hi, hzero, Nat.le_of_not_lt hlow]

/-- Eight zeros below a number that has room above. -/
theorem shifts_ofNat_mul (poly : BitVec w) {n k : Nat} (hn : n < 256 ^ k)
    (hk : 8 * k + 8 ≤ w) :
    shifts poly 8 (BitVec.ofNat w (2 ^ 8 * n)) = BitVec.ofNat w n := by
  rw [shifts_eq_ushiftRight]
  · apply BitVec.eq_of_getLsbD_eq
    intro i hi
    rw [BitVec.getLsbD_ushiftRight, getLsbD_ofNat_mul, BitVec.getLsbD_ofNat]
    by_cases hhigh : 8 + i < w
    · simp [hhigh, hi]
    · have hsmall : n < 2 ^ i := by
        have hpow : (256 : Nat) ^ k = 2 ^ (8 * k) := by
          rw [Nat.pow_mul]
        exact (hpow ▸ hn).trans_le (Nat.pow_le_pow_right (by omega) (by omega))
      simp [hhigh, Nat.testBit_lt_two_pow hsmall]
  · intro i hi
    rw [getLsbD_ofNat_mul]
    simp [Nat.not_le.mpr hi]

/-- A string that is not longer than the register, as a number. -/
theorem remainder_eq_shifts (poly x : BitVec w) {bytes : Bytes}
    (h : 8 * bytes.length ≤ w) :
    remainder poly x bytes =
      shifts poly (8 * bytes.length) (x ^^^ BitVec.ofNat w (ofLE bytes)) := by
  induction bytes generalizing x with
  | nil =>
    simp [remainder, shifts, ofLE]
  | cons byte bytes ih =>
    rw [List.length_cons] at h ⊢
    have hword : BitVec.ofNat w (ofLE (byte :: bytes)) =
        BitVec.ofNat w byte.toNat ^^^ BitVec.ofNat w (2 ^ 8 * ofLE bytes) :=
      ofNat_ofLE_cons byte bytes
    have hhigh : shifts poly 8 (BitVec.ofNat w (2 ^ 8 * ofLE bytes)) =
        BitVec.ofNat w (ofLE bytes) :=
      shifts_ofNat_mul poly (ofLE_lt bytes) (by omega)
    rw [remainder, ih _ (by omega), feed, Nat.mul_add, Nat.add_comm, shifts_add, ← hhigh,
      ← shifts_xor, hword, BitVec.xor_assoc]

/-- Two strings that are not longer than the register leave different remainders. -/
theorem remainder_ne {poly : BitVec w} (hpoly : poly.msb = true) (x : BitVec w) {a b : Bytes}
    (hlength : a.length = b.length) (hshort : 8 * a.length ≤ w)
    (hne : a ≠ b) :
    remainder poly x a ≠ remainder poly x b := by
  intro h
  rw [remainder_eq_shifts poly x hshort, remainder_eq_shifts poly x (hlength ▸ hshort),
    ← hlength] at h
  have hword := (BitVec.xor_right_inj x).mp (shifts_injective hpoly _ h)
  have hbound : ∀ c : Bytes, c.length = a.length → ofLE c < 2 ^ w := by
    intro c hc
    have hlt := ofLE_lt c
    have hpow : (256 : Nat) ^ c.length = 2 ^ (8 * c.length) := by
      rw [Nat.pow_mul]
    exact (hpow ▸ hlt).trans_le (Nat.pow_le_pow_right (by omega) (by omega))
  have hnat := congrArg BitVec.toNat hword
  rw [BitVec.toNat_ofNat, BitVec.toNat_ofNat, Nat.mod_eq_of_lt (hbound a rfl),
    Nat.mod_eq_of_lt (hbound b hlength.symm)] at hnat
  exact hne (ofLE_injective hlength hnat)

end Crc
end Base
end Theos
