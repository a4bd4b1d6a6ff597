import Theos.Base.Crc
import Theos.Crabfs.Endian

/-!
# The checksums of the on-disk structures

`crc.rs` of crabfs: the CRC-32C of a buffer in which the field of the checksum counts as
zero, written to that field in little-endian order.

The field is skipped in the middle of the buffer, so that a change lies before it, behind
it, or in it.
-/

namespace Theos
namespace Crabfs

open Base

/-- `0x82f6_3b78`, the polynomial of CRC-32C. -/
def crc32cPoly : UInt32 := 0x82f63b78

def xfsCrcSeed : UInt32 := 0xffffffff

/-- A round of the inner loop of `crc32c`. -/
def crc32cBit (crc : UInt32) : UInt32 :=
  let mask := -(crc &&& 1)
  (crc >>> 1) ^^^ (crc32cPoly &&& mask)

/-- `n` rounds of it. -/
def crc32cBits : Nat → UInt32 → UInt32
  | 0, crc => crc
  | n + 1, crc => crc32cBits n (crc32cBit crc)

def crc32c : UInt32 → Bytes → UInt32
  | crc, [] => crc
  | crc, byte :: data => crc32c (crc32cBits 8 (crc ^^^ byte.toUInt32)) data

/-- The checksum of a buffer whose field at `cksumOffset` counts as zero. -/
def xfsCrc (bytes : Bytes) (cksumOffset : Nat) : UInt32 :=
  let crc := crc32c xfsCrcSeed (bytes.take cksumOffset)
  let crc := crc32c crc [0, 0, 0, 0]
  let crc := crc32c crc (bytes.drop (cksumOffset + 4))
  ~~~crc

def verifyXfsCrc (bytes : Bytes) (cksumOffset : Nat) : Bool :=
  if bytes.length < cksumOffset + 4 then false
  else xfsCrc bytes cksumOffset == leU32At bytes cksumOffset

/-- `write_xfs_crc`, which leaves a buffer alone that has no room for the field. -/
def writeXfsCrc (bytes : Bytes) (cksumOffset : Nat) : Bytes :=
  if bytes.length < cksumOffset + 4 then bytes
  else
    let bytes := splice bytes cksumOffset [0, 0, 0, 0]
    splice bytes cksumOffset (toLE 4 (xfsCrc bytes cksumOffset).toNat)

/-! ## The loop as a shift register -/

theorem toBitVec_crc32cBit
    (crc : UInt32) :
    (crc32cBit crc).toBitVec = Crc.shift crc32cPoly.toBitVec crc.toBitVec := by
  have hlow : crc.toBitVec &&& 1#32 = BitVec.setWidth 32 (BitVec.ofBool (crc.toBitVec.getLsbD 0)) :=
    BitVec.and_one_eq_setWidth_ofBool_getLsbD
  have hmask : (-(crc &&& 1)).toBitVec =
      if crc.toBitVec.getLsbD 0 then BitVec.allOnes 32 else 0#32 := by
    rw [UInt32.toBitVec_neg, UInt32.toBitVec_and]
    change -(crc.toBitVec &&& 1#32) = _
    rw [hlow]
    cases crc.toBitVec.getLsbD 0 <;> rfl
  rw [crc32cBit, Crc.shift, UInt32.toBitVec_xor, UInt32.toBitVec_and, hmask]
  cases crc.toBitVec.getLsbD 0 with
  | false =>
    simp
  | true =>
    rw [if_pos rfl, if_pos rfl, BitVec.and_allOnes]
    rfl

theorem toBitVec_crc32cBits (n : Nat)
    (crc : UInt32) :
    (crc32cBits n crc).toBitVec = Crc.shifts crc32cPoly.toBitVec n crc.toBitVec := by
  induction n generalizing crc with
  | zero =>
    rfl
  | succ n ih =>
    rw [crc32cBits, Crc.shifts, ih, toBitVec_crc32cBit]

theorem toBitVec_crc32c (crc : UInt32)
    (data : Bytes) :
    (crc32c crc data).toBitVec = Crc.remainder crc32cPoly.toBitVec crc.toBitVec data := by
  induction data generalizing crc with
  | nil =>
    rfl
  | cons byte data ih =>
    have hbyte : byte.toUInt32.toBitVec = BitVec.ofNat 32 byte.toNat := by
      apply BitVec.eq_of_toNat_eq
      have := byte.toNat_lt
      simp
    rw [crc32c, Crc.remainder, ih, toBitVec_crc32cBits, UInt32.toBitVec_xor, hbyte, Crc.feed]

theorem crc32c_injective
    (data : Bytes) :
    Function.Injective (crc32c · data) := by
  intro x y h
  have hbits := congrArg UInt32.toBitVec h
  rw [toBitVec_crc32c, toBitVec_crc32c] at hbits
  exact UInt32.toBitVec_inj.mp (Crc.remainder_injective (by decide) data hbits)

theorem crc32c_append (crc : UInt32)
    (front back : Bytes) :
    crc32c crc (front ++ back) = crc32c (crc32c crc front) back := by
  apply UInt32.toBitVec_inj.mp
  rw [toBitVec_crc32c, toBitVec_crc32c, toBitVec_crc32c, Crc.remainder_append]

/-! ## Changes within four bytes -/

/-- A buffer in three parts. -/
theorem eq_append_slice_append (a : Bytes)
    (off len : Nat) :
    a = a.take off ++ (slice a off len ++ a.drop (off + len)) := by
  rw [slice, ← List.drop_drop, List.take_append_drop, List.take_append_drop]

/-- The two buffers differ only in the range of `len` bytes at `off`. -/
structure SameOutside (off len : Nat) (a b : Bytes) : Prop where
  length_eq : a.length = b.length
  within : ∀ i, a[i]? ≠ b[i]? → off ≤ i ∧ i < off + len

namespace SameOutside

variable {off len : Nat} {a b : Bytes}

theorem slice_eq (h : SameOutside off len a b) {off' len' : Nat}
    (hdisjoint : off' + len' ≤ off ∨ off + len ≤ off') :
    slice a off' len' = slice b off' len' := by
  apply List.ext_getElem?
  intro i
  rw [getElem?_slice, getElem?_slice]
  by_cases hi : i < len'
  · rw [if_pos hi, if_pos hi]
    by_contra hne
    have := h.within _ hne
    omega
  · rw [if_neg hi, if_neg hi]

theorem take_eq (h : SameOutside off len a b) {n : Nat}
    (hn : n ≤ off) :
    a.take n = b.take n := by
  have hslice : slice a 0 n = slice b 0 n := h.slice_eq (by omega)
  exact hslice

theorem drop_eq (h : SameOutside off len a b) {n : Nat}
    (hn : off + len ≤ n) :
    a.drop n = b.drop n := by
  have hslice : slice a n a.length = slice b n a.length := h.slice_eq (by omega)
  have hlength := h.length_eq
  rwa [slice, slice, List.take_of_length_le (by simp),
    List.take_of_length_le (by simp; omega)] at hslice

theorem slice_ne (h : SameOutside off len a b)
    (hne : a ≠ b) :
    slice a off len ≠ slice b off len := by
  intro hslice
  apply hne
  rw [eq_append_slice_append a off len, eq_append_slice_append b off len,
    h.take_eq (le_refl off), hslice, h.drop_eq (le_refl _)]

/-- The part of the buffers before a position. -/
theorem take (h : SameOutside off len a b)
    (n : Nat) :
    SameOutside off len (a.take n) (b.take n) := by
  refine ⟨by simp [h.length_eq], fun i hi => h.within i ?_⟩
  intro heq
  apply hi
  rw [List.getElem?_take, List.getElem?_take, heq]

/-- The part of the buffers from a position before the range on. -/
theorem drop (h : SameOutside off len a b) {n : Nat}
    (hn : n ≤ off) :
    SameOutside (off - n) len (a.drop n) (b.drop n) := by
  refine ⟨by simp [h.length_eq], fun i hi => ?_⟩
  rw [List.getElem?_drop, List.getElem?_drop] at hi
  have := h.within _ hi
  omega

end SameOutside

/-- A change within four bytes changes the checksum. -/
theorem crc32c_ne {off : Nat} {a b : Bytes} (h : SameOutside off 4 a b) (hne : a ≠ b)
    (crc : UInt32) :
    crc32c crc a ≠ crc32c crc b := by
  have hlengths : (slice a off 4).length = (slice b off 4).length := by
    simp [slice, h.length_eq]
  have hshort : 8 * (slice a off 4).length ≤ 32 := by
    simp only [slice, List.length_take]
    omega
  intro heq
  rw [eq_append_slice_append a off 4, eq_append_slice_append b off 4,
    h.take_eq (le_refl off), h.drop_eq (le_refl _)] at heq
  simp only [crc32c_append] at heq
  have hbits := congrArg UInt32.toBitVec (crc32c_injective _ heq)
  rw [toBitVec_crc32c, toBitVec_crc32c _ (slice b off 4)] at hbits
  exact Crc.remainder_ne (by decide) _ hlengths hshort (h.slice_ne hne) hbits

/-! ## The field -/

section Field

variable {a b : Bytes} {cksumOffset : Nat}

/-- The checksum does not depend on its field. -/
theorem xfsCrc_congr
    (h : SameOutside cksumOffset 4 a b) :
    xfsCrc a cksumOffset = xfsCrc b cksumOffset := by
  rw [xfsCrc, xfsCrc, h.take_eq (le_refl _), h.drop_eq (le_refl _)]

/-- It depends on every four bytes outside of it. -/
theorem xfsCrc_ne {off : Nat} (h : SameOutside off 4 a b) (hne : a ≠ b)
    (hoff : off + 4 ≤ cksumOffset ∨ cksumOffset + 4 ≤ off) :
    xfsCrc a cksumOffset ≠ xfsCrc b cksumOffset := by
  intro heq
  have hcrc := UInt32.not_inj.mp heq
  rcases hoff with hoff | hoff
  · rw [h.drop_eq (show off + 4 ≤ cksumOffset + 4 by omega)] at hcrc
    have hfront := crc32c_injective _ (crc32c_injective _ hcrc)
    refine crc32c_ne (h.take cksumOffset) ?_ _ hfront
    intro htake
    refine hne ?_
    rw [← List.take_append_drop cksumOffset a, ← List.take_append_drop cksumOffset b, htake,
      h.drop_eq hoff]
  · rw [h.take_eq (show cksumOffset ≤ off by omega)] at hcrc
    refine crc32c_ne (h.drop hoff) ?_ _ hcrc
    intro hdrop
    refine hne ?_
    rw [← List.take_append_drop (cksumOffset + 4) a,
      ← List.take_append_drop (cksumOffset + 4) b, hdrop, h.take_eq hoff]

theorem verifyXfsCrc_iff :
    verifyXfsCrc a cksumOffset = true ↔
      cksumOffset + 4 ≤ a.length ∧ xfsCrc a cksumOffset = leU32At a cksumOffset := by
  rw [verifyXfsCrc]
  split
  next h =>
    simp only [Bool.false_eq_true, false_iff, not_and]
    omega
  next h =>
    simp only [beq_iff_eq, iff_and_self]
    omega

theorem sameOutside_splice {len : Nat} (hlength : b.length = len)
    (h : cksumOffset + len ≤ a.length) :
    SameOutside cksumOffset len (splice a cksumOffset b) a := by
  subst hlength
  refine ⟨length_splice h, fun i hi => ?_⟩
  rw [getElem?_splice h] at hi
  by_contra hout
  exact hi (if_neg hout)

/-- The field holds the checksum, and the rest is as it was. -/
theorem writeXfsCrc_eq
    (h : cksumOffset + 4 ≤ a.length) :
    writeXfsCrc a cksumOffset = splice a cksumOffset (toLE 4 (xfsCrc a cksumOffset).toNat) := by
  have hzero : xfsCrc (splice a cksumOffset [0, 0, 0, 0]) cksumOffset = xfsCrc a cksumOffset :=
    xfsCrc_congr (sameOutside_splice rfl h)
  rw [writeXfsCrc, if_neg (by omega)]
  dsimp only
  rw [hzero]
  exact splice_splice h (by simp)

theorem sameOutside_writeXfsCrc
    (h : cksumOffset + 4 ≤ a.length) :
    SameOutside cksumOffset 4 (writeXfsCrc a cksumOffset) a := by
  rw [writeXfsCrc_eq h]
  exact sameOutside_splice (length_toLE _ _) h

theorem length_writeXfsCrc
    (bytes : Bytes) (crcOff : Nat) :
    (writeXfsCrc bytes crcOff).length = bytes.length := by
  by_cases h : crcOff + 4 ≤ bytes.length
  · exact (sameOutside_writeXfsCrc h).length_eq
  · rw [writeXfsCrc, if_pos (by omega)]

theorem leU32At_writeXfsCrc
    (h : cksumOffset + 4 ≤ a.length) :
    leU32At (writeXfsCrc a cksumOffset) cksumOffset = xfsCrc a cksumOffset := by
  have hfits : cksumOffset + (toLE 4 (xfsCrc a cksumOffset).toNat).length ≤ a.length := by
    rwa [length_toLE]
  have hread := slice_splice_self hfits
  rw [length_toLE] at hread
  have hlt : (xfsCrc a cksumOffset).toNat < 256 ^ 4 := (xfsCrc a cksumOffset).toNat_lt
  rw [writeXfsCrc_eq h, leU32At, hread, ofLE_toLE, Nat.mod_eq_of_lt hlt, UInt32.ofNat_toNat]

theorem verifyXfsCrc_writeXfsCrc
    (h : cksumOffset + 4 ≤ a.length) :
    verifyXfsCrc (writeXfsCrc a cksumOffset) cksumOffset = true := by
  have hsame := sameOutside_writeXfsCrc h
  refine verifyXfsCrc_iff.mpr ⟨by rw [hsame.length_eq]; exact h, ?_⟩
  rw [leU32At_writeXfsCrc h, xfsCrc_congr hsame]

/-- Different bytes in the field are different numbers. -/
theorem leU32At_ne (h : SameOutside cksumOffset 4 a b) (hlength : cksumOffset + 4 ≤ a.length)
    (hne : a ≠ b) :
    leU32At a cksumOffset ≠ leU32At b cksumOffset := by
  have hla : (slice a cksumOffset 4).length = 4 := length_slice hlength
  have hlb : (slice b cksumOffset 4).length = 4 := length_slice (h.length_eq ▸ hlength)
  have ha := ofLE_lt (slice a cksumOffset 4)
  have hb := ofLE_lt (slice b cksumOffset 4)
  rw [hla] at ha
  rw [hlb] at hb
  intro heq
  have hnat := congrArg UInt32.toNat heq
  rw [leU32At, leU32At, UInt32.toNat_ofNat_of_lt' ha, UInt32.toNat_ofNat_of_lt' hb] at hnat
  exact h.slice_ne hne (ofLE_injective (hla.trans hlb.symm) hnat)

end Field

/-- **What the checksum detects.**  It holds once it is written, and from then on every
change in its field alone, and every change within four bytes that do not meet the field,
is detected. -/
theorem checksum_detects (bytes : Bytes) (cksumOffset : Nat)
    (hfield : cksumOffset + 4 ≤ bytes.length) :
    verifyXfsCrc (writeXfsCrc bytes cksumOffset) cksumOffset = true ∧
    ∀ changed : Bytes, verifyXfsCrc bytes cksumOffset = true → changed ≠ bytes →
      (SameOutside cksumOffset 4 changed bytes ∨
        ∃ off, (off + 4 ≤ cksumOffset ∨ cksumOffset + 4 ≤ off) ∧
          SameOutside off 4 changed bytes) →
      verifyXfsCrc changed cksumOffset = false := by
  refine ⟨verifyXfsCrc_writeXfsCrc hfield, ?_⟩
  intro changed hholds hne hchange
  obtain ⟨-, hcrc⟩ := verifyXfsCrc_iff.mp hholds
  refine Bool.eq_false_iff.mpr fun hverify => ?_
  obtain ⟨hlength, hcrc'⟩ := verifyXfsCrc_iff.mp hverify
  rcases hchange with hsame | ⟨off, hoff, hsame⟩
  · refine leU32At_ne hsame hlength hne ?_
    rw [← hcrc, ← hcrc', xfsCrc_congr hsame]
  · refine xfsCrc_ne hsame hne hoff ?_
    rw [hcrc, hcrc', leU32At, leU32At, hsame.slice_eq (by omega)]

/-- Eight zero bytes with the checksum in front, and a change in the last four. -/
theorem checksum_detects_in_eight_bytes :
    verifyXfsCrc (writeXfsCrc (List.replicate 8 0) 0) 0 = true ∧
    verifyXfsCrc (splice (writeXfsCrc (List.replicate 8 0) 0) 5 [7, 1]) 0 = false := by
  have hwritten := (checksum_detects (List.replicate 8 0) 0 (by decide)).1
  refine ⟨hwritten, ?_⟩
  refine (checksum_detects (writeXfsCrc (List.replicate 8 0) 0) 0 (by decide)).2 _ hwritten
    (by decide +kernel) (Or.inr ⟨4, by decide, by decide, ?_⟩)
  intro i hi
  rw [getElem?_splice (by decide)] at hi
  by_contra hout
  refine hi (if_neg ?_)
  simp only [List.length_cons, List.length_nil]
  omega

end Crabfs
end Theos
