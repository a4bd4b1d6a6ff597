import Theos.Base.Endian
import Theos.Base.Rust
import Theos.Base.Writes

/-!
# Errors and numbers of crabfs

`error.rs` and `endian.rs`.  A number is read from an offset of a buffer, and a read outside
the buffer panics; each has a total companion that says what is read from inside.  A write
is an offset and the bytes that are put there.
-/

namespace Theos
namespace Crabfs

open Base

/-! ## Errors -/

inductive ParseError where
  | bufferTooSmall (expected actual : Nat)
  | invalidMagic (expected actual : UInt32)
  | unsupportedVersion (version : UInt32)
  | invalidField (field : String) (value : Nat)
  | crcMismatch (what : String)
  | invalidInt
deriving DecidableEq, Repr

inductive DeviceError where
  | io
  | shortRead (expected actual : Nat)
  | shortWrite (expected actual : Nat)
  | outOfRange
deriving DecidableEq, Repr

inductive ReadError where
  | device (e : DeviceError)
  | parse (e : ParseError)
deriving DecidableEq, Repr

inductive WriteError where
  | device (e : DeviceError)
  | parse (e : ParseError)
  | tryFromInt
deriving DecidableEq, Repr

/-- `require_len`. -/
def requireLen (bytes : Bytes) (minLen : Nat) : Rust ParseError Unit :=
  if bytes.length < minLen then Rust.err (.bufferTooSmall minLen bytes.length) else .ok ()

theorem requireLen_of_le {bytes : Bytes} {minLen : Nat}
    (h : minLen ≤ bytes.length) :
    requireLen bytes minLen = .ok () :=
  if_neg (by omega)

theorem requireLen_eq_ok_iff
    {bytes : Bytes} {minLen : Nat} {u : Unit} :
    requireLen bytes minLen = .ok u ↔ minLen ≤ bytes.length := by
  rw [requireLen]
  split
  next h =>
    simp [Rust.err]
    omega
  next h =>
    simp
    omega

/-! ## Reading -/

/-- `[u8; n]`. -/
abbrev Octets (n : Nat) : Type :=
  { bytes : Bytes // bytes.length = n }

/-- `[0u8; n]`. -/
instance (n : Nat) : Inhabited (Octets n) :=
  ⟨List.replicate n 0, List.length_replicate⟩

section Reading

variable (bytes : Bytes) (off : Nat)

def u16At : UInt16 := UInt16.ofNat (ofBE (slice bytes off 2))

def u32At : UInt32 := UInt32.ofNat (ofBE (slice bytes off 4))

def u64At : UInt64 := UInt64.ofNat (ofBE (slice bytes off 8))

def leU32At : UInt32 := UInt32.ofNat (ofLE (slice bytes off 4))

def u8At : UInt8 := bytes.getD off 0

def octetsAt (n : Nat) : Octets n := ⟨(slice bytes off n).takeD n 0, List.takeD_length _ _ _⟩

/-- `be_u16`. -/
def beU16 : Option UInt16 := if off + 2 ≤ bytes.length then some (u16At bytes off) else none

/-- `be_u32`. -/
def beU32 : Option UInt32 := if off + 4 ≤ bytes.length then some (u32At bytes off) else none

/-- `be_u64`. -/
def beU64 : Option UInt64 := if off + 8 ≤ bytes.length then some (u64At bytes off) else none

/-- `le_u32`. -/
def leU32 : Option UInt32 := if off + 4 ≤ bytes.length then some (leU32At bytes off) else none

/-- `bytes[off]`. -/
def byteAt : Option UInt8 := if off + 1 ≤ bytes.length then some (u8At bytes off) else none

/-- `bytes[off..off + n]` as an array. -/
def arrayAt (n : Nat) : Option (Octets n) :=
  if off + n ≤ bytes.length then some (octetsAt bytes off n) else none

end Reading

section InRange

variable {bytes : Bytes} {off : Nat}

theorem beU16_of_le (h : off + 2 ≤ bytes.length) : beU16 bytes off = some (u16At bytes off) :=
  if_pos h

theorem beU32_of_le (h : off + 4 ≤ bytes.length) : beU32 bytes off = some (u32At bytes off) :=
  if_pos h

theorem beU64_of_le (h : off + 8 ≤ bytes.length) : beU64 bytes off = some (u64At bytes off) :=
  if_pos h

theorem leU32_of_le (h : off + 4 ≤ bytes.length) : leU32 bytes off = some (leU32At bytes off) :=
  if_pos h

theorem byteAt_of_le (h : off + 1 ≤ bytes.length) : byteAt bytes off = some (u8At bytes off) :=
  if_pos h

theorem arrayAt_of_le {n : Nat}
    (h : off + n ≤ bytes.length) :
    arrayAt bytes off n = some (octetsAt bytes off n) :=
  if_pos h

end InRange

/-! ## Writing -/

/-- `put_be16`. -/
def putBe16 (off : Nat) (value : UInt16) : Write UInt8 := ⟨off, toBE 2 value.toNat⟩

/-- `put_be32`. -/
def putBe32 (off : Nat) (value : UInt32) : Write UInt8 := ⟨off, toBE 4 value.toNat⟩

/-- `put_be64`. -/
def putBe64 (off : Nat) (value : UInt64) : Write UInt8 := ⟨off, toBE 8 value.toNat⟩

/-- `bytes[off] = value`. -/
def putByte (off : Nat) (value : UInt8) : Write UInt8 := ⟨off, [value]⟩

/-- `bytes[off..off + n].copy_from_slice(..)`. -/
def putArray {n : Nat} (off : Nat) (value : Octets n) : Write UInt8 := ⟨off, value.val⟩

/-- `bytes[off..off + n].fill(0)`. -/
def fillZero (off n : Nat) : Write UInt8 := ⟨off, List.replicate n 0⟩

section Stop

variable (off : Nat)

@[simp] theorem stop_putBe16 (value : UInt16) : (putBe16 off value).stop = off + 2 := by
  simp [putBe16, Write.stop]

@[simp] theorem stop_putBe32 (value : UInt32) : (putBe32 off value).stop = off + 4 := by
  simp [putBe32, Write.stop]

@[simp] theorem stop_putBe64 (value : UInt64) : (putBe64 off value).stop = off + 8 := by
  simp [putBe64, Write.stop]

@[simp] theorem stop_putByte (value : UInt8) : (putByte off value).stop = off + 1 := by
  simp [putByte, Write.stop]

@[simp] theorem stop_putArray {n : Nat}
    (value : Octets n) :
    (putArray off value).stop = off + n := by
  simp [putArray, Write.stop, value.property]

@[simp] theorem stop_fillZero (n : Nat) : (fillZero off n).stop = off + n := by
  simp [fillZero, Write.stop]

@[simp] theorem off_putBe16 (value : UInt16) : (putBe16 off value).off = off := rfl

@[simp] theorem off_putBe32 (value : UInt32) : (putBe32 off value).off = off := rfl

@[simp] theorem off_putBe64 (value : UInt64) : (putBe64 off value).off = off := rfl

@[simp] theorem off_putByte (value : UInt8) : (putByte off value).off = off := rfl

@[simp] theorem off_putArray {n : Nat} (value : Octets n) : (putArray off value).off = off := rfl

@[simp] theorem off_fillZero (n : Nat) : (fillZero off n).off = off := rfl

end Stop

/-- A write can be read where it was made. -/
structure Holds (bytes : Bytes) (w : Write UInt8) : Prop where
  fits : w.stop ≤ bytes.length
  slice_eq : slice bytes w.off w.data.length = w.data

namespace Holds

variable {bytes : Bytes} {off : Nat}

theorem beU16 {value : UInt16}
    (h : Holds bytes (putBe16 off value)) :
    beU16 bytes off = some value := by
  have hslice : slice bytes off 2 = toBE 2 value.toNat := by
    simpa [putBe16] using h.slice_eq
  have hfits : off + 2 ≤ bytes.length := by
    simpa [putBe16, Write.stop] using h.fits
  have hlt : value.toNat < 256 ^ 2 := value.toNat_lt
  rw [beU16_of_le hfits, u16At, hslice, ofBE_toBE, Nat.mod_eq_of_lt hlt, UInt16.ofNat_toNat]

theorem beU32 {value : UInt32}
    (h : Holds bytes (putBe32 off value)) :
    beU32 bytes off = some value := by
  have hslice : slice bytes off 4 = toBE 4 value.toNat := by
    simpa [putBe32] using h.slice_eq
  have hfits : off + 4 ≤ bytes.length := by
    simpa [putBe32, Write.stop] using h.fits
  have hlt : value.toNat < 256 ^ 4 := value.toNat_lt
  rw [beU32_of_le hfits, u32At, hslice, ofBE_toBE, Nat.mod_eq_of_lt hlt, UInt32.ofNat_toNat]

theorem beU64 {value : UInt64}
    (h : Holds bytes (putBe64 off value)) :
    beU64 bytes off = some value := by
  have hslice : slice bytes off 8 = toBE 8 value.toNat := by
    simpa [putBe64] using h.slice_eq
  have hfits : off + 8 ≤ bytes.length := by
    simpa [putBe64, Write.stop] using h.fits
  have hlt : value.toNat < 256 ^ 8 := value.toNat_lt
  rw [beU64_of_le hfits, u64At, hslice, ofBE_toBE, Nat.mod_eq_of_lt hlt, UInt64.ofNat_toNat]

theorem byteAt {value : UInt8}
    (h : Holds bytes (putByte off value)) :
    byteAt bytes off = some value := by
  have hslice : slice bytes off 1 = [value] := h.slice_eq
  have hfits : off + 1 ≤ bytes.length := h.fits
  have hget := congrArg (·[0]?) hslice
  rw [getElem?_slice, if_pos (by omega), Nat.add_zero] at hget
  rw [byteAt_of_le hfits, u8At, List.getD_eq_getElem?_getD, hget]
  rfl

theorem arrayAt {n : Nat} {value : Octets n}
    (h : Holds bytes (putArray off value)) :
    arrayAt bytes off n = some value := by
  have hslice : slice bytes off n = value.val := by
    simpa [putArray, value.property] using h.slice_eq
  have hfits : off + n ≤ bytes.length := by
    simpa [putArray, Write.stop, value.property] using h.fits
  rw [arrayAt_of_le hfits]
  refine congrArg some (Subtype.ext ?_)
  change (slice bytes off n).takeD n 0 = value.val
  rw [hslice, List.takeD_eq_take _ (le_of_eq value.property.symm),
    List.take_of_length_le (le_of_eq value.property)]

end Holds

/-! ## Writing a structure -/

/-- `require_len` and then the writes. -/
def serializeWith (minLen : Nat) (writes : List (Write UInt8)) (bytes : Bytes) :
    Rust ParseError Bytes := do
  requireLen bytes minLen
  Rust.orPanic (writeAll bytes writes)

/-- Writes in the order of their offsets are made where there is room, and each is there
afterwards. -/
theorem serializeWith_spec {minLen : Nat} {writes : List (Write UInt8)} {bytes : Bytes}
    (hascending : Ascending 0 writes minLen)
    (hlength : minLen ≤ bytes.length) :
    ∃ out, serializeWith minLen writes bytes = .ok out ∧ writeAll bytes writes = some out ∧
      out.length = bytes.length ∧ ∀ w ∈ writes, Holds out w := by
  have hfits : ∀ w ∈ writes, w.stop ≤ bytes.length :=
    fun w hw => (hascending.stop_le hw).trans hlength
  obtain ⟨out, hout⟩ := exists_writeAll hfits
  refine ⟨out, ?_, hout, length_writeAll hout, fun w hw => ⟨?_, ?_⟩⟩
  · rw [serializeWith, requireLen_of_le hlength, Rust.ok_bind, hout, Rust.orPanic_some]
  · rw [length_writeAll hout]
    exact hfits w hw
  · exact slice_writeAll_of_mem hout hascending.pairwise hw

end Crabfs
end Theos
