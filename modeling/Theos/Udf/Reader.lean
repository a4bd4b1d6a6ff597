import Theos.Base.Endian
import Theos.Base.Rust
import Theos.Wim.Metadata

/-!
# The reader of UDF images

`lib/udf`: the entries of a directory, and the reader that `open_file` returns for the
extents of a file.  Numbers and lengths come from the image.  Every sum and product is
64 bits wide and panics when it overflows, and so does a slice or an index out of range.

An image is the content of a file, whose length is a 63-bit number.  Seeking
beyond that fails, and a read returns all that is asked for, up to the end of the
file.
-/

namespace Theos
namespace Udf

open Base Rust

abbrev Text := List Char

def tagidFileIdentifier : UInt16 := 0x0101
inductive IoError where
  | unexpectedEof
  | invalidInput
deriving DecidableEq, Repr

inductive Error where
  | io (e : IoError)
  | invalidImage
  | unsupported (feature : String)
  | fileNotFound (path : Text)
deriving DecidableEq, Repr

structure LongAd where
  len : UInt32
  lba : UInt32
  partition : UInt16
deriving DecidableEq, Repr

structure FileIdentifier where
  name : Text
  icb : LongAd
  characteristics : UInt8
deriving DecidableEq, Repr

/-! ## Files and numbers -/

/-- The file that holds an image. -/
structure Image where
  content : Bytes
  length_lt : content.length < 2 ^ 63

section Arithmetic

variable {ε : Type} {a b c : Nat}

def plus (a b : Nat) : Rust ε Nat :=
  orPanic (addU 64 a b)

def minus (a b : Nat) : Rust ε Nat :=
  orPanic (subU a b)

theorem plus_eq_ok_iff :
    (plus a b : Rust ε Nat) = .ok c ↔ a + b < 2 ^ 64 ∧ a + b = c := by
  rw [plus, orPanic_eq_ok_iff, addU_eq_some_iff]

theorem plus_eq
    (h : a + b < 2 ^ 64) :
    (plus a b : Rust ε Nat) = .ok (a + b) :=
  plus_eq_ok_iff.mpr ⟨h, rfl⟩

theorem minus_eq
    (h : b ≤ a) :
    (minus a b : Rust ε Nat) = .ok (a - b) := by
  rw [minus, subU, if_pos h, orPanic_some]

end Arithmetic

/-- `data[i]`. -/
def index (data : Bytes) (i : Nat) : Rust Error UInt8 :=
  orPanic data[i]?

/-- `&data[start..stop]`. -/
def range (data : Bytes) (start stop : Nat) : Rust Error Bytes :=
  orPanic (if start ≤ stop ∧ stop ≤ data.length then some (slice data start (stop - start))
    else none)

/-- The number in some bytes, the least significant one first. -/
def readLE (width : Nat) (data : Bytes) (offset : Nat) : Rust Error Nat := do
  let stop ← plus offset width
  if stop ≤ data.length then .ok (ofLE (slice data offset width)) else err .invalidImage

def readU16 (data : Bytes) (offset : Nat) : Rust Error UInt16 := do
  let n ← readLE 2 data offset
  return UInt16.ofNat n

def readU32 (data : Bytes) (offset : Nat) : Rust Error UInt32 := do
  let n ← readLE 4 data offset
  return UInt32.ofNat n

/-- The three fields of a `long_ad` from an offset on. -/
def readLongAd (data : Bytes) (offset : Nat) : Rust Error LongAd := do
  let len ← readU32 data offset
  let lba ← readU32 data (offset + 4)
  let partition ← readU16 data (offset + 8)
  return ⟨len, lba, partition⟩

/-- `align_up` to four bytes. -/
def alignUp (value : Nat) : Nat :=
  (value + 3) / 4 * 4

/-! ## Directories -/

def utf16BeUnits : Bytes → List Nat
  | a :: b :: rest => (256 * a.toNat + b.toNat) :: utf16BeUnits rest
  | _ => []

def decodeDstring (data : Bytes) : Rust Error Text :=
  match data with
  | [] => .ok []
  | compression :: data =>
    if compression = 8 then .ok (data.map fun b => Char.ofNat b.toNat)
    else if compression = 16 then
      if data.length % 2 ≠ 0 then err .invalidImage
      else .ok (Wim.fromUtf16Lossy (utf16BeUnits data))
    else err (.unsupported "unsupported UDF string compression")

/-- A round of the loop over a directory, at an offset: the identifier there and the offset
behind it, or nothing if the loop ends. -/
def directoryRound (data : Bytes) (offset : Nat) : Rust Error (Option (FileIdentifier × Nat)) := do
  let fixed ← plus offset 38
  if data.length < fixed then return none
  else do
    let tagId ← readU16 data offset
    if tagId = 0 then return none
    else if tagId ≠ tagidFileIdentifier then err .invalidImage
    else do
      let descCrcLen ← readU16 data (offset + 10)
      let descriptorLen ← plus 16 descCrcLen.toNat
      let descriptorEnd ← plus offset descriptorLen
      if data.length < descriptorEnd ∨ descriptorLen < 38 then err .invalidImage
      else do
        let characteristics ← index data (offset + 18)
        let fileIdLen ← index data (offset + 19)
        let icb ← readLongAd data (offset + 20)
        let impUseLen ← readU16 data (offset + 36)
        let fileIdStart ← plus fixed impUseLen.toNat
        let fileIdEnd ← plus fileIdStart fileIdLen.toNat
        if descriptorEnd < fileIdEnd then err .invalidImage
        else do
          let fileId ← range data fileIdStart fileIdEnd
          let name ← decodeDstring fileId
          let next ← plus offset (alignUp descriptorLen)
          return some (⟨name, icb, characteristics⟩, next)

theorem le_alignUp
    (value : Nat) :
    value ≤ alignUp value ∧ alignUp value < value + 4 ∧ alignUp value % 4 = 0 := by
  unfold alignUp
  omega

/-- A round starts inside the data and moves on, by the size of a descriptor at least and to no
more than its padding behind the data. -/
theorem lt_of_directoryRound {data : Bytes} {offset next : Nat} {fid : FileIdentifier}
    (h : directoryRound data offset = .ok (some (fid, next))) :
    offset + 38 ≤ data.length ∧ offset + 38 ≤ next ∧ next ≤ data.length + 3 := by
  rw [directoryRound] at h
  obtain ⟨fixed, hfixed, h⟩ := bind_eq_ok.mp h
  obtain ⟨-, rfl⟩ := plus_eq_ok_iff.mp hfixed
  split at h
  · cases h
  · obtain ⟨tagId, -, h⟩ := bind_eq_ok.mp h
    split at h
    · cases h
    · split at h
      · cases h
      · obtain ⟨descCrcLen, -, h⟩ := bind_eq_ok.mp h
        obtain ⟨descriptorLen, -, h⟩ := bind_eq_ok.mp h
        obtain ⟨descriptorEnd, hend, h⟩ := bind_eq_ok.mp h
        obtain ⟨-, rfl⟩ := plus_eq_ok_iff.mp hend
        split at h
        · cases h
        · obtain ⟨characteristics, -, h⟩ := bind_eq_ok.mp h
          obtain ⟨fileIdLen, -, h⟩ := bind_eq_ok.mp h
          obtain ⟨icb, -, h⟩ := bind_eq_ok.mp h
          obtain ⟨impUseLen, -, h⟩ := bind_eq_ok.mp h
          obtain ⟨fileIdStart, -, h⟩ := bind_eq_ok.mp h
          obtain ⟨fileIdEnd, -, h⟩ := bind_eq_ok.mp h
          split at h
          · cases h
          · obtain ⟨fileId, -, h⟩ := bind_eq_ok.mp h
            obtain ⟨name, -, h⟩ := bind_eq_ok.mp h
            obtain ⟨behind, hnext, h⟩ := bind_eq_ok.mp h
            obtain ⟨-, rfl⟩ := plus_eq_ok_iff.mp hnext
            cases h
            have halign := le_alignUp descriptorLen
            omega

/-- The loop over a directory, from an offset on. -/
def directoryLoop (data : Bytes) (offset : Nat) : Rust Error (List FileIdentifier) :=
  match _h : directoryRound data offset with
  | .error e => .error e
  | .ok none => .ok []
  | .ok (some (fid, next)) => do
    let rest ← directoryLoop data next
    return fid :: rest
termination_by data.length - offset
decreasing_by
  have := lt_of_directoryRound ‹_›
  omega

def parseDirectoryEntries (data : Bytes) : Rust Error (List FileIdentifier) :=
  directoryLoop data 0

/-! ## `FileReader` -/

/-- `FileReader`, apart from the file it reads. -/
structure FileReader where
  extents : List (Nat × Nat)
  len : Nat
  pos : Nat
deriving DecidableEq, Repr

/-- The extent that a position is in, and the offset there. -/
def locateExtent (position : Nat) :
    List (Nat × Nat) → Nat → Rust IoError (Option ((Nat × Nat) × Nat))
  | [], _ => .ok none
  | (start, len) :: extents, base => do
    let stop ← plus base len
    if position < stop then do
      let offset ← minus position base
      return some ((start, len), offset)
    else locateExtent position extents stop

/-- Where the next piece of a read is in the file, and how long it is. -/
def nextChunk (reader : FileReader) (remaining : Nat) : Rust IoError (Nat × Nat) := do
  let found ← locateExtent reader.pos reader.extents 0
  let ((extentStart, extentLen), extentOffset) ← okOr .unexpectedEof found
  let left ← minus extentLen extentOffset
  let position ← plus extentStart extentOffset
  if position < 2 ^ 63 then return (position, min remaining left)
  else err .invalidInput

/-- The loop of `read`; `out` is what it has put into the buffer. -/
def readLoop (image : Image) (reader : FileReader) (remaining : Nat) (out : Bytes) :
    Rust IoError Bytes × FileReader :=
  if remaining = 0 then (.ok out, reader)
  else
    match nextChunk reader remaining with
    | .error e => (.error e, reader)
    | .ok (position, chunk) =>
      let data := slice image.content position chunk
      if data.length = 0 then (.ok out, reader)
      else
        readLoop image { reader with pos := reader.pos + data.length } (remaining - data.length)
          (out ++ data)
termination_by remaining
decreasing_by
  exact Nat.sub_lt (Nat.pos_of_ne_zero ‹_›) (Nat.pos_of_ne_zero ‹_›)

/-- `read` into a buffer of `want` bytes: what is in it afterwards. -/
def FileReader.read (image : Image) (reader : FileReader) (want : Nat) :
    Rust IoError Bytes × FileReader :=
  if reader.len ≤ reader.pos then (.ok [], reader)
  else readLoop image reader (min want (reader.len - reader.pos)) []

inductive SeekFrom where
  | start (p : UInt64)
  | current (p : Int64)
  | «end» (p : Int64)

/-- `(n as i64 + p) as u64`. -/
def seekSum (n : Nat) (p : Int64) : Rust IoError Nat :=
  let n : Int := if n < 2 ^ 63 then n else n - 2 ^ 64
  if -2 ^ 63 ≤ n + p.toInt ∧ n + p.toInt < 2 ^ 63 then .ok ((n + p.toInt) % 2 ^ 64).toNat
  else Rust.panic

def FileReader.seek (reader : FileReader) (pos : SeekFrom) : Rust IoError Nat × FileReader :=
  let target : Rust IoError Nat :=
    match pos with
    | .start p => .ok p.toNat
    | .current p => seekSum reader.pos p
    | .end p => seekSum reader.len p
  match target with
  | .error e => (.error e, reader)
  | .ok newPos =>
    if reader.len < newPos then (err .invalidInput, reader)
    else (.ok newPos, { reader with pos := newPos })

end Udf
end Theos
