import Theos.Base.Buffer
import Theos.Base.Endian

/-!
# The metadata of a WIM image

`wimunpack` reads directory entries out of the metadata resource of an image.  They are
found by offsets: an entry leads to its first child, and to the entry behind it, which
starts after its extra streams.
-/

namespace Theos
namespace Wim

open Base

abbrev Text := List Char

/-- What is wrong with the metadata, as the messages have it. -/
inductive WimError where
  | bufferTooShort (len offset : Nat)
  | stringLength (len offset : Nat)
  | dentryLength (length offset : Nat)
  | nameLengths (offset : Nat)
  | overrun (offset : Nat)
  | streamLength (length offset : Nat)
  | streamNameLength (length offset : Nat)
deriving DecidableEq, Repr

/-- How unpacking stops: an error in the metadata, an error of the file system, or an
addition that overflows. -/
inductive Failure where
  | wim (error : WimError)
  | io
  | overflow
deriving DecidableEq, Repr

def fileAttributeDirectory : Nat := 0x10
def wimDentryDiskSize : Nat := 102
def wimExtraStreamDiskSize : Nat := 38

def alignU64 (value align : Nat) : Except Failure Nat :=
  if value = 0 then .ok 0
  else if 2 ^ 64 ≤ value + align then .error .overflow
  else .ok ((value + align - 1) / align * align)

def readBytes (buf : Bytes) (offset len : Nat) : Except Failure Bytes :=
  if 2 ^ 64 ≤ offset + len then .error .overflow
  else if offset + len ≤ buf.length then .ok (slice buf offset len)
  else .error (.wim (.bufferTooShort len offset))

def readU16 (buf : Bytes) (offset : Nat) : Except Failure Nat :=
  (readBytes buf offset 2).map ofLE

def readU32 (buf : Bytes) (offset : Nat) : Except Failure Nat :=
  (readBytes buf offset 4).map ofLE

def readU64 (buf : Bytes) (offset : Nat) : Except Failure Nat :=
  (readBytes buf offset 8).map ofLE

/-- `String::from_utf16_lossy`: an unpaired surrogate becomes U+FFFD. -/
def fromUtf16Lossy : List Nat → Text
  | [] => []
  | [u] => if u < 0xD800 ∨ 0xDFFF < u then [Char.ofNat u] else [Char.ofNat 0xFFFD]
  | u :: low :: rest =>
    if u < 0xD800 ∨ 0xDFFF < u then Char.ofNat u :: fromUtf16Lossy (low :: rest)
    else if u < 0xDC00 ∧ 0xDC00 ≤ low ∧ low ≤ 0xDFFF then
      Char.ofNat (0x10000 + (u - 0xD800) * 0x400 + (low - 0xDC00)) :: fromUtf16Lossy rest
    else Char.ofNat 0xFFFD :: fromUtf16Lossy (low :: rest)

def readUtf16leString (buf : Bytes) (offset len : Nat) : Except Failure Text :=
  if len = 0 then .ok []
  else if len % 2 ≠ 0 then .error (.wim (.stringLength len offset))
  else (readBytes buf offset len).map fun bytes => fromUtf16Lossy (utf16Units bytes)

structure Dentry where
  name : Text
  attributes : Nat
  hash : Bytes
  subdirOffset : Nat
  nextOffset : Nat
deriving DecidableEq, Repr

/-- Skip the extra streams behind an entry; the offset of the next entry. -/
def skipStreams (metadata : Bytes) : Nat → Nat → Except Failure Nat
  | 0, offset => .ok offset
  | count + 1, offset => do
    let streamLen ← alignU64 (← readU64 metadata offset) 8
    if streamLen < wimExtraStreamDiskSize then .error (.wim (.streamLength streamLen offset))
    else do
      let nameLen ← readU16 metadata (offset + 36)
      if nameLen % 2 ≠ 0 ∨ streamLen < wimExtraStreamDiskSize + nameLen then
        .error (.wim (.streamNameLength nameLen offset))
      else do
        let _ ← readBytes metadata offset streamLen
        skipStreams metadata count (offset + streamLen)

/-- The place behind a name, which is followed by a zero unless it is empty. -/
def behindName (cursor len : Nat) : Nat :=
  if len = 0 then cursor else cursor + len + 2

def readDentry (metadata : Bytes) (offset : Nat) : Except Failure (Option Dentry) := do
  let length ← alignU64 (← readU64 metadata offset) 8
  if length ≤ 8 then .ok none
  else if length < wimDentryDiskSize then .error (.wim (.dentryLength length offset))
  else do
    let bytes ← readBytes metadata offset length
    let attributes ← readU32 bytes 8
    let subdirOffset ← readU64 bytes 16
    let numExtraStreams ← readU16 bytes 96
    let shortNameLen ← readU16 bytes 98
    let nameLen ← readU16 bytes 100
    if shortNameLen % 2 ≠ 0 ∨ nameLen % 2 ≠ 0 then .error (.wim (.nameLengths offset))
    else do
      let name ← readUtf16leString bytes wimDentryDiskSize nameLen
      let cursor := behindName wimDentryDiskSize nameLen
      let _ ← readUtf16leString bytes cursor shortNameLen
      if length < behindName cursor shortNameLen then .error (.wim (.overrun offset))
      else do
        let nextOffset ← skipStreams metadata numExtraStreams (offset + length)
        let hash ← readBytes bytes 64 20
        .ok (some ⟨name, attributes, hash, subdirOffset, nextOffset⟩)

/-- The bytes of an entry without extra streams or a short name, padded with zeros. -/
def dentryBytes (name : List Nat) (attributes subdirOffset : Nat) : Bytes :=
  let length := (wimDentryDiskSize + 2 * name.length + 2 + 7) / 8 * 8
  let head := toLE 8 length ++ toLE 4 attributes ++ toLE 4 0 ++ toLE 8 subdirOffset ++
    List.replicate 72 0 ++ toLE 2 0 ++ toLE 2 0 ++ toLE 2 (2 * name.length) ++
    name.flatMap (toLE 2)
  head ++ List.replicate (length - head.length) 0

end Wim
end Theos
