import Theos.Base.Utf8
import Theos.Crabfs.Checksum
import Theos.Crabfs.OnDisk

/-!
# The reader of crabfs

`reader.rs` and `on_disk/dir.rs`.  Every position is computed from the superblock that is
passed in, in checked 64-bit arithmetic.  A device returns the bytes that are asked for or an
error, and reading does not change it.

Positions in a buffer are not checked for an overflow: a buffer has at most `isize::MAX` bytes.
-/

namespace Theos
namespace Crabfs

open Base Rust

/-! ## Devices -/

/-- `BlockDevice`, as far as it is read. -/
structure Device where
  readAt : Nat → Nat → Except DeviceError Bytes
  length_readAt : ∀ {off len data}, readAt off len = .ok data → data.length = len

/-- A device with some content, which nothing is read behind. -/
def Device.ofImage (image : Bytes) : Device where
  readAt off len :=
    if off + len ≤ image.length then .ok (slice image off len) else .error .outOfRange
  length_readAt := by
    intro off len data h
    split at h
    next hle =>
      cases h
      exact length_slice hle
    next =>
      cases h

/-- `dev.read_at(..)?`. -/
def Device.read (dev : Device) (off len : Nat) : Rust ReadError Bytes :=
  match dev.readAt off len with
  | .ok data => .ok data
  | .error e => err (.device e)

/-- A parser in a function that returns a `ReadError`. -/
def parsed {R : Type} (x : Rust ParseError R) : Rust ReadError R :=
  mapErr .parse x

/-- `&bytes[off..]`. -/
def dropFrom (bytes : Bytes) (off : Nat) : Option Bytes :=
  if off ≤ bytes.length then some (bytes.drop off) else none

/-- `&bytes[off..off + len]`. -/
def sliceAt (bytes : Bytes) (off len : Nat) : Option Bytes :=
  if off + len ≤ bytes.length then some (slice bytes off len) else none

theorem dropFrom_eq_some {bytes rest : Bytes} {off : Nat}
    (h : dropFrom bytes off = some rest) :
    off ≤ bytes.length ∧ rest = bytes.drop off := by
  rw [dropFrom] at h
  split at h
  next hle =>
    exact ⟨hle, (Option.some.inj h).symm⟩
  next =>
    cases h

theorem sliceAt_eq_some {bytes part : Bytes} {off len : Nat}
    (h : sliceAt bytes off len = some part) :
    off + len ≤ bytes.length ∧ part = slice bytes off len := by
  rw [sliceAt] at h
  split at h
  next hle =>
    exact ⟨hle, (Option.some.inj h).symm⟩
  next =>
    cases h

theorem sliceAt_of_le {bytes : Bytes} {off len : Nat}
    (h : off + len ≤ bytes.length) :
    sliceAt bytes off len = some (slice bytes off len) :=
  if_pos h

theorem parsed_eq_ok_iff
    {R : Type} {x : Rust ParseError R} {r : R} :
    parsed x = .ok r ↔ x = .ok r :=
  mapErr_eq_ok_iff _ _ _

def bytesEqLoop : Bytes → Bytes → Bool
  | a :: left, b :: right => if a ≠ b then false else bytesEqLoop left right
  | _, _ => true

def bytesEq (left right : Bytes) : Bool :=
  if left.length ≠ right.length then false else bytesEqLoop left right

/-! ## The headers -/

/-- The first byte of an allocation group. -/
def agStart (sb : Superblock) (agno : Nat) : Rust ReadError Nat :=
  if sb.agCount.toNat ≤ agno then err (.device .outOfRange)
  else .ok (satMulU 64 (satMulU 64 agno sb.agBlocks.toNat) sb.blockSize.toNat)

/-! ## Inodes -/

/-- `(1u64 << n) - 1`. -/
def lowMask (n : Nat) : Option Nat :=
  (shlU 64 1 n).bind (subU · 1)

def inodeOffset (sb : Superblock) (ino : UInt64) : Rust ReadError Nat := do
  let high ← orPanic (shrU 64 ino.toNat (sb.agblklog.toNat + sb.inopblog.toNat))
  let agno := high % 2 ^ 32
  let shifted ← orPanic (shrU 64 ino.toNat sb.inopblog.toNat)
  let agbno := shifted &&& (← orPanic (lowMask sb.agblklog.toNat))
  let slot := ino.toNat &&& (← orPanic (lowMask sb.inopblog.toNat))
  let offset ← orPanic (mulU 64 slot sb.inodeSize.toNat)
  let start ← agStart sb agno
  let block ← orPanic (mulU 64 agbno sb.blockSize.toNat)
  let position ← orPanic (addU 64 start block)
  orPanic (addU 64 position offset)

/-- The inode, and `scratch` with the record that was read into it. -/
def readInode (dev : Device) (sb : Superblock) (ino : UInt64) (scratch : Bytes) :
    Rust ReadError (Inode × Bytes) :=
  let inosz := sb.inodeSize.toNat
  if scratch.length < inosz then err (.device (.shortRead inosz scratch.length))
  else do
    let offset ← inodeOffset sb ino
    let raw ← dev.read offset inosz
    if sb.isV5 && !verifyXfsCrc raw xfsDinodeCrcOff then err (.parse (.crcMismatch "inode"))
    else do
      let inode ← parsed (Inode.parse raw)
      return (inode, splice scratch 0 raw)

/-! ## Extents -/

/-- The extents of the fork, from the `i`-th one on. -/
def readExtents (fork : Bytes) : (n i : Nat) → Rust ReadError (List BmapExtent)
  | 0, _ => .ok []
  | n + 1, i => do
    let extBytes ← orPanic (dropFrom fork (i * 16))
    let ext ← parsed (BmapExtent.parse extBytes)
    let rest ← readExtents fork n (i + 1)
    return ext :: rest

def extentToPhysicalOffset (sb : Superblock) (ext : BmapExtent) : Option Nat := do
  let agno ← shrU 64 ext.startblock.toNat sb.agblklog.toNat
  let agblk := ext.startblock.toNat &&& (← lowMask sb.agblklog.toNat)
  let group ← mulU 64 agno sb.agBlocks.toNat
  let block ← addU 64 group agblk
  mulU 64 block sb.blockSize.toNat

/-- The loop of `read_extent_range`. -/
def readExtentLoop (dev : Device) (sb : Superblock) :
    List BmapExtent → (remaining currentOff : Nat) → Rust ReadError Bytes
  | [], _, _ => .ok []
  | ext :: exts, remaining, currentOff => do
    let extStart ← orPanic (mulU 64 ext.startoff.toNat sb.blockSize.toNat)
    let extLen ← orPanic (mulU 64 ext.blockcount.toNat sb.blockSize.toNat)
    if extStart ≤ currentOff then do
      let extStop ← orPanic (addU 64 extStart extLen)
      if currentOff < extStop then do
        let inExtOff := currentOff - extStart
        let toRead := min (extLen - inExtOff) remaining
        let phyBase ← orPanic (extentToPhysicalOffset sb ext)
        let phyOff ← orPanic (addU 64 phyBase inExtOff)
        let buf ← dev.read phyOff toRead
        if remaining - toRead = 0 then .ok buf
        else do
          let rest ← readExtentLoop dev sb exts (remaining - toRead) (currentOff + toRead)
          return buf ++ rest
      else readExtentLoop dev sb exts remaining currentOff
    else readExtentLoop dev sb exts remaining currentOff

/-- `inode.size as u64`. -/
def Inode.fileSize (inode : Inode) : Nat :=
  inode.size.toUInt64.toNat

def readExtentRange (dev : Device) (sb : Superblock) (inode : Inode) (scratch : Bytes)
    (offset size : Nat) : Rust ReadError Bytes := do
  let fork ← orPanic (dropFrom scratch 176)
  let extents ← readExtents fork inode.nextents.toNat 0
  if inode.fileSize ≤ offset then .ok []
  else readExtentLoop dev sb extents (min size (inode.fileSize - offset)) offset

def readExtentPayload (dev : Device) (sb : Superblock) (inode : Inode) (scratch : Bytes)
    (size : Nat) : Rust ReadError Bytes :=
  readExtentRange dev sb inode scratch 0 size

/-! ## Directories -/

structure DirSfHeader where
  count : UInt8
  i8count : UInt8
  parent : UInt64
deriving DecidableEq, Repr

/-- The header, and the number of bytes it takes. -/
def DirSfHeader.parse (bytes : Bytes) : Rust ParseError (DirSfHeader × Nat) := do
  requireLen bytes 3
  let count ← orPanic (byteAt bytes 0)
  let i8count ← orPanic (byteAt bytes 1)
  if i8count = 0 then do
    requireLen bytes 6
    let parent ← orPanic (beU32 bytes 2)
    return (⟨count, i8count, parent.toUInt64⟩, 6)
  else do
    requireLen bytes 10
    let parent ← orPanic (beU64 bytes 2)
    return (⟨count, i8count, parent⟩, 10)

/-- An entry; a name is given by its bytes. -/
structure DirSfEntry where
  namelen : UInt8
  offset : UInt16
  name : Bytes
  ftype : UInt8
  inumber : UInt64
deriving DecidableEq, Repr

namespace DirSfEntry

/-- The type, if the entries have one, and the position after it. -/
def parseFtype (bytes : Bytes) (pos : Nat) (hasFtype : Bool) : Rust ParseError (UInt8 × Nat) :=
  if hasFtype then do
    requireLen bytes (pos + 1)
    let ftype ← orPanic (byteAt bytes pos)
    return (ftype, pos + 1)
  else .ok (0, pos)

/-- The inode number and the position after it. -/
def parseInumber (bytes : Bytes) (pos : Nat) (i8count : UInt8) : Rust ParseError (UInt64 × Nat) :=
  if i8count = 0 then do
    requireLen bytes (pos + 4)
    let inumber ← orPanic (beU32 bytes pos)
    return (inumber.toUInt64, pos + 4)
  else do
    requireLen bytes (pos + 8)
    let inumber ← orPanic (beU64 bytes pos)
    return (inumber, pos + 8)

/-- The entry, and the number of bytes it takes. -/
def parse (bytes : Bytes) (i8count : UInt8) (hasFtype : Bool) :
    Rust ParseError (DirSfEntry × Nat) := do
  requireLen bytes 3
  let namelen ← orPanic (byteAt bytes 0)
  let offset ← orPanic (beU16 bytes 1)
  requireLen bytes (3 + namelen.toNat)
  let name ← orPanic (sliceAt bytes 3 namelen.toNat)
  let (ftype, pos) ← parseFtype bytes (3 + namelen.toNat) hasFtype
  let (inumber, pos) ← parseInumber bytes pos i8count
  return (⟨namelen, offset, Utf8.lossy name, ftype, inumber⟩, pos)

end DirSfEntry

structure DirEntry where
  ino : UInt64
  name : Bytes
  ftype : UInt8
deriving DecidableEq, Repr

/-- `"."`. -/
def dot : Bytes := [0x2e]

/-- `".."`. -/
def dotDot : Bytes := [0x2e, 0x2e]

/-- `b"CDIR0001"`. -/
def crabfsExtentDirMagic : Bytes := [0x43, 0x44, 0x49, 0x52, 0x30, 0x30, 0x30, 0x31]

/-- The entries for the directory and its parent, which no format stores as such. -/
def dotEntries (self parent : UInt64) : List DirEntry :=
  [⟨self, dot, 2⟩, ⟨parent, dotDot, 2⟩]

/-- The loop over the entries of a directory in an inode. -/
def listSfEntries (data : Bytes) (i8count : UInt8) (hasFtype : Bool) :
    (n pos : Nat) → Rust ReadError (List DirEntry)
  | 0, _ => .ok []
  | n + 1, pos => do
    let bytes ← orPanic (dropFrom data pos)
    let (entry, consumed) ← parsed (DirSfEntry.parse bytes i8count hasFtype)
    let entries ← listSfEntries data i8count hasFtype n (pos + consumed)
    return ⟨entry.inumber, entry.name, entry.ftype⟩ :: entries

/-- The loop of `find_dir_entry` over them, which compares the stored bytes. -/
def findSfEntry (data : Bytes) (i8count : UInt8) (hasFtype : Bool) (target : Bytes) :
    (n pos : Nat) → Rust ReadError (Option (UInt64 × UInt8))
  | 0, _ => .ok none
  | n + 1, pos => do
    let bytes ← orPanic (dropFrom data pos)
    let (entry, consumed) ← parsed (DirSfEntry.parse bytes i8count hasFtype)
    let name ← orPanic (sliceAt data (pos + 3) entry.namelen.toNat)
    if bytesEq name target then .ok (some (entry.inumber, entry.ftype))
    else findSfEntry data i8count hasFtype target n (pos + consumed)

/-- The loop of `parse_extent_dir_entries`. -/
def listExtentEntries (data : Bytes) : (n pos : Nat) → Rust ReadError (List DirEntry)
  | 0, _ => .ok []
  | n + 1, pos => do
    parsed (requireLen data (pos + 11))
    let ino ← orPanic (beU64 data pos)
    let ftype ← orPanic (byteAt data (pos + 8))
    let nameLen ← orPanic (beU16 data (pos + 9))
    parsed (requireLen data (pos + 11 + nameLen.toNat))
    let name ← orPanic (sliceAt data (pos + 11) nameLen.toNat)
    let entries ← listExtentEntries data n (pos + 11 + nameLen.toNat)
    return ⟨ino, Utf8.lossy name, ftype⟩ :: entries

def parseExtentDirEntries (data : Bytes) (ino : UInt64) : Rust ReadError (List DirEntry) :=
  if data.length < 20 then err (.parse (.bufferTooSmall 20 data.length))
  else do
    let count ← orPanic (beU32 data 8)
    let parent ← orPanic (beU64 data 12)
    let entries ← listExtentEntries data count.toNat 20
    return dotEntries ino parent ++ entries

/-- The loop of `find_extent_dir_entry`. -/
def findExtentEntry (data target : Bytes) :
    (n pos : Nat) → Rust ReadError (Option (UInt64 × UInt8))
  | 0, _ => .ok none
  | n + 1, pos => do
    parsed (requireLen data (pos + 11))
    let ino ← orPanic (beU64 data pos)
    let ftype ← orPanic (byteAt data (pos + 8))
    let nameLen ← orPanic (beU16 data (pos + 9))
    parsed (requireLen data (pos + 11 + nameLen.toNat))
    let name ← orPanic (sliceAt data (pos + 11) nameLen.toNat)
    if bytesEq name target then .ok (some (ino, ftype))
    else findExtentEntry data target n (pos + 11 + nameLen.toNat)

def findExtentDirEntry (data : Bytes) (ino : UInt64) (target : Bytes) :
    Rust ReadError (Option (UInt64 × UInt8)) :=
  if data.length < 20 then err (.parse (.bufferTooSmall 20 data.length))
  else do
    let count ← orPanic (beU32 data 8)
    let parent ← orPanic (beU64 data 12)
    if target = dot then .ok (some (ino, 2))
    else if target = dotDot then .ok (some (parent, 2))
    else findExtentEntry data target count.toNat 20

/-- The payload starts with the magic number of a directory. -/
def isExtentDir (data : Bytes) : Bool :=
  8 ≤ data.length && bytesEq (data.take 8) crabfsExtentDirMagic

/-- The inode of a directory and its record. -/
def readDirInode (dev : Device) (sb : Superblock) (ino : UInt64) :
    Rust ReadError (Inode × Bytes) := do
  let (inode, scratch) ← readInode dev sb ino (List.replicate sb.inodeSize.toNat 0)
  if inode.mode &&& 0xf000 ≠ 0x4000 then err (.parse (.invalidField "mode" inode.mode.toNat))
  else .ok (inode, scratch)

def findDirEntry (dev : Device) (sb : Superblock) (dirIno : UInt64) (target : Bytes) :
    Rust ReadError (Option (UInt64 × UInt8)) := do
  let (inode, scratch) ← readDirInode dev sb dirIno
  match inode.format with
  | .local => do
    let data ← orPanic (dropFrom scratch 176)
    let (hdr, pos) ← parsed (DirSfHeader.parse data)
    if target = dot then .ok (some (dirIno, 2))
    else if target = dotDot then .ok (some (hdr.parent, 2))
    else
      let hasFtype := sb.hasIncompatFeature xfsSbFeatIncompatFtype
      findSfEntry data hdr.i8count hasFtype target hdr.count.toNat pos
  | .extents => do
    let data ← readExtentPayload dev sb inode scratch inode.fileSize
    if isExtentDir data then findExtentDirEntry data dirIno target
    else if target = dot ∨ target = dotDot then .ok (some (dirIno, 2))
    else .ok none
  | _ => .ok none

def listDirEntries (dev : Device) (sb : Superblock) (ino : UInt64) :
    Rust ReadError (List DirEntry) := do
  let (inode, scratch) ← readDirInode dev sb ino
  match inode.format with
  | .local => do
    let data ← orPanic (dropFrom scratch 176)
    let (hdr, pos) ← parsed (DirSfHeader.parse data)
    let hasFtype := sb.hasIncompatFeature xfsSbFeatIncompatFtype
    let entries ← listSfEntries data hdr.i8count hasFtype hdr.count.toNat pos
    return dotEntries ino hdr.parent ++ entries
  | .extents => do
    let data ← readExtentPayload dev sb inode scratch inode.fileSize
    if isExtentDir data then parseExtentDirEntries data ino
    else .ok (dotEntries ino ino)
  | _ => .ok []

/-! ## Files -/

/-- `read_file_data`; only regular files and symlinks have data. -/
def readFileData (dev : Device) (sb : Superblock) (ino : UInt64) (offset : UInt64)
    (size : UInt32) : Rust ReadError Bytes := do
  let (inode, scratch) ← readInode dev sb ino (List.replicate sb.inodeSize.toNat 0)
  let modeType := inode.mode &&& 0xf000
  if modeType ≠ 0x8000 ∧ modeType ≠ 0xa000 then .ok []
  else
    match inode.format with
    | .local => do
      let data ← orPanic (dropFrom scratch 176)
      if inode.fileSize ≤ offset.toNat then .ok []
      else do
        let stop ← orPanic (addU 64 offset.toNat size.toNat)
        let stop := min stop inode.fileSize
        orPanic (sliceAt data offset.toNat (stop - offset.toNat))
    | .extents => readExtentRange dev sb inode scratch offset.toNat size.toNat
    | _ => .ok []

end Crabfs
end Theos
