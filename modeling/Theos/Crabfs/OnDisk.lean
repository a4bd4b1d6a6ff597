import Theos.Crabfs.Endian

/-!
# The on-disk structures of crabfs

The superblock, the headers of an allocation group, the roots of the inode trees, inodes and
extents, each with `parse` and `serialize`.  The two functions have their offsets written
out independently of each other.

`serialize` does not write the checksum; its field keeps what was in the buffer.
-/

namespace Theos
namespace Crabfs

open Base Rust

/-! ## The superblock -/

def xfsSbMagic : UInt32 := 0x58465342

def xfsSbVersion5 : UInt16 := 5

def xfsSbFeatIncompatFtype : UInt32 := 1

def xfsDsbSize : Nat := 304

def xfsSbCrcOff : Nat := 224

structure V5Fields where
  featuresCompat : UInt32
  featuresRoCompat : UInt32
  featuresIncompat : UInt32
  featuresLogIncompat : UInt32
  crc : UInt32
  sparseInodeAlign : UInt32
  pquotino : UInt64
  lsn : UInt64
  metaUuid : Octets 16
  metadirino : UInt64
  rgcount : UInt32
  rgextents : UInt32
  rgblklog : UInt8
  rtstart : UInt64
  rtreserved : UInt64
deriving DecidableEq

structure Superblock where
  blockSize : UInt32
  dblocks : UInt64
  rblocks : UInt64
  rextents : UInt64
  uuid : Octets 16
  logstart : UInt64
  rootino : UInt64
  rbmino : UInt64
  rsumino : UInt64
  rextsize : UInt32
  agBlocks : UInt32
  agCount : UInt32
  rbmBlocks : UInt32
  logBlocks : UInt32
  version : UInt16
  sectorSize : UInt16
  inodeSize : UInt16
  inodePerBlock : UInt16
  fname : Octets 12
  blockLog : UInt8
  sectLog : UInt8
  inodeLog : UInt8
  inopblog : UInt8
  agblklog : UInt8
  rextslog : UInt8
  inprogress : Bool
  imaxPct : UInt8
  icount : UInt64
  ifree : UInt64
  fdblocks : UInt64
  frextents : UInt64
  uquotino : UInt64
  gquotino : UInt64
  qflags : UInt16
  flags : UInt8
  sharedVn : UInt8
  inoalignmt : UInt32
  unit : UInt32
  width : UInt32
  logSectorSize : UInt16
  logSunit : UInt32
  features2 : UInt32
  badFeatures2 : UInt32
  v5 : Option V5Fields
deriving DecidableEq, Inhabited

/-- The fields that only version 5 has. -/
def V5Fields.parse (bytes : Bytes) : Rust ParseError V5Fields := do
  let metaUuid ← orPanic (arrayAt bytes 248 16)
  return {
    featuresCompat := ← orPanic (beU32 bytes 208)
    featuresRoCompat := ← orPanic (beU32 bytes 212)
    featuresIncompat := ← orPanic (beU32 bytes 216)
    featuresLogIncompat := ← orPanic (beU32 bytes 220)
    crc := ← orPanic (leU32 bytes 224)
    sparseInodeAlign := ← orPanic (beU32 bytes 228)
    pquotino := ← orPanic (beU64 bytes 232)
    lsn := ← orPanic (beU64 bytes 240)
    metaUuid := metaUuid
    metadirino := ← orPanic (beU64 bytes 264)
    rgcount := ← orPanic (beU32 bytes 272)
    rgextents := ← orPanic (beU32 bytes 276)
    rgblklog := ← orPanic (byteAt bytes 280)
    rtstart := ← orPanic (beU64 bytes 288)
    rtreserved := ← orPanic (beU64 bytes 296) }

namespace Superblock

/-- The rest of `parse`, once the three sizes have been checked. -/
def parseFields (bytes : Bytes) (uuid : Octets 16) (fname : Octets 12) (version : UInt16)
    (blockSize : UInt32) (sectorSize inodeSize : UInt16) (v5 : Option V5Fields) :
    Rust ParseError Superblock := do
  return {
    blockSize := blockSize
    dblocks := ← orPanic (beU64 bytes 8)
    rblocks := ← orPanic (beU64 bytes 16)
    rextents := ← orPanic (beU64 bytes 24)
    uuid := uuid
    logstart := ← orPanic (beU64 bytes 48)
    rootino := ← orPanic (beU64 bytes 56)
    rbmino := ← orPanic (beU64 bytes 64)
    rsumino := ← orPanic (beU64 bytes 72)
    rextsize := ← orPanic (beU32 bytes 80)
    agBlocks := ← orPanic (beU32 bytes 84)
    agCount := ← orPanic (beU32 bytes 88)
    rbmBlocks := ← orPanic (beU32 bytes 92)
    logBlocks := ← orPanic (beU32 bytes 96)
    version := version
    sectorSize := sectorSize
    inodeSize := inodeSize
    inodePerBlock := ← orPanic (beU16 bytes 106)
    fname := fname
    blockLog := ← orPanic (byteAt bytes 120)
    sectLog := ← orPanic (byteAt bytes 121)
    inodeLog := ← orPanic (byteAt bytes 122)
    inopblog := ← orPanic (byteAt bytes 123)
    agblklog := ← orPanic (byteAt bytes 124)
    rextslog := ← orPanic (byteAt bytes 125)
    inprogress := (← orPanic (byteAt bytes 126)) != 0
    imaxPct := ← orPanic (byteAt bytes 127)
    icount := ← orPanic (beU64 bytes 128)
    ifree := ← orPanic (beU64 bytes 136)
    fdblocks := ← orPanic (beU64 bytes 144)
    frextents := ← orPanic (beU64 bytes 152)
    uquotino := ← orPanic (beU64 bytes 160)
    gquotino := ← orPanic (beU64 bytes 168)
    qflags := ← orPanic (beU16 bytes 176)
    flags := ← orPanic (byteAt bytes 178)
    sharedVn := ← orPanic (byteAt bytes 179)
    inoalignmt := ← orPanic (beU32 bytes 180)
    unit := ← orPanic (beU32 bytes 184)
    width := ← orPanic (beU32 bytes 188)
    logSectorSize := ← orPanic (beU16 bytes 194)
    logSunit := ← orPanic (beU32 bytes 196)
    features2 := ← orPanic (beU32 bytes 200)
    badFeatures2 := ← orPanic (beU32 bytes 204)
    v5 := v5 }

def parse (bytes : Bytes) : Rust ParseError Superblock := do
  requireLen bytes xfsDsbSize
  let magic ← orPanic (beU32 bytes 0)
  if magic ≠ xfsSbMagic then err (.invalidMagic xfsSbMagic magic)
  else do
    let uuid ← orPanic (arrayAt bytes 32 16)
    let fname ← orPanic (arrayAt bytes 108 12)
    let version := (← orPanic (beU16 bytes 100)) &&& 0x000f
    let blockSize ← orPanic (beU32 bytes 4)
    let sectorSize ← orPanic (beU16 bytes 102)
    let inodeSize ← orPanic (beU16 bytes 104)
    if blockSize = 0 then err (.invalidField "sb_blocksize" blockSize.toNat)
    else if sectorSize = 0 then err (.invalidField "sb_sectsize" sectorSize.toNat)
    else if inodeSize = 0 then err (.invalidField "sb_inodesize" inodeSize.toNat)
    else do
      let v5 ← if version = xfsSbVersion5 then some <$> V5Fields.parse bytes else pure none
      parseFields bytes uuid fname version blockSize sectorSize inodeSize v5

def isV5 (sb : Superblock) : Bool :=
  sb.version == xfsSbVersion5

def hasIncompatFeature (sb : Superblock) (feature : UInt32) : Bool :=
  match sb.v5 with
  | some v5 => (v5.featuresIncompat &&& feature) != 0
  | none => false

/-- The writes of `serialize` for the fields that every version has. -/
def baseWrites (sb : Superblock) : List (Write UInt8) :=
  [ putBe32 0 xfsSbMagic,
    putBe32 4 sb.blockSize,
    putBe64 8 sb.dblocks,
    putBe64 16 sb.rblocks,
    putBe64 24 sb.rextents,
    putArray 32 sb.uuid,
    putBe64 48 sb.logstart,
    putBe64 56 sb.rootino,
    putBe64 64 sb.rbmino,
    putBe64 72 sb.rsumino,
    putBe32 80 sb.rextsize,
    putBe32 84 sb.agBlocks,
    putBe32 88 sb.agCount,
    putBe32 92 sb.rbmBlocks,
    putBe32 96 sb.logBlocks,
    putBe16 100 sb.version,
    putBe16 102 sb.sectorSize,
    putBe16 104 sb.inodeSize,
    putBe16 106 sb.inodePerBlock,
    putArray 108 sb.fname,
    putByte 120 sb.blockLog,
    putByte 121 sb.sectLog,
    putByte 122 sb.inodeLog,
    putByte 123 sb.inopblog,
    putByte 124 sb.agblklog,
    putByte 125 sb.rextslog,
    putByte 126 (if sb.inprogress then 1 else 0),
    putByte 127 sb.imaxPct,
    putBe64 128 sb.icount,
    putBe64 136 sb.ifree,
    putBe64 144 sb.fdblocks,
    putBe64 152 sb.frextents,
    putBe64 160 sb.uquotino,
    putBe64 168 sb.gquotino,
    putBe16 176 sb.qflags,
    putByte 178 sb.flags,
    putByte 179 sb.sharedVn,
    putBe32 180 sb.inoalignmt,
    putBe32 184 sb.unit,
    putBe32 188 sb.width,
    putByte 192 0,
    putByte 193 0,
    putBe16 194 sb.logSectorSize,
    putBe32 196 sb.logSunit,
    putBe32 200 sb.features2,
    putBe32 204 sb.badFeatures2 ]

end Superblock

def V5Fields.writes (v5 : V5Fields) : List (Write UInt8) :=
  [ putBe32 208 v5.featuresCompat,
    putBe32 212 v5.featuresRoCompat,
    putBe32 216 v5.featuresIncompat,
    putBe32 220 v5.featuresLogIncompat,
    putBe32 228 v5.sparseInodeAlign,
    putBe64 232 v5.pquotino,
    putBe64 240 v5.lsn,
    putArray 248 v5.metaUuid,
    putBe64 264 v5.metadirino,
    putBe32 272 v5.rgcount,
    putBe32 276 v5.rgextents,
    putByte 280 v5.rgblklog,
    putBe64 288 v5.rtstart,
    putBe64 296 v5.rtreserved ]

def Superblock.writes (sb : Superblock) : List (Write UInt8) :=
  sb.baseWrites ++
    match sb.v5 with
    | some v5 => v5.writes
    | none => []

def Superblock.serialize (sb : Superblock) : Bytes → Rust ParseError Bytes :=
  serializeWith xfsDsbSize sb.writes

/-! ## The headers of an allocation group -/

def xfsAgfMagic : UInt32 := 0x58414746

def xfsAgfVersion : UInt32 := 1

def xfsAgfSize : Nat := 224

def xfsAgfCrcOff : Nat := 216

structure Agf where
  seqno : UInt32
  length : UInt32
  bnoRoot : UInt32
  cntRoot : UInt32
  rmapRoot : UInt32
  bnoLevel : UInt32
  cntLevel : UInt32
  rmapLevel : UInt32
  flfirst : UInt32
  fllast : UInt32
  flcount : UInt32
  freeblks : UInt32
  longest : UInt32
  btreeblks : UInt32
  uuid : Octets 16
  rmapBlocks : UInt32
  refcountBlocks : UInt32
  refcountRoot : UInt32
  refcountLevel : UInt32
  lsn : UInt64
  crc : UInt32
deriving DecidableEq

namespace Agf

def parse (bytes : Bytes) : Rust ParseError Agf := do
  requireLen bytes xfsAgfSize
  let magic ← orPanic (beU32 bytes 0)
  if magic ≠ xfsAgfMagic then err (.invalidMagic xfsAgfMagic magic)
  else do
    let version ← orPanic (beU32 bytes 4)
    if version ≠ xfsAgfVersion then err (.unsupportedVersion version)
    else do
      let uuid ← orPanic (arrayAt bytes 64 16)
      return {
        seqno := ← orPanic (beU32 bytes 8)
        length := ← orPanic (beU32 bytes 12)
        bnoRoot := ← orPanic (beU32 bytes 16)
        cntRoot := ← orPanic (beU32 bytes 20)
        rmapRoot := ← orPanic (beU32 bytes 24)
        bnoLevel := ← orPanic (beU32 bytes 28)
        cntLevel := ← orPanic (beU32 bytes 32)
        rmapLevel := ← orPanic (beU32 bytes 36)
        flfirst := ← orPanic (beU32 bytes 40)
        fllast := ← orPanic (beU32 bytes 44)
        flcount := ← orPanic (beU32 bytes 48)
        freeblks := ← orPanic (beU32 bytes 52)
        longest := ← orPanic (beU32 bytes 56)
        btreeblks := ← orPanic (beU32 bytes 60)
        uuid := uuid
        rmapBlocks := ← orPanic (beU32 bytes 80)
        refcountBlocks := ← orPanic (beU32 bytes 84)
        refcountRoot := ← orPanic (beU32 bytes 88)
        refcountLevel := ← orPanic (beU32 bytes 92)
        lsn := ← orPanic (beU64 bytes 208)
        crc := ← orPanic (beU32 bytes 216) }

def writes (agf : Agf) : List (Write UInt8) :=
  [ putBe32 0 xfsAgfMagic,
    putBe32 4 xfsAgfVersion,
    putBe32 8 agf.seqno,
    putBe32 12 agf.length,
    putBe32 16 agf.bnoRoot,
    putBe32 20 agf.cntRoot,
    putBe32 24 agf.rmapRoot,
    putBe32 28 agf.bnoLevel,
    putBe32 32 agf.cntLevel,
    putBe32 36 agf.rmapLevel,
    putBe32 40 agf.flfirst,
    putBe32 44 agf.fllast,
    putBe32 48 agf.flcount,
    putBe32 52 agf.freeblks,
    putBe32 56 agf.longest,
    putBe32 60 agf.btreeblks,
    putArray 64 agf.uuid,
    putBe32 80 agf.rmapBlocks,
    putBe32 84 agf.refcountBlocks,
    putBe32 88 agf.refcountRoot,
    putBe32 92 agf.refcountLevel,
    fillZero 96 112,
    putBe64 208 agf.lsn ]

def serialize (agf : Agf) : Bytes → Rust ParseError Bytes :=
  serializeWith xfsAgfSize agf.writes

end Agf

def xfsAgiMagic : UInt32 := 0x58414749

def xfsAgiVersion : UInt32 := 1

def xfsAgiSize : Nat := 344

def xfsAgiCrcOff : Nat := 312

/-- `[u32; n]`. -/
abbrev Words (n : Nat) : Type :=
  { words : List UInt32 // words.length = n }

/-- `n` numbers one after the other. -/
def beU32s (bytes : Bytes) : (n : Nat) → (off : Nat) → Option (Words n)
  | 0, _ => some ⟨[], rfl⟩
  | n + 1, off =>
    (beU32 bytes off).bind fun value =>
      (beU32s bytes n (off + 4)).map fun rest =>
        ⟨value :: rest.val, congrArg (· + 1) rest.property⟩

def putBe32s : Nat → List UInt32 → List (Write UInt8)
  | _, [] => []
  | off, value :: values => putBe32 off value :: putBe32s (off + 4) values

structure Agi where
  seqno : UInt32
  length : UInt32
  count : UInt32
  root : UInt32
  level : UInt32
  freecount : UInt32
  newino : UInt32
  dirino : UInt32
  unlinked : Words 64
  uuid : Octets 16
  crc : UInt32
  lsn : UInt64
  freeRoot : UInt32
  freeLevel : UInt32
  iblocks : UInt32
  fblocks : UInt32
deriving DecidableEq

namespace Agi

def parse (bytes : Bytes) : Rust ParseError Agi := do
  requireLen bytes xfsAgiSize
  let magic ← orPanic (beU32 bytes 0)
  if magic ≠ xfsAgiMagic then err (.invalidMagic xfsAgiMagic magic)
  else do
    let version ← orPanic (beU32 bytes 4)
    if version ≠ xfsAgiVersion then err (.unsupportedVersion version)
    else do
      let unlinked ← orPanic (beU32s bytes 64 40)
      let uuid ← orPanic (arrayAt bytes 296 16)
      return {
        seqno := ← orPanic (beU32 bytes 8)
        length := ← orPanic (beU32 bytes 12)
        count := ← orPanic (beU32 bytes 16)
        root := ← orPanic (beU32 bytes 20)
        level := ← orPanic (beU32 bytes 24)
        freecount := ← orPanic (beU32 bytes 28)
        newino := ← orPanic (beU32 bytes 32)
        dirino := ← orPanic (beU32 bytes 36)
        unlinked := unlinked
        uuid := uuid
        crc := ← orPanic (beU32 bytes 312)
        lsn := ← orPanic (beU64 bytes 320)
        freeRoot := ← orPanic (beU32 bytes 328)
        freeLevel := ← orPanic (beU32 bytes 332)
        iblocks := ← orPanic (beU32 bytes 336)
        fblocks := ← orPanic (beU32 bytes 340) }

def writes (agi : Agi) : List (Write UInt8) :=
  [ putBe32 0 xfsAgiMagic,
    putBe32 4 xfsAgiVersion,
    putBe32 8 agi.seqno,
    putBe32 12 agi.length,
    putBe32 16 agi.count,
    putBe32 20 agi.root,
    putBe32 24 agi.level,
    putBe32 28 agi.freecount,
    putBe32 32 agi.newino,
    putBe32 36 agi.dirino ] ++
  putBe32s 40 agi.unlinked.val ++
  [ putArray 296 agi.uuid,
    putBe64 320 agi.lsn,
    putBe32 328 agi.freeRoot,
    putBe32 332 agi.freeLevel,
    putBe32 336 agi.iblocks,
    putBe32 340 agi.fblocks ]

def serialize (agi : Agi) : Bytes → Rust ParseError Bytes :=
  serializeWith xfsAgiSize agi.writes

end Agi

def xfsAgflMagic : UInt32 := 0x5841464c

def xfsAgflHeaderSize : Nat := 36

def xfsAgflCrcOff : Nat := 32

structure Agfl where
  magicnum : UInt32
  seqno : UInt32
  uuid : Octets 16
  lsn : UInt64
  crc : UInt32
  entriesTotal : UInt32
deriving DecidableEq

namespace Agfl

def parse (bytes : Bytes) (sectorSize : UInt16) (crcEnabled : Bool) : Rust ParseError Agfl := do
  requireLen bytes sectorSize.toNat
  requireLen bytes xfsAgflHeaderSize
  let magic ← orPanic (beU32 bytes 0)
  if magic ≠ xfsAgflMagic then err (.invalidMagic xfsAgflMagic magic)
  else do
    let entriesBytes :=
      if crcEnabled then sectorSize.toNat - xfsAgflHeaderSize else sectorSize.toNat
    let uuid ← orPanic (arrayAt bytes 8 16)
    return {
      magicnum := magic
      seqno := ← orPanic (beU32 bytes 4)
      uuid := uuid
      lsn := ← orPanic (beU64 bytes 24)
      crc := ← orPanic (beU32 bytes 32)
      entriesTotal := UInt32.ofNat (entriesBytes / 4) }

end Agfl

/-! ## The roots of the inode trees -/

def xfsIbtCrcMagic : UInt32 := 0x49414233

def xfsFibtCrcMagic : UInt32 := 0x46494233

def xfsBtreeSblockCrcOff : Nat := 52

def xfsBtreeSblockCrcLen : Nat := 56

inductive InodeBtreeKind where
  | inobt
  | finobt
deriving DecidableEq, Repr

/-- The magic number that `parse` expects. -/
def InodeBtreeKind.magic : InodeBtreeKind → UInt32
  | .inobt => xfsIbtCrcMagic
  | .finobt => xfsFibtCrcMagic

structure InodeBtreeRoot where
  kind : InodeBtreeKind
  magic : UInt32
  level : UInt16
  numrecs : UInt16
  leftsib : UInt32
  rightsib : UInt32
  blkno : UInt64
  lsn : UInt64
  uuid : Octets 16
  owner : UInt32
  crc : UInt32
deriving DecidableEq

namespace InodeBtreeRoot

def parse (bytes : Bytes) (kind : InodeBtreeKind) (crcEnabled : Bool) :
    Rust ParseError InodeBtreeRoot :=
  if !crcEnabled then err (.unsupportedVersion 4)
  else do
    requireLen bytes xfsBtreeSblockCrcLen
    let magic ← orPanic (beU32 bytes 0)
    if magic ≠ kind.magic then err (.invalidMagic kind.magic magic)
    else do
      let uuid ← orPanic (arrayAt bytes 32 16)
      return {
        kind := kind
        magic := magic
        level := ← orPanic (beU16 bytes 4)
        numrecs := ← orPanic (beU16 bytes 6)
        leftsib := ← orPanic (beU32 bytes 8)
        rightsib := ← orPanic (beU32 bytes 12)
        blkno := ← orPanic (beU64 bytes 16)
        lsn := ← orPanic (beU64 bytes 24)
        uuid := uuid
        owner := ← orPanic (beU32 bytes 48)
        crc := ← orPanic (leU32 bytes 52) }

def writes (root : InodeBtreeRoot) : List (Write UInt8) :=
  [ putBe32 0 root.magic,
    putBe16 4 root.level,
    putBe16 6 root.numrecs,
    putBe32 8 root.leftsib,
    putBe32 12 root.rightsib,
    putBe64 16 root.blkno,
    putBe64 24 root.lsn,
    putArray 32 root.uuid,
    putBe32 48 root.owner ]

def serialize (root : InodeBtreeRoot) : Bytes → Rust ParseError Bytes :=
  serializeWith xfsBtreeSblockCrcLen root.writes

end InodeBtreeRoot

/-! ## Inodes -/

def xfsDinodeMagic : UInt16 := 0x494e

def xfsDinodeSizeV3 : Nat := 176

def xfsDinodeCrcOff : Nat := 100

inductive InodeFormat where
  | dev
  | local
  | extents
  | btree
  | uuid
deriving DecidableEq, Repr, Inhabited

namespace InodeFormat

def fromU8 (v : UInt8) : InodeFormat :=
  if v = 0 then .dev
  else if v = 1 then .local
  else if v = 2 then .extents
  else if v = 3 then .btree
  else .uuid

def toU8 : InodeFormat → UInt8
  | .dev => 0
  | .local => 1
  | .extents => 2
  | .btree => 3
  | .uuid => 4

end InodeFormat

structure Inode where
  magic : UInt16
  mode : UInt16
  version : UInt8
  format : InodeFormat
  onlink : UInt16
  uid : UInt32
  gid : UInt32
  nlink : UInt32
  projid : UInt32
  flushiter : UInt16
  atime : Int32 × UInt32
  mtime : Int32 × UInt32
  ctime : Int32 × UInt32
  size : Int64
  nblocks : UInt64
  extsize : UInt32
  nextents : UInt32
  anextents : UInt16
  forkoff : UInt8
  aformat : InodeFormat
  dmevmask : UInt32
  dmstate : UInt16
  flags : UInt16
  generation : UInt32
  nextUnlinked : UInt32
  crc : UInt32
  changeCount : UInt64
  lsn : UInt64
  flags2 : UInt64
  cowextsize : UInt32
  crtime : Int32 × UInt32
  ino : UInt64
  uuid : Octets 16
deriving DecidableEq, Inhabited

namespace Inode

def parse (bytes : Bytes) : Rust ParseError Inode := do
  requireLen bytes xfsDinodeSizeV3
  let magic ← orPanic (beU16 bytes 0)
  if magic ≠ xfsDinodeMagic then
    err (.invalidMagic xfsDinodeMagic.toUInt32 magic.toUInt32)
  else do
    let projidLo ← orPanic (beU16 bytes 20)
    let projidHi ← orPanic (beU16 bytes 22)
    let projid := (projidHi.toUInt32 <<< 16) ||| projidLo.toUInt32
    return {
      magic := magic
      mode := ← orPanic (beU16 bytes 2)
      version := ← orPanic (byteAt bytes 4)
      format := InodeFormat.fromU8 (← orPanic (byteAt bytes 5))
      onlink := ← orPanic (beU16 bytes 6)
      uid := ← orPanic (beU32 bytes 8)
      gid := ← orPanic (beU32 bytes 12)
      nlink := ← orPanic (beU32 bytes 16)
      projid := projid
      flushiter := ← orPanic (beU16 bytes 30)
      atime := ((← orPanic (beU32 bytes 32)).toInt32, ← orPanic (beU32 bytes 36))
      mtime := ((← orPanic (beU32 bytes 40)).toInt32, ← orPanic (beU32 bytes 44))
      ctime := ((← orPanic (beU32 bytes 48)).toInt32, ← orPanic (beU32 bytes 52))
      size := (← orPanic (beU64 bytes 56)).toInt64
      nblocks := ← orPanic (beU64 bytes 64)
      extsize := ← orPanic (beU32 bytes 72)
      nextents := ← orPanic (beU32 bytes 76)
      anextents := ← orPanic (beU16 bytes 80)
      forkoff := ← orPanic (byteAt bytes 82)
      aformat := InodeFormat.fromU8 (← orPanic (byteAt bytes 83))
      dmevmask := ← orPanic (beU32 bytes 84)
      dmstate := ← orPanic (beU16 bytes 88)
      flags := ← orPanic (beU16 bytes 90)
      generation := ← orPanic (beU32 bytes 92)
      nextUnlinked := ← orPanic (beU32 bytes 96)
      crc := ← orPanic (leU32 bytes 100)
      changeCount := ← orPanic (beU64 bytes 104)
      lsn := ← orPanic (beU64 bytes 112)
      flags2 := ← orPanic (beU64 bytes 120)
      cowextsize := ← orPanic (beU32 bytes 128)
      crtime := ((← orPanic (beU32 bytes 144)).toInt32, ← orPanic (beU32 bytes 148))
      ino := ← orPanic (beU64 bytes 152)
      uuid := ← orPanic (arrayAt bytes 160 16) }

def writes (inode : Inode) : List (Write UInt8) :=
  [ putBe16 0 inode.magic,
    putBe16 2 inode.mode,
    putByte 4 inode.version,
    putByte 5 inode.format.toU8,
    putBe16 6 inode.onlink,
    putBe32 8 inode.uid,
    putBe32 12 inode.gid,
    putBe32 16 inode.nlink,
    putBe16 20 (inode.projid &&& 0xffff).toUInt16,
    putBe16 22 (inode.projid >>> 16).toUInt16,
    fillZero 24 6,
    putBe16 30 inode.flushiter,
    putBe32 32 inode.atime.1.toUInt32,
    putBe32 36 inode.atime.2,
    putBe32 40 inode.mtime.1.toUInt32,
    putBe32 44 inode.mtime.2,
    putBe32 48 inode.ctime.1.toUInt32,
    putBe32 52 inode.ctime.2,
    putBe64 56 inode.size.toUInt64,
    putBe64 64 inode.nblocks,
    putBe32 72 inode.extsize,
    putBe32 76 inode.nextents,
    putBe16 80 inode.anextents,
    putByte 82 inode.forkoff,
    putByte 83 inode.aformat.toU8,
    putBe32 84 inode.dmevmask,
    putBe16 88 inode.dmstate,
    putBe16 90 inode.flags,
    putBe32 92 inode.generation,
    putBe32 96 inode.nextUnlinked,
    putBe64 104 inode.changeCount,
    putBe64 112 inode.lsn,
    putBe64 120 inode.flags2,
    putBe32 128 inode.cowextsize,
    fillZero 132 12,
    putBe32 144 inode.crtime.1.toUInt32,
    putBe32 148 inode.crtime.2,
    putBe64 152 inode.ino,
    putArray 160 inode.uuid ]

def serialize (inode : Inode) : Bytes → Rust ParseError Bytes :=
  serializeWith xfsDinodeSizeV3 inode.writes

end Inode

/-! ## Extents -/

structure BmapExtent where
  state : UInt8
  startoff : UInt64
  startblock : UInt64
  blockcount : UInt32
deriving DecidableEq, Repr

namespace BmapExtent

def size : Nat := 16

/-- The fields that are packed into two words. -/
def ofWords (x0 x1 : UInt64) : BmapExtent where
  state := (x0 >>> 63).toUInt8
  startoff := (x0 &&& 0x7fffffffffffffff) >>> 9
  startblock := ((x0 &&& 0x1ff) <<< 43) ||| (x1 >>> 21)
  blockcount := (x1 &&& 0x1fffff).toUInt32

theorem toNat_blockcount_ofWords
    (x0 x1 : UInt64) :
    (ofWords x0 x1).blockcount.toNat = x1.toNat % 2 ^ 21 := by
  have hmask : x1.toNat &&& 2097151 = x1.toNat % 2 ^ 21 := Nat.and_two_pow_sub_one_eq_mod _ 21
  change (x1 &&& 0x1fffff).toUInt32.toNat = x1.toNat % 2 ^ 21
  rw [UInt64.toNat_toUInt32, UInt64.toNat_and]
  change (x1.toNat &&& 2097151) % 2 ^ 32 = x1.toNat % 2 ^ 21
  omega

def parse (bytes : Bytes) : Rust ParseError BmapExtent := do
  requireLen bytes size
  let x0 ← orPanic (beU64 bytes 0)
  let x1 ← orPanic (beU64 bytes 8)
  return ofWords x0 x1

end BmapExtent

/-- `serialize_bmap_extent`, the sixteen bytes it writes. -/
def serializeBmapExtent (startoff startblock : UInt64) (blockcount : UInt32) : Bytes :=
  let x0 := (startoff <<< 9) ||| ((startblock >>> 43) &&& 0x1ff)
  let x1 := ((startblock &&& (((1 : UInt64) <<< 43) - 1)) <<< 21) ||| blockcount.toUInt64
  toBE 8 x0.toNat ++ toBE 8 x1.toNat

end Crabfs
end Theos
