import Theos.Crabfs.OnDisk

/-!
# What is serialized is parsed again

`serialize` writes the fields of a structure in the order of their offsets, so that no write
meets another one and all of them are there afterwards.  `parse` then finds what it expects,
field by field; only the checksum is what the buffer had in its place.

An extent is packed into two words without a check that its block count fits the 21 bits it
has.
-/

namespace Theos
namespace Crabfs

open Base Rust

/-! ## The writes do not meet -/

theorem V5Fields.ascending
    (v5 : V5Fields) :
    Ascending 208 v5.writes xfsDsbSize := by
  simp [writes, Ascending, xfsDsbSize]

theorem Superblock.ascending
    (sb : Superblock) :
    Ascending 0 sb.writes xfsDsbSize := by
  have hbase : Ascending 0 sb.baseWrites 208 := by
    simp [baseWrites, Ascending]
  refine hbase.append ?_
  cases sb.v5 with
  | none =>
    simp [Ascending, xfsDsbSize]
  | some v5 =>
    exact v5.ascending

theorem Agf.ascending
    (agf : Agf) :
    Ascending 0 agf.writes xfsAgfSize := by
  simp [writes, Ascending, xfsAgfSize]

theorem ascending_putBe32s (off : Nat)
    (values : List UInt32) :
    Ascending off (putBe32s off values) (off + 4 * values.length) := by
  induction values generalizing off with
  | nil =>
    exact le_refl off
  | cons value values ih =>
    refine ⟨le_refl off, ?_⟩
    have hrest := ih (off + 4)
    rw [stop_putBe32]
    rwa [show off + 4 + 4 * values.length = off + 4 * (value :: values).length by
      simp; omega] at hrest

theorem Agi.ascending
    (agi : Agi) :
    Ascending 0 agi.writes xfsAgiSize := by
  have hunlinked := ascending_putBe32s 40 agi.unlinked.val
  rw [agi.unlinked.property] at hunlinked
  refine Ascending.append (Ascending.append ?_ hunlinked) ?_
  · simp [Ascending]
  · simp [Ascending, xfsAgiSize]

theorem InodeBtreeRoot.ascending
    (root : InodeBtreeRoot) :
    Ascending 0 root.writes xfsBtreeSblockCrcLen := by
  simp [writes, Ascending, xfsBtreeSblockCrcLen]

theorem Inode.ascending
    (inode : Inode) :
    Ascending 0 inode.writes xfsDinodeSizeV3 := by
  simp [writes, Ascending, xfsDinodeSizeV3]

/-! ## Reading them -/

section Reading

variable {bytes : Bytes}

theorem V5Fields.parse_of_holds {v5 : V5Fields} (hlength : xfsDsbSize ≤ bytes.length)
    (h : ∀ w ∈ v5.writes, Holds bytes w) :
    V5Fields.parse bytes = .ok { v5 with crc := leU32At bytes xfsSbCrcOff } := by
  simp only [writes, List.forall_mem_cons] at h
  obtain ⟨h208, h212, h216, h220, h228, h232, h240, h248, h264, h272, h276, h280, h288, h296, -⟩ :=
    h
  have hcrc : leU32 bytes 224 = some (leU32At bytes 224) :=
    leU32_of_le (by simp only [xfsDsbSize] at hlength; omega)
  simp only [parse, h208.beU32, h212.beU32, h216.beU32, h220.beU32, h228.beU32, h232.beU64,
    h240.beU64, h248.arrayAt, h264.beU64, h272.beU32, h276.beU32, h280.byteAt, h288.beU64,
    h296.beU64, hcrc, orPanic_some, ok_bind]
  rfl

/-- A superblock that `parse` can return. -/
structure Superblock.WellFormed (sb : Superblock) : Prop where
  version_lt : sb.version < 16
  v5_iff : sb.v5.isSome ↔ sb.version = xfsSbVersion5
  blockSize_ne : sb.blockSize ≠ 0
  sectorSize_ne : sb.sectorSize ≠ 0
  inodeSize_ne : sb.inodeSize ≠ 0

/-- The superblock with another checksum. -/
def Superblock.withCrc (sb : Superblock) (crc : UInt32) : Superblock :=
  { sb with v5 := sb.v5.map fun v5 => { v5 with crc := crc } }

theorem Superblock.parseFields_of_holds {sb : Superblock} (h : ∀ w ∈ sb.baseWrites, Holds bytes w)
    (v5 : Option V5Fields) :
    parseFields bytes sb.uuid sb.fname sb.version sb.blockSize sb.sectorSize sb.inodeSize v5 =
      .ok { sb with v5 := v5 } := by
  simp only [baseWrites, List.forall_mem_cons] at h
  obtain ⟨-, -, h8, h16, h24, -, h48, h56, h64, h72, h80, h84, h88, h92, h96, -, -, -, h106, -,
    h120, h121, h122, h123, h124, h125, h126, h127, h128, h136, h144, h152, h160, h168, h176, h178,
    h179, h180, h184, h188, -, -, h194, h196, h200, h204, -⟩ := h
  have hinprogress : ((if sb.inprogress then 1 else 0 : UInt8) != 0) = sb.inprogress := by
    cases sb.inprogress <;> rfl
  simp only [parseFields, h8.beU64, h16.beU64, h24.beU64, h48.beU64, h56.beU64, h64.beU64,
    h72.beU64, h80.beU32, h84.beU32, h88.beU32, h92.beU32, h96.beU32, h106.beU16, h120.byteAt,
    h121.byteAt, h122.byteAt, h123.byteAt, h124.byteAt, h125.byteAt, h126.byteAt, h127.byteAt,
    h128.beU64, h136.beU64, h144.beU64, h152.beU64, h160.beU64, h168.beU64, h176.beU16,
    h178.byteAt, h179.byteAt, h180.beU32, h184.beU32, h188.beU32, h194.beU16, h196.beU32,
    h200.beU32, h204.beU32, orPanic_some, ok_bind, hinprogress]
  rfl

/-- The mask of `parse` keeps a version that has four bits. -/
theorem and_of_version_lt {version : UInt16}
    (h : version < 16) :
    version &&& 0x000f = version := by
  apply UInt16.toNat_inj.mp
  have hlt : version.toNat < 16 := h
  have hand : version.toNat &&& 15 = version.toNat % 2 ^ 4 := Nat.and_two_pow_sub_one_eq_mod _ 4
  rw [UInt16.toNat_and]
  change version.toNat &&& 15 = version.toNat
  omega

theorem Superblock.parse_of_holds {sb : Superblock} (hlength : xfsDsbSize ≤ bytes.length)
    (hsb : sb.WellFormed)
    (h : ∀ w ∈ sb.writes, Holds bytes w) :
    Superblock.parse bytes = .ok (sb.withCrc (leU32At bytes xfsSbCrcOff)) := by
  have hbase : ∀ w ∈ sb.baseWrites, Holds bytes w := fun w hw => h w (List.mem_append_left _ hw)
  have hfields := parseFields_of_holds hbase
  have hversion : sb.version &&& 0x000f = sb.version := and_of_version_lt hsb.version_lt
  simp only [baseWrites, List.forall_mem_cons] at hbase
  obtain ⟨h0, h4, -, -, -, h32, -, -, -, -, -, -, -, -, -, h100, h102, h104, -, h108, -⟩ := hbase
  simp only [parse, requireLen_of_le hlength, h0.beU32, h4.beU32, h32.arrayAt, h108.arrayAt,
    h100.beU16, h102.beU16, h104.beU16, orPanic_some, ok_bind, ne_eq, not_true_eq_false, if_false,
    hversion, hsb.blockSize_ne, hsb.sectorSize_ne, hsb.inodeSize_ne]
  cases hv5 : sb.v5 with
  | none =>
    have hne : sb.version ≠ xfsSbVersion5 := by
      intro heq
      have := hsb.v5_iff.mpr heq
      simp [hv5] at this
    rw [if_neg hne]
    refine (hfields none).trans ?_
    rw [withCrc, hv5]
    rfl
  | some v5 =>
    have heq : sb.version = xfsSbVersion5 := hsb.v5_iff.mp (by simp [hv5])
    have hwrites : ∀ w ∈ v5.writes, Holds bytes w := by
      intro w hw
      refine h w (List.mem_append_right _ ?_)
      rw [hv5]
      exact hw
    rw [if_pos heq, V5Fields.parse_of_holds hlength hwrites]
    refine (hfields _).trans ?_
    rw [withCrc, hv5]
    rfl

theorem Agf.parse_of_holds {agf : Agf} (hlength : xfsAgfSize ≤ bytes.length)
    (h : ∀ w ∈ agf.writes, Holds bytes w) :
    Agf.parse bytes = .ok { agf with crc := u32At bytes xfsAgfCrcOff } := by
  simp only [writes, List.forall_mem_cons] at h
  obtain ⟨h0, h4, h8, h12, h16, h20, h24, h28, h32, h36, h40, h44, h48, h52, h56, h60, h64, h80,
    h84, h88, h92, -, h208, -⟩ := h
  have hcrc : beU32 bytes 216 = some (u32At bytes 216) :=
    beU32_of_le (by simp only [xfsAgfSize] at hlength; omega)
  simp only [parse, requireLen_of_le hlength, h0.beU32, h4.beU32, h8.beU32, h12.beU32, h16.beU32,
    h20.beU32, h24.beU32, h28.beU32, h32.beU32, h36.beU32, h40.beU32, h44.beU32, h48.beU32,
    h52.beU32, h56.beU32, h60.beU32, h64.arrayAt, h80.beU32, h84.beU32, h88.beU32, h92.beU32,
    h208.beU64, hcrc, orPanic_some, ok_bind, ne_eq, not_true_eq_false, if_false]
  rfl

theorem beU32s_of_holds {n off : Nat} {values : Words n}
    (h : ∀ w ∈ putBe32s off values.val, Holds bytes w) :
    beU32s bytes n off = some values := by
  induction n generalizing off with
  | zero =>
    obtain ⟨values, hlength⟩ := values
    obtain rfl := List.length_eq_zero_iff.mp hlength
    rfl
  | succ n ih =>
    obtain ⟨values, hlength⟩ := values
    cases values with
    | nil =>
      simp at hlength
    | cons value values =>
      simp only [putBe32s, List.forall_mem_cons] at h
      have hrest : beU32s bytes n (off + 4) = some ⟨values, Nat.succ.inj hlength⟩ := ih h.2
      rw [beU32s, h.1.beU32, Option.bind_some, hrest]
      rfl

theorem Agi.parse_of_holds {agi : Agi} (hlength : xfsAgiSize ≤ bytes.length)
    (h : ∀ w ∈ agi.writes, Holds bytes w) :
    Agi.parse bytes = .ok { agi with crc := u32At bytes xfsAgiCrcOff } := by
  simp only [writes, List.forall_mem_append, List.forall_mem_cons] at h
  obtain ⟨⟨⟨h0, h4, h8, h12, h16, h20, h24, h28, h32, h36, -⟩, hunlinked⟩, h296, h320, h328, h332,
    h336, h340, -⟩ := h
  have hcrc : beU32 bytes 312 = some (u32At bytes 312) :=
    beU32_of_le (by simp only [xfsAgiSize] at hlength; omega)
  simp only [parse, requireLen_of_le hlength, h0.beU32, h4.beU32, h8.beU32, h12.beU32, h16.beU32,
    h20.beU32, h24.beU32, h28.beU32, h32.beU32, h36.beU32, beU32s_of_holds hunlinked,
    h296.arrayAt, h320.beU64, h328.beU32, h332.beU32, h336.beU32, h340.beU32, hcrc, orPanic_some,
    ok_bind, ne_eq, not_true_eq_false, if_false]
  rfl

theorem InodeBtreeRoot.parse_of_holds {root : InodeBtreeRoot} {kind : InodeBtreeKind}
    (hlength : xfsBtreeSblockCrcLen ≤ bytes.length) (hmagic : root.magic = kind.magic)
    (h : ∀ w ∈ root.writes, Holds bytes w) :
    InodeBtreeRoot.parse bytes kind true =
      .ok { root with kind := kind, crc := leU32At bytes xfsBtreeSblockCrcOff } := by
  simp only [writes, List.forall_mem_cons] at h
  obtain ⟨h0, h4, h6, h8, h12, h16, h24, h32, h48, -⟩ := h
  have hcrc : leU32 bytes 52 = some (leU32At bytes 52) :=
    leU32_of_le (by simp only [xfsBtreeSblockCrcLen] at hlength; omega)
  simp only [parse, Bool.not_true, Bool.false_eq_true, if_false, requireLen_of_le hlength, h0.beU32,
    h4.beU16, h6.beU16, h8.beU32, h12.beU32, h16.beU64, h24.beU64, h32.arrayAt, h48.beU32, hcrc,
    orPanic_some, ok_bind, ne_eq, hmagic, not_true_eq_false]
  rfl

theorem InodeFormat.fromU8_toU8
    (format : InodeFormat) :
    fromU8 format.toU8 = format := by
  cases format <;> rfl

/-- The two halves of a project id. -/
theorem projid_halves
    (projid : UInt32) :
    ((projid >>> 16).toUInt16.toUInt32 <<< 16) ||| (projid &&& 0xffff).toUInt16.toUInt32 =
      projid := by
  apply UInt32.toNat_inj.mp
  have hlt : projid.toNat < 2 ^ 32 := projid.toNat_lt
  have hlow : projid.toNat &&& 65535 = projid.toNat % 2 ^ 16 :=
    Nat.and_two_pow_sub_one_eq_mod _ 16
  have hhigh : projid.toNat / 2 ^ 16 % 2 ^ 16 = projid.toNat / 2 ^ 16 :=
    Nat.mod_eq_of_lt (by omega)
  have hback : projid.toNat / 2 ^ 16 * 2 ^ 16 % 2 ^ 32 = projid.toNat / 2 ^ 16 * 2 ^ 16 :=
    Nat.mod_eq_of_lt (by omega)
  rw [UInt32.toNat_or, UInt32.toNat_shiftLeft, UInt16.toNat_toUInt32, UInt16.toNat_toUInt32,
    UInt32.toNat_toUInt16, UInt32.toNat_toUInt16, UInt32.toNat_shiftRight, UInt32.toNat_and]
  change (((projid.toNat >>> 16) % 2 ^ 16) <<< 16) % 2 ^ 32 |||
    ((projid.toNat &&& 65535) % 2 ^ 16) = projid.toNat
  rw [hlow, Nat.shiftRight_eq_div_pow, Nat.shiftLeft_eq, hhigh, hback, Nat.mod_mod, Nat.mul_comm,
    ← Nat.two_pow_add_eq_or_of_lt (Nat.mod_lt _ (by decide))]
  omega

theorem Inode.parse_of_holds {inode : Inode} (hlength : xfsDinodeSizeV3 ≤ bytes.length)
    (hmagic : inode.magic = xfsDinodeMagic)
    (h : ∀ w ∈ inode.writes, Holds bytes w) :
    Inode.parse bytes = .ok { inode with crc := leU32At bytes xfsDinodeCrcOff } := by
  simp only [writes, List.forall_mem_cons] at h
  obtain ⟨h0, h2, h4, h5, h6, h8, h12, h16, h20, h22, -, h30, h32, h36, h40, h44, h48, h52, h56, h64,
    h72, h76, h80, h82, h83, h84, h88, h90, h92, h96, h104, h112, h120, h128, -, h144, h148, h152,
    h160, -⟩ := h
  have hcrc : leU32 bytes 100 = some (leU32At bytes 100) :=
    leU32_of_le (by simp only [xfsDinodeSizeV3] at hlength; omega)
  simp only [parse, requireLen_of_le hlength, h0.beU16, h2.beU16, h4.byteAt, h5.byteAt, h6.beU16,
    h8.beU32, h12.beU32, h16.beU32, h20.beU16, h22.beU16, h30.beU16, h32.beU32, h36.beU32,
    h40.beU32, h44.beU32, h48.beU32, h52.beU32, h56.beU64, h64.beU64, h72.beU32, h76.beU32,
    h80.beU16, h82.byteAt, h83.byteAt, h84.beU32, h88.beU16, h90.beU16, h92.beU32, h96.beU32,
    h104.beU64, h112.beU64, h120.beU64, h128.beU32, h144.beU32, h148.beU32, h152.beU64,
    h160.arrayAt, hcrc, orPanic_some, ok_bind, ne_eq, hmagic, not_true_eq_false, if_false,
    InodeFormat.fromU8_toU8, Int32.toInt32_toUInt32, Int64.toInt64_toUInt64, projid_halves]
  rfl

end Reading

/-! ## The round trips -/

/-- Whatever is in a buffer of at least `size` bytes, `serialize` fills it in, and `parse` reads
from it the value with some checksum. -/
def RoundTrips {R : Type} (size : Nat) (serialize : Bytes → Rust ParseError Bytes)
    (parse : Bytes → Rust ParseError R) (withCrc : UInt32 → R) : Prop :=
  ∀ before : Bytes, size ≤ before.length →
    ∃ after crc, serialize before = .ok after ∧ parse after = .ok (withCrc crc)

theorem RoundTrips.of_parse
    {R : Type} {size : Nat} {writes : List (Write UInt8)} {parse : Bytes → Rust ParseError R}
    {withCrc : UInt32 → R} (hascending : Ascending 0 writes size)
    (hparse : ∀ after : Bytes, size ≤ after.length → (∀ w ∈ writes, Holds after w) →
      ∃ crc, parse after = .ok (withCrc crc)) :
    RoundTrips size (serializeWith size writes) parse withCrc := by
  intro before hlength
  obtain ⟨after, hafter, -, hsame, hholds⟩ := serializeWith_spec hascending hlength
  obtain ⟨crc, hcrc⟩ := hparse after (hsame ▸ hlength) hholds
  exact ⟨after, crc, hafter, hcrc⟩

/-- Each structure is read back as it was written, the checksum apart. -/
theorem serialized_structures_parse :
    (∀ sb : Superblock, sb.WellFormed →
      RoundTrips xfsDsbSize sb.serialize Superblock.parse sb.withCrc) ∧
    (∀ agf : Agf, RoundTrips xfsAgfSize agf.serialize Agf.parse fun crc => { agf with crc }) ∧
    (∀ agi : Agi, RoundTrips xfsAgiSize agi.serialize Agi.parse fun crc => { agi with crc }) ∧
    (∀ root : InodeBtreeRoot, root.magic = root.kind.magic →
      RoundTrips xfsBtreeSblockCrcLen root.serialize (InodeBtreeRoot.parse · root.kind true)
        fun crc => { root with crc }) ∧
    (∀ inode : Inode, inode.magic = xfsDinodeMagic →
      RoundTrips xfsDinodeSizeV3 inode.serialize Inode.parse fun crc => { inode with crc }) := by
  refine ⟨fun sb hsb => ?_, fun agf => ?_, fun agi => ?_, fun root hmagic => ?_,
    fun inode hmagic => ?_⟩
  · exact RoundTrips.of_parse sb.ascending
      fun after hlength h => ⟨_, Superblock.parse_of_holds hlength hsb h⟩
  · exact RoundTrips.of_parse agf.ascending
      fun after hlength h => ⟨_, Agf.parse_of_holds hlength h⟩
  · exact RoundTrips.of_parse agi.ascending
      fun after hlength h => ⟨_, Agi.parse_of_holds hlength h⟩
  · exact RoundTrips.of_parse root.ascending
      fun after hlength h => ⟨_, InodeBtreeRoot.parse_of_holds hlength hmagic h⟩
  · exact RoundTrips.of_parse inode.ascending
      fun after hlength h => ⟨_, Inode.parse_of_holds hlength hmagic h⟩

/-- A new volume of version 5: each of its structures, written over a sector that held another. -/
theorem serialized_structures_parse_volume :
    ∃ (sb : Superblock) (agf : Agf) (agi : Agi) (root : InodeBtreeRoot) (inode : Inode),
      sb.v5.isSome = true ∧ root.kind = .inobt ∧
      (∃ after crc, sb.serialize (List.replicate 512 7) = .ok after ∧
        Superblock.parse after = .ok (sb.withCrc crc)) ∧
      (∃ after crc, agf.serialize (List.replicate 512 7) = .ok after ∧
        Agf.parse after = .ok { agf with crc }) ∧
      (∃ after crc, agi.serialize (List.replicate 512 7) = .ok after ∧
        Agi.parse after = .ok { agi with crc }) ∧
      (∃ after crc, root.serialize (List.replicate 512 7) = .ok after ∧
        InodeBtreeRoot.parse after .inobt true = .ok { root with crc }) ∧
      ∃ after crc, inode.serialize (List.replicate 512 7) = .ok after ∧
        Inode.parse after = .ok { inode with crc } := by
  let uuid : Octets 16 := ⟨List.replicate 16 1, by decide⟩
  let v5 : V5Fields := ⟨0, 5, 3, 0, 0, 4, 0xffffffffffffffff, 0, uuid, 0, 0, 0, 0, 0, 0⟩
  let sb : Superblock :=
    { (default : Superblock) with
      blockSize := 4096, sectorSize := 512, inodeSize := 512, version := 5, uuid := uuid,
      rootino := 128, v5 := some v5 }
  let agf : Agf := ⟨0, 1024, 1, 2, 5, 1, 1, 1, 0, 5, 6, 900, 900, 0, uuid, 1, 1, 6, 1, 0, 0⟩
  let agi : Agi :=
    ⟨0, 1024, 64, 3, 1, 61, 128, 0xffffffff, ⟨List.replicate 64 0xffffffff, by decide⟩, uuid, 0, 0,
      4, 1, 1, 1⟩
  let root : InodeBtreeRoot :=
    ⟨.inobt, xfsIbtCrcMagic, 0, 1, 0xffffffff, 0xffffffff, 24, 0, uuid, 0, 0⟩
  let inode : Inode :=
    { (default : Inode) with
      magic := xfsDinodeMagic, mode := 0x41ed, version := 3, nlink := 2, ino := 128, uuid := uuid }
  obtain ⟨hsb, hagf, hagi, hroot, hinode⟩ := serialized_structures_parse
  have hwell : sb.WellFormed :=
    ⟨by decide, by decide, by decide, by decide, by decide⟩
  have hlength : (List.replicate 512 (7 : UInt8)).length = 512 := List.length_replicate
  exact ⟨sb, agf, agi, root, inode, rfl, rfl, hsb sb hwell _ (hlength.symm ▸ by decide),
    hagf agf _ (hlength.symm ▸ by decide), hagi agi _ (hlength.symm ▸ by decide),
    hroot root rfl _ (hlength.symm ▸ by decide), hinode inode rfl _ (hlength.symm ▸ by decide)⟩

/-! ## Extents -/

/-- The first word of an extent at the start of a file. -/
theorem high_word {startblock : UInt64}
    (h : startblock.toNat < 2 ^ 43) :
    ((0 : UInt64) <<< 9) ||| ((startblock >>> 43) &&& 0x1ff) = 0 := by
  apply UInt64.toNat_inj.mp
  have hshift : startblock.toNat >>> 43 = 0 := by
    rw [Nat.shiftRight_eq_div_pow]
    exact Nat.div_eq_of_lt h
  rw [UInt64.toNat_or, UInt64.toNat_and, UInt64.toNat_shiftRight]
  change 0 ||| ((startblock.toNat >>> 43) &&& 511) = 0
  rw [hshift]
  rfl

/-- The second word, in which a large count runs into the start block. -/
theorem low_word {startblock : UInt64} (h : startblock.toNat < 2 ^ 43)
    (blockcount : UInt32) :
    (((startblock &&& (((1 : UInt64) <<< 43) - 1)) <<< 21) ||| blockcount.toUInt64).toNat =
      startblock.toNat <<< 21 ||| blockcount.toNat := by
  have hmask : startblock.toNat &&& 8796093022207 = startblock.toNat % 2 ^ 43 :=
    Nat.and_two_pow_sub_one_eq_mod _ 43
  rw [UInt64.toNat_or, UInt64.toNat_shiftLeft, UInt64.toNat_and, UInt32.toNat_toUInt64]
  change (startblock.toNat &&& 8796093022207) <<< 21 % 2 ^ 64 ||| blockcount.toNat = _
  rw [hmask, Nat.mod_eq_of_lt h, Nat.mod_eq_of_lt]
  rw [Nat.shiftLeft_eq]
  omega

/-- What is read from the sixteen bytes of an extent at the start of a file. -/
theorem parse_serializeBmapExtent {bytes : Bytes} {startblock : UInt64} {blockcount : UInt32}
    (hstart : startblock.toNat < 2 ^ 43)
    (hbytes : slice bytes 0 16 = serializeBmapExtent 0 startblock blockcount) :
    ∃ extent, BmapExtent.parse bytes = .ok extent ∧ extent.startoff = 0 ∧
      extent.startblock.toNat = startblock.toNat ||| blockcount.toNat / 2 ^ 21 ∧
      extent.blockcount.toNat = blockcount.toNat % 2 ^ 21 := by
  have hlow := low_word hstart blockcount
  rw [serializeBmapExtent] at hbytes
  generalize hx1 : ((startblock &&& (((1 : UInt64) <<< 43) - 1)) <<< 21) ||| blockcount.toUInt64 =
    x1 at hbytes hlow
  simp only [high_word hstart] at hbytes
  have hlength : 16 ≤ bytes.length := by
    have := congrArg List.length hbytes
    simp [slice] at this
    omega
  have hfirst : Holds bytes (putBe64 0 0) := by
    refine ⟨by simp; omega, ?_⟩
    have := congrArg (List.take 8) hbytes
    simpa [slice, putBe64, List.take_take] using this
  have hsecond : Holds bytes (putBe64 8 x1) := by
    refine ⟨by simp; omega, ?_⟩
    have := congrArg (List.drop 8) hbytes
    simpa [slice, putBe64, List.drop_take] using this
  simp only [BmapExtent.parse, requireLen_of_le (show BmapExtent.size ≤ bytes.length from hlength),
    hfirst.beU64, hsecond.beU64, orPanic_some, ok_bind]
  refine ⟨_, rfl, rfl, ?_, ?_⟩
  · change (((0 : UInt64) &&& 0x1ff) <<< 43 ||| x1 >>> 21).toNat = _
    rw [UInt64.toNat_or, UInt64.toNat_shiftRight, hlow]
    change 0 ||| (startblock.toNat <<< 21 ||| blockcount.toNat) >>> 21 = _
    rw [Nat.shiftRight_or_distrib, Nat.shiftLeft_shiftRight, Nat.zero_or,
      Nat.shiftRight_eq_div_pow]
  · have hhigh : startblock.toNat <<< 21 % 2 ^ 21 = 0 := by
      rw [Nat.shiftLeft_eq, Nat.mul_mod_left]
    rw [BmapExtent.toNat_blockcount_ofWords, hlow, Nat.or_mod_two_pow, hhigh, Nat.zero_or]

/-- An extent is read back exactly if its block count has 21 bits. -/
theorem extent_parses_iff (startblock : UInt64) (blockcount : UInt32)
    (hstart : startblock.toNat < 2 ^ 32) :
    (∃ extent, BmapExtent.parse (serializeBmapExtent 0 startblock blockcount) = .ok extent ∧
      extent.startoff = 0 ∧ extent.startblock = startblock ∧ extent.blockcount = blockcount) ↔
    blockcount.toNat < 2 ^ 21 := by
  have hslice : slice (serializeBmapExtent 0 startblock blockcount) 0 16 =
      serializeBmapExtent 0 startblock blockcount := by
    simp [serializeBmapExtent, slice]
  obtain ⟨extent, hparse, hoff, hblock, hcount⟩ :=
    parse_serializeBmapExtent (by omega) hslice
  rw [hparse]
  constructor
  · rintro ⟨extent', h, -, -, hcount'⟩
    cases h
    rw [hcount'] at hcount
    exact hcount ▸ Nat.mod_lt _ (by decide)
  · intro hlt
    refine ⟨extent, rfl, hoff, UInt64.toNat_inj.mp ?_, UInt32.toNat_inj.mp ?_⟩
    · rw [hblock, Nat.div_eq_of_lt hlt, Nat.or_zero]
    · rw [hcount, Nat.mod_eq_of_lt hlt]

theorem extent_parses_iff_of_three_blocks :
    (9 : UInt64).toNat < 2 ^ 32 ∧
      ∃ extent, BmapExtent.parse (serializeBmapExtent 0 9 3) = .ok extent ∧
        extent.startoff = 0 ∧ extent.startblock = 9 ∧ extent.blockcount = 3 :=
  ⟨by decide, (extent_parses_iff 9 3 (by decide)).mpr (by decide)⟩

/-- A file of `2 ^ 21` blocks from block 10 on: its extent is empty and starts at block 11. -/
theorem extent_count_overflows :
    BmapExtent.parse (serializeBmapExtent 0 10 2097152) =
      .ok { state := 0, startoff := 0, startblock := 11, blockcount := 0 } := by
  decide +kernel

end Crabfs
end Theos
