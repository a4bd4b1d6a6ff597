import Theos.Crabfs.Checksum
import Theos.Crabfs.OnDisk

/-!
# The checksum as the parsers return it

Six structures end with `write_xfs_crc`, which writes the checksum in little-endian
order.  Each of their parsers returns the field.  The superblock, the root of an
inode b-tree and the inode read it in that order; the three headers of an
allocation group read it in big-endian order, and so return the checksum with its
four bytes turned around.
-/

namespace Theos
namespace Crabfs

open Base Rust

/-! ## The fields -/

/-- A structure with a checksum, and what its parser needs to know. -/
inductive Checksummed where
  | superblock
  | agf
  | agi
  | agfl (sectorSize : UInt16) (crcEnabled : Bool)
  | inobt (kind : InodeBtreeKind) (crcEnabled : Bool)
  | inode

namespace Checksummed

/-- Where the checksum is written. -/
def crcOff : Checksummed → Nat
  | superblock => xfsSbCrcOff
  | agf => xfsAgfCrcOff
  | agi => xfsAgiCrcOff
  | agfl .. => xfsAgflCrcOff
  | inobt .. => xfsBtreeSblockCrcOff
  | inode => xfsDinodeCrcOff

/-- The checksum in what `parse` returns; an old superblock has none. -/
def parsedCrc (bytes : Bytes) : Checksummed → Rust ParseError (Option UInt32)
  | superblock => (Superblock.parse bytes).map fun sb => sb.v5.map V5Fields.crc
  | agf => (Agf.parse bytes).map fun agf => some agf.crc
  | agi => (Agi.parse bytes).map fun agi => some agi.crc
  | agfl sectorSize crcEnabled =>
    (Agfl.parse bytes sectorSize crcEnabled).map fun agfl => some agfl.crc
  | inobt kind crcEnabled =>
    (InodeBtreeRoot.parse bytes kind crcEnabled).map fun root => some root.crc
  | inode => (Inode.parse bytes).map fun inode => some inode.crc

/-- The parsers that read the checksum in the order it is written in. -/
def ReadsLittleEndian : Checksummed → Prop
  | superblock | inobt .. | inode => True
  | agf | agi | agfl .. => False

end Checksummed

/-- The CRC-32C of some bytes. -/
def crc32cOf (bytes : Bytes) : UInt32 :=
  ~~~crc32c xfsCrcSeed bytes

/-- A number with its four bytes turned around. -/
def turned (n : UInt32) : UInt32 :=
  UInt32.ofNat (ofBE (toLE 4 n.toNat))

/-! ## What a parser returns -/

section Parsed

variable {bytes : Bytes}

theorem V5Fields.crc_of_parse {v5 : V5Fields}
    (hlength : xfsDsbSize ≤ bytes.length)
    (h : V5Fields.parse bytes = .ok v5) :
    v5.crc = leU32At bytes xfsSbCrcOff := by
  unfold xfsDsbSize at hlength
  simp (disch := omega) only [parse, arrayAt_of_le, beU32_of_le, beU64_of_le, leU32_of_le,
    byteAt_of_le, orPanic_some, ok_bind] at h
  cases h
  rfl

theorem Superblock.v5_of_parseFields {sb : Superblock} {uuid : Octets 16} {fname : Octets 12}
    {version : UInt16} {blockSize : UInt32} {sectorSize inodeSize : UInt16} {v5 : Option V5Fields}
    (hlength : xfsDsbSize ≤ bytes.length)
    (h : parseFields bytes uuid fname version blockSize sectorSize inodeSize v5 = .ok sb) :
    sb.v5 = v5 := by
  unfold xfsDsbSize at hlength
  simp (disch := omega) only [parseFields, beU16_of_le, beU32_of_le, beU64_of_le, byteAt_of_le,
    orPanic_some, ok_bind] at h
  cases h
  rfl

theorem Superblock.crc_of_parse {sb : Superblock} {crc : UInt32}
    (h : Superblock.parse bytes = .ok sb)
    (hcrc : sb.v5.map V5Fields.crc = some crc) :
    xfsSbCrcOff + 4 ≤ bytes.length ∧ crc = leU32At bytes xfsSbCrcOff := by
  rw [parse] at h
  obtain ⟨_, hlength, h⟩ := bind_eq_ok.mp h
  have hlength := requireLen_eq_ok_iff.mp hlength
  have hlength' := hlength
  unfold xfsDsbSize at hlength'
  refine ⟨by unfold xfsSbCrcOff; omega, ?_⟩
  simp (disch := omega) only [arrayAt_of_le, beU32_of_le, beU16_of_le, orPanic_some,
    ok_bind] at h
  split_ifs at h with hmagic hblock hsector hinode hversion
  · cases h
  · cases h
  · cases h
  · cases h
  · obtain ⟨v5, hv5, h⟩ := bind_eq_ok.mp h
    obtain ⟨fields, hfields, rfl⟩ := except_map_eq_ok.mp hv5
    rw [v5_of_parseFields hlength h] at hcrc
    cases hcrc
    exact V5Fields.crc_of_parse hlength hfields
  · rw [v5_of_parseFields hlength h] at hcrc
    cases hcrc

theorem Agf.crc_of_parse {agf : Agf}
    (h : Agf.parse bytes = .ok agf) :
    xfsAgfCrcOff + 4 ≤ bytes.length ∧ agf.crc = u32At bytes xfsAgfCrcOff := by
  rw [parse] at h
  obtain ⟨_, hlength, h⟩ := bind_eq_ok.mp h
  have hlength := requireLen_eq_ok_iff.mp hlength
  unfold xfsAgfSize at hlength
  refine ⟨by unfold xfsAgfCrcOff; omega, ?_⟩
  simp (disch := omega) only [arrayAt_of_le, beU32_of_le, beU64_of_le, orPanic_some,
    ok_bind] at h
  split at h
  · cases h
  · split at h
    · cases h
    · cases h
      rfl

theorem Agi.crc_of_parse {agi : Agi}
    (h : Agi.parse bytes = .ok agi) :
    xfsAgiCrcOff + 4 ≤ bytes.length ∧ agi.crc = u32At bytes xfsAgiCrcOff := by
  rw [parse] at h
  obtain ⟨_, hlength, h⟩ := bind_eq_ok.mp h
  have hlength := requireLen_eq_ok_iff.mp hlength
  unfold xfsAgiSize at hlength
  refine ⟨by unfold xfsAgiCrcOff; omega, ?_⟩
  simp (disch := omega) only [arrayAt_of_le, beU32_of_le, beU64_of_le, orPanic_some,
    ok_bind] at h
  split at h
  · cases h
  · split at h
    · cases h
    · obtain ⟨unlinked, -, h⟩ := bind_eq_ok.mp h
      cases h
      rfl

theorem Agfl.crc_of_parse {agfl : Agfl} {sectorSize : UInt16} {crcEnabled : Bool}
    (h : Agfl.parse bytes sectorSize crcEnabled = .ok agfl) :
    xfsAgflCrcOff + 4 ≤ bytes.length ∧ agfl.crc = u32At bytes xfsAgflCrcOff := by
  rw [parse] at h
  obtain ⟨_, -, h⟩ := bind_eq_ok.mp h
  obtain ⟨_, hlength, h⟩ := bind_eq_ok.mp h
  have hlength := requireLen_eq_ok_iff.mp hlength
  unfold xfsAgflHeaderSize at hlength
  refine ⟨by unfold xfsAgflCrcOff; omega, ?_⟩
  simp (disch := omega) only [arrayAt_of_le, beU32_of_le, beU64_of_le, orPanic_some,
    ok_bind] at h
  split at h
  · cases h
  · cases h
    rfl

theorem InodeBtreeRoot.crc_of_parse {root : InodeBtreeRoot} {kind : InodeBtreeKind}
    {crcEnabled : Bool}
    (h : InodeBtreeRoot.parse bytes kind crcEnabled = .ok root) :
    xfsBtreeSblockCrcOff + 4 ≤ bytes.length ∧ root.crc = leU32At bytes xfsBtreeSblockCrcOff := by
  rw [parse] at h
  split at h
  · cases h
  · obtain ⟨_, hlength, h⟩ := bind_eq_ok.mp h
    have hlength := requireLen_eq_ok_iff.mp hlength
    unfold xfsBtreeSblockCrcLen at hlength
    refine ⟨by unfold xfsBtreeSblockCrcOff; omega, ?_⟩
    simp (disch := omega) only [arrayAt_of_le, beU16_of_le, beU32_of_le, beU64_of_le,
      leU32_of_le, orPanic_some, ok_bind] at h
    split at h
    · cases h
    · cases h
      rfl

theorem Inode.crc_of_parse {inode : Inode}
    (h : Inode.parse bytes = .ok inode) :
    xfsDinodeCrcOff + 4 ≤ bytes.length ∧ inode.crc = leU32At bytes xfsDinodeCrcOff := by
  rw [parse] at h
  obtain ⟨_, hlength, h⟩ := bind_eq_ok.mp h
  have hlength := requireLen_eq_ok_iff.mp hlength
  unfold xfsDinodeSizeV3 at hlength
  refine ⟨by unfold xfsDinodeCrcOff; omega, ?_⟩
  simp (disch := omega) only [arrayAt_of_le, beU16_of_le, beU32_of_le, beU64_of_le, leU32_of_le,
    byteAt_of_le, orPanic_some, ok_bind] at h
  split at h
  · cases h
  · cases h
    rfl

/-- Each parser returns the field, read in its order. -/
theorem parsedCrc_eq {s : Checksummed} {crc : UInt32}
    (h : s.parsedCrc bytes = .ok (some crc)) :
    s.crcOff + 4 ≤ bytes.length ∧
      (s.ReadsLittleEndian ∧ crc = leU32At bytes s.crcOff ∨
        ¬s.ReadsLittleEndian ∧ crc = u32At bytes s.crcOff) := by
  cases s with
  | superblock =>
    obtain ⟨sb, hsb, hcrc⟩ := except_map_eq_ok.mp h
    obtain ⟨hlength, hcrc⟩ := Superblock.crc_of_parse hsb hcrc
    exact ⟨hlength, .inl ⟨trivial, hcrc⟩⟩
  | agf =>
    obtain ⟨agf, hagf, hcrc⟩ := except_map_eq_ok.mp h
    obtain ⟨hlength, hread⟩ := Agf.crc_of_parse hagf
    exact ⟨hlength, .inr ⟨id, (Option.some.inj hcrc).symm.trans hread⟩⟩
  | agi =>
    obtain ⟨agi, hagi, hcrc⟩ := except_map_eq_ok.mp h
    obtain ⟨hlength, hread⟩ := Agi.crc_of_parse hagi
    exact ⟨hlength, .inr ⟨id, (Option.some.inj hcrc).symm.trans hread⟩⟩
  | agfl sectorSize crcEnabled =>
    obtain ⟨agfl, hagfl, hcrc⟩ := except_map_eq_ok.mp h
    obtain ⟨hlength, hread⟩ := Agfl.crc_of_parse hagfl
    exact ⟨hlength, .inr ⟨id, (Option.some.inj hcrc).symm.trans hread⟩⟩
  | inobt kind crcEnabled =>
    obtain ⟨root, hroot, hcrc⟩ := except_map_eq_ok.mp h
    obtain ⟨hlength, hread⟩ := InodeBtreeRoot.crc_of_parse hroot
    exact ⟨hlength, .inl ⟨trivial, (Option.some.inj hcrc).symm.trans hread⟩⟩
  | inode =>
    obtain ⟨inode, hinode, hcrc⟩ := except_map_eq_ok.mp h
    obtain ⟨hlength, hread⟩ := Inode.crc_of_parse hinode
    exact ⟨hlength, .inl ⟨trivial, (Option.some.inj hcrc).symm.trans hread⟩⟩

end Parsed

/-! ## What was written -/

section Written

variable {buffer : Bytes} {off : Nat}

/-- Going over the parts around the field is going over the buffer without it. -/
theorem xfsCrc_eq_crc32cOf
    (buffer : Bytes) (off : Nat) :
    xfsCrc buffer off = crc32cOf (splice buffer off [0, 0, 0, 0]) := by
  rw [xfsCrc, crc32cOf, splice, crc32c_append, crc32c_append]
  rfl

theorem slice_writeXfsCrc
    (h : off + 4 ≤ buffer.length) :
    slice (writeXfsCrc buffer off) off 4 = toLE 4 (xfsCrc buffer off).toNat := by
  have hfits : off + (toLE 4 (xfsCrc buffer off).toNat).length ≤ buffer.length := by
    rwa [length_toLE]
  have hread := slice_splice_self hfits
  rwa [length_toLE, ← writeXfsCrc_eq h] at hread

theorem u32At_writeXfsCrc
    (h : off + 4 ≤ buffer.length) :
    u32At (writeXfsCrc buffer off) off = turned (xfsCrc buffer off) := by
  rw [u32At, slice_writeXfsCrc h, turned]

end Written

/-- The field that a parser returns from a finished buffer is its checksum exactly if the
parser reads in little-endian order, or the four bytes are the same both ways. -/
theorem parsed_checksum_iff (s : Checksummed) (buffer : Bytes) {crc : UInt32}
    (h : s.parsedCrc (writeXfsCrc buffer s.crcOff) = .ok (some crc)) :
    crc = crc32cOf (splice (writeXfsCrc buffer s.crcOff) s.crcOff [0, 0, 0, 0]) ↔
      s.ReadsLittleEndian ∨
        turned (crc32cOf (splice (writeXfsCrc buffer s.crcOff) s.crcOff [0, 0, 0, 0])) =
          crc32cOf (splice (writeXfsCrc buffer s.crcOff) s.crcOff [0, 0, 0, 0]) := by
  obtain ⟨hlength, hread⟩ := parsedCrc_eq h
  rw [length_writeXfsCrc] at hlength
  have hsum : crc32cOf (splice (writeXfsCrc buffer s.crcOff) s.crcOff [0, 0, 0, 0]) =
      xfsCrc buffer s.crcOff := by
    rw [← xfsCrc_eq_crc32cOf, xfsCrc_congr (sameOutside_writeXfsCrc hlength)]
  rw [hsum]
  rcases hread with ⟨hlittle, hcrc⟩ | ⟨hbig, hcrc⟩
  · rw [leU32At_writeXfsCrc hlength] at hcrc
    simp [hlittle, hcrc]
  · rw [u32At_writeXfsCrc hlength] at hcrc
    simp [hbig, hcrc]

/-- The header of a free list, with no entries behind it. -/
def emptyAgfl : Bytes :=
  [0x58, 0x41, 0x46, 0x4c] ++ List.replicate 32 0

theorem parsed_checksum_iff_emptyAgfl :
    ∃ crc, (Checksummed.agfl 36 true).parsedCrc (writeXfsCrc emptyAgfl 32) = .ok (some crc) ∧
      (crc = crc32cOf (splice (writeXfsCrc emptyAgfl 32) 32 [0, 0, 0, 0]) ↔
        (Checksummed.agfl 36 true).ReadsLittleEndian ∨
          turned (crc32cOf (splice (writeXfsCrc emptyAgfl 32) 32 [0, 0, 0, 0])) =
            crc32cOf (splice (writeXfsCrc emptyAgfl 32) 32 [0, 0, 0, 0])) := by
  have h : (Checksummed.agfl 36 true).parsedCrc (writeXfsCrc emptyAgfl 32) =
      .ok (some (turned (xfsCrc emptyAgfl 32))) := by
    decide +kernel
  exact ⟨_, h, parsed_checksum_iff (.agfl 36 true) emptyAgfl h⟩

/-- The free list reads its checksum the other way round. -/
theorem agfl_checksum_turned :
    ∃ crc, (Checksummed.agfl 36 true).parsedCrc (writeXfsCrc emptyAgfl 32) = .ok (some crc) ∧
      crc ≠ crc32cOf (splice (writeXfsCrc emptyAgfl 32) 32 [0, 0, 0, 0]) := by
  refine ⟨turned (xfsCrc emptyAgfl 32), ?_, ?_⟩
  · decide +kernel
  · decide +kernel

end Crabfs
end Theos
