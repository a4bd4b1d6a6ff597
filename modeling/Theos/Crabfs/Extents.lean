import Theos.Crabfs.Reader

/-!
# Reading a file through its extents

`read_extent_range` goes through the extents of an inode once, with the position in the file
and the number of bytes that are still to be read.  If the extents follow each other from the
start of the file on, the extent that holds the position is found, and after it has been read
the position is the start of the next one.  The bytes that are returned are then a range of the
blocks of all extents, put together.
-/

namespace Theos
namespace Crabfs

open Base Rust

/-! ## Extents in the fork of an inode -/

theorem BmapExtent.blockcount_ofWords_lt
    (x0 x1 : UInt64) :
    (ofWords x0 x1).blockcount.toNat < 2 ^ 21 := by
  rw [toNat_blockcount_ofWords]
  exact Nat.mod_lt _ (by decide)

theorem BmapExtent.parse_of_le {bytes : Bytes}
    (h : 16 ≤ bytes.length) :
    BmapExtent.parse bytes = .ok (ofWords (u64At bytes 0) (u64At bytes 8)) := by
  rw [BmapExtent.parse, requireLen_of_le (show BmapExtent.size ≤ bytes.length from h),
    beU64_of_le (by omega), beU64_of_le (by omega)]
  rfl

/-- The `i`-th extent of a fork. -/
def extentOf (fork : Bytes) (i : Nat) : BmapExtent :=
  BmapExtent.ofWords (u64At (fork.drop (i * 16)) 0) (u64At (fork.drop (i * 16)) 8)

theorem readExtents_of_le {fork : Bytes} {n i : Nat}
    (h : (i + n) * 16 ≤ fork.length) :
    readExtents fork n i = .ok ((List.range' i n).map (extentOf fork)) := by
  induction n generalizing i with
  | zero =>
    rfl
  | succ n ih =>
    have hdrop : dropFrom fork (i * 16) = some (fork.drop (i * 16)) := if_pos (by omega)
    have hroom : 16 ≤ (fork.drop (i * 16)).length := by
      rw [List.length_drop]
      omega
    rw [readExtents, hdrop, orPanic_some, ok_bind, BmapExtent.parse_of_le hroom, parsed, mapErr_ok,
      ok_bind, ih (by omega), ok_bind, List.range'_succ, List.map_cons]
    rfl

/-- The extents of an inode, from its record. -/
def Inode.extents (inode : Inode) (scratch : Bytes) : List BmapExtent :=
  (List.range' 0 inode.nextents.toNat).map (extentOf (scratch.drop 176))

/-! ## Their blocks -/

/-- The first byte of an extent: the high bits of its start block are the allocation group. -/
def blockAddress (sb : Superblock) (ext : BmapExtent) : Nat :=
  let group := ext.startblock.toNat / 2 ^ sb.agblklog.toNat
  let block := ext.startblock.toNat % 2 ^ sb.agblklog.toNat
  (group * sb.agBlocks.toNat + block) * sb.blockSize.toNat

/-- The number of bytes of an extent. -/
def byteCount (sb : Superblock) (ext : BmapExtent) : Nat :=
  ext.blockcount.toNat * sb.blockSize.toNat

/-- The blocks of the extents, one after the other. -/
def extentBytes (disk : Bytes) (sb : Superblock) (exts : List BmapExtent) : Bytes :=
  exts.flatMap fun ext => slice disk (blockAddress sb ext) (byteCount sb ext)

/-- The extents follow each other in the file from block `first` on. -/
def Contiguous : (first : Nat) → List BmapExtent → Prop
  | _, [] => True
  | first, ext :: exts =>
    ext.startoff.toNat = first ∧ Contiguous (first + ext.blockcount.toNat) exts

instance : (first : Nat) → (exts : List BmapExtent) → Decidable (Contiguous first exts)
  | _, [] => inferInstanceAs (Decidable True)
  | first, ext :: exts =>
    have := instDecidableContiguous (first + ext.blockcount.toNat) exts
    inferInstanceAs (Decidable (_ ∧ _))

/-- An inode in extent format whose extents are contiguous from offset 0 and cover its size,
and whose blocks lie inside the device. -/
structure ExtentFile (disk : Bytes) (sb : Superblock) (inode : Inode) (scratch : Bytes) : Prop where
  fits : 176 + inode.nextents.toNat * 16 ≤ scratch.length
  contiguous : Contiguous 0 (inode.extents scratch)
  size_nonneg : 0 ≤ inode.size.toInt
  covers : inode.size.toInt ≤ ((inode.extents scratch).map (byteCount sb)).sum
  agblklog_lt : sb.agblklog.toNat < 64
  inside : ∀ ext ∈ inode.extents scratch, blockAddress sb ext + byteCount sb ext ≤ disk.length

/-- The device reads the bytes of `disk`. -/
def Device.Serves (dev : Device) (disk : Bytes) : Prop :=
  ∀ off len, off + len ≤ disk.length → dev.readAt off len = .ok (slice disk off len)

theorem Device.Serves.read {dev : Device} {disk : Bytes} (h : dev.Serves disk) {off len : Nat}
    (hle : off + len ≤ disk.length) :
    dev.read off len = .ok (slice disk off len) := by
  rw [Device.read, h off len hle]

theorem Device.serves_ofImage
    (image : Bytes) :
    (Device.ofImage image).Serves image :=
  fun _ _ h => if_pos h

/-! ## The loop -/

theorem lowMask_of_lt {n : Nat}
    (h : n < 64) :
    lowMask n = some (2 ^ n - 1) := by
  rw [lowMask, shlU_one_bind_subU, if_pos h]

theorem extentToPhysicalOffset_of_lt {sb : Superblock} {ext : BmapExtent}
    (hlog : sb.agblklog.toNat < 64) (hblock : 0 < sb.blockSize.toNat)
    (h : blockAddress sb ext < 2 ^ 64) :
    extentToPhysicalOffset sb ext = some (blockAddress sb ext) := by
  have hshift : shrU 64 ext.startblock.toNat sb.agblklog.toNat =
      some (ext.startblock.toNat / 2 ^ sb.agblklog.toNat) :=
    (shrU_eq_some_iff _ _ _ _).mpr ⟨hlog, rfl⟩
  have hle := Nat.le_mul_of_pos_right (ext.startblock.toNat / 2 ^ sb.agblklog.toNat *
    sb.agBlocks.toNat + ext.startblock.toNat % 2 ^ sb.agblklog.toNat) hblock
  rw [blockAddress] at h
  simp only [extentToPhysicalOffset, hshift, lowMask_of_lt hlog, Option.bind_eq_bind,
    Option.bind_some, Nat.and_two_pow_sub_one_eq_mod]
  rw [mulU, if_pos (by omega), Option.bind_some, addU, if_pos (by omega), Option.bind_some, mulU,
    if_pos h]
  rfl

theorem byteCount_lt {sb : Superblock} {ext : BmapExtent}
    (h : ext.blockcount.toNat < 2 ^ 21) :
    byteCount sb ext < 2 ^ 53 := by
  have hsize : sb.blockSize.toNat < 2 ^ 32 := sb.blockSize.toNat_lt
  calc ext.blockcount.toNat * sb.blockSize.toNat
      ≤ 2 ^ 21 * sb.blockSize.toNat := Nat.mul_le_mul_right _ (by omega)
    _ < 2 ^ 21 * 2 ^ 32 := by omega
    _ = 2 ^ 53 := by norm_num

/-- A range that begins in the first of two parts and ends in the second one. -/
theorem slice_append_across {α : Type} {front back : List α} {off len : Nat}
    (hoff : off ≤ front.length)
    (hlen : front.length ≤ off + len) :
    slice (front ++ back) off len =
      slice front off (front.length - off) ++ slice back 0 (len - (front.length - off)) := by
  have hrest : (front.drop off).length = front.length - off := List.length_drop
  have hfront : (front.drop off).take (front.length - off) = front.drop off :=
    List.take_of_length_le (le_of_eq hrest)
  have htake : (front.drop off).take len = front.drop off :=
    List.take_of_length_le (by omega)
  rw [slice, slice, slice, List.drop_append_of_le_length hoff, List.take_append, hrest, hfront,
    htake, List.drop_zero]

/-- The device has these blocks where the extent says. -/
structure BlocksAt (dev : Device) (sb : Superblock) (ext : BmapExtent) (blocks : Bytes) : Prop where
  count_lt : ext.blockcount.toNat < 2 ^ 21
  length_eq : blocks.length = byteCount sb ext
  stop_le : blockAddress sb ext + byteCount sb ext < 2 ^ 64
  read_eq : ∀ off len, off + len ≤ byteCount sb ext →
    dev.read (blockAddress sb ext + off) len = .ok (slice blocks off len)

/-- The loop returns a range of the blocks of the extents.  The position is not before the
first of them, and what is still to be read lies in them. -/
theorem readExtentLoop_eq
    {dev : Device} {sb : Superblock} {exts : List BmapExtent} {first remaining currentOff : Nat}
    {blocks : BmapExtent → Bytes} (hlog : sb.agblklog.toNat < 64) (hblock : 0 < sb.blockSize.toNat)
    (hblocks : ∀ ext ∈ exts, BlocksAt dev sb ext (blocks ext)) (hcontiguous : Contiguous first exts)
    (hfirst : first * sb.blockSize.toNat ≤ currentOff)
    (hcovers : currentOff + remaining ≤
      first * sb.blockSize.toNat + (exts.map (byteCount sb)).sum)
    (hsmall : currentOff + remaining < 2 ^ 63) :
    readExtentLoop dev sb exts remaining currentOff =
      .ok (slice (exts.flatMap blocks) (currentOff - first * sb.blockSize.toNat) remaining) := by
  induction exts generalizing first remaining currentOff with
  | nil =>
    have hzero : remaining = 0 := by
      simp at hcovers
      omega
    rw [readExtentLoop, hzero, slice, List.take_zero]
  | cons ext exts ih =>
    obtain ⟨⟨hcount, hlength, hstopLe, hread⟩, hblocks⟩ := List.forall_mem_cons.mp hblocks
    obtain ⟨hoff, hrest⟩ := hcontiguous
    have hstartMul : mulU 64 ext.startoff.toNat sb.blockSize.toNat =
        some (first * sb.blockSize.toNat) := by
      rw [hoff, mulU, if_pos (by omega)]
    have hcountSmall : byteCount sb ext < 2 ^ 53 := byteCount_lt hcount
    have hcountMul : mulU 64 ext.blockcount.toNat sb.blockSize.toNat = some (byteCount sb ext) :=
      (mulU_eq_some_iff _ _ _ _).mpr ⟨hcountSmall.trans (by decide), rfl⟩
    have hstop : addU 64 (first * sb.blockSize.toNat) (byteCount sb ext) =
        some (first * sb.blockSize.toNat + byteCount sb ext) := by
      rw [addU, if_pos (by omega)]
    have hnext : (first + ext.blockcount.toNat) * sb.blockSize.toNat =
        first * sb.blockSize.toNat + byteCount sb ext := Nat.add_mul ..
    rw [List.map_cons, List.sum_cons] at hcovers
    simp only [readExtentLoop, hstartMul, hcountMul, hstop, orPanic_some, ok_bind, if_pos hfirst]
    rw [List.flatMap_cons]
    by_cases hin : currentOff < first * sb.blockSize.toNat + byteCount sb ext
    · -- the position is in this extent
      have hphys : extentToPhysicalOffset sb ext = some (blockAddress sb ext) :=
        extentToPhysicalOffset_of_lt hlog hblock (by omega)
      have hphysOff : addU 64 (blockAddress sb ext)
          (currentOff - first * sb.blockSize.toNat) =
          some (blockAddress sb ext + (currentOff - first * sb.blockSize.toNat)) := by
        rw [addU, if_pos (by omega)]
      rw [if_pos hin, hphys, orPanic_some, ok_bind, hphysOff, orPanic_some, ok_bind,
        hread _ _ (by omega), ok_bind]
      split
      next hdone =>
        rw [Nat.min_eq_right (by omega), slice_append_left (by omega)]
      next hmore =>
        rw [Nat.min_eq_left (by omega), ih hblocks hrest (by omega) (by omega) (by omega),
          ok_bind, slice_append_across (by omega) (by omega), hlength,
          show currentOff + (byteCount sb ext - (currentOff - first * sb.blockSize.toNat)) -
            (first + ext.blockcount.toNat) * sb.blockSize.toNat = 0 by omega]
        rfl
    · -- the extent lies before the position
      rw [if_neg hin, ih hblocks hrest (by omega) (by omega) hsmall,
        show currentOff - first * sb.blockSize.toNat =
          (blocks ext).length +
            (currentOff - (first + ext.blockcount.toNat) * sb.blockSize.toNat) by omega,
        slice_append_right]

/-! ## The file -/

theorem Inode.fileSize_eq {inode : Inode}
    (h : 0 ≤ inode.size.toInt) :
    (inode.fileSize : Int) = inode.size.toInt ∧ inode.fileSize < 2 ^ 63 := by
  have hcases : inode.size.toInt = _ := BitVec.toInt_eq_toNat_cond inode.size.toBitVec
  have hnat : inode.fileSize = inode.size.toBitVec.toNat := rfl
  have hlt : inode.size.toBitVec.toNat < 2 ^ 64 := inode.size.toBitVec.isLt
  split at hcases
  next hlow =>
    exact ⟨by rw [hnat, hcases], by omega⟩
  next hhigh =>
    omega

/-- The bytes of a file are those of its extents up to its size. -/
theorem readExtentRange_of_blocks {dev : Device} {sb : Superblock} {inode : Inode} {scratch : Bytes}
    {blocks : BmapExtent → Bytes} (hfits : 176 + inode.nextents.toNat * 16 ≤ scratch.length)
    (hlog : sb.agblklog.toNat < 64)
    (hblocks : ∀ ext ∈ inode.extents scratch, BlocksAt dev sb ext (blocks ext))
    (hcontiguous : Contiguous 0 (inode.extents scratch)) (hsmall : inode.fileSize < 2 ^ 63)
    (hcovers : inode.fileSize ≤ ((inode.extents scratch).map (byteCount sb)).sum)
    (offset size : Nat) :
    readExtentRange dev sb inode scratch offset size =
      .ok (slice ((inode.extents scratch).flatMap blocks) offset
        (min (offset + size) inode.fileSize - offset)) := by
  have hdrop : dropFrom scratch 176 = some (scratch.drop 176) := if_pos (by omega)
  have hextents : readExtents (scratch.drop 176) inode.nextents.toNat 0 =
      .ok (inode.extents scratch) :=
    readExtents_of_le (by rw [List.length_drop]; omega)
  rw [readExtentRange, hdrop, orPanic_some, ok_bind, hextents, ok_bind]
  split
  next hbehind =>
    rw [show min (offset + size) inode.fileSize - offset = 0 by omega, slice, List.take_zero]
  next hbefore =>
    have hblock : 0 < sb.blockSize.toNat := by
      by_contra hzero
      have hsum : ((inode.extents scratch).map (byteCount sb)).sum = 0 := by
        refine List.sum_eq_zero fun count hcount => ?_
        obtain ⟨ext, -, rfl⟩ := List.mem_map.mp hcount
        rw [byteCount, Nat.eq_zero_of_not_pos hzero, Nat.mul_zero]
      omega
    rw [readExtentLoop_eq hlog hblock hblocks hcontiguous (by omega) (by omega) (by omega),
      show min size (inode.fileSize - offset) = min (offset + size) inode.fileSize - offset by omega]
    simp

theorem ExtentFile.blocksAt
    {dev : Device} {disk : Bytes} {sb : Superblock} {inode : Inode} {scratch : Bytes}
    (hfile : ExtentFile disk sb inode scratch) (hdev : dev.Serves disk)
    (hdisk : disk.length < 2 ^ 64) :
    ∀ ext ∈ inode.extents scratch,
      BlocksAt dev sb ext (slice disk (blockAddress sb ext) (byteCount sb ext)) := by
  intro ext hext
  have hinside := hfile.inside ext hext
  refine ⟨?_, length_slice hinside, by omega, fun off len hlen => ?_⟩
  · obtain ⟨i, -, rfl⟩ := List.mem_map.mp hext
    exact BmapExtent.blockcount_ofWords_lt ..
  · rw [slice_slice hlen]
    exact hdev.read (by omega)

theorem readExtentRange_eq
    {dev : Device} {disk : Bytes} {sb : Superblock} {inode : Inode} {scratch : Bytes}
    (hdev : dev.Serves disk) (hdisk : disk.length < 2 ^ 64)
    (hfile : ExtentFile disk sb inode scratch)
    (offset size : Nat) :
    readExtentRange dev sb inode scratch offset size =
      .ok (slice (extentBytes disk sb (inode.extents scratch)) offset
        (min (offset + size) inode.fileSize - offset)) := by
  obtain ⟨hsize, hsmall⟩ := Inode.fileSize_eq hfile.size_nonneg
  have hcovers := hfile.covers
  exact readExtentRange_of_blocks hfile.fits hfile.agblklog_lt (hfile.blocksAt hdev hdisk)
    hfile.contiguous hsmall (by omega) offset size

/-- **Reads of a file in extents.**  A read returns a range of the file, and a range can be read
in two parts. -/
theorem extent_reads_are_slices (dev : Device) (disk : Bytes) (sb : Superblock) (inode : Inode)
    (scratch : Bytes) (hdev : dev.Serves disk) (hdisk : disk.length < 2 ^ 64)
    (hfile : ExtentFile disk sb inode scratch) :
    (∀ offset size, readExtentRange dev sb inode scratch offset size =
      .ok (slice (extentBytes disk sb (inode.extents scratch)) offset
        (min (offset + size) inode.fileSize - offset))) ∧
    (∀ offset a b, ∃ first second,
      readExtentRange dev sb inode scratch offset a = .ok first ∧
      readExtentRange dev sb inode scratch (offset + a) b = .ok second ∧
      readExtentRange dev sb inode scratch offset (a + b) = .ok (first ++ second)) := by
  have hread := readExtentRange_eq hdev hdisk hfile
  refine ⟨hread, fun offset a b => ⟨_, _, hread offset a, hread (offset + a) b, ?_⟩⟩
  rw [hread offset (a + b)]
  by_cases hend : offset + a ≤ inode.fileSize
  · rw [Nat.min_eq_left hend, Nat.add_sub_cancel_left, ← slice_add]
    congr 2
    omega
  · rw [show min (offset + a + b) inode.fileSize - (offset + a) = 0 by omega,
      show min (offset + (a + b)) inode.fileSize = min (offset + a) inode.fileSize by omega]
    simp [slice]

/-- A file of five bytes in two extents, of which the second one comes first on the device. -/
theorem extent_reads_are_slices_of_two_extents :
    ∃ sb inode scratch, readExtentRange (Device.ofImage [0, 1, 2, 3, 4, 5]) sb inode scratch 1 9 =
      .ok [5, 0, 1, 2] := by
  let sb : Superblock :=
    { (default : Superblock) with blockSize := 2, agBlocks := 4, agCount := 1, agblklog := 2 }
  let inode : Inode := { (default : Inode) with size := 5, nextents := 2 }
  let scratch : Bytes :=
    List.replicate 176 0 ++ serializeBmapExtent 0 2 1 ++ serializeBmapExtent 1 0 2
  have hfile : ExtentFile [0, 1, 2, 3, 4, 5] sb inode scratch :=
    ⟨by decide +kernel, by decide +kernel, by decide +kernel, by decide +kernel, by decide +kernel,
      by decide +kernel⟩
  refine ⟨sb, inode, scratch, ?_⟩
  refine ((extent_reads_are_slices (Device.ofImage [0, 1, 2, 3, 4, 5]) [0, 1, 2, 3, 4, 5] sb inode
    scratch (Device.serves_ofImage _) (by decide) hfile).1 1 9).trans ?_
  decide +kernel

end Crabfs
end Theos
