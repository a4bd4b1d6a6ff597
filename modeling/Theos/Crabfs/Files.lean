import Theos.Crabfs.Extents

/-!
# The content of a file

What a file or a symbolic link of a volume is: its bytes are in its inode, or its extents follow
each other and hold them.  `read_file_data` reads a slice of them.
-/

namespace Theos
namespace Crabfs

open Base Rust

/-- The record of a file of a type with these bytes, which are in its inode or in extents on the
disk. -/
structure FileRecord (dev : Device) (sb : Superblock) (type : UInt16) (ino : UInt64)
    (content : Bytes) (inode : Inode) (scratch disk : Bytes) : Prop where
  read_eq : readInode dev sb ino (List.replicate sb.inodeSize.toNat 0) = .ok (inode, scratch)
  type_eq : inode.mode &&& 0xf000 = type
  size_nonneg : 0 ≤ inode.size.toInt
  length_content : content.length = inode.fileSize
  bytes :
    inode.format = .local ∧ 176 + inode.fileSize ≤ scratch.length ∧
        content = slice (scratch.drop 176) 0 inode.fileSize ∨
      inode.format = .extents ∧ dev.Serves disk ∧ disk.length < 2 ^ 64 ∧
        ExtentFile disk sb inode scratch ∧
        content = slice (extentBytes disk sb (inode.extents scratch)) 0 inode.fileSize

/-- The file of an inode is of a type and has these bytes. -/
def FileOn (dev : Device) (sb : Superblock) (type : UInt16) (ino : UInt64) (content : Bytes) :
    Prop :=
  ∃ inode scratch disk, FileRecord dev sb type ino content inode scratch disk

/-- The types of inode whose data `read_file_data` returns. -/
def regularFile : UInt16 := 0x8000

def symbolicLink : UInt16 := 0xa000

section Files

variable {dev : Device} {sb : Superblock} {type : UInt16} {ino : UInt64} {content : Bytes}

theorem FileRecord.length_lt {inode : Inode} {scratch disk : Bytes}
    (h : FileRecord dev sb type ino content inode scratch disk) :
    content.length < 2 ^ 63 ∧ (content.length : Int) = inode.size.toInt := by
  obtain ⟨hsize, hlt⟩ := Inode.fileSize_eq h.size_nonneg
  rw [h.length_content]
  exact ⟨hlt, hsize⟩

theorem slice_min {buf : Bytes} (offset len : Nat) :
    slice buf offset (min (offset + len) buf.length - offset) = slice buf offset len := by
  apply List.ext_getElem?
  intro i
  rw [getElem?_slice, getElem?_slice]
  by_cases hin : offset + i < buf.length
  · by_cases hi : i < len
    · rw [if_pos hi, if_pos (by omega)]
    · rw [if_neg hi, if_neg (by omega)]
  · rw [List.getElem?_eq_none (Nat.not_lt.mp hin), ite_self, ite_self]

/-- `read_file_data` reads the bytes of the file. -/
theorem FileOn.readFileData_eq
    (h : FileOn dev sb type ino content)
    (htype : type = regularFile ∨ type = symbolicLink)
    (offset : UInt64) (len : UInt32) :
    readFileData dev sb ino offset len = .ok (slice content offset.toNat len.toNat) := by
  obtain ⟨inode, scratch, disk, h⟩ := h
  have hoffset := offset.toNat_lt
  have hlen := len.toNat_lt
  have hlt := h.length_lt.1
  rw [h.length_content] at hlt
  have hdata : ¬ (type ≠ 0x8000 ∧ type ≠ 0xa000) := by
    rintro ⟨hregular, hlink⟩
    exact htype.elim hregular hlink
  rw [← slice_min offset.toNat len.toNat, h.length_content, readFileData, h.read_eq, ok_bind]
  simp only [h.type_eq, hdata, if_false]
  -- a range of the first bytes of a longer buffer
  have hrange (buf : Bytes) (hcontent : content = slice buf 0 inode.fileSize)
      (hbefore : ¬ inode.fileSize ≤ offset.toNat) :
      slice content offset.toNat (min (offset.toNat + len.toNat) inode.fileSize - offset.toNat) =
        slice buf offset.toNat
          (min (offset.toNat + len.toNat) inode.fileSize - offset.toNat) := by
    rw [hcontent, slice_slice (by omega), Nat.zero_add]
  have hempty (buf : Bytes) (hbehind : inode.fileSize ≤ offset.toNat) :
      slice buf offset.toNat
        (min (offset.toNat + len.toNat) inode.fileSize - offset.toNat) = [] := by
    rw [show min (offset.toNat + len.toNat) inode.fileSize - offset.toNat = 0 by omega, slice,
      List.take_zero]
  rcases h.bytes with ⟨hformat, hfits, hcontent⟩ | ⟨hformat, hserves, hdisk, hfile, hcontent⟩
  · have hdrop : dropFrom scratch 176 = some (scratch.drop 176) := if_pos (by omega)
    simp only [hformat, hdrop, orPanic_some, ok_bind]
    split
    next hbehind => rw [hempty _ hbehind]
    next hbefore =>
      rw [addU, if_pos (by omega), orPanic_some, ok_bind, sliceAt_of_le (by
        rw [List.length_drop]; omega), orPanic_some, hrange _ hcontent hbefore]
  · simp only [hformat, readExtentRange_eq hserves hdisk hfile]
    by_cases hbehind : inode.fileSize ≤ offset.toNat
    · rw [hempty _ hbehind, hempty _ hbehind]
    · rw [hrange _ hcontent hbehind]

/-- Whether the file of an inode is of a type and its inode holds these bytes. -/
def hasInlineFile (dev : Device) (sb : Superblock) (type : UInt16) (ino : UInt64)
    (content : Bytes) : Bool :=
  match readInode dev sb ino (List.replicate sb.inodeSize.toNat 0) with
  | .ok (inode, scratch) =>
    decide (inode.mode &&& 0xf000 = type ∧ 0 ≤ inode.size.toInt ∧
      content.length = inode.fileSize ∧ inode.format = .local ∧
      176 + inode.fileSize ≤ scratch.length ∧
      content = slice (scratch.drop 176) 0 inode.fileSize)
  | .error _ => false

theorem fileOn_of_hasInlineFile (h : hasInlineFile dev sb type ino content = true) :
    FileOn dev sb type ino content := by
  rw [hasInlineFile] at h
  split at h
  next inode scratch hok =>
    obtain ⟨hmode, hsize, hlength, hformat, hfits, hbytes⟩ := of_decide_eq_true h
    exact ⟨inode, scratch, [], hok, hmode, hsize, hlength, .inl ⟨hformat, hfits, hbytes⟩⟩
  next =>
    cases h

end Files

end Crabfs
end Theos
