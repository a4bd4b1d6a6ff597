import Theos.Crabfs.Pack

/-!
# The payload of a directory

`build_payload` tries to write a directory in the form that fits into an inode, and takes the
form for an extent if the result is too long.  The first form has one byte for the length of a
name, and a name that is longer ends the attempt, and with it `build_payload`, with an error.
-/

namespace Theos
namespace Crabfs

open Base Rust

variable {sb : Superblock}

/-- The inode number of an index, if it does not overflow. -/
def numberOf (sb : Superblock) (index : Nat) : UInt64 :=
  UInt64.ofNat (sb.rootino.toNat + index)

theorem inodeNumber_eq_ok_iff
    {index : Nat} {ino : UInt64} :
    inodeNumber sb index = .ok ino ↔
      sb.rootino.toNat + index < 2 ^ 64 ∧ ino = numberOf sb index := by
  simp only [inodeNumber, bind_eq_ok, orPanic_eq_ok_iff, addU_eq_some_iff]
  constructor
  · rintro ⟨n, ⟨hlt, rfl⟩, h⟩
    cases h
    exact ⟨hlt, rfl⟩
  · rintro ⟨hlt, rfl⟩
    exact ⟨_, ⟨hlt, rfl⟩, rfl⟩

theorem tryFrom_eq_ok_iff
    {w n m : Nat} :
    tryFrom w n = .ok m ↔ n < 2 ^ w ∧ m = n := by
  rw [tryFrom]
  split
  next h =>
    simp [h, eq_comm]
  next h =>
    simp [h, err]

/-! ## The two forms -/

/-- The entries in the form for an inode. -/
def sfBytes (sb : Superblock) : (slot : Nat) → List PackedEntry → Bytes
  | _, [] => []
  | slot, entry :: entries =>
    toBE 1 entry.name.length ++ toBE 2 (slot + 1) ++ entry.name ++ [entry.ftype] ++
      toBE 8 (numberOf sb entry.inodeIndex).toNat ++ sfBytes sb (slot + 1) entries

/-- The entries in the form for an extent. -/
def extBytes (sb : Superblock) : List PackedEntry → Bytes
  | [] => []
  | entry :: entries =>
    toBE 8 (numberOf sb entry.inodeIndex).toNat ++ [entry.ftype] ++ toBE 2 entry.name.length ++
      entry.name ++ extBytes sb entries

/-- The entry has an inode number and a name of at most `limit - 1` bytes. -/
def PackedEntry.Fits (sb : Superblock) (limit : Nat) (entry : PackedEntry) : Prop :=
  sb.rootino.toNat + entry.inodeIndex < 2 ^ 64 ∧ entry.name.length < limit

theorem shortformEntries_eq_ok_iff {slot : Nat} {entries : List PackedEntry} {bytes : Bytes}
    (hslots : slot + entries.length < 2 ^ 16) :
    shortformEntries sb slot entries = .ok bytes ↔
      (∀ entry ∈ entries, entry.Fits sb (2 ^ 8)) ∧ bytes = sfBytes sb slot entries := by
  induction entries generalizing slot bytes with
  | nil =>
    simp [shortformEntries, sfBytes, eq_comm]
  | cons entry entries ih =>
    rw [List.length_cons] at hslots
    have hnext : slot + 1 + entries.length < 2 ^ 16 := by omega
    simp only [shortformEntries, bind_eq_ok, inodeNumber_eq_ok_iff, tryFrom_eq_ok_iff, ih hnext,
      List.forall_mem_cons, sfBytes]
    constructor
    · rintro ⟨ino, ⟨hino, rfl⟩, n, ⟨hname, rfl⟩, m, ⟨-, rfl⟩, rest, ⟨hrest, rfl⟩, h⟩
      cases h
      exact ⟨⟨⟨hino, hname⟩, hrest⟩, rfl⟩
    · rintro ⟨⟨⟨hino, hname⟩, hrest⟩, rfl⟩
      exact ⟨_, ⟨hino, rfl⟩, _, ⟨hname, rfl⟩, _, ⟨by omega, rfl⟩, _, ⟨hrest, rfl⟩, rfl⟩

theorem extentEntries_eq_ok_iff
    {entries : List PackedEntry} {bytes : Bytes} :
    extentEntries sb entries = .ok bytes ↔
      (∀ entry ∈ entries, entry.Fits sb (2 ^ 16)) ∧ bytes = extBytes sb entries := by
  induction entries generalizing bytes with
  | nil =>
    simp [extentEntries, extBytes, eq_comm]
  | cons entry entries ih =>
    simp only [extentEntries, bind_eq_ok, inodeNumber_eq_ok_iff, tryFrom_eq_ok_iff, ih,
      List.forall_mem_cons, extBytes]
    constructor
    · rintro ⟨ino, ⟨hino, rfl⟩, n, ⟨hname, rfl⟩, rest, ⟨hrest, rfl⟩, h⟩
      cases h
      exact ⟨⟨⟨hino, hname⟩, hrest⟩, rfl⟩
    · rintro ⟨⟨⟨hino, hname⟩, hrest⟩, rfl⟩
      exact ⟨_, ⟨hino, rfl⟩, _, ⟨hname, rfl⟩, _, ⟨hrest, rfl⟩, rfl⟩

/-- A directory in the form for an inode. -/
def sfPayload (sb : Superblock) (parentIno : UInt64) (entries : List PackedEntry) : Bytes :=
  toBE 1 entries.length ++ [1] ++ toBE 8 parentIno.toNat ++ sfBytes sb 0 entries

/-- A directory in the form for an extent. -/
def extPayload (sb : Superblock) (parentIno : UInt64) (entries : List PackedEntry) : Bytes :=
  crabfsExtentDirMagic ++ toBE 4 entries.length ++ toBE 8 parentIno.toNat ++ extBytes sb entries

/-- The directory is stored in the form for an inode. -/
def InInode (sb : Superblock) (parentIno : UInt64) (entries : List PackedEntry) : Prop :=
  entries.length ≤ 255 ∧ (sfPayload sb parentIno entries).length ≤ localForkBytes

instance (parentIno : UInt64) (entries : List PackedEntry) :
    Decidable (InInode sb parentIno entries) :=
  inferInstanceAs (Decidable (_ ∧ _))

theorem shortformPayload_eq_ok_iff
    {parentIno : UInt64} {entries : List PackedEntry} {result : Option Bytes} :
    shortformPayload sb parentIno entries = .ok result ↔
      (entries.length ≤ 255 → ∀ entry ∈ entries, entry.Fits sb (2 ^ 8)) ∧
      result = if InInode sb parentIno entries then some (sfPayload sb parentIno entries)
        else none := by
  rw [shortformPayload]
  by_cases hcount : entries.length ≤ 255
  · have hslots : 0 + entries.length < 2 ^ 16 := by omega
    have hiff : InInode sb parentIno entries ↔
        (sfPayload sb parentIno entries).length ≤ localForkBytes := and_iff_right hcount
    rw [if_pos hcount, forall_prop_of_true hcount]
    simp only [bind_eq_ok, tryFrom_eq_ok_iff, shortformEntries_eq_ok_iff hslots, hiff]
    constructor
    · rintro ⟨n, ⟨-, rfl⟩, rest, ⟨hfits, rfl⟩, h⟩
      refine ⟨hfits, ?_⟩
      rw [← sfPayload] at h
      split at h <;> cases h
      · rw [if_pos ‹_›]
      · rw [if_neg ‹_›]
    · rintro ⟨hfits, rfl⟩
      refine ⟨_, ⟨by omega, rfl⟩, _, ⟨hfits, rfl⟩, ?_⟩
      rw [← sfPayload]
      split <;> rfl
  · have hnot : ¬ InInode sb parentIno entries := fun h => hcount h.1
    rw [if_neg hcount, if_neg hnot]
    simp [hcount, eq_comm]

theorem extentPayload_eq_ok_iff
    {parentIno : UInt64} {entries : List PackedEntry} {bytes : Bytes} :
    extentPayload sb parentIno entries = .ok bytes ↔
      (entries.length < 2 ^ 32 ∧ ∀ entry ∈ entries, entry.Fits sb (2 ^ 16)) ∧
      bytes = extPayload sb parentIno entries := by
  simp only [extentPayload, bind_eq_ok, tryFrom_eq_ok_iff, extentEntries_eq_ok_iff]
  constructor
  · rintro ⟨n, ⟨hcount, rfl⟩, rest, ⟨hfits, rfl⟩, h⟩
    cases h
    exact ⟨⟨hcount, hfits⟩, rfl⟩
  · rintro ⟨⟨hcount, hfits⟩, rfl⟩
    exact ⟨_, ⟨hcount, rfl⟩, _, ⟨hfits, rfl⟩, rfl⟩

/-- The payload of a directory. -/
def dirPayload (sb : Superblock) (parentIndex : Nat) (entries : List PackedEntry) : Bytes :=
  let parentIno := numberOf sb parentIndex
  if InInode sb parentIno entries then sfPayload sb parentIno entries
  else extPayload sb parentIno entries

theorem buildPayload_directory_eq_ok_iff
    {node : Node} {entries : List PackedEntry} {payload : Bytes}
    (hkind : node.kind = .directory entries) :
    buildPayload sb node = .ok payload ↔
      sb.rootino.toNat + node.parentIndex < 2 ^ 64 ∧
      (entries.length ≤ 255 → ∀ entry ∈ entries, entry.Fits sb (2 ^ 8)) ∧
      (¬ InInode sb (numberOf sb node.parentIndex) entries →
        entries.length < 2 ^ 32 ∧ ∀ entry ∈ entries, entry.Fits sb (2 ^ 16)) ∧
      payload = dirPayload sb node.parentIndex entries := by
  simp only [buildPayload, hkind, bind_eq_ok, inodeNumber_eq_ok_iff, shortformPayload_eq_ok_iff,
    dirPayload]
  by_cases hin : InInode sb (numberOf sb node.parentIndex) entries
  · constructor
    · rintro ⟨ino, ⟨hino, rfl⟩, result, ⟨hfits, rfl⟩, h⟩
      rw [if_pos hin] at h
      cases h
      exact ⟨hino, hfits, fun hnot => absurd hin hnot, by rw [if_pos hin]⟩
    · rintro ⟨hino, hfits, -, rfl⟩
      refine ⟨_, ⟨hino, rfl⟩, _, ⟨hfits, rfl⟩, ?_⟩
      rw [if_pos hin, if_pos hin]
  · constructor
    · rintro ⟨ino, ⟨hino, rfl⟩, result, ⟨hfits, rfl⟩, h⟩
      rw [if_neg hin] at h
      obtain ⟨hext, rfl⟩ := extentPayload_eq_ok_iff.mp h
      exact ⟨hino, hfits, fun _ => hext, by rw [if_neg hin]⟩
    · rintro ⟨hino, hfits, hext, rfl⟩
      refine ⟨_, ⟨hino, rfl⟩, _, ⟨hfits, rfl⟩, ?_⟩
      rw [if_neg hin, if_neg hin]
      exact extentPayload_eq_ok_iff.mpr ⟨hext hin, rfl⟩

/-! ## Lengths -/

/-- The inode numbers that a directory stores do not overflow. -/
def NumbersFit (sb : Superblock) (parentIndex : Nat) (entries : List PackedEntry) : Prop :=
  sb.rootino.toNat + parentIndex < 2 ^ 64 ∧
  ∀ entry ∈ entries, sb.rootino.toNat + entry.inodeIndex < 2 ^ 64

/-- **When the payload of a directory can be built.**  A directory whose number of entries has 32
bits and whose names have at most 65535 bytes has a payload exactly if it has more than 255
entries or no name of more than 255 bytes. -/
theorem directory_payload_iff (sb : Superblock) (node : Node) (entries : List PackedEntry)
    (hkind : node.kind = .directory entries) (hcount : entries.length < 2 ^ 32)
    (hnames : ∀ entry ∈ entries, entry.name.length ≤ 65535) :
    (∃ payload, buildPayload sb node = .ok payload) ↔
      NumbersFit sb node.parentIndex entries ∧
      (255 < entries.length ∨ ∀ entry ∈ entries, entry.name.length ≤ 255) := by
  simp only [buildPayload_directory_eq_ok_iff hkind, exists_and_left, exists_eq, and_true]
  constructor
  · rintro ⟨hparent, hshort, hext⟩
    by_cases hsmall : entries.length ≤ 255
    · have hfits := hshort hsmall
      refine ⟨⟨hparent, fun entry hentry => (hfits entry hentry).1⟩, Or.inr fun entry hentry => ?_⟩
      have := (hfits entry hentry).2
      omega
    · have hfits := (hext fun h => hsmall h.1).2
      exact ⟨⟨hparent, fun entry hentry => (hfits entry hentry).1⟩, Or.inl (by omega)⟩
  · rintro ⟨⟨hparent, hnumbers⟩, hsizes⟩
    refine ⟨hparent, fun hsmall entry hentry => ⟨hnumbers entry hentry, ?_⟩,
      fun _ => ⟨hcount, fun entry hentry => ⟨hnumbers entry hentry, ?_⟩⟩⟩
    · rcases hsizes with hlarge | hshort
      · omega
      · have := hshort entry hentry
        omega
    · have := hnames entry hentry
      omega

/-- With 256 entries a name may have 300 bytes. -/
theorem directory_payload_iff_of_long_names :
    ∃ payload, buildPayload default
      ⟨0, 0x41ed, 0, 0, .directory (List.replicate 256 ⟨List.replicate 300 0x61, 1, 1⟩)⟩ =
        .ok payload := by
  have hentry : ∀ entry ∈ List.replicate 256 (⟨List.replicate 300 0x61, 1, 1⟩ : PackedEntry),
      entry = ⟨List.replicate 300 0x61, 1, 1⟩ := fun entry => List.eq_of_mem_replicate
  refine (directory_payload_iff default _ (List.replicate 256 ⟨List.replicate 300 0x61, 1, 1⟩) rfl
    (by rw [List.length_replicate]; decide) fun entry h => ?_).mpr
    ⟨⟨by decide, fun entry h => ?_⟩, Or.inl (by rw [List.length_replicate]; decide)⟩
  · rw [hentry entry h, List.length_replicate]
    decide
  · rw [hentry entry h]
    decide

/-- A file whose name is 86 bytes that are not UTF-8: the name has 258 bytes when the directory is
written, and the payload cannot be built. -/
theorem long_name_in_small_directory :
    let info : Meta := ⟨0x1ed, 0, 0, by decide⟩
    let source : Source := .dir info [(List.replicate 86 0xff, .file info [])]
    (nodesOf source).map (buildPayload { (default : Superblock) with rootino := 64 }) =
      [err .tryFromInt, .ok []] := by
  decide +kernel

end Crabfs
end Theos
