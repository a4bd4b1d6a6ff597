import Theos.Base.Run
import Theos.Crabfs.Files
import Theos.Kernel.PathLookup

/-!
# Descriptors as cursors

`read`, `pread` and `lseek` of `kernel/vfs.rs` on the files of a crabfs image.  A descriptor
is a slot with an inode and an offset; what a read returns is found through the inode and its
extents.

A path is looked up with `lookup_path_inner`, which answers with any inode of the image.  Where
the inode is a regular file (`HasFile`), `read_file_data` reads a slice of its bytes, so that the
descriptor is a cursor in them, whatever was done with other descriptors before.
-/

namespace Theos
namespace Kernel

open Base
open Crabfs (Device Superblock readFileData)

/-- A mounted image: the device and its superblock. -/
structure CrabfsImage where
  dev : Device
  sb : Superblock

/-- The file of an inode is a regular file with these bytes. -/
def CrabfsImage.HasFile (img : CrabfsImage) (ino : Nat) (content : Bytes) : Prop :=
  Crabfs.FileOn img.dev img.sb Crabfs.regularFile (.ofNat ino) content

/-! ## The calls -/

namespace Vfs

/-- `lookup_path_inner(path, true, 0)`.  A panic of the reader is answered with an error: in both
cases no descriptor is made. -/
def lookupPath (img : CrabfsImage) : Lookup := fun path =>
  match lookupPathInner img.dev img.sb true (path.flatMap String.utf8EncodeChar) 0 with
  | .ok ino => .ok ino.toNat
  | .error (.error e) => .error e
  | .error .panic => .error .io

/-- `file_mut(fd)?.offset = offset`. -/
def setOffset (v : Vfs) (slot : Nat) (file : OpenFile) (offset : Nat) : Vfs :=
  { v with files := v.files.set slot (some { file with offset := offset }) }

/-- `reader::read_file_data(..).map_err(|_| VfsError::Io)`. -/
def readData (img : CrabfsImage) (ino offset len : Nat) : Rust VfsError Bytes :=
  Rust.mapErr (fun _ => .io)
    (readFileData img.dev img.sb (.ofNat ino) (.ofNat offset) (.ofNat len))

/-- `read` into a buffer of `len` bytes; nothing for input that is not from a file. -/
def read (img : CrabfsImage) (v : Vfs) (fd : Int) (len : Nat) :
    Option (Rust VfsError Bytes × Vfs) :=
  match v.fileAt fd with
  | none => some (Rust.err .invalidFd, v)
  | some (slot, file) =>
    match file.special with
    | some .null => some (.ok [], v)
    | some .stdin | some .tty | some (.pipeRead _) => none
    | some (.pipeWrite _) => some (Rust.err .invalidFd, v)
    | _ =>
      match readData img file.ino file.offset len with
      | .error e => some (.error e, v)
      | .ok data => some (.ok data, v.setOffset slot file (satAddU 64 file.offset data.length))

/-- `pread` into a buffer of `len` bytes. -/
def pread (img : CrabfsImage) (v : Vfs) (fd : Int) (offset len : Nat) : Rust VfsError Bytes :=
  match v.fileAt fd with
  | none => Rust.err .invalidFd
  | some (_, file) =>
    match file.special with
    | some .stdin | some .tty | some .null => .ok []
    | _ => readData img file.ino offset len

/-- `i64::saturating_add`. -/
def satAddI64 (a b : Int) : Int :=
  max (-2 ^ 63) (min (a + b) (2 ^ 63 - 1))

/-- `offset as i64`. -/
def asI64 (offset : Nat) : Int :=
  if offset < 2 ^ 63 then offset else offset - 2 ^ 64

/-- `self.read_inode(ino)?.size as i64`. -/
def inodeSize (img : CrabfsImage) (ino : Nat) : Rust VfsError Int := do
  let (inode, _) ← Rust.mapErr (fun _ => VfsError.io)
    (Crabfs.readInode img.dev img.sb (.ofNat ino) (List.replicate img.sb.inodeSize.toNat 0))
  return inode.size.toInt

/-- The `match whence` of `lseek`. -/
def newOffset (img : CrabfsImage) (file : OpenFile) (offset : Int) : Int → Rust VfsError Int
  | 0 => .ok offset
  | 1 => .ok (satAddI64 (asI64 file.offset) offset)
  | 2 => do
    let size ← inodeSize img file.ino
    return satAddI64 size offset
  | _ => Rust.err .invalidPath

def lseek (img : CrabfsImage) (v : Vfs) (fd : Int) (offset whence : Int) :
    Rust VfsError Nat × Vfs :=
  match v.fileAt fd with
  | none => (Rust.err .invalidFd, v)
  | some (slot, file) =>
    match newOffset img file offset whence with
    | .error e => (.error e, v)
    | .ok new =>
      if new < 0 then (Rust.err .invalidPath, v)
      else (.ok new.toNat, v.setOffset slot file new.toNat)

/-- A call on the descriptors. -/
inductive FileCall where
  | «open» (path : Nt.Path) (flags : Int)
  | read (fd : Int) (len : Nat)
  | pread (fd : Int) (offset len : Nat)
  | lseek (fd offset whence : Int)
  | close (fd : Int)

/-- The arguments are of their types: 64-bit numbers, and buffers shorter than `2^32`. -/
def FileCall.Typed : FileCall → Prop
  | .read _ len => len < 2 ^ 32
  | .pread _ offset len => offset < 2 ^ 64 ∧ len < 2 ^ 32
  | .lseek _ offset _ => -2 ^ 63 ≤ offset ∧ offset < 2 ^ 63
  | _ => True

/-- The table after a call. -/
def after (img : CrabfsImage) (v : Vfs) : FileCall → Vfs
  | .open path flags => (v.open (lookupPath img) path flags).2
  | .read fd len => ((v.read img fd len).map Prod.snd).getD v
  | .pread _ _ _ => v
  | .lseek fd offset whence => (v.lseek img fd offset whence).2
  | .close fd => (v.close fd).2

/-! ## Cursors -/

/-- The descriptors of regular files are at offsets that fit an `i64`. -/
def InRange (img : CrabfsImage) (v : Vfs) : Prop :=
  ∀ (slot : Nat) (file : OpenFile), v.files[slot]? = some (some file) → file.special = none →
    ∀ content, img.HasFile file.ino content → file.offset < 2 ^ 63

section Steps

variable {img : CrabfsImage} {v : Vfs}

theorem fileAt_eq_some_iff {fd : Int} {slot : Nat} {file : OpenFile} :
    v.fileAt fd = some (slot, file) ↔
      slotOf fd = some slot ∧ v.files[slot]? = some (some file) := by
  simp only [fileAt, Option.bind_eq_bind, Option.bind_eq_some_iff, Option.pure_def,
    Option.some.injEq, Prod.mk.injEq]
  constructor
  · rintro ⟨slot', hslot, entry, hentry, file', rfl, rfl, rfl⟩
    exact ⟨hslot, hentry⟩
  · rintro ⟨hslot, hentry⟩
    exact ⟨slot, hslot, _, hentry, file, rfl, rfl, rfl⟩

/-- A slot that is filled. -/
theorem InRange.set (h : InRange img v) {slot : Nat} {new : Option OpenFile}
    (hnew : ∀ file, new = some file → file.special = none →
      ∀ content, img.HasFile file.ino content → file.offset < 2 ^ 63) :
    InRange img { v with files := v.files.set slot new } := by
  intro slot' file hslot hspecial
  rw [List.getElem?_set] at hslot
  split at hslot
  next =>
    split at hslot
    next => exact hnew file (Option.some.inj hslot) hspecial
    next => cases hslot
  next => exact h slot' file hslot hspecial

theorem InRange.install (h : InRange img v) {file : OpenFile}
    (hfile : file.offset = 0) :
    InRange img (v.install file).2 := by
  rw [Vfs.install]
  split
  · exact h
  · exact h.set (by rintro _ ⟨⟩ _ _ _; omega)

theorem InRange.open (h : InRange img v) (lookup : Lookup) (path : Nt.Path) (flags : Int) :
    InRange img (v.open lookup path flags).2 := by
  rw [Vfs.open]
  split
  · exact h
  · split
    · exact h.install rfl
    · split
      · exact h
      · exact h.install rfl

theorem InRange.close (h : InRange img v) (fd : Int) : InRange img (v.close fd).2 := by
  rw [Vfs.close]
  split
  · exact h
  · split
    · exact h
    · exact h
    next file hslot =>
      split
      · exact h.set (by rintro _ ⟨⟩ hspecial; exact h _ file hslot hspecial)
      · intro slot' file' hslot'
        rw [files_releaseSpecial] at hslot'
        have hfreed (slot : Nat) : InRange img { v with files := v.files.set slot none } :=
          h.set (by rintro _ ⟨⟩)
        exact hfreed _ slot' file' hslot'

/-- What is read of a regular file, and the position behind it. -/
theorem readData_of_hasFile {ino offset len : Nat} {content : Bytes}
    (hfile : img.HasFile ino content)
    (hoffset : offset < 2 ^ 64)
    (hlen : len < 2 ^ 32) :
    readData img ino offset len = .ok (slice content offset len) := by
  rw [readData, hfile.readFileData_eq (.inl rfl), Rust.mapErr_ok,
    UInt64.toNat_ofNat_of_lt' hoffset, UInt32.toNat_ofNat_of_lt' hlen]

theorem offset_add_lt {ino offset : Nat} {content : Bytes}
    (hfile : img.HasFile ino content)
    (hoffset : offset < 2 ^ 63)
    (len : Nat) :
    offset + (slice content offset len).length < 2 ^ 63 := by
  obtain ⟨inode, scratch, disk, hrecord⟩ := hfile
  have hlt := hrecord.length_lt.1
  rw [slice, List.length_take, List.length_drop]
  omega

/-- A read through a descriptor of a file. -/
theorem read_of_hasFile {fd : Int} {slot len : Nat} {file : OpenFile} {content : Bytes}
    (hfd : v.fileAt fd = some (slot, file))
    (hspecial : file.special = none)
    (hfile : img.HasFile file.ino content)
    (hoffset : file.offset < 2 ^ 63)
    (hlen : len < 2 ^ 32) :
    v.read img fd len = some (.ok (slice content file.offset len),
      v.setOffset slot file (file.offset + (slice content file.offset len).length)) := by
  have hsmall := offset_add_lt hfile hoffset len
  have hdata : readData img file.ino file.offset len = .ok (slice content file.offset len) :=
    readData_of_hasFile hfile (by omega) hlen
  simp only [Vfs.read, hfd, hspecial, hdata]
  rw [satAddU, Nat.min_eq_left (by omega)]

/-- The position `lseek` goes to. -/
def seekTarget (content : Bytes) (pos : Nat) (offset : Int) : Int → Option Int
  | 0 => some offset
  | 1 => some (satAddI64 pos offset)
  | 2 => some (satAddI64 content.length offset)
  | _ => none

theorem newOffset_of_hasFile {file : OpenFile} {content : Bytes}
    (hfile : img.HasFile file.ino content) (hoffset : file.offset < 2 ^ 63) (offset whence : Int) :
    newOffset img file offset whence =
      Rust.okOr .invalidPath (seekTarget content file.offset offset whence) := by
  obtain ⟨inode, scratch, disk, hrecord⟩ := hfile
  have hsize : inodeSize img file.ino = .ok inode.size.toInt := by
    rw [inodeSize, hrecord.read_eq, Rust.mapErr_ok, Rust.ok_bind]
    rfl
  unfold newOffset seekTarget
  split
  · rfl
  · rw [asI64, if_pos hoffset]
    rfl
  · rw [hsize, Rust.ok_bind, hrecord.length_lt.2]
    rfl
  · rfl

theorem lseek_of_hasFile {fd : Int} {slot : Nat} {file : OpenFile} {content : Bytes}
    (hfd : v.fileAt fd = some (slot, file)) (hfile : img.HasFile file.ino content)
    (hoffset : file.offset < 2 ^ 63) (offset whence : Int) :
    v.lseek img fd offset whence =
      match seekTarget content file.offset offset whence with
      | none => (Rust.err .invalidPath, v)
      | some new =>
        if new < 0 then (Rust.err .invalidPath, v)
        else (.ok new.toNat, v.setOffset slot file new.toNat) := by
  simp only [Vfs.lseek, hfd, newOffset_of_hasFile hfile hoffset]
  cases seekTarget content file.offset offset whence <;> rfl

theorem newOffset_lt {file : OpenFile} {offset whence new : Int} (hoffset : offset < 2 ^ 63)
    (h : newOffset img file offset whence = .ok new) : new < 2 ^ 63 := by
  have hsat (a b : Int) : satAddI64 a b < 2 ^ 63 := by
    rw [satAddI64]
    omega
  unfold newOffset at h
  split at h
  · cases h
    exact hoffset
  · cases h
    exact hsat _ _
  · obtain ⟨size, -, hnew⟩ := Rust.bind_eq_ok.mp h
    cases hnew
    exact hsat _ _
  · cases h

theorem InRange.lseek (h : InRange img v) {offset : Int} (hoffset : offset < 2 ^ 63)
    (fd whence : Int) : InRange img (v.lseek img fd offset whence).2 := by
  rw [Vfs.lseek]
  split
  · exact h
  next slot file hfd =>
    split
    · exact h
    next new hnew =>
      split
      · exact h
      · have hlt := newOffset_lt hoffset hnew
        refine h.set ?_
        rintro _ ⟨⟩ _ _ _
        dsimp only
        omega

theorem InRange.read (h : InRange img v) (fd : Int) {len : Nat} (hlen : len < 2 ^ 32) :
    InRange img (((v.read img fd len).map Prod.snd).getD v) := by
  cases hfd : v.fileAt fd with
  | none =>
    simp only [Vfs.read, hfd]
    exact h
  | some entry =>
    obtain ⟨slot, file⟩ := entry
    cases hspecial : file.special with
    | none =>
      have hoffset := h slot file (fileAt_eq_some_iff.mp hfd).2 hspecial
      simp only [Vfs.read, hfd, hspecial]
      cases hdata : readData img file.ino file.offset len with
      | error e => exact h
      | ok data =>
        refine h.set ?_
        rintro _ ⟨⟩ - content hfile
        -- the position stays in range on a regular file; nothing is said of other inodes
        have hlt := hoffset content hfile
        rw [readData_of_hasFile hfile (by omega) hlen] at hdata
        cases hdata
        have hsmall := offset_add_lt hfile hlt len
        simp only [satAddU]
        omega
    | some special =>
      -- a device, whose slot does not count
      have hdevice (offset : Nat) : InRange img (v.setOffset slot file offset) :=
        h.set (by rintro _ ⟨⟩ hnone; rw [hspecial] at hnone; cases hnone)
      simp only [Vfs.read, hfd, hspecial]
      cases special with
      | stdout | stderr =>
        cases readData img file.ino file.offset len with
        | error e => exact h
        | ok data => exact hdevice _
      | _ => exact h

end Steps

/-- One call with arguments of their types. -/
def FileStep (img : CrabfsImage) (v : Vfs) (call : FileCall) (v' : Vfs) : Prop :=
  call.Typed ∧ v' = v.after img call

theorem InRange.step {img : CrabfsImage} {v v' : Vfs} {call : FileCall} (h : InRange img v)
    (hstep : FileStep img v call v') :
    InRange img v' := by
  obtain ⟨htyped, rfl⟩ := hstep
  cases call with
  | «open» path flags => exact h.open _ path flags
  | read fd len => exact h.read fd htyped
  | pread fd offset len => exact h
  | lseek fd offset whence => exact h.lseek htyped.2 fd whence
  | close fd => exact h.close fd

theorem inRange_mount (img : CrabfsImage) : InRange img mount := by
  intro slot file hslot hspecial
  have hmem := List.mem_of_getElem? hslot
  simp only [mount, List.mem_append, List.mem_cons, Option.some.injEq, List.not_mem_nil, or_false,
    List.mem_replicate, reduceCtorEq, and_false] at hmem
  rcases hmem with rfl | rfl | rfl <;> cases hspecial

/-- The call is made on the descriptor of a slot and may change it. -/
def FileCall.On (slot : Nat) : FileCall → Prop
  | .read fd _ | .lseek fd _ _ | .close fd => slotOf fd = some slot
  | _ => False

/-- A call leaves the descriptors it is not made on as they are. -/
theorem files_after_of_not_on {img : CrabfsImage} {v : Vfs} {slot : Nat}
    {file : OpenFile} (hslot : v.files[slot]? = some (some file)) {call : FileCall}
    (hon : ¬ call.On slot) : (v.after img call).files[slot]? = some (some file) := by
  cases call with
  | «open» path flags =>
    simp only [after]
    rcases v.open_cases (lookupPath img) path flags with
      ⟨e, hopen⟩ | ⟨fd, v', hopen, slot', file', -, rfl, hfree, -⟩
    · rwa [hopen]
    · rw [hopen]
      have hne : slot' ≠ slot := by
        rintro rfl
        rw [hslot] at hfree
        cases hfree
      rwa [List.getElem?_set_ne hne]
  | read fd len =>
    simp only [after, Vfs.read]
    cases hfd : v.fileAt fd with
    | none => exact hslot
    | some entry =>
      obtain ⟨slot', file'⟩ := entry
      have hne : slot' ≠ slot := by
        rintro rfl
        exact hon (fileAt_eq_some_iff.mp hfd).1
      have hset (offset : Nat) : (v.setOffset slot' file' offset).files[slot]? =
          some (some file) := by
        rwa [setOffset, List.getElem?_set_ne hne]
      dsimp only
      split
      · exact hslot
      · exact hslot
      · exact hslot
      · exact hslot
      · exact hslot
      · split
        · exact hslot
        · exact hset _
  | pread fd offset len => exact hslot
  | lseek fd offset whence =>
    simp only [after, Vfs.lseek]
    cases hfd : v.fileAt fd with
    | none => exact hslot
    | some entry =>
      obtain ⟨slot', file'⟩ := entry
      have hne : slot' ≠ slot := by
        rintro rfl
        exact hon (fileAt_eq_some_iff.mp hfd).1
      dsimp only
      split
      · exact hslot
      · split
        · exact hslot
        · rwa [setOffset, List.getElem?_set_ne hne]
  | close fd =>
    simp only [after, Vfs.close]
    split
    · exact hslot
    next slot' hfd =>
      have hne : slot' ≠ slot := by
        rintro rfl
        exact hon hfd
      split
      · exact hslot
      · exact hslot
      · split
        · rwa [List.getElem?_set_ne hne]
        · rwa [files_releaseSpecial, List.getElem?_set_ne hne]

/-- A path that is found is opened at the start of its file, in a slot that was free. -/
theorem open_of_lookupPath {img : CrabfsImage} {v : Vfs} {path : Nt.Path} {ino slot : Nat}
    (hpath : path ≠ "/usr/etc/ld-musl-x86_64.path".toList)
    (hspecial : specialOf path = none)
    (hlookup : lookupPath img (normalizePath path) = .ok ino)
    (hfree : SlotTable.firstFree v.files = some slot)
    (flags : Int) :
    v.open (lookupPath img) path flags = (.ok slot, { v with
      files := v.files.set slot (some ⟨ino, 0, 0, flags, normalizePath path, none, 1⟩) }) := by
  rw [Vfs.open, if_neg hpath]
  simp only [hspecial, hlookup, Vfs.install, hfree]

/-- Descriptors are independent cursors.  In every state that calls lead to, a descriptor of a
regular file stands at a position in its bytes: a read returns the bytes from there on and moves
it behind them, a read at the end returns none, `pread` returns the bytes from any position,
`lseek` moves it to a position that is not negative or fails, and a call that is not made on it
leaves it alone.  Opening a path puts a new descriptor at the start of the inode that it leads
to. -/
theorem descriptors_are_cursors {img : CrabfsImage} {calls : List FileCall} {v : Vfs}
    (hrun : Run (FileStep img) mount calls v) {slot : Nat} {file : OpenFile} {content : Bytes}
    (hslot : v.files[slot]? = some (some file)) (hspecial : file.special = none)
    (hfile : img.HasFile file.ino content) :
    (∀ fd len, slotOf fd = some slot → len < 2 ^ 32 →
        v.read img fd len = some (.ok (slice content file.offset len),
          v.setOffset slot file (file.offset + (slice content file.offset len).length))) ∧
      (content.length ≤ file.offset → ∀ len, slice content file.offset len = []) ∧
      (∀ fd offset len, slotOf fd = some slot → offset < 2 ^ 64 → len < 2 ^ 32 →
        v.pread img fd offset len = .ok (slice content offset len)) ∧
      (∀ fd offset whence, slotOf fd = some slot →
        v.lseek img fd offset whence =
          match seekTarget content file.offset offset whence with
          | none => (Rust.err .invalidPath, v)
          | some new =>
            if new < 0 then (Rust.err .invalidPath, v)
            else (.ok new.toNat, v.setOffset slot file new.toNat)) ∧
      (∀ call : FileCall, ¬ call.On slot →
        (v.after img call).files[slot]? = some (some file)) ∧
      ∀ path flags ino free, path ≠ "/usr/etc/ld-musl-x86_64.path".toList →
        specialOf path = none → lookupPath img (normalizePath path) = .ok ino →
        SlotTable.firstFree v.files = some free →
        v.open (lookupPath img) path flags = (.ok free, { v with
          files := v.files.set free (some ⟨ino, 0, 0, flags, normalizePath path, none, 1⟩) }) := by
  have hrange : InRange img v :=
    Run.invariant (P := InRange img) (fun _ _ _ h => h.step) hrun (inRange_mount img)
  have hoffset := hrange slot file hslot hspecial content hfile
  have hfd {fd : Int} (h : slotOf fd = some slot) : v.fileAt fd = some (slot, file) :=
    fileAt_eq_some_iff.mpr ⟨h, hslot⟩
  refine ⟨fun fd len h hlen => ?_, fun hend len => ?_, fun fd offset len h hoff hlen => ?_,
    fun fd offset whence h => ?_, fun call h => files_after_of_not_on hslot h,
    fun path flags ino free hpath hdevice hlookup hfree =>
      open_of_lookupPath hpath hdevice hlookup hfree flags⟩
  · exact read_of_hasFile (hfd h) hspecial hfile hoffset hlen
  · rw [slice, List.drop_eq_nil_of_le hend, List.take_nil]
  · simp only [Vfs.pread, hfd h, hspecial, readData_of_hasFile hfile hoff hlen]
  · exact lseek_of_hasFile (hfd h) hfile hoffset offset whence

/-- The volume with the directories `/` and `/d`, the link `/d/s` and the file `/f`. -/
def smallImage : CrabfsImage where
  dev := smallDevice
  sb := smallSuperblock

theorem hasFile_smallImage : smallImage.HasFile 3 [7, 8] :=
  Crabfs.fileOn_of_hasInlineFile (by decide +kernel)

theorem lookupPath_smallImage (path : Nt.Path) :
    lookupPath smallImage ('/' :: path) =
      match smallTree.resolve true 16 0 (names (path.flatMap String.utf8EncodeChar)) with
      | .ok ino => .ok ino.toNat
      | .error (.error e) => .error e
      | .error .panic => .error .io := by
  have hbytes : ('/' :: path).flatMap String.utf8EncodeChar =
      slash :: path.flatMap String.utf8EncodeChar := rfl
  have hlookup : lookupPathInner smallDevice smallSuperblock true
      (slash :: path.flatMap String.utf8EncodeChar) 0 =
        smallTree.resolve true 16 0 (names (path.flatMap String.utf8EncodeChar)) := by
    rw [lookupPathInner_eq holds_smallTree _ (by omega : 0 + 16 = 16) rfl, names_slash_cons]
    rfl
  rw [lookupPath, hbytes, smallImage, hlookup]

/-- The tables after `/` and `/d/s` were opened. -/
def twoOpened : Vfs where
  files := (mount.files.set 3 (some ⟨0, 0, 0, 0, "/".toList, none, 1⟩)).set 4
    (some ⟨3, 0, 0, 0, "/d/s".toList, none, 1⟩)
  pipes := mount.pipes

/-- The root is opened, and the file through the link; the file is read by its descriptor, and the
one of the root stays as it is. -/
theorem descriptors_are_cursors_small :
    Run (FileStep smallImage) mount [.open "/".toList 0, .open "/d/s".toList 0] twoOpened ∧
      twoOpened.read smallImage 4 9 =
        some (.ok [7, 8], twoOpened.setOffset 4 ⟨3, 0, 0, 0, "/d/s".toList, none, 1⟩ 2) ∧
      (twoOpened.after smallImage (.close 3)).files[4]? =
        some (some ⟨3, 0, 0, 0, "/d/s".toList, none, 1⟩) := by
  have hroot : lookupPath smallImage (normalizePath "/".toList) = .ok 0 := by
    have hpath : normalizePath "/".toList = ['/'] := by decide +kernel
    rw [hpath, lookupPath_smallImage]
    decide +kernel
  have hfile : lookupPath smallImage (normalizePath "/d/s".toList) = .ok 3 := by
    have hpath : normalizePath "/d/s".toList = '/' :: "d/s".toList := by decide +kernel
    rw [hpath, lookupPath_smallImage]
    decide +kernel
  have hrun : Run (FileStep smallImage) mount [.open "/".toList 0, .open "/d/s".toList 0]
      twoOpened := by
    refine .cons ⟨trivial, rfl⟩ (.single ⟨trivial, ?_⟩)
    simp only [after]
    rw [open_of_lookupPath (by decide +kernel) (by decide +kernel) hroot rfl,
      open_of_lookupPath (by decide +kernel) (by decide +kernel) hfile rfl]
    rfl
  obtain ⟨hread, -, -, -, hkeeps, -⟩ := descriptors_are_cursors hrun
    (rfl : twoOpened.files[4]? = some (some ⟨3, 0, 0, 0, "/d/s".toList, none, 1⟩)) rfl
    hasFile_smallImage
  refine ⟨hrun, hread 4 9 rfl (by decide), hkeeps (.close 3) ?_⟩
  show ¬ slotOf 3 = some 4
  decide

end Vfs

end Kernel
end Theos
