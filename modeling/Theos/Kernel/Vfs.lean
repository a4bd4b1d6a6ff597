import Theos.Base.SlotTable
import Theos.Kernel.Nt

/-!
# The descriptor table of the virtual file system

The part of `kernel/vfs.rs` through which file objects hold their files: the
table of descriptors, opening into its first free slot and closing.  What the
reader finds on the disk for a path is an argument of `open`, so that every
answer it can give is covered.
-/

namespace Theos
namespace Kernel

open Base

inductive VfsError where
  | notMounted
  | notFound
  | notDirectory
  | invalidPath
  | io
  | invalidFd
  | wouldBlock
  | brokenPipe
deriving DecidableEq, Repr

inductive SpecialFd where
  | stdin
  | stdout
  | stderr
  | tty
  | null
  | pipeRead (id : Nat)
  | pipeWrite (id : Nat)
deriving DecidableEq, Repr

structure OpenFile where
  ino : Nat
  offset : Nat
  fdFlags : Int
  statusFlags : Int
  path : Nt.Path
  special : Option SpecialFd
  refs : Nat

structure Pipe where
  buf : Bytes
  readers : Nat
  writers : Nat

structure Vfs where
  files : List (Option OpenFile)
  pipes : Nat → Option Pipe

namespace Vfs

/-- The table `mount` starts with: the standard streams and free slots up to
`FILE_MAX_SLOTS`. -/
def mount : Vfs where
  files :=
    [some ⟨0, 0, 0, 0, "/dev/stdin".toList, some .stdin, 1⟩,
      some ⟨0, 0, 0, 0, "/dev/stdout".toList, some .stdout, 1⟩,
      some ⟨0, 0, 0, 0, "/dev/stderr".toList, some .stderr, 1⟩] ++ List.replicate 61 none
  pipes := fun _ => none

/-- What looking a normalized path up in the file system answers. -/
abbrev Lookup := Nt.Path → Except VfsError Nat

/-- Replace a leading component of `path`, when it is there. -/
def replaceRoot (old new path : Nt.Path) : Option Nt.Path :=
  if path = old ∨ (old ++ ['/']).isPrefixOf path then some (new ++ path.drop old.length)
  else none

def normalizePath (path : Nt.Path) : Nt.Path :=
  let abs := if path.head? = some '/' then path else '/' :: path
  let merged :=
    ((replaceRoot "/lib".toList "/usr/lib".toList abs).orElse fun _ =>
      (replaceRoot "/bin".toList "/usr/bin".toList abs).orElse fun _ =>
        replaceRoot "/sbin".toList "/usr/bin".toList abs).getD abs
  if merged = "/usr/lib/libtinfotw.so.6".toList then "/usr/lib/libtinfotw.so.6.5".toList
  else merged

/-- The device a path names, for the paths that `open` answers itself. -/
def specialOf (path : Nt.Path) : Option SpecialFd :=
  if path = "/dev/stdin".toList then some .stdin
  else if path = "/dev/stdout".toList then some .stdout
  else if path = "/dev/tty".toList then some .tty
  else if path = "/dev/null".toList then some .null
  else if path = "/dev/stderr".toList then some .stderr
  else none

/-- Put an open file into the first free slot. -/
def install (v : Vfs) (file : OpenFile) : Except VfsError Int × Vfs :=
  match SlotTable.firstFree v.files with
  | none => (.error .invalidFd, v)
  | some slot => (.ok slot, { v with files := v.files.set slot (some file) })

def «open» (lookup : Lookup) (v : Vfs) (path : Nt.Path) (flags : Int) :
    Except VfsError Int × Vfs :=
  if path = "/usr/etc/ld-musl-x86_64.path".toList then (.error .notFound, v)
  else
    match specialOf path with
    | some special => v.install ⟨0, 0, 0, flags, path, some special, 1⟩
    | none =>
      match lookup (normalizePath path) with
      | .error e => (.error e, v)
      | .ok ino => v.install ⟨ino, 0, 0, flags, normalizePath path, none, 1⟩

/-- Drop one end of a pipe, and the pipe when both ends are gone. -/
def releaseSpecial (v : Vfs) : Option SpecialFd → Vfs
  | some (.pipeRead id) =>
    match v.pipes id with
    | none => v
    | some pipe =>
      let pipe := { pipe with readers := pipe.readers - 1 }
      let kept := if pipe.readers = 0 ∧ pipe.writers = 0 then none else some pipe
      { v with pipes := Function.update v.pipes id kept }
  | some (.pipeWrite id) =>
    match v.pipes id with
    | none => v
    | some pipe =>
      let pipe := { pipe with writers := pipe.writers - 1 }
      let kept := if pipe.readers = 0 ∧ pipe.writers = 0 then none else some pipe
      { v with pipes := Function.update v.pipes id kept }
  | _ => v

/-- The slot a descriptor stands for. -/
def slotOf (fd : Int) : Option Nat :=
  if fd < 0 then none else some fd.toNat

/-- The slot of a descriptor and its file. -/
def fileAt (v : Vfs) (fd : Int) : Option (Nat × OpenFile) := do
  let slot ← slotOf fd
  let file ← (← v.files[slot]?)
  return (slot, file)

def close (v : Vfs) (fd : Int) : Except VfsError Unit × Vfs :=
  match slotOf fd with
  | none => (.error .invalidFd, v)
  | some slot =>
    match v.files[slot]? with
    | none => (.error .invalidFd, v)
    | some none => (.error .invalidFd, v)
    | some (some file) =>
      if 1 < file.refs then
        (.ok (), { v with files := v.files.set slot (some { file with refs := file.refs - 1 }) })
      else
        (.ok (), releaseSpecial { v with files := v.files.set slot none } file.special)

/-- How far a read that returned `n` bytes moves the descriptor. -/
def advance (v : Vfs) (fd : Int) (n : Nat) : Vfs :=
  match slotOf fd with
  | none => v
  | some slot =>
    match v.files[slot]? with
    | some (some file) =>
      { v with
        files := v.files.set slot
          (some { file with offset := min (file.offset + n) (2 ^ 64 - 1) }) }
    | _ => v

/-- What a loop of reads meets: the chunks it is given, and whether it is ended
by an error rather than by an empty read. -/
structure Reads where
  chunks : List Bytes
  failed : Bool

/-- The loop of `read_file_all`. -/
def readLoop (fd : Int) (failed : Bool) : List Bytes → Bytes → Vfs → Except VfsError Bytes × Vfs
  | [], data, v => if failed then (.error .io, v) else (.ok data, v)
  | chunk :: chunks, data, v =>
    if chunk.isEmpty then (.ok data, v)
    else readLoop fd failed chunks (data ++ chunk) (v.advance fd chunk.length)

/-! ## What the calls do to the slots -/

@[simp]
theorem files_releaseSpecial
    (v : Vfs) (special : Option SpecialFd) :
    (v.releaseSpecial special).files = v.files := by
  rcases special with _ | special
  · rfl
  · cases special with
    | pipeRead id =>
      simp only [releaseSpecial]
      split <;> rfl
    | pipeWrite id =>
      simp only [releaseSpecial]
      split <;> rfl
    | _ =>
      rfl

/-- A pipe that loses an end is one end smaller, or gone if it was its last; every other one is
left alone. -/
theorem releaseSpecial_cases
    (v : Vfs) (special : Option SpecialFd) (id : Nat) :
    (special ≠ some (.pipeRead id) ∧ special ≠ some (.pipeWrite id) ∨ v.pipes id = none) ∧
        (v.releaseSpecial special).pipes id = v.pipes id ∨
      ∃ pipe pipe', v.pipes id = some pipe ∧
        (v.releaseSpecial special).pipes id =
          (if pipe'.readers = 0 ∧ pipe'.writers = 0 then none else some pipe') ∧
        (special = some (.pipeRead id) ∧ pipe' = { pipe with readers := pipe.readers - 1 } ∨
          special = some (.pipeWrite id) ∧ pipe' = { pipe with writers := pipe.writers - 1 }) := by
  rcases special with _ | special
  · exact Or.inl ⟨Or.inl (by simp), rfl⟩
  cases special with
  | pipeRead k | pipeWrite k =>
    by_cases hk : k = id
    · subst hk
      rcases hpipe : v.pipes k with _ | pipe
      · exact Or.inl ⟨Or.inr rfl, by simp [releaseSpecial, hpipe]⟩
      · refine Or.inr ⟨pipe, _, rfl, ?_, by first | exact Or.inl ⟨rfl, rfl⟩ | exact Or.inr ⟨rfl, rfl⟩⟩
        simp [releaseSpecial, hpipe]
    · refine Or.inl ⟨Or.inl (by simpa using hk), ?_⟩
      rcases hpipe : v.pipes k with _ | pipe <;> simp [releaseSpecial, hpipe, Ne.symm hk]
  | _ =>
    exact Or.inl ⟨Or.inl (by simp), rfl⟩

/-- The file is no end of a pipe. -/
def NoPipe (file : OpenFile) : Prop :=
  ∀ id, file.special ≠ some (.pipeRead id) ∧ file.special ≠ some (.pipeWrite id)

/-- A file that is no end of a pipe went into a slot that was free. -/
def Opened (v : Vfs) (fd : Int) (v' : Vfs) : Prop :=
  ∃ (slot : Nat) (file : OpenFile),
    fd = slot ∧ v' = { v with files := v.files.set slot (some file) } ∧
      v.files[slot]? = some none ∧ NoPipe file

theorem install_cases (v : Vfs) (file : OpenFile)
    (h : NoPipe file) :
    (∃ e, v.install file = (.error e, v)) ∨
      ∃ fd v', v.install file = (.ok fd, v') ∧ Opened v fd v' := by
  rw [install]
  cases hslot : SlotTable.firstFree v.files with
  | none =>
    exact .inl ⟨_, rfl⟩
  | some slot =>
    exact .inr ⟨slot, _, rfl, slot, file, rfl, rfl, SlotTable.getElem?_of_firstFree hslot, h⟩

theorem specialOf_ne {path : Nt.Path} {special : SpecialFd}
    (h : specialOf path = some special)
    (id : Nat) :
    special ≠ .pipeRead id ∧ special ≠ .pipeWrite id := by
  unfold specialOf at h
  split_ifs at h <;> cases h <;> simp

/-- A failed `open` changes nothing. -/
theorem open_cases
    (lookup : Lookup) (v : Vfs) (path : Nt.Path) (flags : Int) :
    (∃ e, v.open lookup path flags = (.error e, v)) ∨
      ∃ fd v', v.open lookup path flags = (.ok fd, v') ∧ Opened v fd v' := by
  rw [«open»]
  split
  · exact .inl ⟨_, rfl⟩
  · split
    next special hspecial =>
      refine install_cases v _ fun id => ?_
      simpa using specialOf_ne hspecial id
    next =>
      split
      · exact .inl ⟨_, rfl⟩
      · exact install_cases v _ fun id => ⟨by simp, by simp⟩

end Vfs

end Kernel
end Theos
