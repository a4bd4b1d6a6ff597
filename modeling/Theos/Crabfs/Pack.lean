import Theos.Base.Storage
import Theos.Crabfs.Reader
import Mathlib.Data.List.Sort

/-!
# Packing a directory tree

`pack.rs`: `pack_from_directory` makes a file system with one allocation group, numbers the
nodes of a source tree in the order in which it visits them, and builds a payload for each:
here for a directory.

The source tree can be read as it is; a name is given by its bytes.  The children of a directory
come in the order of `read_dir` and are sorted before they are visited.  The list of files that
are left out is not modelled.
-/

namespace Theos
namespace Crabfs

open Base Rust

/-! ## The source tree -/

/-- What `symlink_metadata` says besides the type, which is in the high bits of the mode. -/
structure Meta where
  perm : UInt16
  uid : UInt32
  gid : UInt32
  perm_lt : perm < 0x1000

/-- A file of the source tree; `other` stands for devices, pipes and sockets. -/
inductive Source where
  | dir (info : Meta) (children : List (Bytes × Source))
  | file (info : Meta) (data : Bytes)
  | symlink (info : Meta) (target : Bytes)
  | other (info : Meta) (mode : UInt16)

mutual

/-- The tree with the children of each directory sorted by name. -/
def Source.sort : Source → Source
  | .dir info children =>
    .dir info ((sortChildren children).insertionSort fun a b => a.1 ≤ b.1)
  | .file info data => .file info data
  | .symlink info target => .symlink info target
  | .other info mode => .other info mode

def sortChildren : List (Bytes × Source) → List (Bytes × Source)
  | [] => []
  | (name, child) :: rest => (name, child.sort) :: sortChildren rest

end

/-! ## Nodes -/

structure PackedEntry where
  name : Bytes
  inodeIndex : Nat
  ftype : UInt8
deriving DecidableEq

inductive NodeKind where
  | directory (entries : List PackedEntry)
  | file (data : Bytes)
  | symlink (target : Bytes)

structure Node where
  parentIndex : Nat
  mode : UInt16
  uid : UInt32
  gid : UInt32
  kind : NodeKind

def dirFtype (node : Node) : UInt8 :=
  match node.kind with
  | .directory _ => 2
  | .file _ => 1
  | .symlink _ => 7

mutual

/-- `collect_tree` on a tree that is sorted: the nodes that it adds, the first one at `index`. -/
def collectTree (parentIndex index : Nat) : Source → List Node
  | .dir info children =>
    let (entries, nodes) := collectChildren index (index + 1) children
    ⟨parentIndex, 0x4000 ||| info.perm, info.uid, info.gid, .directory entries⟩ :: nodes
  | .file info data =>
    [⟨parentIndex, 0x8000 ||| info.perm, info.uid, info.gid, .file data⟩]
  | .symlink info target =>
    [⟨parentIndex, 0xa000 ||| info.perm, info.uid, info.gid, .symlink (Utf8.lossy target)⟩]
  | .other info mode =>
    [⟨parentIndex, mode, info.uid, info.gid, .directory []⟩]

/-- The loop over the children: their entries and nodes. -/
def collectChildren (parentIndex index : Nat) :
    List (Bytes × Source) → List PackedEntry × List Node
  | [] => ([], [])
  | (_, .other _ _) :: rest => collectChildren parentIndex index rest
  | (name, child) :: rest =>
    let nodes := collectTree parentIndex index child
    let (entries, others) := collectChildren parentIndex (index + nodes.length) rest
    let ftype := (nodes.head?.map dirFtype).getD 0
    (⟨Utf8.lossy name, index, ftype⟩ :: entries, nodes ++ others)

end

/-- The nodes of a source tree. -/
def nodesOf (source : Source) : List Node :=
  collectTree 0 0 source.sort

/-! ## Payloads -/

def localForkBytes : Nat := 512 - xfsDinodeSizeV3

/-- `inode_number`; the sum can overflow. -/
def inodeNumber (sb : Superblock) (index : Nat) : Rust WriteError UInt64 := do
  let ino ← orPanic (addU 64 sb.rootino.toNat index)
  return UInt64.ofNat ino

/-- `T::try_from(n)?` for an unsigned type of `w` bits. -/
def tryFrom (w n : Nat) : Rust WriteError Nat :=
  if n < 2 ^ w then .ok n else err .tryFromInt

/-- The entries of a directory in an inode, from the given slot on. -/
def shortformEntries (sb : Superblock) : (slot : Nat) → List PackedEntry → Rust WriteError Bytes
  | _, [] => .ok []
  | slot, entry :: entries => do
    let ino ← inodeNumber sb entry.inodeIndex
    let nameLen ← tryFrom 8 entry.name.length
    let offset ← tryFrom 16 (slot + 1)
    let rest ← shortformEntries sb (slot + 1) entries
    return toBE 1 nameLen ++ toBE 2 offset ++ entry.name ++ [entry.ftype] ++ toBE 8 ino.toNat ++ rest

/-- The first attempt of `build_payload`: a directory that fits into the inode. -/
def shortformPayload (sb : Superblock) (parentIno : UInt64) (entries : List PackedEntry) :
    Rust WriteError (Option Bytes) :=
  if entries.length ≤ 255 then do
    let count ← tryFrom 8 entries.length
    let rest ← shortformEntries sb 0 entries
    let candidate := toBE 1 count ++ [1] ++ toBE 8 parentIno.toNat ++ rest
    if candidate.length ≤ localForkBytes then .ok (some candidate) else .ok none
  else .ok none

/-- The entries of a directory in an extent. -/
def extentEntries (sb : Superblock) : List PackedEntry → Rust WriteError Bytes
  | [] => .ok []
  | entry :: entries => do
    let ino ← inodeNumber sb entry.inodeIndex
    let nameLen ← tryFrom 16 entry.name.length
    let rest ← extentEntries sb entries
    return toBE 8 ino.toNat ++ [entry.ftype] ++ toBE 2 nameLen ++ entry.name ++ rest

def extentPayload (sb : Superblock) (parentIno : UInt64) (entries : List PackedEntry) :
    Rust WriteError Bytes := do
  let count ← tryFrom 32 entries.length
  let rest ← extentEntries sb entries
  return crabfsExtentDirMagic ++ toBE 4 count ++ toBE 8 parentIno.toNat ++ rest

def buildPayload (sb : Superblock) (node : Node) : Rust WriteError Bytes :=
  match node.kind with
  | .directory entries => do
    let parentIno ← inodeNumber sb node.parentIndex
    match ← shortformPayload sb parentIno entries with
    | some shortform => .ok shortform
    | none => extentPayload sb parentIno entries
  | .file data => .ok data
  | .symlink target => .ok target

end Crabfs
end Theos
