import Theos.Crabfs.Directories
import Theos.Crabfs.Files
import Theos.Kernel.Vfs

/-!
# Looking a path up

`lookup_path_inner` of `kernel/vfs.rs` walks a path from the root.  At a symbolic
link it does not go on from where it is: it writes down a new path (the part
walked so far, the target and the rest) and starts again at the root, at most
sixteen times.

What is meant by it is said over a `FileTree`: the names are entered one after
another, and those of a target are entered from the directory that holds the link.
`Holds` says that a volume holds a tree: the entries of its directories are listed,
and the data of its links are their targets.  The two agree
(`lookupPathInner_eq_resolve`), since the part walked so far has no link in it and
leads to the same directory each time (`Reaches`).

A path is the bytes of its text; a separator is one byte of its own in UTF-8.
-/

namespace Theos
namespace Kernel
namespace Vfs

open Base Rust Crabfs

/-! ## The code -/

def slash : UInt8 := 0x2f

/-- `trim_start_matches('/')`. -/
def trimSlashes (path : Bytes) : Bytes :=
  path.dropWhile (· = slash)

def splitFirstComponent (path : Bytes) : Bytes × Bytes :=
  let trimmed := trimSlashes path
  if trimmed = [] then ([], [])
  else
    match trimmed.idxOf? slash with
    | some idx => (trimmed.take idx, trimSlashes (trimmed.drop (idx + 1)))
    | none => (trimmed, [])

/-- A path with a separator at its end. -/
def withSlash (path : Bytes) : Bytes :=
  if path.getLast? = some slash then path else path ++ [slash]

/-- The path to start again with: a link with this target was met behind `walked`. -/
def resolvedPath (walked target rest : Bytes) : Bytes :=
  let resolved := if target.head? = some slash then target else withSlash walked ++ target
  if rest = [] then resolved else withSlash resolved ++ rest

/-- `prefix` with one more component. -/
def pushComponent (walked part : Bytes) : Bytes :=
  (if walked ≠ [slash] then walked ++ [slash] else walked) ++ part

section Lookup

variable (dev : Device) (sb : Superblock)

def readInode (ino : UInt64) : Rust VfsError Inode := do
  let (inode, _) ← mapErr (fun _ => .io)
    (Crabfs.readInode dev sb ino (List.replicate sb.inodeSize.toNat 0))
  return inode

def readSymlinkInode (ino : UInt64) : Rust VfsError Bytes := do
  let inode ← readInode dev sb ino
  let sz := if inode.size < 0 then 0 else inode.size.toUInt64.toUInt32
  let data ← mapErr (fun _ => .io) (readFileData dev sb ino 0 sz)
  return Utf8.lossy data

/-- The inode that an entry of a directory names. -/
def enterEntry (dir : UInt64) (name : Bytes) : Rust VfsError UInt64 := do
  let found ← mapErr (fun _ => .io) (findDirEntry dev sb dir name)
  okOr .notFound (found.map Prod.fst)

def isSymlink (inode : Inode) : Bool :=
  inode.mode &&& 0xf000 = 0xa000

end Lookup

/-- How the loop over the components is left. -/
inductive Walked where
  | found (ino : UInt64)
  | restart (resolved : Bytes)

theorem length_trimSlashes_le
    (path : Bytes) :
    (trimSlashes path).length ≤ path.length :=
  (List.dropWhile_suffix _).length_le

theorem length_splitFirstComponent_lt {path : Bytes}
    (h : path ≠ []) :
    (splitFirstComponent path).2.length < path.length := by
  have hpath : 0 < path.length := List.length_pos_iff.mpr h
  rw [splitFirstComponent]
  split
  next => exact hpath
  next htrimmed =>
    have htrim := length_trimSlashes_le path
    have hpos : 0 < (trimSlashes path).length := List.length_pos_iff.mpr htrimmed
    split
    next idx _ =>
      have hrest := length_trimSlashes_le ((trimSlashes path).drop (idx + 1))
      rw [List.length_drop] at hrest
      show (trimSlashes ((trimSlashes path).drop (idx + 1))).length < path.length
      omega
    next => exact hpath

section Lookup

variable (dev : Device) (sb : Superblock) (followFinal : Bool)

/-- The loop of `lookup_path_inner`. -/
def walkComponents (cur : UInt64) (walked remaining : Bytes) : Rust VfsError Walked :=
  if remaining = [] then .ok (.found cur)
  else do
    let part := (splitFirstComponent remaining).1
    let rest := (splitFirstComponent remaining).2
    let next ← enterEntry dev sb cur part
    let inode ← readInode dev sb next
    if isSymlink inode && (followFinal || rest ≠ []) then do
      let target ← readSymlinkInode dev sb next
      return .restart (resolvedPath walked target rest)
    else if rest = [] then .ok (.found next)
    else walkComponents next (pushComponent walked part) rest
termination_by remaining.length
decreasing_by exact length_splitFirstComponent_lt ‹_›

def lookupPathInner (path : Bytes) (depth : Nat) : Rust VfsError UInt64 :=
  if 16 < depth then err .invalidPath
  else if path = [] ∨ path.head? ≠ some slash then err .invalidPath
  else
    let remaining := trimSlashes path
    if remaining = [] then .ok sb.rootino
    else do
      match ← walkComponents dev sb followFinal sb.rootino [slash] remaining with
      | .found ino => .ok ino
      | .restart resolved => lookupPathInner resolved (depth + 1)
termination_by 17 - depth

/-! ## What it is meant to do -/

/-- The names between the separators of a path. -/
def names (path : Bytes) : List Bytes :=
  (path.splitOn slash).filter (· ≠ [])

end Lookup

/-- A file of a tree: a directory with the one above it and its entries, a symbolic link with its
target, or something else. -/
inductive Node where
  | directory (parent : UInt64) (entries : List (Bytes × UInt64))
  | symlink (target : Bytes)
  | file
deriving DecidableEq

/-- The files that a node refers to. -/
def Node.refs : Node → List UInt64
  | .directory parent entries => parent :: entries.map Prod.snd
  | _ => []

/-- A file system tree: its files by their inode numbers.  What a directory refers to is there. -/
structure FileTree where
  root : UInt64
  files : List (UInt64 × Node)
  root_mem : (files.lookup root).isSome
  closed : ∀ file ∈ files, ∀ ino ∈ file.2.refs, (files.lookup ino).isSome

namespace FileTree

def node (t : FileTree) (ino : UInt64) : Option Node :=
  t.files.lookup ino

/-- The file that a name stands for in a directory.  Nothing else has entries. -/
def enter (t : FileTree) (dir : UInt64) (name : Bytes) : Rust VfsError UInt64 :=
  match t.node dir with
  | some (.directory parent entries) =>
    if name = dot then .ok dir
    else if name = dotDot then .ok parent
    else okOr .notFound (entries.lookup name)
  | _ => err .io

/-- The target of a link. -/
def target (t : FileTree) (ino : UInt64) : Option Bytes :=
  match t.node ino with
  | some (.symlink target) => some target
  | _ => none

/-- Where the target of a link in `dir` starts. -/
def origin (t : FileTree) (dir : UInt64) (target : Bytes) : UInt64 :=
  if target.head? = some slash then t.root else dir

/-- Enter one name after another from a directory; `follow` goes on behind a link. -/
def walk (t : FileTree) (followFinal : Bool)
    (follow : UInt64 → List Bytes → Rust VfsError UInt64) (dir : UInt64) :
    List Bytes → Rust VfsError UInt64
  | [] => .ok dir
  | name :: rest => do
    let next ← t.enter dir name
    match t.target next with
    | some target =>
      if followFinal || rest ≠ [] then follow (t.origin dir target) (names target ++ rest)
      else .ok next
    | none => walk t followFinal follow next rest

/-- The file that the names lead to from a directory, with at most `links` links on the way. -/
def resolve (t : FileTree) (followFinal : Bool) :
    (links : Nat) → UInt64 → List Bytes → Rust VfsError UInt64
  | 0 => t.walk followFinal fun _ _ => err .invalidPath
  | links + 1 => t.walk followFinal (t.resolve followFinal links)

end FileTree

/-- The volume holds a node under an inode number.  A file that is no directory and no link may
be anything that can be read. -/
def HoldsNode (dev : Device) (sb : Superblock) (ino : UInt64) : Node → Prop
  | .directory parent entries =>
    ∃ list, listDirEntries dev sb ino = .ok (dotEntries ino parent ++ list) ∧
      entries = list.map (fun entry => (entry.name, entry.ino)) ∧
      ∀ name ∈ storedNames dev sb ino, Utf8.Valid name
  | .symlink target =>
    FileOn dev sb symbolicLink ino target ∧ Utf8.Valid target ∧ target.length < 2 ^ 32
  | .file =>
    ∃ inode, readInode dev sb ino = .ok inode ∧ inode.mode &&& 0xf000 ≠ 0x4000 ∧
      inode.mode &&& 0xf000 ≠ 0xa000

/-- The volume holds the tree. -/
structure Holds (dev : Device) (sb : Superblock) (t : FileTree) : Prop where
  root : t.root = sb.rootino
  files : ∀ file ∈ t.files, HoldsNode dev sb file.1 file.2

/-! ## The names of a path -/

theorem names_append_slash
    (a b : Bytes) :
    names (a ++ slash :: b) = names a ++ names b := by
  rw [names, List.splitOn_append_cons_of_beq _ _ (by simp), List.filter_append, names, names]

theorem names_nil :
    names [] = [] := by
  simp [names]

theorem names_slash_cons
    (path : Bytes) :
    names (slash :: path) = names path := by
  simpa [names_nil] using names_append_slash [] path

/-- A component is the one name in it. -/
theorem names_component {part : Bytes}
    (hne : part ≠ [])
    (hslash : slash ∉ part) :
    names part = [part] := by
  rw [names, List.splitOn_eq_singleton hslash]
  simp [hne]

theorem names_trimSlashes
    (path : Bytes) :
    names (trimSlashes path) = names path := by
  induction path with
  | nil =>
    rfl
  | cons b path ih =>
    by_cases hb : b = slash
    · rw [hb, names_slash_cons, ← ih]
      simp [trimSlashes]
    · simp [trimSlashes, hb]

theorem names_withSlash_append
    (a b : Bytes) :
    names (withSlash a ++ b) = names a ++ names b := by
  rw [withSlash]
  split
  next h =>
    -- nothing is behind the separator that is there already
    obtain ⟨front, rfl⟩ : ∃ front, a = front ++ [slash] :=
      ⟨a.dropLast, (List.dropLast_append_getLast? _ h).symm⟩
    rw [List.append_assoc, List.singleton_append, names_append_slash, names_append_slash,
      names_nil, List.append_nil]
  next =>
    rw [List.append_assoc, List.singleton_append, names_append_slash]

theorem names_pushComponent {part : Bytes} (walked : Bytes)
    (hne : part ≠ [])
    (hslash : slash ∉ part) :
    names (pushComponent walked part) = names walked ++ [part] := by
  rw [pushComponent]
  split
  next =>
    rw [List.append_assoc, List.singleton_append, names_append_slash,
      names_component hne hslash]
  next h =>
    rw [not_not.mp h, List.singleton_append, names_slash_cons, names_slash_cons, names_nil,
      names_component hne hslash, List.nil_append]

/-- The path for a new start names the way to the target, the target and the rest. -/
theorem names_resolvedPath
    (walked target rest : Bytes) :
    names (resolvedPath walked target rest) =
      (if target.head? = some slash then [] else names walked) ++ (names target ++ names rest) := by
  have hresolved :
      names (if target.head? = some slash then target else withSlash walked ++ target) =
        (if target.head? = some slash then [] else names walked) ++ names target := by
    split
    · rfl
    · exact names_withSlash_append walked target
  rw [resolvedPath]
  split
  next hrest =>
    rw [hresolved, hrest, names_nil, List.append_nil]
  next =>
    rw [names_withSlash_append, hresolved, List.append_assoc]

theorem head_withSlash_append {a : Bytes} (b : Bytes)
    (h : a.head? = some slash) :
    (withSlash a ++ b).head? = some slash := by
  obtain ⟨rest, rfl⟩ : ∃ rest, a = slash :: rest := List.head?_eq_some_iff.mp h
  rw [withSlash]
  split <;> rfl

theorem head_resolvedPath {walked : Bytes} (target rest : Bytes)
    (h : walked.head? = some slash) :
    (resolvedPath walked target rest).head? = some slash := by
  have hresolved :
      (if target.head? = some slash then target
        else withSlash walked ++ target).head? = some slash := by
    split
    next htarget => exact htarget
    next => exact head_withSlash_append target h
  rw [resolvedPath]
  split
  · exact hresolved
  · exact head_withSlash_append rest hresolved

theorem head_pushComponent {walked : Bytes} (part : Bytes)
    (h : walked.head? = some slash) :
    (pushComponent walked part).head? = some slash := by
  obtain ⟨rest, rfl⟩ : ∃ rest, walked = slash :: rest := List.head?_eq_some_iff.mp h
  rw [pushComponent]
  split <;> rfl

/-! ## The first component -/

/-- No separator is left at the start. -/
def Trimmed (path : Bytes) : Prop :=
  path.head? ≠ some slash

theorem trimmed_trimSlashes
    (path : Bytes) :
    Trimmed (trimSlashes path) := by
  intro h
  have hnot := List.head?_dropWhile_not (· = slash) path
  rw [trimSlashes] at h
  rw [h] at hnot
  simp at hnot

theorem trimSlashes_of_trimmed {path : Bytes}
    (h : Trimmed path) :
    trimSlashes path = path := by
  cases path with
  | nil =>
    rfl
  | cons b path =>
    have hb : b ≠ slash := fun hb => h (by rw [hb]; rfl)
    simp [trimSlashes, hb]

/-- What `split_first_component` makes of a path that does not start with a separator. -/
structure Splits (path part rest : Bytes) : Prop where
  part_ne_nil : part ≠ []
  slash_not_mem : slash ∉ part
  trimmed : Trimmed rest
  names_eq : names path = part :: names rest

theorem splits_splitFirstComponent {path : Bytes}
    (hne : path ≠ [])
    (htrimmed : Trimmed path) :
    Splits path (splitFirstComponent path).1 (splitFirstComponent path).2 := by
  rw [splitFirstComponent, trimSlashes_of_trimmed htrimmed, if_neg hne]
  split
  next idx hidx =>
    obtain ⟨hlt, hat, hbefore⟩ := List.idxOf?_eq_some_iff.mp hidx
    have hcut : path.take idx ++ slash :: path.drop (idx + 1) = path := by
      rw [← hat, List.cons_getElem_drop_succ, List.take_append_drop]
    have hslash : slash ∉ path.take idx := by
      intro hmem
      obtain ⟨j, hj, hget⟩ := List.mem_take_iff_getElem.mp hmem
      exact hbefore j (by omega) hget
    have hpart : path.take idx ≠ [] := by
      intro hnil
      rw [hnil, List.nil_append] at hcut
      exact htrimmed (by rw [← hcut]; rfl)
    refine ⟨hpart, hslash, trimmed_trimSlashes _, ?_⟩
    show names path = path.take idx :: names (trimSlashes (path.drop (idx + 1)))
    rw [names_trimSlashes]
    nth_rewrite 1 [← hcut]
    rw [names_append_slash, names_component hpart hslash, List.singleton_append]
  next hidx =>
    have hslash : slash ∉ path := List.idxOf?_eq_none_iff.mp hidx
    exact ⟨hne, hslash, by simp [Trimmed], by rw [names_component hne hslash, names_nil]⟩

/-- Only the end of a path has no name in it. -/
theorem names_eq_nil_iff {path : Bytes}
    (htrimmed : Trimmed path) :
    names path = [] ↔ path = [] := by
  constructor
  · intro h
    by_contra hne
    rw [(splits_splitFirstComponent hne htrimmed).names_eq] at h
    cases h
  · rintro rfl
    exact names_nil

/-! ## The nodes of a volume -/

section Nodes

variable {dev : Device} {sb : Superblock} {t : FileTree}

theorem FileTree.mem_files_of_node {ino : UInt64} {node : Node}
    (h : t.node ino = some node) :
    (ino, node) ∈ t.files := by
  obtain ⟨before, behind, hfiles, -⟩ := List.lookup_eq_some_iff.mp h
  rw [hfiles]
  exact List.mem_append_right _ (List.mem_cons_self ..)

theorem lookup_map_entries (list : List DirEntry) (name : Bytes) :
    (list.map fun entry => (entry.name, entry.ino)).lookup name =
      (Crabfs.lookup list name).map Prod.fst := by
  induction list with
  | nil =>
    rfl
  | cons entry list ih =>
    rw [Crabfs.lookup_cons, List.map_cons]
    by_cases h : entry.name = name
    · rw [if_pos h, h, List.lookup_cons_self]
      rfl
    · rw [if_neg h, List.lookup_cons, beq_eq_false_iff_ne.mpr (Ne.symm h), ih]

/-- The inode of a node, with the type that the node has. -/
theorem Holds.readInode_eq (h : Holds dev sb t) {ino : UInt64} {node : Node}
    (hnode : t.node ino = some node) :
    ∃ inode, readInode dev sb ino = .ok inode ∧
      (isSymlink inode = true ↔ ∃ target, node = .symlink target) ∧
      (inode.mode &&& 0xf000 = 0x4000 ↔ ∃ parent entries, node = .directory parent entries) := by
  have hholds := h.files _ (t.mem_files_of_node hnode)
  cases node with
  | directory parent entries =>
    obtain ⟨list, hlist, -, -⟩ := hholds
    rw [listDirEntries, bind_eq_ok] at hlist
    obtain ⟨⟨inode, scratch⟩, hdir, -⟩ := hlist
    rw [readDirInode, bind_eq_ok] at hdir
    obtain ⟨⟨inode', scratch'⟩, hread, hmode⟩ := hdir
    dsimp only at hmode
    split at hmode
    next =>
      cases hmode
    next hdirectory =>
      have hmode' : inode'.mode &&& 0xf000 = 0x4000 := not_not.mp hdirectory
      refine ⟨inode', ?_, ?_, ?_⟩
      · rw [readInode, hread, mapErr_ok, ok_bind]
        rfl
      · simp [isSymlink, hmode']
      · exact iff_of_true hmode' ⟨parent, entries, rfl⟩
  | symlink target =>
    obtain ⟨⟨inode, scratch, disk, hrecord⟩, -, -⟩ := hholds
    have hmode : inode.mode &&& 0xf000 = 0xa000 := hrecord.type_eq
    refine ⟨inode, ?_, ?_, ?_⟩
    · rw [readInode, hrecord.read_eq, mapErr_ok, ok_bind]
      rfl
    · simp [isSymlink, hmode]
    · simp [hmode]
  | file =>
    obtain ⟨inode, hread, hdirectory, hlink⟩ := hholds
    exact ⟨inode, hread, by simp [isSymlink, hlink], by simp [hdirectory]⟩

/-- The entries that are found in a directory are those of the node. -/
theorem Holds.enterEntry_eq (h : Holds dev sb t) {dir : UInt64} {node : Node}
    (hnode : t.node dir = some node) (name : Bytes) :
    enterEntry dev sb dir name = t.enter dir name := by
  have hholds := h.files _ (t.mem_files_of_node hnode)
  cases node with
  | directory parent entries =>
    obtain ⟨list, hlist, rfl, hvalid⟩ := hholds
    rw [enterEntry, findDirEntry_of_dotEntries name hlist hvalid, mapErr_ok, ok_bind,
      lookup_dotEntries_append]
    simp only [FileTree.enter, hnode, lookup_map_entries]
    split
    · rfl
    · split <;> rfl
  | symlink target | file =>
    all_goals
      obtain ⟨inode, hread, -, hmode⟩ := h.readInode_eq hnode
      have hmode' : inode.mode &&& 0xf000 ≠ 0x4000 := by simp [hmode]
      rw [readInode, bind_eq_ok] at hread
      obtain ⟨⟨inode', scratch⟩, hread, hinode⟩ := hread
      cases hinode
      rw [mapErr_eq_ok_iff] at hread
      simp only [FileTree.enter, hnode]
      rw [enterEntry, findDirEntry, readDirInode, hread, ok_bind]
      simp only [hmode', ne_eq, not_false_eq_true, if_true]
      rfl

/-- The data of a link is the target of the node. -/
theorem Holds.readSymlinkInode_eq (h : Holds dev sb t) {ino : UInt64} {target : Bytes}
    (hnode : t.node ino = some (.symlink target)) :
    readSymlinkInode dev sb ino = .ok target := by
  obtain ⟨hfile, hvalid, hshort⟩ := h.files _ (t.mem_files_of_node hnode)
  have hdata := hfile.readFileData_eq (.inr rfl) 0
  obtain ⟨inode, scratch, disk, hrecord⟩ := hfile
  have hread : readInode dev sb ino = .ok inode := by
    rw [readInode, hrecord.read_eq, mapErr_ok, ok_bind]
    rfl
  have hsize : ¬ inode.size < 0 := by
    have hnonneg := hrecord.size_nonneg
    rw [Int64.lt_iff_toInt_lt]
    exact not_lt.mpr hnonneg
  have hlength : (inode.size.toUInt64.toUInt32).toNat = target.length := by
    have hfileSize : inode.size.toUInt64.toNat = target.length := hrecord.length_content.symm
    rw [UInt64.toNat_toUInt32, hfileSize, Nat.mod_eq_of_lt hshort]
  rw [readSymlinkInode, hread, ok_bind]
  simp only [hsize, if_false]
  rw [hdata, mapErr_ok, ok_bind, hlength]
  show Except.ok (Utf8.lossy _) = _
  rw [show (0 : UInt64).toNat = 0 from rfl, slice, List.drop_zero, List.take_length,
    Utf8.lossy_of_valid hvalid]

/-- What is entered from a file of the tree is one of its files. -/
theorem FileTree.isSome_of_enter {dir next : UInt64} {name : Bytes}
    (h : t.enter dir name = .ok next) :
    (t.node next).isSome := by
  rw [enter] at h
  split at h
  next parent entries hnode =>
    have hclosed := t.closed _ (t.mem_files_of_node hnode)
    split at h
    next =>
      cases h
      rw [hnode]
      rfl
    next =>
      split at h
      next =>
        cases h
        exact hclosed _ (List.mem_cons_self ..)
      next =>
        cases hlookup : entries.lookup name with
        | none =>
          rw [hlookup] at h
          cases h
        | some ino =>
          rw [hlookup] at h
          cases h
          obtain ⟨before, behind, rfl, -⟩ := List.lookup_eq_some_iff.mp hlookup
          exact hclosed _ (by simp [Node.refs])
  next =>
    cases h

end Nodes

/-! ## Both agree -/

section Agreement

variable {dev : Device} {sb : Superblock} {followFinal : Bool}

/-- From one directory the names lead to another one, and none of them is a link. -/
inductive Reaches (t : FileTree) : UInt64 → List Bytes → UInt64 → Prop
  | here {dir : UInt64} : Reaches t dir [] dir
  | enter {dir next last : UInt64} {name : Bytes} {rest : List Bytes} :
      t.enter dir name = .ok next → t.target next = none → Reaches t next rest last →
      Reaches t dir (name :: rest) last

theorem Reaches.trans {t : FileTree} {dir mid last : UInt64} {front back : List Bytes}
    (hfront : Reaches t dir front mid)
    (hback : Reaches t mid back last) :
    Reaches t dir (front ++ back) last := by
  induction hfront with
  | here =>
    exact hback
  | enter hentry hlink _ ih =>
    exact .enter hentry hlink (ih hback)

/-- Names without links can be skipped, wherever they stand in a path. -/
theorem walk_append_of_reaches {t : FileTree} {dir last : UInt64} {front : List Bytes}
    (h : Reaches t dir front last) (follow : UInt64 → List Bytes → Rust VfsError UInt64)
    (back : List Bytes) :
    t.walk followFinal follow dir (front ++ back) = t.walk followFinal follow last back := by
  induction h with
  | here =>
    rfl
  | enter hentry hlink _ ih =>
    rw [List.cons_append, FileTree.walk, hentry, ok_bind]
    simp only [hlink]
    exact ih

theorem resolve_append_of_reaches {t : FileTree} {dir last : UInt64} {front : List Bytes}
    (h : Reaches t dir front last) (links : Nat) (back : List Bytes) :
    t.resolve followFinal links dir (front ++ back) = t.resolve followFinal links last back := by
  cases links with
  | zero =>
    exact walk_append_of_reaches h _ back
  | succ links =>
    exact walk_append_of_reaches h _ back

/-- The new start leads to where the names of the target begin. -/
theorem resolve_resolvedPath {t : FileTree} {cur : UInt64} {walked : Bytes}
    (hwalked : Reaches t t.root (names walked) cur)
    (links : Nat) (target rest : Bytes) :
    t.resolve followFinal links t.root (names (resolvedPath walked target rest)) =
      t.resolve followFinal links (t.origin cur target) (names target ++ names rest) := by
  rw [names_resolvedPath, FileTree.origin]
  split
  · rfl
  · exact resolve_append_of_reaches hwalked _ _

/-- How the loop goes on when it is left. -/
def afterWalk (dev : Device) (sb : Superblock) (followFinal : Bool) (depth : Nat) :
    Walked → Rust VfsError UInt64
  | .found ino => .ok ino
  | .restart resolved => lookupPathInner dev sb followFinal resolved (depth + 1)

/-- The loop resolves what remains, if a new start goes on as `follow` does. -/
theorem walkComponents_eq_walk {t : FileTree} (hholds : Holds dev sb t) {depth : Nat}
    {follow : UInt64 → List Bytes → Rust VfsError UInt64}
    (hrestart : ∀ (walked target rest : Bytes) (cur : UInt64), walked.head? = some slash →
      Reaches t t.root (names walked) cur →
      lookupPathInner dev sb followFinal (resolvedPath walked target rest) (depth + 1) =
        follow (t.origin cur target) (names target ++ names rest))
    {cur : UInt64} {walked remaining : Bytes}
    (hcur : (t.node cur).isSome)
    (hhead : walked.head? = some slash)
    (hwalked : Reaches t t.root (names walked) cur)
    (htrimmed : Trimmed remaining) :
    (walkComponents dev sb followFinal cur walked remaining >>=
        afterWalk dev sb followFinal depth) =
      t.walk followFinal follow cur (names remaining) := by
  induction hlen : remaining.length using Nat.strong_induction_on
    generalizing cur walked remaining with
  | _ len ih =>
  by_cases hne : remaining = []
  · rw [walkComponents, if_pos hne, hne, names_nil]
    rfl
  · have hsplit := splits_splitFirstComponent hne htrimmed
    have hshort := length_splitFirstComponent_lt hne
    rw [walkComponents, if_neg hne]
    generalize (splitFirstComponent remaining).1 = part at hsplit ⊢
    generalize (splitFirstComponent remaining).2 = rest at hsplit hshort ⊢
    dsimp only
    have hlast : decide (names rest ≠ []) = decide (rest ≠ []) := by
      simp only [ne_eq, names_eq_nil_iff hsplit.trimmed]
    obtain ⟨node, hnode⟩ := Option.isSome_iff_exists.mp hcur
    rw [hsplit.names_eq, FileTree.walk, hlast, hholds.enterEntry_eq hnode]
    cases hentry : t.enter cur part with
    | error fault =>
      rfl
    | ok next =>
    have hnext := t.isSome_of_enter hentry
    obtain ⟨node', hnode'⟩ := Option.isSome_iff_exists.mp hnext
    obtain ⟨inode, hinode, hlink, -⟩ := hholds.readInode_eq hnode'
    simp only [ok_bind, hinode]
    cases htarget : t.target next with
    | some target =>
      have hsymlink : t.node next = some (.symlink target) := by
        rw [FileTree.target] at htarget
        split at htarget
        next heq =>
          rw [heq, Option.some.inj htarget]
        next =>
          cases htarget
      have hislink : isSymlink inode = true :=
        hlink.mpr ⟨target, Option.some.inj (hnode'.symm.trans hsymlink)⟩
      rw [hislink, Bool.true_and]
      dsimp only
      cases hfollow : (followFinal || decide (rest ≠ [])) with
      | true =>
        rw [if_pos rfl, if_pos rfl, hholds.readSymlinkInode_eq hsymlink, ok_bind]
        exact hrestart walked target rest cur hhead hwalked
      | false =>
        have hrest : rest = [] := by
          by_contra hrest
          simp [hrest] at hfollow
        rw [if_neg Bool.false_ne_true, if_neg Bool.false_ne_true, if_pos hrest]
        rfl
    | none =>
      have hnotlink : isSymlink inode = false := by
        rw [Bool.eq_false_iff]
        intro hislink
        obtain ⟨target, rfl⟩ := hlink.mp hislink
        rw [FileTree.target, hnode'] at htarget
        cases htarget
      rw [hnotlink, Bool.false_and, if_neg Bool.false_ne_true]
      dsimp only
      by_cases hrest : rest = []
      · rw [if_pos hrest, hrest, names_nil]
        rfl
      · rw [if_neg hrest]
        refine ih _ (hlen ▸ hshort) hnext (head_pushComponent part hhead) ?_ hsplit.trimmed rfl
        rw [names_pushComponent walked hsplit.part_ne_nil hsplit.slash_not_mem]
        exact hwalked.trans (.enter hentry htarget .here)

/-- One round of `lookup_path_inner`, if a new start goes on as `follow` does. -/
theorem lookupPathInner_eq_walk {t : FileTree} (hholds : Holds dev sb t) {path : Bytes}
    {depth : Nat} {follow : UInt64 → List Bytes → Rust VfsError UInt64}
    (hdepth : depth ≤ 16)
    (hhead : path.head? = some slash)
    (hrestart : ∀ (walked target rest : Bytes) (cur : UInt64), walked.head? = some slash →
      Reaches t t.root (names walked) cur →
      lookupPathInner dev sb followFinal (resolvedPath walked target rest) (depth + 1) =
        follow (t.origin cur target) (names target ++ names rest)) :
    lookupPathInner dev sb followFinal path depth =
      t.walk followFinal follow t.root (names path) := by
  have hpath : ¬(path = [] ∨ path.head? ≠ some slash) := by
    rintro (rfl | h)
    · cases hhead
    · exact h hhead
  rw [lookupPathInner, if_neg (by omega), if_neg hpath, ← names_trimSlashes, ← hholds.root]
  dsimp only
  split
  next hnil =>
    rw [hnil, names_nil]
    rfl
  next =>
    have hroot : Reaches t t.root (names [slash]) t.root := by
      rw [names_slash_cons, names_nil]
      exact .here
    exact walkComponents_eq_walk hholds hrestart t.root_mem rfl hroot (trimmed_trimSlashes path)

theorem lookupPathInner_eq {t : FileTree} (hholds : Holds dev sb t) (path : Bytes)
    {depth links : Nat} (hlinks : depth + links = 16) (hhead : path.head? = some slash) :
    lookupPathInner dev sb followFinal path depth =
      t.resolve followFinal links t.root (names path) := by
  -- on the number of new starts that are left
  induction links generalizing path depth with
  | zero =>
    refine lookupPathInner_eq_walk hholds (by omega) hhead fun walked target rest cur _ _ => ?_
    rw [lookupPathInner, if_pos (by omega)]
  | succ links ih =>
    refine lookupPathInner_eq_walk hholds (by omega) hhead fun walked target rest cur hhead hwalked => ?_
    rw [ih _ (by omega) (head_resolvedPath target rest hhead), resolve_resolvedPath hwalked]

/-- Looking up an absolute path in a volume enters its names one after another from the root of
the tree that the volume holds. -/
theorem lookupPathInner_eq_resolve (dev : Device) (sb : Superblock) (t : FileTree)
    (hholds : Holds dev sb t) (followFinal : Bool) (path : Bytes) :
    lookupPathInner dev sb followFinal (slash :: path) 0 =
      t.resolve followFinal 16 t.root (names path) := by
  rw [lookupPathInner_eq hholds _ (by omega : 0 + 16 = 16) rfl, names_slash_cons]

end Agreement

/-! ## A volume with a link -/

/-- The record of an inode of 208 bytes: its type, its size and what stands behind its fields. -/
def smallRecord (type size : UInt8) (fork : Bytes) : Bytes :=
  [0x49, 0x4e, type, 0, 3, 1] ++ List.replicate 50 0 ++ [0, 0, 0, 0, 0, 0, 0, size] ++
    List.replicate 112 0 ++ fork ++ List.replicate (32 - fork.length) 0

/-- The root with a directory `d` and a file `f`; in `d`, a link `s` to `../f`. -/
def smallDevice : Device :=
  Device.ofImage
    (smallRecord 0x40 0 [2, 0, 0, 0, 0, 0, 1, 0, 0, 0x64, 0, 0, 0, 1, 1, 0, 0, 0x66, 0, 0, 0, 3] ++
      smallRecord 0x40 0 [1, 0, 0, 0, 0, 0, 1, 0, 0, 0x73, 0, 0, 0, 2] ++
      smallRecord 0xa0 4 [0x2e, 0x2e, 0x2f, 0x66] ++ smallRecord 0x80 2 [7, 8])

def smallSuperblock : Superblock :=
  { (default : Superblock) with inodeSize := 208, agCount := 1, inopblog := 2 }

def smallTree : FileTree where
  root := 0
  files :=
    [(0, .directory 0 [([0x64], 1), ([0x66], 3)]), (1, .directory 0 [([0x73], 2)]),
      (2, .symlink [0x2e, 0x2e, 0x2f, 0x66]), (3, .file)]
  root_mem := by decide
  closed := by simp [Node.refs]

theorem holds_smallTree : Holds smallDevice smallSuperblock smallTree where
  root := by decide +kernel
  files := by
    have hascii {names : List Bytes} (h : ∀ name ∈ names, ∀ b ∈ name, b < 0x80) :
        ∀ name ∈ names, Utf8.Valid name := fun name hname => Utf8.valid_of_ascii (h name hname)
    have hroot : storedNames smallDevice smallSuperblock 0 = [[0x64], [0x66]] := by
      decide +kernel
    have hsub : storedNames smallDevice smallSuperblock 1 = [[0x73]] := by
      decide +kernel
    simp only [smallTree, List.forall_mem_cons, List.not_mem_nil, false_implies, implies_true,
      and_true]
    refine ⟨⟨[⟨1, [0x64], 0⟩, ⟨3, [0x66], 0⟩], by decide +kernel, rfl, ?_⟩,
      ⟨[⟨2, [0x73], 0⟩], by decide +kernel, rfl, ?_⟩, ⟨?_, ?_, by decide⟩, ?_⟩
    · rw [hroot]
      exact hascii (by simp)
    · rw [hsub]
      exact hascii (by simp)
    · exact fileOn_of_hasInlineFile (by decide +kernel)
    · exact Utf8.valid_of_ascii (by simp)
    · obtain ⟨inode, scratch, disk, hrecord⟩ : FileOn smallDevice smallSuperblock regularFile 3 [7, 8] :=
        fileOn_of_hasInlineFile (by decide +kernel)
      have hmode : inode.mode &&& 0xf000 = 0x8000 := hrecord.type_eq
      refine ⟨inode, ?_, by rw [hmode]; decide, by rw [hmode]; decide⟩
      rw [readInode, hrecord.read_eq, mapErr_ok, ok_bind]
      rfl

/-- `/d/s` with and without following the link, `//d/./../d/s/`, and a name that is not there. -/
theorem lookupPathInner_eq_resolve_small :
    lookupPathInner smallDevice smallSuperblock true [0x2f, 0x64, 0x2f, 0x73] 0 = .ok 3 ∧
      lookupPathInner smallDevice smallSuperblock false [0x2f, 0x64, 0x2f, 0x73] 0 = .ok 2 ∧
      lookupPathInner smallDevice smallSuperblock true
        [0x2f, 0x2f, 0x64, 0x2f, 0x2e, 0x2f, 0x2e, 0x2e, 0x2f, 0x64, 0x2f, 0x73, 0x2f] 0 = .ok 3 ∧
      lookupPathInner smallDevice smallSuperblock true [0x2f, 0x64, 0x2f, 0x78] 0 =
        err .notFound := by
  have hlookup := lookupPathInner_eq_resolve smallDevice smallSuperblock smallTree holds_smallTree
  refine ⟨(hlookup true _).trans ?_, (hlookup false _).trans ?_, (hlookup true _).trans ?_,
    (hlookup true _).trans ?_⟩
  all_goals decide +kernel

end Vfs
end Kernel
end Theos
