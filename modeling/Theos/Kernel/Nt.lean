import Theos.Base.Buffer

/-!
# The NT object manager

The model of `kernel/nt.rs`: the status codes and constants the system calls
share, the table of objects with their names and reference counts, and the
resolution of NT paths through it.  Paths are lists of characters, and the
table of names, which the source keeps as a map, is a list of pairs in which
no name occurs twice.
-/

namespace Theos
namespace Kernel

open Base

/-- The status codes of the modelled calls. -/
inductive NtStatus where
  | success
  | notImplemented
  | invalidHandle
  | invalidParameter
  | noMemory
  | accessDenied
  | objectTypeMismatch
  | objectNameNotFound
  | objectPathNotFound
  | objectNameCollision
  | unsuccessful
  | pending
  | timeout
  | invalidImageFormat
  | notSupported
  | infoLengthMismatch
  | bufferTooSmall
  | endOfFile
  | noMoreEntries
deriving DecidableEq, Repr

/-- `usize::MAX`, which is also the handle of the current process. -/
def usizeMax : Nat := 2 ^ 64 - 1

/-- `u32::MAX`. -/
def u32Max : Nat := 2 ^ 32 - 1

def pageReadwrite : Nat := 0x04

def pageExecuteRead : Nat := 0x20

namespace Nt

def secImage : Nat := 0x01000000

/-! ## Paths -/

/-- A path, as its characters. -/
abbrev Path := List Char

/-- One pass of `replace("\\\\", "\\")`. -/
def mergeBackslashes : Path → Path
  | '\\' :: '\\' :: rest => '\\' :: mergeBackslashes rest
  | c :: rest => c :: mergeBackslashes rest
  | [] => []

/-- `contains("\\\\")`. -/
def hasDoubleBackslash : Path → Bool
  | '\\' :: '\\' :: _ => true
  | _ :: rest => hasDoubleBackslash rest
  | [] => false

/-- The loop that merges until no two backslashes are adjacent; every pass
shortens the path, so its length bounds the number of passes. -/
def mergeLoop : Nat → Path → Path
  | 0, path => path
  | fuel + 1, path =>
    if hasDoubleBackslash path then mergeLoop fuel (mergeBackslashes path) else path

/-- Put a path that names a drive below `\??`, and make any other absolute. -/
def rootPath : Path → Path
  | c :: ':' :: rest =>
    if c.isAlpha then "\\??\\".toList ++ c :: ':' :: rest
    else if c = '\\' then c :: ':' :: rest else '\\' :: c :: ':' :: rest
  | '\\' :: rest => '\\' :: rest
  | path => '\\' :: path

/-- `strip_prefix`. -/
def stripPrefix (pre path : Path) : Option Path :=
  if pre.isPrefixOf path then some (path.drop pre.length) else none

def canonicalizeNtPath (input : Path) : Path :=
  if input.isEmpty then []
  else
    let path := input.map fun c => if c = '/' then '\\' else c
    let path := match stripPrefix "\\\\?\\".toList path with
      | some rest => "\\??\\".toList ++ rest
      | none => path
    let path := rootPath path
    let path := mergeLoop path.length path
    if 1 < path.length ∧ path.getLast? = some '\\' then path.dropLast else path

/-- What follows the last separator of a path. -/
def moduleBasename (path : Path) : Path :=
  (path.reverse.takeWhile fun c => c ≠ '\\' ∧ c ≠ '/').reverse

/-! ## Objects -/

inductive ObjectType where
  | directory
  | symbolicLink
  | file
  | key
  | section
  | process
  | thread
  | event
deriving DecidableEq, Repr

structure FileObject where
  path : Path
  vfsHandle : Int

structure KeyObject where
  path : Path

structure EventObject where
  signaled : Bool
  manualReset : Bool

structure SectionObject where
  ntPath : Option Path
  path : Option Path
  protection : Nat
  attributes : Nat
  size : Nat

structure ProcessObject where
  pid : Nat
  signaled : Bool
  exitStatus : NtStatus

structure ThreadObject where
  tid : Nat
  pid : Nat
  signaled : Bool
  exitStatus : NtStatus

inductive ObjectData where
  | directory
  | symbolicLink (target : Path)
  | file (file : FileObject)
  | key (key : KeyObject)
  | section (sec : SectionObject)
  | process (process : ProcessObject)
  | thread (thread : ThreadObject)
  | event (event : EventObject)

def objectTypeOf : ObjectData → ObjectType
  | .directory => .directory
  | .symbolicLink _ => .symbolicLink
  | .file _ => .file
  | .key _ => .key
  | .section _ => .section
  | .process _ => .process
  | .thread _ => .thread
  | .event _ => .event

structure ObjectRecord where
  objectType : ObjectType
  name : Option Path
  refs : Nat
  data : ObjectData

/-- The object table: records by id, and the ids of the named ones. -/
structure ObjectManager where
  nextId : Nat
  objects : Nat → Option ObjectRecord
  named : List (Path × Nat)

namespace ObjectManager

/-- The table before anything is created. -/
def new : ObjectManager where
  nextId := 1
  objects := fun _ => none
  named := []

/-- `saturating_add(1)` on the next id. -/
def idAfter (id : Nat) : Nat :=
  min (id + 1) u32Max

def insertUnnamed (m : ObjectManager) (data : ObjectData) : Nat × ObjectManager :=
  (m.nextId,
    { m with
      nextId := idAfter m.nextId
      objects := Function.update m.objects m.nextId
        (some ⟨objectTypeOf data, none, 1, data⟩) })

def createNamed (m : ObjectManager) (name : Path) (data : ObjectData) :
    Except NtStatus Nat × ObjectManager :=
  let canonical := canonicalizeNtPath name
  match m.named.lookup canonical with
  | some _ => (.error .objectNameCollision, m)
  | none =>
    (.ok m.nextId,
      { nextId := idAfter m.nextId
        objects := Function.update m.objects m.nextId
          (some ⟨objectTypeOf data, some canonical, 1, data⟩)
        named := (canonical, m.nextId) :: m.named })

/-- The entries `init_namespace` creates, in order. -/
def namespaceEntries : List (Path × ObjectData) :=
  [("\\".toList, .directory),
    ("\\Device".toList, .directory),
    ("\\??".toList, .directory),
    ("\\Registry".toList, .directory),
    ("\\Registry\\Machine".toList, .directory),
    ("\\KnownDlls".toList, .directory),
    ("\\Device\\Crabfs0".toList, .directory),
    ("\\??\\C:".toList, .symbolicLink "\\Device\\Crabfs0".toList),
    ("\\SystemRoot".toList, .symbolicLink "\\??\\C:\\Windows".toList)]

def initNamespace (m : ObjectManager) : ObjectManager :=
  if m.named.isEmpty then
    namespaceEntries.foldl (fun m entry => (m.createNamed entry.1 entry.2).2) m
  else m

/-- Replace the record of an object, as an update through `get_mut` does. -/
def setRecord (m : ObjectManager) (id : Nat) (record : ObjectRecord) : ObjectManager :=
  { m with objects := Function.update m.objects id (some record) }

def retain (m : ObjectManager) (id : Nat) : Except NtStatus Unit × ObjectManager :=
  match m.objects id with
  | none => (.error .invalidHandle, m)
  | some record => (.ok (), m.setRecord id { record with refs := min (record.refs + 1) usizeMax })

/-- `release` up to the point where it drops the lock: the data of an object
that it removed comes back, for `vfs::close` of a file. -/
def release (m : ObjectManager) (id : Nat) :
    Except NtStatus (Option ObjectData) × ObjectManager :=
  match m.objects id with
  | none => (.error .invalidHandle, m)
  | some record =>
    if 1 < record.refs then (.ok none, m.setRecord id { record with refs := record.refs - 1 })
    else
      (.ok (some record.data),
        { m with
          objects := Function.update m.objects id none
          named := match record.name with
            | some name => m.named.filter fun entry => entry.1 ≠ name
            | none => m.named })

/-! ## Access to the data of an object -/

/-- `with_event_mut`. -/
def withEventMut {α : Type} (m : ObjectManager) (id : Nat) (f : EventObject → α × EventObject) :
    Except NtStatus α × ObjectManager :=
  match m.objects id with
  | none => (.error .invalidHandle, m)
  | some record =>
    match record.data with
    | .event event =>
      (.ok (f event).1, m.setRecord id { record with data := .event (f event).2 })
    | _ => (.error .objectTypeMismatch, m)

/-- `with_process`. -/
def process (m : ObjectManager) (id : Nat) : Except NtStatus ProcessObject :=
  match m.objects id with
  | none => .error .invalidHandle
  | some record =>
    match record.data with
    | .process process => .ok process
    | _ => .error .objectTypeMismatch

/-- `with_thread`. -/
def thread (m : ObjectManager) (id : Nat) : Except NtStatus ThreadObject :=
  match m.objects id with
  | none => .error .invalidHandle
  | some record =>
    match record.data with
    | .thread thread => .ok thread
    | _ => .error .objectTypeMismatch

/-- Mark a process or thread as ended. -/
def markExited (status : NtStatus) : ObjectData → ObjectData
  | .thread thread => .thread { thread with signaled := true, exitStatus := status }
  | .process process => .process { process with signaled := true, exitStatus := status }
  | data => data

/-- `with_thread_mut` or `with_process_mut`, marking the object as ended when it
has the type that is asked for. -/
def signalExited (m : ObjectManager) (type : ObjectType) (id : Nat) (status : NtStatus) :
    ObjectManager :=
  match m.objects id with
  | none => m
  | some record =>
    if objectTypeOf record.data = type then
      m.setRecord id { record with data := markExited status record.data }
    else m

/-! ## Path resolution -/

/-- The longest name that is a proper prefix of `path` and ends where a
component of it ends. -/
def bestPrefix (path : Path) : List (Path × Nat) → Option Path → Option Path
  | [], best => best
  | (name, _) :: rest, best =>
    if path = name ∨ ¬ name.isPrefixOf path ∨ path[name.length]? ≠ some '\\' then
      bestPrefix path rest best
    else
      match best with
      | none => bestPrefix path rest (some name)
      | some existing =>
        if existing.length < name.length then bestPrefix path rest (some name)
        else bestPrefix path rest best

/-- Follow symbolic links.  The first argument counts the levels still allowed:
the source gives up when its `depth` is above 16. -/
def resolveNamedPath (m : ObjectManager) : Nat → Path → Except NtStatus Path
  | 0, _ => .error .objectPathNotFound
  | levels + 1, path =>
    let viaPrefix : Except NtStatus Path :=
      match bestPrefix path m.named none with
      | none => .ok path
      | some pre =>
        match (m.named.lookup pre).bind m.objects with
        | none => .error .objectNameNotFound
        | some record =>
          match record.data with
          | .symbolicLink target =>
            resolveNamedPath m levels (target ++ path.drop pre.length)
          | _ => .ok path
    match (m.named.lookup path).bind m.objects with
    | none => viaPrefix
    | some record =>
      match record.data with
      | .symbolicLink target => resolveNamedPath m levels target
      | _ => .ok path

/-- `resolve_nt_path` after its call of `init_namespace`. -/
def resolveNtPath (m : ObjectManager) (input : Path) : Except NtStatus Path :=
  let canonical := canonicalizeNtPath input
  if canonical.isEmpty then .error .objectPathNotFound
  else
    match resolveNamedPath m 17 canonical with
    | .error status => .error status
    | .ok resolved =>
      match stripPrefix "\\Device\\Crabfs0".toList resolved with
      | none => .error .objectPathNotFound
      | some rest =>
        let rest := rest.map fun c => if c = '\\' then '/' else c
        match rest with
        | [] => .ok ['/']
        | '/' :: tail => .ok ('/' :: tail)
        | tail => .ok ('/' :: tail)

end ObjectManager

end Nt

end Kernel
end Theos
