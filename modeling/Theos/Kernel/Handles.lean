import Theos.Base.Run
import Theos.Kernel.Vfs

/-!
# The objects that calls create and open

The functions of `kernel/nt.rs` that create, open and release objects, over the object
manager, the loaded registry hive and the descriptor table, in which file objects hold
their files.

What the disk answers to a lookup, and what reading a hive gives, are arguments.
-/

namespace Theos
namespace Kernel
namespace Handles

open Base
open Nt

/-- A registry hive, as far as opening a key needs it. -/
class Hive (H : Type) where
  parse : Bytes → Option H
  hasKey : H → Path → Bool

variable {H : Type}

/-- The object manager, the loaded hive and the descriptors. -/
structure System (H : Type) where
  objects : ObjectManager
  systemHive : Option H
  vfs : Option Vfs

/-! ## Objects and descriptors -/

/-- `nt::init_namespace`, which the path and section calls begin with. -/
def initNamespace (s : System H) : System H :=
  { s with objects := s.objects.initNamespace }

/-- Record a new object without a name. -/
def insertUnnamed (s : System H) (data : ObjectData) : Nat × System H :=
  ((s.objects.insertUnnamed data).1, { s with objects := (s.objects.insertUnnamed data).2 })

/-- Record a new object under a name. -/
def createNamed (s : System H) (name : Path) (data : ObjectData) :
    Except NtStatus Nat × System H :=
  ((s.objects.createNamed name data).1,
    { s with objects := (s.objects.createNamed name data).2 })

def retain (s : System H) (id : Nat) : Except NtStatus Unit × System H :=
  ((s.objects.retain id).1, { s with objects := (s.objects.retain id).2 })

/-- `vfs::open`. -/
def vfsOpen (lookup : Vfs.Lookup) (s : System H) (path : Path) :
    Except VfsError Int × System H :=
  match s.vfs with
  | none => (.error .notMounted, s)
  | some v => ((v.open lookup path 0).1, { s with vfs := some (v.open lookup path 0).2 })

/-- `vfs::close`. -/
def vfsClose (s : System H) (fd : Int) : System H :=
  match s.vfs with
  | none => s
  | some v => { s with vfs := some (v.close fd).2 }

/-- `nt::release`: give one reference back, and with the last one remove the
object and close its file. -/
def release (s : System H) (id : Nat) : Except NtStatus Unit × System H :=
  match s.objects.release id with
  | (.error status, m) => (.error status, { s with objects := m })
  | (.ok (some (.file file)), m) => (.ok (), vfsClose { s with objects := m } file.vfsHandle)
  | (.ok _, m) => (.ok (), { s with objects := m })

/-! ## Sections and keys -/

def ntPathFromVfsPath (path : Path) : Option Path :=
  if "/windows/system32/".toList.isPrefixOf (path.map Char.toLower) then
    some (canonicalizeNtPath ("\\SystemRoot\\System32\\".toList ++ moduleBasename path))
  else none

/-- The data of the section that stands for a known DLL. -/
def knownDllSection (ntPath path : Path) : ObjectData :=
  .section ⟨some ntPath, some path, pageExecuteRead, secImage, 0⟩

/-- `nt::open_section` for a name that is not taken yet: a section below
`\KnownDlls` is created on demand and kept. -/
def cacheKnownDll (s : System H) (canonical : Path) : Except NtStatus Nat × System H :=
  if "\\KnownDlls\\".toList.isPrefixOf canonical then
    let dllName := (canonical.reverse.takeWhile fun c => c ≠ '\\').reverse
    if dllName.isEmpty then (.error .objectNameNotFound, s)
    else
      let ntPath := canonicalizeNtPath ("\\SystemRoot\\System32\\".toList ++ dllName)
      let s := initNamespace s
      match s.objects.resolveNtPath ntPath with
      | .error status => (.error status, s)
      | .ok path =>
        match createNamed s canonical (knownDllSection ntPath path) with
        | (.error status, s) => (.error status, s)
        | (.ok id, s) =>
          match retain s id with
          | (.error status, s) => (.error status, s)
          | (.ok (), s) => (.ok id, s)
  else (.error .objectNameNotFound, s)

/-- `nt::open_section`. -/
def openSectionObject (s : System H) (name : Path) : Except NtStatus Nat × System H :=
  let s := initNamespace s
  let canonical := canonicalizeNtPath name
  match s.objects.named.lookup canonical with
  | none => cacheKnownDll s canonical
  | some id =>
    match s.objects.objects id with
    | none => (.error .objectNameNotFound, s)
    | some record =>
      if record.objectType ≠ .section then (.error .objectTypeMismatch, s)
      else
        (.ok id, { s with
          objects := s.objects.setRecord id
            { record with refs := min (record.refs + 1) usizeMax } })

/-- `read_file_all`: a failed read returns without closing the descriptor. -/
def readFileAll (lookup : Vfs.Lookup) (reads : Vfs.Reads) (s : System H) (path : Path) :
    Except NtStatus Bytes × System H :=
  match vfsOpen lookup s path with
  | (.error _, s) => (.error .objectNameNotFound, s)
  | (.ok fd, s) =>
    match s.vfs with
    | none => (.error .unsuccessful, s)
    | some v =>
      match Vfs.readLoop fd reads.failed reads.chunks [] v with
      | (.error _, v) => (.error .unsuccessful, { s with vfs := some v })
      | (.ok data, v) => (.ok data, vfsClose { s with vfs := some v } fd)

def ensureSystemHiveLoaded [Hive H] (lookup : Vfs.Lookup) (reads : Vfs.Reads) (s : System H) :
    Except NtStatus Unit × System H :=
  match s.systemHive with
  | some _ => (.ok (), s)
  | none =>
    match readFileAll lookup reads s "/Windows/System32/config/SYSTEM".toList with
    | (.error status, s) => (.error status, s)
    | (.ok data, s) =>
      match (Hive.parse data : Option H) with
      | none => (.error .invalidImageFormat, s)
      | some hive => (.ok (), { s with systemHive := some hive })

/-- The key below the system hive that an NT path names. -/
def systemHiveSubkey (path : Path) : Option Path :=
  let canonical := canonicalizeNtPath path
  let pre := "\\registry\\machine\\system".toList
  if pre.isPrefixOf (canonical.map Char.toLower) then
    some ((canonical.drop pre.length).dropWhile (· = '\\'))
  else none

/-- `nt::open_key`. -/
def openKeyObject [Hive H] (lookup : Vfs.Lookup) (reads : Vfs.Reads) (s : System H)
    (path : Path) : Except NtStatus Nat × System H :=
  match ensureSystemHiveLoaded lookup reads (initNamespace s) with
  | (.error status, s) => (.error status, s)
  | (.ok (), s) =>
    match systemHiveSubkey path, s.systemHive with
    | none, _ => (.error .objectNameNotFound, s)
    | some _, none => (.error .objectNameNotFound, s)
    | some subkey, some hive =>
      if Hive.hasKey hive subkey then
        let (id, s) := insertUnnamed s (.key ⟨canonicalizeNtPath path⟩)
        (.ok id, s)
      else (.error .objectNameNotFound, s)

/-! ## What the calls do to the objects -/

@[simp]
theorem objects_vfsClose
    (s : System H) (fd : Int) :
    (vfsClose s fd).objects = s.objects := by
  rw [vfsClose]
  split <;> rfl

@[simp]
theorem objects_vfsOpen
    (lookup : Vfs.Lookup) (s : System H) (path : Path) :
    (vfsOpen lookup s path).2.objects = s.objects := by
  rw [vfsOpen]
  split <;> rfl

@[simp]
theorem objects_release
    (s : System H) (id : Nat) :
    (release s id).2.objects = (s.objects.release id).2 := by
  rw [release]
  split
  next heq =>
    simp [heq]
  next heq =>
    simp [heq]
  next heq =>
    simp [heq]

end Handles
end Kernel
end Theos
