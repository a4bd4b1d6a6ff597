import Theos.Base.Memory
import Theos.Kernel.ModuleLoader
import Theos.Kernel.PathSpellings

/-!
# The environment of a process

`build_process_environment` maps sixteen pages and lays out the process parameters, the loader
data, the PEB and the TEB in them with a running cursor, and the names of the modules behind
the TEB.  Here it is the list of the stores that it makes, in their order.  Padding is stored
as zeros.

In the order of their addresses the areas do not overlap, whatever the lengths are: the areas go
up to the cursor at the end.  Nothing compares that cursor with the end of the pages.  How many
bytes there are up to it is told by the lengths of the image path, of the command line and of the
names of the modules.
-/

namespace Theos
namespace Kernel
namespace Environment

open Base Loader

def userEnvBase : Nat := 0x0000_7fff_f000_0000

def userEnvPages : Nat := 16

def userStackPages : Nat := 64

/-- The end of the pages that are mapped, where the bootstrap code is. -/
def userBootstrapBase : Nat := userEnvBase + userEnvPages * pageSize

/-- `encode_utf16`. -/
def encodeUtf16 (text : Text) : List Nat :=
  text.flatMap fun c =>
    if c.toNat < 0x10000 then [c.toNat]
    else [0xd800 + (c.toNat - 0x10000) / 0x400, 0xdc00 + (c.toNat - 0x10000) % 0x400]

/-- What `copy_utf16` stores: the units, and a zero. -/
def utf16Bytes (units : List Nat) : Bytes :=
  units.flatMap (toLE 2) ++ toLE 2 0

/-! ## Input -/

/-- What the environment is made of: the path the process was started with and what the record
of the process holds. -/
structure Start where
  ntPath : Text
  modules : List LoadedModule
  standardInput : Nat
  standardOutput : Nat
  standardError : Nat
  imageBase : Nat
  pid : Nat
  taskId : Nat
  stackTop : Nat

namespace Start

/-- `is_windows_real_init`. -/
def isWindowsRealInit (start : Start) : Bool :=
  "\\system32\\init.exe".toList.isSuffixOf (lower start.ntPath)

def isAutochk (start : Start) : Bool :=
  "\\system32\\autochk.exe".toList.isSuffixOf (lower start.ntPath)

/-- `image_utf16`. -/
def image (start : Start) : List Nat :=
  encodeUtf16 (if start.isWindowsRealInit then "\\SystemRoot\\System32\\autochk.exe".toList
    else start.ntPath)

/-- `cmd_utf16`. -/
def commandLine (start : Start) : List Nat :=
  encodeUtf16 (if start.isWindowsRealInit || start.isAutochk then "autochk autochk *".toList
    else start.ntPath)

/-- The modules, with the one that the process was started with in front. -/
def ordered (start : Start) : List LoadedModule :=
  let main := fun m : LoadedModule => sameText m.ntPath start.ntPath
  match start.modules.find? main with
  | some m => m :: start.modules.eraseP main
  | none => start.modules

end Start

/-! ## Structures -/

/-- `UnicodeString`, of a number of units; the lengths are cut to sixteen bits. -/
def unicodeString (units : List Nat) (buffer : Nat) : Bytes :=
  toLE 2 (2 * units.length) ++ toLE 2 (2 * units.length + 2) ++ toLE 4 0 ++ toLE 8 buffer

/-- `ListEntry`. -/
def listEntry (flink blink : Nat) : Bytes :=
  toLE 8 flink ++ toLE 8 blink

/-- `RtlUserProcessParameters`. -/
def paramsBytes (start : Start) (imageBuf cmdBuf : Nat) : Bytes :=
  toLE 4 136 ++ toLE 4 136 ++ toLE 4 1 ++ toLE 4 0 ++ toLE 8 0 ++ toLE 4 0 ++ toLE 4 0 ++
    toLE 8 start.standardInput ++ toLE 8 start.standardOutput ++ toLE 8 start.standardError ++
    List.replicate 24 0 ++ List.replicate 16 0 ++ unicodeString start.image imageBuf ++
    unicodeString start.commandLine cmdBuf ++ toLE 8 0

/-- `PebLdrData`, with the links of the heads of the three lists. -/
def ldrBytes (links : Nat → Nat × Nat) : Bytes :=
  toLE 4 64 ++ toLE 1 1 ++ List.replicate 3 0 ++ toLE 8 0 ++ listEntry (links 0).1 (links 0).2 ++
    listEntry (links 1).1 (links 1).2 ++ listEntry (links 2).1 (links 2).2

/-- `LdrDataTableEntry`, with its links in the three lists. -/
def entryBytes (links : Nat → Nat × Nat) (m : LoadedModule) (fullBuf baseBuf : Nat) : Bytes :=
  listEntry (links 0).1 (links 0).2 ++ listEntry (links 1).1 (links 1).2 ++
    listEntry (links 2).1 (links 2).2 ++ toLE 8 m.imageBase ++ toLE 8 m.entry ++
    toLE 4 m.sizeOfImage ++ toLE 4 0 ++ unicodeString (encodeUtf16 m.ntPath) fullBuf ++
    unicodeString (encodeUtf16 (Nt.moduleBasename m.ntPath)) baseBuf

/-- `Peb`. -/
def pebBytes (imageBase ldr params lock heaps : Nat) : Bytes :=
  List.replicate 16 0 ++ toLE 8 imageBase ++ toLE 8 ldr ++ toLE 8 params ++ List.replicate 16 0 ++
    toLE 8 lock ++ List.replicate 0x78 0 ++ toLE 4 1 ++ List.replicate 12 0 ++ toLE 8 0x100000 ++
    toLE 8 0x2000 ++ toLE 8 0x10000 ++ toLE 8 0x1000 ++ toLE 4 1 ++ toLE 4 1 ++ toLE 8 heaps

/-- `RtlCriticalSection`, with a lock count of -1. -/
def lockBytes : Bytes :=
  toLE 8 0 ++ toLE 4 0xffffffff ++ toLE 4 0 ++ toLE 8 0 ++ toLE 8 0 ++ toLE 8 0

/-- `Teb`. -/
def tebBytes (start : Start) (teb peb : Nat) : Bytes :=
  toLE 8 0 ++ toLE 8 start.stackTop ++ toLE 8 (start.stackTop - userStackPages * pageSize) ++
    List.replicate 24 0 ++ toLE 8 teb ++ toLE 8 0 ++ toLE 8 start.pid ++ toLE 8 start.taskId ++
    List.replicate 16 0 ++ toLE 8 peb

theorem length_utf16Bytes
    (units : List Nat) :
    (utf16Bytes units).length = 2 * units.length + 2 := by
  simp [utf16Bytes, List.length_flatMap, Nat.mul_comm]

theorem length_unicodeString
    (units : List Nat) (buffer : Nat) :
    (unicodeString units buffer).length = 16 := by
  simp [unicodeString]

theorem length_listEntry
    (flink blink : Nat) :
    (listEntry flink blink).length = 16 := by
  simp [listEntry]

theorem length_paramsBytes
    (start : Start) (imageBuf cmdBuf : Nat) :
    (paramsBytes start imageBuf cmdBuf).length = 136 := by
  -- an equation for so long a sum of lists takes Lean seconds
  delta paramsBytes
  simp [length_unicodeString]

theorem length_ldrBytes
    (links : Nat → Nat × Nat) :
    (ldrBytes links).length = 64 := by
  simp [ldrBytes, length_listEntry]

theorem length_entryBytes
    (links : Nat → Nat × Nat) (m : LoadedModule) (fullBuf baseBuf : Nat) :
    (entryBytes links m fullBuf baseBuf).length = 104 := by
  simp [entryBytes, length_listEntry, length_unicodeString]

theorem length_pebBytes
    (imageBase ldr params lock heaps : Nat) :
    (pebBytes imageBase ldr params lock heaps).length = 248 := by
  delta pebBytes
  simp only [List.length_append, length_toLE, List.length_replicate]

theorem length_tebBytes
    (start : Start) (teb peb : Nat) :
    (tebBytes start teb peb).length = 104 := by
  simp [tebBytes]

/-! ## Addresses -/

/-- The addresses that the cursor gives to the areas; the names of the modules are stored from
`strings` on. -/
structure Areas where
  params : Nat
  imageBuf : Nat
  cmdBuf : Nat
  ldr : Nat
  entries : Nat
  peb : Nat
  heaps : Nat
  lock : Nat
  teb : Nat
  strings : Nat

def areas (start : Start) : Areas :=
  let params := userEnvBase
  let imageBuf := alignTo 2 (params + 136)
  let cmdBuf := alignTo 2 (imageBuf + (2 * start.image.length + 2))
  let ldr := alignTo 16 (cmdBuf + (2 * start.commandLine.length + 2))
  let entries := alignTo 16 (ldr + 64)
  let peb := alignTo 16 (entries + start.ordered.length * 104)
  let heaps := alignTo 8 (peb + 248)
  let lock := alignTo 16 (heaps + 8)
  let teb := alignTo 16 (lock + 40)
  ⟨params, imageBuf, cmdBuf, ldr, entries, peb, heaps, lock, teb, teb + 104⟩

namespace Areas

/-- The head of the `k`-th list: the lists are in load, memory and initialization order. -/
def head (a : Areas) (k : Nat) : Nat :=
  a.ldr + 16 + 16 * k

/-- The link of the `i`-th module in the `k`-th list. -/
def link (a : Areas) (k i : Nat) : Nat :=
  a.entries + i * 104 + 16 * k

/-- The links of the head of a list of `n` modules. -/
def headLinks (a : Areas) (n k : Nat) : Nat × Nat :=
  if n = 0 then (a.head k, a.head k) else (a.link k 0, a.link k (n - 1))

/-- The links of the `i`-th of `n` modules. -/
def moduleLinks (a : Areas) (n i k : Nat) : Nat × Nat :=
  (if i + 1 = n then a.head k else a.link k (i + 1), if i = 0 then a.head k else a.link k (i - 1))

end Areas

/-- The buffers for the two names of a module, and the cursor behind them. -/
def nameBuffers (cursor : Nat) (m : LoadedModule) : Nat × Nat × Nat :=
  let fullBuf := alignTo 2 cursor
  let baseBuf := alignTo 2 (fullBuf + (2 * (encodeUtf16 m.ntPath).length + 2))
  (fullBuf, baseBuf, baseBuf + (2 * (encodeUtf16 (Nt.moduleBasename m.ntPath)).length + 2))

/-- The cursor at the end. -/
def stopOf (cursor : Nat) : List LoadedModule → Nat
  | [] => cursor
  | m :: rest => stopOf (nameBuffers cursor m).2.2 rest

/-! ## Stores -/

/-- The names of a module. -/
def nameStores (cursor : Nat) (m : LoadedModule) : List (Write UInt8) :=
  [⟨(nameBuffers cursor m).1, utf16Bytes (encodeUtf16 m.ntPath)⟩,
    ⟨(nameBuffers cursor m).2.1, utf16Bytes (encodeUtf16 (Nt.moduleBasename m.ntPath))⟩]

/-- The entry of the `i`-th of `n` modules. -/
def entryStore (a : Areas) (n i cursor : Nat) (m : LoadedModule) : Write UInt8 :=
  ⟨a.entries + i * 104,
    entryBytes (a.moduleLinks n i) m (nameBuffers cursor m).1 (nameBuffers cursor m).2.1⟩

/-- The loop over the modules. -/
def moduleStores (a : Areas) (n : Nat) : (i cursor : Nat) → List LoadedModule → List (Write UInt8)
  | _, _, [] => []
  | i, cursor, m :: rest =>
    nameStores cursor m ++ entryStore a n i cursor m ::
      moduleStores a n (i + 1) (nameBuffers cursor m).2.2 rest

/-- `seed_peb_version_fields`. -/
def versionStores (peb : Nat) : List (Write UInt8) :=
  [⟨peb + 0x118, toLE 4 10⟩, ⟨peb + 0x11c, toLE 4 0⟩, ⟨peb + 0x120, toLE 2 26100⟩,
    ⟨peb + 0x124, toLE 4 2⟩]

/-- The stores up to the PEB. -/
def firstStores (start : Start) : List (Write UInt8) :=
  let a := areas start
  [⟨a.imageBuf, utf16Bytes start.image⟩, ⟨a.cmdBuf, utf16Bytes start.commandLine⟩,
    ⟨a.params, paramsBytes start a.imageBuf a.cmdBuf⟩,
    ⟨a.ldr, ldrBytes (a.headLinks start.ordered.length)⟩] ++
    moduleStores a start.ordered.length 0 a.strings start.ordered ++
    [⟨a.peb, pebBytes start.imageBase a.ldr a.params a.lock a.heaps⟩]

/-- The stores behind the version fields. -/
def lastStores (start : Start) : List (Write UInt8) :=
  let a := areas start
  [⟨a.heaps, toLE 8 0⟩, ⟨a.lock, lockBytes⟩, ⟨a.teb, tebBytes start a.teb a.peb⟩]

/-- `build_process_environment`: its stores. -/
def environmentStores (start : Start) : List (Write UInt8) :=
  firstStores start ++ versionStores (areas start).peb ++ lastStores start

/-! ## In the order of the addresses -/

/-- The entries of the modules. -/
def entryStores (a : Areas) (n : Nat) : (i cursor : Nat) → List LoadedModule → List (Write UInt8)
  | _, _, [] => []
  | i, cursor, m :: rest =>
    entryStore a n i cursor m :: entryStores a n (i + 1) (nameBuffers cursor m).2.2 rest

/-- The names of the modules. -/
def stringStores : (cursor : Nat) → List LoadedModule → List (Write UInt8)
  | _, [] => []
  | cursor, m :: rest => nameStores cursor m ++ stringStores (nameBuffers cursor m).2.2 rest

theorem moduleStores_perm
    (a : Areas) (n i cursor : Nat) (modules : List LoadedModule) :
    (moduleStores a n i cursor modules).Perm
      (entryStores a n i cursor modules ++ stringStores cursor modules) := by
  induction modules generalizing i cursor with
  | nil =>
    exact List.Perm.nil
  | cons m rest ih =>
    have hrest := ih (i + 1) (nameBuffers cursor m).2.2
    rw [moduleStores, entryStores, stringStores, List.cons_append, ← List.append_assoc]
    refine List.perm_middle.trans (List.Perm.cons _ ?_)
    refine (List.Perm.append_left _ hrest).trans ?_
    rw [← List.append_assoc]
    exact List.perm_append_comm.append_right _

theorem ascending_entryStores
    (a : Areas) (n i cursor : Nat) (modules : List LoadedModule) :
    Ascending (a.entries + i * 104) (entryStores a n i cursor modules)
      (a.entries + (i + modules.length) * 104) := by
  induction modules generalizing i cursor with
  | nil =>
    exact Nat.le_refl _
  | cons m rest ih =>
    have hrest := ih (i + 1) (nameBuffers cursor m).2.2
    refine ⟨Nat.le_refl _, ?_⟩
    rw [Write.stop, entryStore, length_entryBytes, List.length_cons]
    convert hrest using 1 <;> ring

theorem ascending_stringStores
    (cursor : Nat) (modules : List LoadedModule) :
    Ascending cursor (stringStores cursor modules) (stopOf cursor modules) := by
  induction modules generalizing cursor with
  | nil =>
    exact Nat.le_refl _
  | cons m rest ih =>
    refine Ascending.append ?_ (ih (nameBuffers cursor m).2.2)
    refine ⟨le_alignTo (by decide) _, ?_, ?_⟩
    · rw [Write.stop, length_utf16Bytes]
      exact le_alignTo (by decide) _
    · change _ ≤ _
      rw [Write.stop, length_utf16Bytes]
      exact Nat.le_refl _

/-- The stores apart from the version fields, in the order of their addresses. -/
def sortedStores (start : Start) : List (Write UInt8) :=
  let a := areas start
  [⟨a.params, paramsBytes start a.imageBuf a.cmdBuf⟩, ⟨a.imageBuf, utf16Bytes start.image⟩,
    ⟨a.cmdBuf, utf16Bytes start.commandLine⟩,
    ⟨a.ldr, ldrBytes (a.headLinks start.ordered.length)⟩] ++
    entryStores a start.ordered.length 0 a.strings start.ordered ++
    ⟨a.peb, pebBytes start.imageBase a.ldr a.params a.lock a.heaps⟩ :: lastStores start ++
    stringStores a.strings start.ordered

theorem mem_sortedStores_of_last {start : Start} {w : Write UInt8} (h : w ∈ lastStores start) :
    w ∈ sortedStores start :=
  List.mem_append_left _ (List.mem_append_right _ (List.mem_cons_of_mem _ h))

theorem perm_sortedStores
    (start : Start) :
    (firstStores start ++ lastStores start).Perm (sortedStores start) := by
  have hmodules := moduleStores_perm (areas start) start.ordered.length 0 (areas start).strings
    start.ordered
  unfold firstStores sortedStores
  dsimp only
  generalize moduleStores _ _ _ _ _ = modules at hmodules
  generalize entryStores _ _ _ _ _ = entries at hmodules ⊢
  generalize stringStores _ _ = strings at hmodules ⊢
  rw [List.append_assoc _ [_] (lastStores start), List.singleton_append]
  -- the parameters come first, and the names behind the TEB
  have hfour : ∀ w₁ w₂ w₃ w₄ : Write UInt8, [w₁, w₂, w₃, w₄].Perm [w₃, w₁, w₂, w₄] :=
    fun w₁ w₂ w₃ w₄ => show ([w₁, w₂] ++ w₃ :: [w₄]).Perm _ from List.perm_middle
  refine ((List.Perm.append (hfour _ _ _ _) hmodules).append_right _).trans ?_
  rw [← List.append_assoc, List.append_assoc _ strings, List.append_assoc _ (_ :: _) strings]
  exact List.perm_append_comm.append_left _

/-- The end of the environment. -/
def environmentStop (start : Start) : Nat :=
  stopOf (areas start).strings start.ordered

theorem ascending_sortedStores
    (start : Start) :
    Ascending userEnvBase (sortedStores start) (environmentStop start) := by
  have hentries := ascending_entryStores (areas start) start.ordered.length 0 (areas start).strings
    start.ordered
  rw [Nat.zero_mul, Nat.zero_add] at hentries
  refine Ascending.append (Ascending.append (Ascending.append ?_ hentries) ?_)
    (ascending_stringStores _ _)
  · refine ⟨Nat.le_refl _, ?_, ?_, ?_, ?_⟩
    · rw [Write.stop, length_paramsBytes]
      exact le_alignTo (by decide) _
    · rw [Write.stop, length_utf16Bytes]
      exact le_alignTo (by decide) _
    · rw [Write.stop, length_utf16Bytes]
      exact le_alignTo (by decide) _
    · change _ ≤ _
      rw [Write.stop, length_ldrBytes]
      exact le_alignTo (by decide) _
  · refine ⟨le_alignTo (by decide) _, ?_, ?_, ?_, ?_⟩
    · rw [Write.stop, length_pebBytes]
      exact le_alignTo (by decide) _
    · rw [Write.stop, length_toLE]
      exact le_alignTo (by decide) _
    · exact le_alignTo (by decide) _
    · change _ ≤ _
      rw [Write.stop, length_tebBytes]
      exact Nat.le_refl _

/-- The areas behind the PEB. -/
theorem areas_behind_peb
    (start : Start) :
    (areas start).heaps = (areas start).peb + 0xf8 ∧ (areas start).lock = (areas start).peb + 0x100 ∧
      (areas start).teb = (areas start).peb + 0x130 := by
  unfold areas
  simp only [alignTo]
  omega

theorem mem_environmentStores
    {start : Start} {w : Write UInt8} :
    w ∈ environmentStores start ↔
      w ∈ sortedStores start ∨ w ∈ versionStores (areas start).peb := by
  rw [← (perm_sortedStores start).mem_iff, environmentStores, List.mem_append, List.mem_append,
    List.mem_append]
  exact or_right_comm

/-! ## The end of the pages -/

/-- The cursor at the end is the end of the last name. -/
theorem exists_stop_eq_stopOf {modules : List LoadedModule}
    (h : modules ≠ [])
    (cursor : Nat) :
    ∃ w ∈ stringStores cursor modules, w.stop = stopOf cursor modules := by
  induction modules generalizing cursor with
  | nil =>
    exact absurd rfl h
  | cons m rest ih =>
    rw [stringStores, stopOf]
    by_cases hrest : rest = []
    · subst hrest
      refine ⟨_, List.mem_append_left _ (List.mem_cons_of_mem _ (List.mem_singleton_self _)), ?_⟩
      rw [Write.stop, length_utf16Bytes]
      rfl
    · obtain ⟨w, hw, hstop⟩ := ih hrest (nameBuffers cursor m).2.2
      exact ⟨w, List.mem_append_right _ hw, hstop⟩

theorem exists_stop_eq_environmentStop
    (start : Start) :
    ∃ w ∈ sortedStores start, w.stop = environmentStop start := by
  by_cases hempty : start.ordered = []
  · refine ⟨⟨(areas start).teb, tebBytes start (areas start).teb (areas start).peb⟩, ?_, ?_⟩
    · apply mem_sortedStores_of_last
      exact List.mem_cons_of_mem _ (List.mem_cons_of_mem _ (List.mem_singleton_self _))
    · rw [Write.stop, length_tebBytes, environmentStop, hempty]
      rfl
  · obtain ⟨w, hw, hstop⟩ := exists_stop_eq_stopOf hempty (areas start).strings
    exact ⟨w, List.mem_append_right _ hw, hstop⟩

theorem versionStores_inside {start : Start} {w : Write UInt8}
    (hw : w ∈ versionStores (areas start).peb) :
    userEnvBase ≤ w.off ∧ w.stop ≤ environmentStop start := by
  obtain ⟨-, hlock, -⟩ := areas_behind_peb start
  have hmem : (⟨(areas start).lock, lockBytes⟩ : Write UInt8) ∈ sortedStores start :=
    mem_sortedStores_of_last (List.mem_cons_of_mem _ List.mem_cons_self)
  obtain ⟨hlow, hhigh⟩ := (ascending_sortedStores start).bounds hmem
  have hlength : lockBytes.length = 40 := rfl
  rw [Write.stop, hlength, hlock] at hhigh
  dsimp only at hlow hhigh
  rw [hlock] at hlow
  simp only [versionStores, List.mem_cons, List.not_mem_nil, or_false] at hw
  rcases hw with rfl | rfl | rfl | rfl <;> simp only [Write.stop, length_toLE] <;> omega

/-! ## The size of the environment -/

/-- The bytes that the two names of a module take. -/
def nameSize (m : LoadedModule) : Nat :=
  2 * (encodeUtf16 m.ntPath).length + 2 * (encodeUtf16 (Nt.moduleBasename m.ntPath)).length + 4

/-- The bytes that the environment takes: the parameters and their two strings, the entries of
the modules, the structures of a fixed size, and the names of the modules. -/
def environmentSize (start : Start) : Nat :=
  alignTo 16 (140 + 2 * (start.image.length + start.commandLine.length)) +
    alignTo 16 (start.modules.length * 104) + 472 + (start.modules.map nameSize).sum

/-- Strings start at even addresses, so nothing is lost between names. -/
theorem stopOf_eq {cursor : Nat}
    (heven : cursor % 2 = 0)
    (modules : List LoadedModule) :
    stopOf cursor modules = cursor + (modules.map nameSize).sum := by
  induction modules generalizing cursor with
  | nil =>
    rfl
  | cons m rest ih =>
    have hnext : (nameBuffers cursor m).2.2 = cursor + nameSize m := by
      simp only [nameBuffers, nameSize, alignTo]
      omega
    have hsize : nameSize m % 2 = 0 := by
      simp only [nameSize]
      omega
    rw [stopOf, hnext, ih (by omega), List.map_cons, List.sum_cons, Nat.add_assoc]

theorem ordered_perm
    (start : Start) :
    start.ordered.Perm start.modules := by
  rw [Start.ordered]
  split
  next m hfind =>
    obtain ⟨hmain, front, back, hsplit, hnot⟩ := List.find?_eq_some_iff_append.mp hfind
    rw [hsplit, List.eraseP_append_right _ (by simpa using hnot), List.eraseP_cons, hmain, cond_true]
    exact List.perm_middle.symm
  next =>
    exact List.Perm.refl _

theorem strings_eq
    (start : Start) :
    (areas start).strings = userEnvBase +
      (alignTo 16 (140 + 2 * (start.image.length + start.commandLine.length)) +
        alignTo 16 (start.ordered.length * 104) + 472) := by
  unfold areas userEnvBase
  simp only [alignTo]
  omega

theorem environmentStop_eq
    (start : Start) :
    environmentStop start = userEnvBase + environmentSize start := by
  have heven : (areas start).strings % 2 = 0 := by
    rw [strings_eq]
    simp only [alignTo, userEnvBase]
    omega
  rw [environmentStop, stopOf_eq heven, strings_eq, (ordered_perm start).length_eq,
    ((ordered_perm start).map nameSize).sum_eq, environmentSize, Nat.add_assoc]

/-- **The environment and its pages.**  Every store of `build_process_environment` lies in the
pages that it maps exactly if the environment is no larger than they are. -/
theorem environment_confined_iff (start : Start) :
    (∀ w ∈ environmentStores start, userEnvBase ≤ w.off ∧ w.stop ≤ userBootstrapBase) ↔
      environmentSize start ≤ userEnvPages * pageSize := by
  have hsize : environmentStop start ≤ userBootstrapBase ↔
      environmentSize start ≤ userEnvPages * pageSize := by
    rw [environmentStop_eq, userBootstrapBase]
    exact Nat.add_le_add_iff_left
  rw [← hsize]
  constructor
  · intro h
    obtain ⟨w, hw, hstop⟩ := exists_stop_eq_environmentStop start
    rw [← hstop]
    exact (h w (mem_environmentStores.mpr (.inl hw))).2
  · intro hstop w hw
    rcases mem_environmentStores.mp hw with hw | hw
    · obtain ⟨hlow, hhigh⟩ := (ascending_sortedStores start).bounds hw
      exact ⟨hlow, hhigh.trans hstop⟩
    · obtain ⟨hlow, hhigh⟩ := versionStores_inside hw
      exact ⟨hlow, hhigh.trans hstop⟩

/-- The modules and the path of the session manager. -/
def smssStart : Start where
  ntPath := "\\SystemRoot\\System32\\smss.exe".toList
  modules := ["ntdll.dll", "smss.exe"].map fun name =>
    { ntPath := "\\SystemRoot\\System32\\".toList ++ name.toList
      imageBase := 0x140000000
      sizeOfImage := 0x26000
      entry := 0x140001000
      exportsByName := []
      exportsByOrdinal := []
      dllName := name.toList }
  standardInput := 0
  standardOutput := 0
  standardError := 0
  imageBase := 0x140000000
  pid := 1
  taskId := 1
  stackTop := userEnvBase

/-- The environment of the session manager takes 1096 bytes. -/
theorem smss_environment_confined :
    environmentSize smssStart = 1096 ∧
      ∀ w ∈ environmentStores smssStart, userEnvBase ≤ w.off ∧ w.stop ≤ userBootstrapBase := by
  have hsize : environmentSize smssStart = 1096 := by decide +kernel
  exact ⟨hsize, (environment_confined_iff smssStart).mpr (by rw [hsize]; decide)⟩

/-! ## A long path -/

def systemDirectory : Text :=
  "\\SystemRoot\\System32".toList

def smss : Text :=
  "smss.exe".toList

/-- A spelling of `\SystemRoot\System32\smss.exe` with more separators. -/
def spreadPath (n : Nat) : Text :=
  systemDirectory ++ List.replicate (n + 1) '\\' ++ smss

theorem canonicalizeNtPath_spreadPath
    (n : Nat) :
    Nt.canonicalizeNtPath (spreadPath n) = systemDirectory ++ '\\' :: smss := by
  have hfront : ∃ rest, systemDirectory = '\\' :: 'S' :: rest :=
    ⟨systemDirectory.drop 2, by decide +kernel⟩
  obtain ⟨rest, hrest⟩ := hfront
  have hextended : ∀ tail, ¬ Nt.IsExtended ('\\' :: 'S' :: tail) :=
    Nt.not_isExtended (by decide)
  have hsame := Nt.sameSpelling_replicate '\\' ('S' :: rest) smss n
  have hcanonical := (Nt.canonicalizeNtPath_eq_iff (by simp) (by simp) hsame).mpr
    (iff_of_false (hextended _) (hextended _))
  rw [← hrest] at hcanonical
  refine hcanonical.trans ?_
  decide +kernel

theorem length_spreadPath
    (n : Nat) :
    (spreadPath n).length = n + 29 := by
  have hfront : systemDirectory.length = 20 := by decide +kernel
  have hname : smss.length = 8 := by decide +kernel
  rw [spreadPath, List.length_append, List.length_append, List.length_replicate, hfront, hname]
  omega

theorem length_le_encodeUtf16
    (text : Text) :
    text.length ≤ (encodeUtf16 text).length := by
  induction text with
  | nil =>
    exact Nat.le_refl _
  | cons c text ih =>
    rw [encodeUtf16, List.flatMap_cons, List.length_append, ← encodeUtf16, List.length_cons]
    split
    · rw [List.length_singleton]
      omega
    · simp only [List.length_cons]
      omega

theorem not_isSuffixOf_spreadPath {front name : Text}
    (hlength : name.length = smss.length)
    (hne : name ≠ smss)
    (n : Nat) :
    (front ++ name).isSuffixOf (lower (spreadPath n)) = false := by
  rw [← Bool.not_eq_true]
  intro hsuffix
  have hlower : lower (spreadPath n) =
      lower (systemDirectory ++ List.replicate (n + 1) '\\') ++ lower smss :=
    List.map_append ..
  have hname : name <:+ lower (spreadPath n) :=
    (List.suffix_append front name).trans (List.isSuffixOf_iff_suffix.mp hsuffix)
  rw [hlower, show lower smss = smss by decide +kernel] at hname
  have hsmss := List.suffix_of_suffix_length_le hname (List.suffix_append ..) hlength.le
  exact hne (hsmss.eq_of_length hlength)

theorem commandLine_spreadPath {start : Start} {n : Nat}
    (h : start.ntPath = spreadPath n) :
    start.image = encodeUtf16 (spreadPath n) ∧ start.commandLine = encodeUtf16 (spreadPath n) := by
  have hinit : start.isWindowsRealInit = false := by
    rw [Start.isWindowsRealInit, h, show "\\system32\\init.exe".toList =
      "\\system32\\".toList ++ "init.exe".toList by decide +kernel]
    exact not_isSuffixOf_spreadPath (by decide +kernel) (by decide +kernel) n
  have hautochk : start.isAutochk = false := by
    rw [Start.isAutochk, h, show "\\system32\\autochk.exe".toList =
      "\\system32\\aut".toList ++ "ochk.exe".toList by decide +kernel]
    exact not_isSuffixOf_spreadPath (by decide +kernel) (by decide +kernel) n
  rw [Start.image, Start.commandLine, hinit, hautochk, h]
  exact ⟨rfl, rfl⟩

/-- The command line of a process that is started with such a path is stored across the end of
the pages. -/
theorem long_path_leaves_environment :
    Nt.canonicalizeNtPath (spreadPath 16384) = systemDirectory ++ '\\' :: smss ∧
      ∀ start : Start, start.ntPath = spreadPath 16384 →
        ∃ w ∈ environmentStores start, userBootstrapBase < w.stop := by
  refine ⟨canonicalizeNtPath_spreadPath _, fun start hstart => ?_⟩
  obtain ⟨himage, hcommand⟩ := commandLine_spreadPath hstart
  have hlength := length_spreadPath 16384
  have hunits := length_le_encodeUtf16 (spreadPath 16384)
  have hmem : (⟨(areas start).cmdBuf, utf16Bytes start.commandLine⟩ : Write UInt8) ∈
      sortedStores start :=
    List.mem_append_left _ (List.mem_append_left _ (List.mem_append_left _
      (List.mem_cons_of_mem _ (List.mem_cons_of_mem _ List.mem_cons_self))))
  refine ⟨_, mem_environmentStores.mpr (.inl hmem), ?_⟩
  have hfirst : userEnvBase + 136 ≤ (areas start).imageBuf := le_alignTo (by decide) _
  have hsecond : (areas start).imageBuf + (2 * start.image.length + 2) ≤ (areas start).cmdBuf :=
    le_alignTo (by decide) _
  rw [Write.stop, length_utf16Bytes, hcommand]
  rw [himage] at hsecond
  simp only [userBootstrapBase, userEnvPages, pageSize]
  omega

end Environment
end Kernel
end Theos
