import Mathlib.Data.Finset.Sort
import Theos.Base.Footprint
import Theos.Kernel.Nt
import Theos.Kernel.UserMemory

/-!
# Where system calls store

The calls of `kernel/user.rs` that return data through pointers, as `syscall_dispatch`
makes them: the pointers are taken from the registers and from the caller's stack, and some
from a UNICODE_STRING that they point to.  Nothing but a null check is made on them, so a
call stores wherever it is told, and its stores stay in the caller's memory exactly if
the caller asks for that: `Call.Allowed` says for each call which areas these are.

What the object manager, the file system and the registry answer is an argument.  A store
through a misaligned pointer counts as a store, although a checked build refuses it.
-/

namespace Theos
namespace Kernel

open Base

def NtStatus.code : NtStatus → Nat
  | .success => 0
  | .notImplemented => 0xC0000002
  | .invalidHandle => 0xC0000008
  | .invalidParameter => 0xC000000D
  | .noMemory => 0xC0000017
  | .accessDenied => 0xC0000022
  | .objectTypeMismatch => 0xC0000024
  | .objectNameNotFound => 0xC0000034
  | .objectPathNotFound => 0xC000003A
  | .objectNameCollision => 0xC0000035
  | .unsuccessful => 0xC0000001
  | .pending => 0x00000103
  | .timeout => 0x00000102
  | .invalidImageFormat => 0xC000007B
  | .notSupported => 0xC00000BB
  | .infoLengthMismatch => 0xC0000004
  | .bufferTooSmall => 0xC0000023
  | .endOfFile => 0xC0000011
  | .noMoreEntries => 0x8000001A

namespace Syscall

/-- UTF-16 code units. -/
abbrev Units := List Nat

/-- What the rest of the kernel answers to a call. -/
structure Answers where
  resolveHandleEntry : Nat → Except NtStatus Nat
  /-- The name of the object that a path is relative to. -/
  objectName : Nat → Except NtStatus Units
  createEvent : (manualReset initialState : Bool) → Except NtStatus Nat
  createFile : Units → Except NtStatus Nat
  createSection : (path name : Option Units) → (protection attributes size : Nat) →
    Except NtStatus Nat
  openSection : Units → Except NtStatus Nat
  openKey : (access : Nat) → Units → Except NtStatus Nat
  setEvent : Nat → Except NtStatus Bool
  resetEvent : Nat → Except NtStatus Bool
  /-- The bytes that a read of at most this length has put into its buffer, and how many of
  them it reports. -/
  read : (object length : Nat) → Bytes × Except NtStatus Nat
  /-- The size of a file, and whether it is a directory. -/
  fstat : Nat → Except NtStatus (Nat × Bool)
  position : Nat → Except NtStatus Nat
  path : Nat → Except NtStatus Units
  keyValue : Nat → Units → Except NtStatus (Nat × Bytes)
  directoryEntries : Nat → Except NtStatus (List (Units × Units))
  linkTarget : Nat → Except NtStatus Units

/-! ## Reading the caller's structures -/

/-- `char::decode_utf16` finds no unpaired surrogate. -/
def decodes : Units → Bool
  | [] => true
  | [u] => u < 0xD800 || 0xDFFF < u
  | u :: v :: rest =>
    if u < 0xD800 ∨ 0xDFFF < u then decodes (v :: rest)
    else u < 0xDC00 && 0xDC00 ≤ v && v ≤ 0xDFFF && decodes rest

def loadUnits (m : Memory) (addr len : Nat) : Units :=
  (List.range len).map fun i => m.word (addr + 2 * i) 2

def readUtf16String (us : Nat) (m : Memory) : Rust NtStatus Units :=
  let buffer := m.word (us + 8) 8
  if us = 0 ∨ buffer = 0 then Rust.err .invalidParameter
  else
    let units := loadUnits m buffer (m.word us 2 / 2)
    if decodes units then .ok units else Rust.err .invalidParameter

def backslash : Nat := 0x5C

def pathFromObjectAttributes (answers : Answers) (attributes : Nat) (m : Memory) :
    Rust NtStatus Units :=
  let rootDirectory := m.word (attributes + 8) 8
  let objectName := m.word (attributes + 16) 8
  if attributes = 0 ∨ objectName = 0 then Rust.err .invalidParameter
  else do
    let path ← readUtf16String objectName m
    if rootDirectory = 0 ∨ path.head? = some backslash then return path
    let root ← (answers.resolveHandleEntry rootDirectory).mapError .error
    let rootPath ← (answers.objectName root).mapError .error
    if rootPath.getLast? = some backslash then return rootPath ++ path
    return rootPath ++ backslash :: path

/-! ## What is stored -/

def unitsLE (units : Units) : Bytes :=
  units.flatMap (toLE 2)

def ioStatusBlock (status : NtStatus) (information : Nat) : Bytes :=
  toLE 4 status.code ++ toLE 4 0 ++ toLE 8 information

def unicodeString (length maximumLength buffer : Nat) : Bytes :=
  toLE 2 length ++ toLE 2 maximumLength ++ toLE 4 0 ++ toLE 8 buffer

/-- The two UNICODE_STRINGs that describe an entry of a directory. -/
def objectDirectoryInformation (entry : Units × Units) (nameAddr kindAddr : Nat) : Bytes :=
  unicodeString (2 * entry.1.length) (2 * (entry.1.length + 1)) nameAddr ++
    unicodeString (2 * entry.2.length) (2 * (entry.2.length + 1)) kindAddr

def fileStandardInformation (size : Nat) (directory : Bool) : Bytes :=
  toLE 8 size ++ toLE 8 size ++ toLE 4 1 ++ [0, if directory then 1 else 0, 0, 0]

def keyValuePartialInformationHeader (type len : Nat) : Bytes :=
  toLE 4 0 ++ toLE 4 type ++ toLE 4 len

structure MemoryBasicInformation where
  baseAddress : Nat
  allocationBase : Nat
  allocationProtect : Nat
  regionSize : Nat
  state : Nat
  protect : Nat
  type : Nat

def MemoryBasicInformation.bytes (info : MemoryBasicInformation) : Bytes :=
  toLE 8 info.baseAddress ++ toLE 8 info.allocationBase ++ toLE 4 info.allocationProtect ++
    toLE 2 0 ++ toLE 2 0 ++ toLE 8 info.regionSize ++ toLE 4 info.state ++
    toLE 4 info.protect ++ toLE 4 info.type ++ toLE 4 0

section Lengths

@[simp]
theorem length_unitsLE
    (units : Units) :
    (unitsLE units).length = 2 * units.length := by
  induction units with
  | nil =>
    rfl
  | cons u units ih =>
    simp only [unitsLE, List.flatMap_cons, List.length_append, length_toLE,
      List.length_cons] at ih ⊢
    omega

@[simp]
theorem length_ioStatusBlock
    (status : NtStatus) (information : Nat) :
    (ioStatusBlock status information).length = 16 := by
  simp [ioStatusBlock]

@[simp]
theorem length_objectDirectoryInformation
    (entry : Units × Units) (nameAddr kindAddr : Nat) :
    (objectDirectoryInformation entry nameAddr kindAddr).length = 32 := by
  simp [objectDirectoryInformation, unicodeString]

@[simp]
theorem length_fileStandardInformation
    (size : Nat) (directory : Bool) :
    (fileStandardInformation size directory).length = 24 := by
  simp [fileStandardInformation]

@[simp]
theorem length_keyValuePartialInformationHeader
    (type len : Nat) :
    (keyValuePartialInformationHeader type len).length = 12 := by
  simp [keyValuePartialInformationHeader]

@[simp]
theorem MemoryBasicInformation.length_bytes
    (info : MemoryBasicInformation) :
    info.bytes.length = 48 := by
  simp [MemoryBasicInformation.bytes]

end Lengths

/-! ## Handles to new objects -/

/-- The end of the calls that return a handle. -/
def storeHandle (outHandle : Nat) (handle : Except NtStatus Nat) : Storing NtStatus Unit := do
  let handle ← Storing.answer handle
  Storing.store outHandle (toLE 8 handle)

def createEvent (answers : Answers) (outHandle eventType : Nat) (initialState : Bool) :
    Storing NtStatus Unit := do
  Storing.refuse (outHandle = 0) .invalidParameter
  storeHandle outHandle (answers.createEvent (eventType = 0) initialState)

def createFile (answers : Answers) (outHandle objectAttributes ioStatus : Nat) :
    Storing NtStatus Unit := do
  Storing.refuse (outHandle = 0) .invalidParameter
  let path ← Storing.reads (pathFromObjectAttributes answers objectAttributes)
  storeHandle outHandle (answers.createFile path)
  Storing.storeOpt ioStatus (ioStatusBlock .success 1)

def openSection (answers : Answers) (outHandle objectAttributes : Nat) :
    Storing NtStatus Unit := do
  Storing.refuse (outHandle = 0) .invalidParameter
  let name ← Storing.reads (pathFromObjectAttributes answers objectAttributes)
  storeHandle outHandle (answers.openSection name)

def openKey (answers : Answers) (outHandle desiredAccess objectAttributes : Nat) :
    Storing NtStatus Unit := do
  Storing.refuse (outHandle = 0) .invalidParameter
  let path ← Storing.reads (pathFromObjectAttributes answers objectAttributes)
  storeHandle outHandle (answers.openKey desiredAccess path)

/-- The path of the file of a new section, if there is one. -/
def sectionPath (answers : Answers) (fileHandle : Nat) : Except NtStatus (Option Units) :=
  if fileHandle = 0 then .ok none
  else do
    let object ← answers.resolveHandleEntry fileHandle
    let path ← answers.path object
    return some path

/-- The name of a new section, if it has one. -/
def sectionName (answers : Answers) (objectAttributes : Nat) (m : Memory) :
    Rust NtStatus (Option Units) :=
  if objectAttributes = 0 then .ok none
  else do
    let name ← pathFromObjectAttributes answers objectAttributes m
    return some name

/-- A negative size counts as 0. -/
def sectionSize (maximumSize : Nat) (m : Memory) : Nat :=
  let size := m.word maximumSize 8
  if maximumSize = 0 ∨ 2 ^ 63 ≤ size then 0 else size

def createSection (answers : Answers)
    (outHandle objectAttributes maximumSize protection attributes fileHandle : Nat) :
    Storing NtStatus Unit := do
  Storing.refuse (outHandle = 0) .invalidParameter
  let path ← Storing.answer (sectionPath answers fileHandle)
  let name ← Storing.reads (sectionName answers objectAttributes)
  let size ← Storing.reads fun m => .ok (sectionSize maximumSize m)
  storeHandle outHandle (answers.createSection path name protection attributes size)

/-! ## Events -/

/-- The end of `set_event` and `reset_event`: the state before the call. -/
def storePrevious (previousState : Nat) (old : Except NtStatus Bool) :
    Storing NtStatus Unit := do
  let old ← Storing.answer old
  Storing.storeOpt previousState (toLE 4 old.toNat)

def setEvent (answers : Answers) (handle previousState : Nat) : Storing NtStatus Unit := do
  let object ← Storing.answer (answers.resolveHandleEntry handle)
  storePrevious previousState (answers.setEvent object)

def resetEvent (answers : Answers) (handle previousState : Nat) : Storing NtStatus Unit := do
  let object ← Storing.answer (answers.resolveHandleEntry handle)
  storePrevious previousState (answers.resetEvent object)

/-! ## Files -/

def readFile (answers : Answers) (handle ioStatus buffer length : Nat) :
    Storing NtStatus Unit := do
  Storing.refuse (buffer = 0) .invalidParameter
  let object ← Storing.answer (answers.resolveHandleEntry handle)
  Storing.store buffer (answers.read object length).1
  let n ← Storing.answer (answers.read object length).2
  let status := if n = 0 then NtStatus.endOfFile else .success
  Storing.storeOpt ioStatus (ioStatusBlock status n)
  Storing.refuse (n = 0) .endOfFile

/-- The classes `FILE_STANDARD_INFORMATION_CLASS`, `FILE_POSITION_INFORMATION_CLASS` and
`FILE_NAME_INFORMATION_CLASS`; the status is stored before it is returned. -/
def fileInformation (answers : Answers) (object information length infoClass : Nat) :
    Storing NtStatus NtStatus :=
  match infoClass with
  | 5 =>
    if length < 24 then pure .infoLengthMismatch
    else do
      let stat ← Storing.answer (answers.fstat object)
      Storing.store information (fileStandardInformation stat.1 stat.2)
      pure .success
  | 14 =>
    if length < 8 then pure .infoLengthMismatch
    else do
      let offset ← Storing.answer (answers.position object)
      Storing.store information (toLE 8 offset)
      pure .success
  | 9 => do
    let path ← Storing.answer (answers.path object)
    if length < 4 + 2 * path.length then pure .bufferTooSmall
    else do
      Storing.store information (toLE 4 (2 * path.length))
      Storing.store (information + 4) (unitsLE path)
      pure .success
  | _ => pure .notSupported

def queryInformationFile (answers : Answers)
    (handle ioStatus information length infoClass : Nat) : Storing NtStatus Unit := do
  Storing.refuse (information = 0) .invalidParameter
  let object ← Storing.answer (answers.resolveHandleEntry handle)
  let status ← fileInformation answers object information length infoClass
  Storing.storeOpt ioStatus (ioStatusBlock status length)
  Storing.refuse (status ≠ .success) status

/-! ## Keys, directories and links -/

def queryValueKey (answers : Answers)
    (handle valueName infoClass information length resultLength : Nat) :
    Storing NtStatus Unit := do
  Storing.refuse (infoClass ≠ 2) .notSupported
  let name ← Storing.reads (readUtf16String valueName)
  let object ← Storing.answer (answers.resolveHandleEntry handle)
  let value ← Storing.answer (answers.keyValue object name)
  let needed := 12 + value.2.length
  Storing.storeOpt resultLength (toLE 4 needed)
  Storing.refuse (information = 0 ∨ length < needed) .bufferTooSmall
  Storing.store information (keyValuePartialInformationHeader value.1 value.2.length)
  Storing.store (information + 12) value.2

/-- The names of an entry follow its description. -/
def storeDirectoryEntry (buffer nameAddr kindAddr : Nat) (entry : Units × Units) :
    Storing NtStatus Unit := do
  Storing.store buffer (objectDirectoryInformation entry nameAddr kindAddr)
  Storing.store nameAddr (unitsLE (entry.1 ++ [0]))
  Storing.store kindAddr (unitsLE (entry.2 ++ [0]))

/-- The part of `query_directory_object` after the index is read. -/
def nextEntry (buffer length context returnLength : Nat) (entries : List (Units × Units))
    (index : Nat) : Storing NtStatus Unit :=
  match entries[index]? with
  | none => do
    Storing.storeOpt returnLength (toLE 4 0)
    Storing.err .noMoreEntries
  | some entry => do
    let kindOff := 32 + 2 * (entry.1.length + 1)
    let needed := kindOff + 2 * (entry.2.length + 1)
    Storing.storeOpt returnLength (toLE 4 needed)
    Storing.refuse (length < needed) .bufferTooSmall
    let nameAddr ← Storing.orPanic (addU 64 buffer 32)
    let kindAddr ← Storing.orPanic (addU 64 buffer kindOff)
    storeDirectoryEntry buffer nameAddr kindAddr entry
    Storing.store context (toLE 4 (index + 1))

def queryDirectoryObject (answers : Answers) (handle buffer length : Nat) (restartScan : Bool)
    (context returnLength : Nat) : Storing NtStatus Unit := do
  Storing.refuse (buffer = 0 ∨ context = 0) .invalidParameter
  let object ← Storing.answer (answers.resolveHandleEntry handle)
  let entries ← Storing.answer (answers.directoryEntries object)
  if restartScan then Storing.store context (toLE 4 0)
  let index ← Storing.reads fun m => .ok (m.word context 4)
  nextEntry buffer length context returnLength entries index

def querySymbolicLinkObject (answers : Answers) (handle targetName returnLength : Nat) :
    Storing NtStatus Unit := do
  Storing.refuse (targetName = 0) .invalidParameter
  let object ← Storing.answer (answers.resolveHandleEntry handle)
  let target ← Storing.answer (answers.linkTarget object)
  let bytesLen := 2 * target.length % 2 ^ 32
  Storing.storeOpt returnLength (toLE 4 bytesLen)
  let buffer ← Storing.reads fun m => .ok (m.word (targetName + 8) 8)
  Storing.refuse (buffer = 0) .invalidParameter
  let maximumLength ← Storing.reads fun m => .ok (m.word (targetName + 2) 2)
  if maximumLength < bytesLen then
    Storing.store targetName (toLE 2 0)
    Storing.err .bufferTooSmall
  else
    Storing.store buffer (unitsLE target)
    Storing.store targetName (toLE 2 bytesLen)

/-! ## Memory -/

/-- The mappings of the caller, sorted by their start. -/
def sortedMappings (space : AddressSpace) : List UserMapping :=
  (space.mappings.keys.sort (· ≤ ·)).filterMap fun start => space.mappings.lookup start

/-- The start of the run of pages with one protection that ends at a page; the mappings
before it, the nearest first. -/
def runStart (prot : Nat) : Nat → List UserMapping → Nat
  | start, [] => start
  | start, mapping :: rest =>
    if mapping.start + pageSize = start ∧ mapping.prot = prot then
      runStart prot mapping.start rest
    else start

/-- The last page of the run of pages with one protection that begins at a page. -/
def runEnd (prot : Nat) : Nat → List UserMapping → Option Nat
  | start, [] => some start
  | start, mapping :: rest => do
    let next ← addU 64 start pageSize
    if mapping.start = next ∧ mapping.prot = prot then runEnd prot mapping.start rest
    else some start

def userStackTop : Nat := 0x00007fffff000000

/-- The information on a page; `none` is an overflow. -/
def memoryBasicInformation (mappings : List UserMapping) (baseAddress : Nat) :
    Option MemoryBasicInformation :=
  let target := baseAddress / pageSize * pageSize
  match mappings.dropWhile fun mapping => mapping.start ≠ target with
  | mapping :: after => do
    let last ← runEnd mapping.prot mapping.start after
    let regionEnd ← addU 64 last pageSize
    let regionSize ← subU regionEnd target
    let before := (mappings.takeWhile fun mapping => mapping.start ≠ target).reverse
    return ⟨target, runStart mapping.prot mapping.start before, mapping.prot, regionSize,
      0x1000, mapping.prot, 0x20000⟩
  | [] => do
    let regionEnd := ((mappings.find? fun mapping => target < mapping.start).map
      UserMapping.start).getD userStackTop
    let regionSize ← subU regionEnd target
    return ⟨target, 0, 0, regionSize, 0x10000, 0x01, 0⟩

def queryVirtualMemory (space : AddressSpace)
    (processHandle baseAddress infoClass information length returnLength : Nat) :
    Storing NtStatus Unit := do
  Storing.refuse (processHandle ≠ usizeMax ∨ information = 0) .invalidParameter
  Storing.refuse (infoClass ≠ 0) .notSupported
  Storing.refuse (length < 48) .infoLengthMismatch
  let info ← Storing.orPanic (memoryBasicInformation (sortedMappings space) baseAddress)
  Storing.store information info.bytes
  Storing.storeOpt returnLength (toLE 8 48)

/-! ## Dispatch -/

/-- The calls, with their arguments. -/
inductive Call where
  | readFile (handle ioStatus buffer length : Nat)
  | queryInformationFile (handle ioStatus information length infoClass : Nat)
  | queryValueKey (handle valueName infoClass information length resultLength : Nat)
  | queryDirectoryObject (handle buffer length : Nat) (restartScan : Bool)
      (context returnLength : Nat)
  | querySymbolicLinkObject (handle targetName returnLength : Nat)
  | queryVirtualMemory (processHandle baseAddress infoClass information length
      returnLength : Nat)
  | createEvent (outHandle eventType : Nat) (initialState : Bool)
  | createFile (outHandle objectAttributes ioStatus : Nat)
  | createSection (outHandle objectAttributes maximumSize protection attributes
      fileHandle : Nat)
  | openSection (outHandle objectAttributes : Nat)
  | openKey (outHandle desiredAccess objectAttributes : Nat)
  | setEvent (handle previousState : Nat)
  | resetEvent (handle previousState : Nat)

def Call.run (space : AddressSpace) (answers : Answers) : Call → Storing NtStatus Unit
  | .readFile handle ioStatus buffer length =>
    Syscall.readFile answers handle ioStatus buffer length
  | .queryInformationFile handle ioStatus information length infoClass =>
    Syscall.queryInformationFile answers handle ioStatus information length infoClass
  | .queryValueKey handle valueName infoClass information length resultLength =>
    Syscall.queryValueKey answers handle valueName infoClass information length resultLength
  | .queryDirectoryObject handle buffer length restartScan context returnLength =>
    Syscall.queryDirectoryObject answers handle buffer length restartScan context returnLength
  | .querySymbolicLinkObject handle targetName returnLength =>
    Syscall.querySymbolicLinkObject answers handle targetName returnLength
  | .queryVirtualMemory processHandle baseAddress infoClass information length returnLength =>
    Syscall.queryVirtualMemory space processHandle baseAddress infoClass information length
      returnLength
  | .createEvent outHandle eventType initialState =>
    Syscall.createEvent answers outHandle eventType initialState
  | .createFile outHandle objectAttributes ioStatus =>
    Syscall.createFile answers outHandle objectAttributes ioStatus
  | .createSection outHandle objectAttributes maximumSize protection attributes fileHandle =>
    Syscall.createSection answers outHandle objectAttributes maximumSize protection attributes
      fileHandle
  | .openSection outHandle objectAttributes =>
    Syscall.openSection answers outHandle objectAttributes
  | .openKey outHandle desiredAccess objectAttributes =>
    Syscall.openKey answers outHandle desiredAccess objectAttributes
  | .setEvent handle previousState => Syscall.setEvent answers handle previousState
  | .resetEvent handle previousState => Syscall.resetEvent answers handle previousState

/-- The registers that `syscall_handler` saves, with the arguments `a0` to `a5` in `rdi`,
`rsi`, `rdx`, `r10`, `r8` and `r9`. -/
structure SyscallFrame where
  nr : Nat
  rdi : Nat
  rsi : Nat
  rdx : Nat
  r10 : Nat
  r8 : Nat
  r9 : Nat
  userRsp : Nat

def stackArg (frame : SyscallFrame) (m : Memory) (index : Nat) : Rust NtStatus Nat := do
  let ptr ← Rust.orPanic (addU 64 frame.userRsp 0x28)
  let ptr ← Rust.orPanic (addU 64 ptr (8 * index))
  return m.word ptr 8

/-- `as u32`. -/
def asU32 (n : Nat) : Nat :=
  n % 2 ^ 32

/-- The call that `syscall_dispatch` makes, if it is one of these.  Where a number of the
kernel's own numbering is also one of the other system's, it never comes to the former. -/
def decode (frame : SyscallFrame) : Option (Memory → Rust NtStatus Call) :=
  match frame.nr with
  | 6 => some fun m => do
    return .readFile frame.r10 (← stackArg frame m 0) (← stackArg frame m 1)
      (← stackArg frame m 2)
  | 14 => some fun _ => .ok (.setEvent frame.r10 frame.rdx)
  | 17 | 39 => some fun m => do
    return .queryInformationFile frame.r10 frame.rdx frame.r8 (asU32 frame.r9)
      (asU32 (← stackArg frame m 0))
  | 18 => some fun _ => .ok (.openKey frame.r10 (asU32 frame.rdx) frame.r8)
  | 23 => some fun m => do
    return .queryValueKey frame.r10 frame.rdx (asU32 frame.r8) frame.r9
      (asU32 (← stackArg frame m 0)) (← stackArg frame m 1)
  | 35 => some fun m => do
    return .queryVirtualMemory frame.r10 frame.rdx (asU32 frame.r8) frame.r9
      (← stackArg frame m 0) (← stackArg frame m 1)
  | 51 | 85 => some fun _ => .ok (.createFile frame.r10 frame.r8 frame.r9)
  | 55 => some fun _ => .ok (.openSection frame.r10 frame.r8)
  | 72 => some fun m => do
    return .createEvent frame.r10 (asU32 frame.r9) ((← stackArg frame m 0) ≠ 0)
  | 74 => some fun m => do
    return .createSection frame.r10 frame.r8 frame.r9 (asU32 (← stackArg frame m 0))
      (asU32 (← stackArg frame m 1)) (← stackArg frame m 2)
  | 334 => some fun m => do
    return .queryDirectoryObject frame.r10 frame.rdx (asU32 frame.r8)
      ((← stackArg frame m 0) ≠ 0) (← stackArg frame m 1) (← stackArg frame m 2)
  | 363 => some fun _ => .ok (.querySymbolicLinkObject frame.r10 frame.rdx frame.r8)
  | 2 => some fun _ => .ok (.queryInformationFile frame.rdi frame.rsi frame.rdx
      (asU32 frame.r10) (asU32 frame.r8))
  | 3 => some fun m => do
    return .readFile frame.rdi (← stackArg frame m 0) (← stackArg frame m 1)
      (← stackArg frame m 2)
  | 5 => some fun _ => .ok (.createFile frame.rdi frame.rdx frame.r10)
  | 13 => some fun _ => .ok (.createEvent frame.rdi (asU32 frame.r10) (frame.r8 ≠ 0))
  | 21 => some fun _ => .ok (.openSection frame.rdi frame.rdx)
  | 26 => some fun _ => .ok (.resetEvent frame.rdi frame.rsi)
  | _ => none

/-- `syscall_dispatch` for these calls. -/
def syscallDispatch (space : AddressSpace) (answers : Answers) (frame : SyscallFrame) :
    Option (Storing NtStatus Unit) :=
  (decode frame).map fun args => do
    let call ← Storing.reads args
    call.run space answers

/-! ## Where the calls may store -/

/-- The page of an address is recorded in the mappings of an address space. -/
def Recorded (space : AddressSpace) (addr : Nat) : Prop :=
  addr / pageSize * pageSize ∈ space.mappings

/-- All that a call has stored is at allowed addresses; otherwise it returns an error and
has stored nothing. -/
def Confined (P : Nat → Prop) (r : Rust NtStatus Unit × Memory × List Nat) : Prop :=
  (∀ addr ∈ r.2.2, P addr) ∨ (∃ status, r.1 = Rust.err status) ∧ r.2.2 = []

/-- The number of bytes that `query_information_file` returns, if it gets to its status
block. -/
def informationLength (answers : Answers) (object length infoClass : Nat) : Except NtStatus Nat :=
  match infoClass with
  | 5 => if length < 24 then .ok 0 else (answers.fstat object).map fun _ => 24
  | 14 => if length < 8 then .ok 0 else (answers.position object).map fun _ => 8
  | 9 => (answers.path object).map fun path =>
    if length < 4 + 2 * path.length then 0 else 4 + 2 * path.length
  | _ => .ok 0

/-- The areas that the arguments of a call name are allowed, as far as the call comes to
use them. -/
def Call.Allowed (P : Nat → Prop) (space : AddressSpace) (answers : Answers) (m : Memory) :
    Call → Prop
  | .readFile handle ioStatus buffer length =>
    buffer ≠ 0 → ∀ object, answers.resolveHandleEntry handle = .ok object →
      Owns P buffer (answers.read object length).1.length ∧
        ∀ n, (answers.read object length).2 = .ok n → ioStatus ≠ 0 → Owns P ioStatus 16
  | .queryInformationFile handle ioStatus information length infoClass =>
    information ≠ 0 → ∀ object, answers.resolveHandleEntry handle = .ok object →
      ∀ n, informationLength answers object length infoClass = .ok n →
        Owns P information n ∧ (ioStatus ≠ 0 → Owns P ioStatus 16)
  | .queryValueKey handle valueName infoClass information length resultLength =>
    infoClass = 2 → ∀ name, readUtf16String valueName m = .ok name →
      ∀ object, answers.resolveHandleEntry handle = .ok object →
        ∀ value, answers.keyValue object name = .ok value →
          (resultLength ≠ 0 → Owns P resultLength 4) ∧
            (information ≠ 0 → 12 + value.2.length ≤ length →
              Owns P information (12 + value.2.length))
  | .queryDirectoryObject handle buffer length restartScan context returnLength =>
    buffer ≠ 0 → context ≠ 0 → ∀ object, answers.resolveHandleEntry handle = .ok object →
      ∀ entries, answers.directoryEntries object = .ok entries →
        (restartScan = true → Owns P context 4) ∧ (returnLength ≠ 0 → Owns P returnLength 4) ∧
          ∀ entry, entries[if restartScan then 0 else m.word context 4]? = some entry →
            let kindOff := 32 + 2 * (entry.1.length + 1)
            let needed := kindOff + 2 * (entry.2.length + 1)
            needed ≤ length → buffer + kindOff < 2 ^ 64 →
              Owns P buffer needed ∧ Owns P context 4
  | .querySymbolicLinkObject handle targetName returnLength =>
    targetName ≠ 0 → ∀ object, answers.resolveHandleEntry handle = .ok object →
      ∀ target, answers.linkTarget object = .ok target →
        let bytesLen := 2 * target.length % 2 ^ 32
        let m' := m.storeOpt returnLength (toLE 4 bytesLen)
        let buffer := m'.word (targetName + 8) 8
        (returnLength ≠ 0 → Owns P returnLength 4) ∧ (buffer ≠ 0 → Owns P targetName 2 ∧
          (bytesLen ≤ m'.word (targetName + 2) 2 → Owns P buffer (2 * target.length)))
  | .queryVirtualMemory processHandle baseAddress infoClass information length returnLength =>
    processHandle = usizeMax → information ≠ 0 → infoClass = 0 → 48 ≤ length →
      ∀ info, memoryBasicInformation (sortedMappings space) baseAddress = some info →
        Owns P information 48 ∧ (returnLength ≠ 0 → Owns P returnLength 8)
  | .createEvent outHandle eventType initialState =>
    outHandle ≠ 0 → ∀ handle, answers.createEvent (eventType = 0) initialState = .ok handle →
      Owns P outHandle 8
  | .createFile outHandle objectAttributes ioStatus =>
    outHandle ≠ 0 → ∀ path, pathFromObjectAttributes answers objectAttributes m = .ok path →
      ∀ handle, answers.createFile path = .ok handle →
        Owns P outHandle 8 ∧ (ioStatus ≠ 0 → Owns P ioStatus 16)
  | .createSection outHandle objectAttributes maximumSize protection attributes fileHandle =>
    outHandle ≠ 0 → ∀ path, sectionPath answers fileHandle = .ok path →
      ∀ name, sectionName answers objectAttributes m = .ok name →
        ∀ handle, answers.createSection path name protection attributes
          (sectionSize maximumSize m) = .ok handle → Owns P outHandle 8
  | .openSection outHandle objectAttributes =>
    outHandle ≠ 0 → ∀ name, pathFromObjectAttributes answers objectAttributes m = .ok name →
      ∀ handle, answers.openSection name = .ok handle → Owns P outHandle 8
  | .openKey outHandle desiredAccess objectAttributes =>
    outHandle ≠ 0 → ∀ path, pathFromObjectAttributes answers objectAttributes m = .ok path →
      ∀ handle, answers.openKey desiredAccess path = .ok handle → Owns P outHandle 8
  | .setEvent handle previousState =>
    ∀ object, answers.resolveHandleEntry handle = .ok object →
      ∀ old, answers.setEvent object = .ok old → previousState ≠ 0 → Owns P previousState 4
  | .resetEvent handle previousState =>
    ∀ object, answers.resolveHandleEntry handle = .ok object →
      ∀ old, answers.resetEvent object = .ok old → previousState ≠ 0 → Owns P previousState 4

/-! ## What each call stores -/

section Calls

variable {P : Nat → Prop} {space : AddressSpace} {answers : Answers} {m : Memory}

theorem confined_iff
    {r : Rust NtStatus Unit × Memory × List Nat} :
    Confined P r ↔ ∀ addr ∈ r.2.2, P addr := by
  constructor
  · rintro (h | ⟨-, h⟩)
    · exact h
    · simp [h]
  · exact Or.inl

theorem within_fileInformation
    {object information length infoClass : Nat} {R : Prop} :
    Within P (fileInformation answers object information length infoClass) m (fun _ _ => R) ↔
      ∀ n, informationLength answers object length infoClass = .ok n →
        Owns P information n ∧ R := by
  simp only [fileInformation, informationLength]
  split
  · by_cases hlen : length < 24
    · simp [hlen]
    · cases answers.fstat object <;> simp [hlen, Except.map]
  · by_cases hlen : length < 8
    · simp [hlen]
    · cases answers.position object <;> simp [hlen, Except.map]
  · cases answers.path object with
    | error status =>
      simp [Except.map]
    | ok path =>
      by_cases hlen : length < 4 + 2 * path.length
      · simp [hlen, Except.map]
      · simp [hlen, Except.map, owns_add, and_assoc]
  · simp

theorem within_storeDirectoryEntry
    {buffer : Nat} {entry : Units × Units} {R : Prop} :
    Within P (storeDirectoryEntry buffer (buffer + 32)
        (buffer + (32 + 2 * (entry.1.length + 1))) entry) m (fun _ _ => R) ↔
      Owns P buffer (32 + 2 * (entry.1.length + 1) + 2 * (entry.2.length + 1)) ∧ R := by
  simp only [storeDirectoryEntry, within_bind, within_store, List.length_append,
    length_objectDirectoryInformation, length_unitsLE, List.length_singleton, owns_add,
    Nat.add_assoc, and_assoc]

/-- The part of `query_directory_object` after the index is read. -/
theorem within_nextEntry
    {buffer length context returnLength index : Nat} {entries : List (Units × Units)} :
    Within P (nextEntry buffer length context returnLength entries index) m (fun _ _ => True) ↔
      (returnLength ≠ 0 → Owns P returnLength 4) ∧
        ∀ entry, entries[index]? = some entry →
          32 + 2 * (entry.1.length + 1) + 2 * (entry.2.length + 1) ≤ length →
          buffer + (32 + 2 * (entry.1.length + 1)) < 2 ^ 64 →
            Owns P buffer (32 + 2 * (entry.1.length + 1) + 2 * (entry.2.length + 1)) ∧
              Owns P context 4 := by
  rw [nextEntry]
  cases entries[index]? with
  | none =>
    simp
  | some entry =>
    simp only [within_bind, within_storeOpt, within_refuse, within_addU, within_store,
      within_storeDirectoryEntry, length_toLE, not_lt, and_true, Option.some.injEq, forall_eq']
    refine and_congr_right' (imp_congr_right fun _ => ?_)
    constructor
    · intro h hkind
      exact h (by omega) hkind
    · intro h _ hkind
      exact h hkind

theorem ite_lt_and
    {a b : Nat} {p q : Prop} :
    (if a < b then p else q ∧ p) ↔ p ∧ (b ≤ a → q) := by
  by_cases hlt : a < b
  · simp [hlt, Nat.not_le.mpr hlt]
  · simp [hlt, Nat.not_lt.mp hlt, and_comm]

theorem within_run
    (call : Call) :
    Within P (call.run space answers) m (fun _ _ => True) ↔ call.Allowed P space answers m := by
  cases call with
  | readFile handle ioStatus buffer length =>
    simp [Call.run, Call.Allowed, readFile]
  | queryInformationFile handle ioStatus information length infoClass =>
    simp [Call.run, Call.Allowed, queryInformationFile, within_fileInformation]
  | queryValueKey handle valueName infoClass information length resultLength =>
    simp [Call.run, Call.Allowed, queryValueKey, owns_add]
  | queryDirectoryObject handle buffer length restartScan context returnLength =>
    cases restartScan with
    | false =>
      simp [Call.run, Call.Allowed, queryDirectoryObject, within_nextEntry]
    | true =>
      simp [Call.run, Call.Allowed, queryDirectoryObject, within_nextEntry, Memory.word_store]
  | querySymbolicLinkObject handle targetName returnLength =>
    simp [Call.run, Call.Allowed, querySymbolicLinkObject, ite_lt_and]
  | queryVirtualMemory processHandle baseAddress infoClass information length returnLength =>
    simp [Call.run, Call.Allowed, queryVirtualMemory]
  | createEvent outHandle eventType initialState =>
    simp [Call.run, Call.Allowed, createEvent, storeHandle]
  | createFile outHandle objectAttributes ioStatus =>
    simp [Call.run, Call.Allowed, createFile, storeHandle]
  | createSection outHandle objectAttributes maximumSize protection attributes fileHandle =>
    simp [Call.run, Call.Allowed, createSection, storeHandle]
  | openSection outHandle objectAttributes =>
    simp [Call.run, Call.Allowed, openSection, storeHandle]
  | openKey outHandle desiredAccess objectAttributes =>
    simp [Call.run, Call.Allowed, openKey, storeHandle]
  | setEvent handle previousState =>
    simp [Call.run, Call.Allowed, setEvent, storePrevious]
  | resetEvent handle previousState =>
    simp [Call.run, Call.Allowed, resetEvent, storePrevious]

end Calls

/-- For every process, memory, registers and answers: all that a call stores is in pages
recorded in the caller's mappings (or the call fails before it stores anything) exactly if
the areas that its arguments name are, as far as it comes to use them. -/
theorem syscall_stores_confined_iff (space : AddressSpace) (answers : Answers) (m : Memory)
    {frame : SyscallFrame} {code : Storing NtStatus Unit}
    (hcode : syscallDispatch space answers frame = some code) :
    Confined (Recorded space) (code m) ↔
      ∀ args call, decode frame = some args → args m = .ok call →
        call.Allowed (Recorded space) space answers m := by
  obtain ⟨args, hargs, rfl⟩ := Option.map_eq_some_iff.mp hcode
  have hwithin : Within (Recorded space)
      (Storing.reads args >>= fun call => call.run space answers) m (fun _ _ => True) ↔
        ∀ call, args m = .ok call → call.Allowed (Recorded space) space answers m := by
    simp only [within_bind, within_reads, within_run]
  simp only [Within, implies_true, and_true] at hwithin
  rw [confined_iff]
  refine hwithin.trans ⟨fun h args' call hargs' => ?_, fun h call => h args call hargs⟩
  cases hargs.symm.trans hargs'
  exact h call

/-- A process with one page. -/
def onePage : AddressSpace where
  nextAllocBase := userAllocBase
  mappings := (∅ : Finmap fun _ : Nat => UserMapping).insert 0x10000
    ⟨0x10000, 4096, pageReadwrite, ⟨0x7000⟩⟩

/-- An event can be created, and there is no other object. -/
def onlyEvents : Answers where
  resolveHandleEntry := fun _ => .error .invalidHandle
  objectName := fun _ => .error .invalidHandle
  createEvent := fun _ _ => .ok 4
  createFile := fun _ => .error .objectNameNotFound
  createSection := fun _ _ _ _ _ => .error .invalidParameter
  openSection := fun _ => .error .objectNameNotFound
  openKey := fun _ _ => .error .objectNameNotFound
  setEvent := fun _ => .error .invalidHandle
  resetEvent := fun _ => .error .invalidHandle
  read := fun _ _ => ([], .error .invalidHandle)
  fstat := fun _ => .error .invalidHandle
  position := fun _ => .error .invalidHandle
  path := fun _ => .error .invalidHandle
  keyValue := fun _ _ => .error .invalidHandle
  directoryEntries := fun _ => .error .invalidHandle
  linkTarget := fun _ => .error .invalidHandle

/-- The registers of `create_event` in the kernel's own numbering. -/
def createEventFrame (outHandle : Nat) : SyscallFrame where
  nr := 13
  rdi := outHandle
  rsi := 0
  rdx := 0
  r10 := 0
  r8 := 0
  r9 := 0
  userRsp := 0x10800

/-- The handle of a new event goes into the caller's page. -/
theorem syscall_stores_confined_iff_own_page :
    ∃ code, syscallDispatch onePage onlyEvents (createEventFrame 0x10ff8) = some code ∧
      Confined (Recorded onePage) (code fun _ => 0) := by
  have hcode : syscallDispatch onePage onlyEvents (createEventFrame 0x10ff8) = some _ := rfl
  refine ⟨_, hcode, (syscall_stores_confined_iff onePage onlyEvents _ hcode).mpr ?_⟩
  intro args call hargs hcall
  cases hargs
  cases hcall
  intro _ handle _ i hi
  have hpage : (0x10ff8 + i) % 2 ^ 64 / pageSize * pageSize = 0x10000 := by
    simp only [pageSize]
    omega
  have hrecorded : 0x10000 ∈ onePage.mappings := Finmap.mem_insert.mpr (Or.inl rfl)
  exact (congrArg (· ∈ onePage.mappings) hpage).mpr hrecorded

/-- The caller names an address of the kernel, and the handle is stored there. -/
theorem handle_stored_in_kernel :
    ∃ code, syscallDispatch onePage onlyEvents (createEventFrame 0xffff800000001000) = some code ∧
      (code fun _ => 0).1 = .ok () ∧
      (code fun _ => 0).2.2 = area 0xffff800000001000 8 ∧
      ¬ Confined (Recorded onePage) (code fun _ => 0) := by
  have hmem : 0xffff800000001000 ∈ area 0xffff800000001000 8 :=
    List.mem_map.mpr ⟨0, by decide, rfl⟩
  refine ⟨_, rfl, rfl, rfl, fun hconfined => ?_⟩
  have hkernel : Recorded onePage 0xffff800000001000 := confined_iff.mp hconfined _ hmem
  revert hkernel
  simp [Recorded, onePage, pageSize, Finmap.notMem_empty]

end Syscall
end Kernel
end Theos
