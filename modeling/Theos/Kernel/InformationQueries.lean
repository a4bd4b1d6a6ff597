import Theos.Kernel.SyscallStores

/-!
# Queries for information

Four system calls copy a record into a buffer of the caller: `query_system_information`,
`query_information_process`, `query_volume_information_file` and `query_virtual_memory`.  Each
takes the length of the buffer and refuses one that is too short.

A caller that does not know the length asks twice: first with what it has, then with the length
that it was told.  The calls differ in what they tell after a failure.
-/

namespace Theos
namespace Kernel
namespace Queries

open Base Syscall
open Storing (Sure Stays Clean Returns Panics refuse_of refuse_of_not refuse_bind_of_not
  answer_bind_ok sure_store sure_storeOpt sure_orPanic stays_refuse stays_answer
  stays_of_within clean_of_stays clean_of_sure returns_pure returns_store returns_storeOpt
  returns_orPanic panics_orPanic_bind)

/-- The state of the kernel that the queries read. -/
structure Context where
  answers : Answers
  space : AddressSpace
  isFile : Nat → Bool
  globalTick : Nat
  pebAddr : Nat
  pid : Nat
  ppid : Nat

/-! ## Records -/

/-- `SystemBasicInformation`. -/
def systemBasicInformation : Bytes :=
  toLE 4 0 ++ toLE 4 10000 ++ toLE 4 0x1000 ++ toLE 4 0x40000 ++ toLE 4 1 ++ toLE 4 0x3ffff ++
    toLE 4 0x10000 ++ toLE 4 0 ++ toLE 8 0x10000 ++ toLE 8 0x7fffffff0000 ++ toLE 8 1 ++
    [1, 0, 0, 0] ++ toLE 4 0

/-- `ProcessBasicInformation`, from `current_process_basic`. -/
def processBasicInformation (c : Context) : Bytes :=
  toLE 8 0 ++ toLE 8 c.pebAddr ++ toLE 8 0 ++ toLE 8 0 ++ toLE 8 c.pid ++ toLE 8 c.ppid

def fileFsSizeInformation : Bytes :=
  toLE 8 (512 * 1024) ++ toLE 8 (384 * 1024) ++ toLE 4 8 ++ toLE 4 512

def fileFsDeviceInformation : Bytes :=
  toLE 4 7 ++ toLE 4 0

/-- The name of the file system. -/
def fsName : Units := "CRABFS".toList.map Char.toNat

def fileFsAttributeInformationHead : Bytes :=
  toLE 4 3 ++ toLE 4 255 ++ toLE 4 (2 * fsName.length)

/-- What is written over the zeros of the performance record. -/
def performanceCounters (time : Nat) : List (Nat × Bytes) :=
  [(0x00, toLE 8 time), (0x08, toLE 8 0), (0x10, toLE 8 0), (0x18, toLE 8 0), (0x20, toLE 8 0),
    (0x28, toLE 8 0), (0x40, toLE 4 0x20000), (0x44, toLE 4 0x8000), (0x48, toLE 4 0x40000),
    (0x4c, toLE 4 0x42000), (0x50, toLE 4 0x40000), (0x90, toLE 4 0x20000)]

def storeEach (base : Nat) : List (Nat × Bytes) → Storing NtStatus Unit
  | [] => pure ()
  | (offset, bytes) :: rest => do
    Storing.store (base + offset) bytes
    storeEach base rest

/-! ## The calls -/

/-- The start of both classes of `query_system_information`. -/
def tellLength (information length returnLength required : Nat) : Storing NtStatus Unit := do
  Storing.storeOpt returnLength (toLE 4 required)
  Storing.refuse (information = 0 ∨ length < required) .infoLengthMismatch

def querySystemInformation (c : Context) (infoClass information length returnLength : Nat) :
    Storing NtStatus Unit :=
  match infoClass with
  | 0 => do
    tellLength information length returnLength 64
    Storing.store information systemBasicInformation
  | 2 => do
    tellLength information length returnLength 0x178
    Storing.store information (List.replicate 0x178 0)
    let time ← Storing.orPanic (mulU 64 c.globalTick 100000)
    storeEach information (performanceCounters time)
  | _ => Storing.err .notImplemented

/-- The handle of the current process needs no entry. -/
def resolveProcess (c : Context) (processHandle : Nat) : Except NtStatus Unit :=
  match c.answers.resolveHandleEntry processHandle with
  | .ok _ => .ok ()
  | .error status => if processHandle = usizeMax then .ok () else .error status

def queryInformationProcess (c : Context)
    (processHandle infoClass information length returnLength : Nat) : Storing NtStatus Unit := do
  Storing.refuse (information = 0) .invalidParameter
  Storing.answer (resolveProcess c processHandle)
  Storing.refuse (infoClass ≠ 0) .notSupported
  Storing.refuse (length < 48) .infoLengthMismatch
  Storing.store information (processBasicInformation c)
  Storing.storeOpt returnLength (toLE 4 48)

/-- The classes of `query_volume_information_file`; the status is stored before it is
returned. -/
def volumeInformation (information length infoClass : Nat) : Storing NtStatus NtStatus :=
  match infoClass with
  | 3 =>
    if length < 24 then pure .infoLengthMismatch
    else do
      Storing.store information fileFsSizeInformation
      pure .success
  | 4 =>
    if length < 8 then pure .infoLengthMismatch
    else do
      Storing.store information fileFsDeviceInformation
      pure .success
  | 5 =>
    if length < 12 + 2 * fsName.length then pure .infoLengthMismatch
    else do
      Storing.store information fileFsAttributeInformationHead
      Storing.store (information + 12) (unitsLE fsName)
      pure .success
  | _ => pure .notSupported

/-- The end of `query_volume_information_file`. -/
def answerVolume (ioStatus length : Nat) (status : NtStatus) : Storing NtStatus Unit := do
  Storing.storeOpt ioStatus (ioStatusBlock status length)
  Storing.refuse (status ≠ .success) status

def queryVolumeInformationFile (c : Context) (handle ioStatus information length infoClass : Nat) :
    Storing NtStatus Unit := do
  Storing.refuse (information = 0) .invalidParameter
  let object ← Storing.answer (c.answers.resolveHandleEntry handle)
  Storing.refuse (c.isFile object = false) .objectTypeMismatch
  let status ← volumeInformation information length infoClass
  answerVolume ioStatus length status

/-! ## All of them -/

inductive Query where
  | system (infoClass : Nat)
  | process (handle infoClass : Nat)
  | volume (handle infoClass : Nat)
  | memory (baseAddress infoClass : Nat)

namespace Query

/-- A query with a buffer, its length, and where the call tells more. -/
def run (c : Context) (information length out : Nat) : Query → Storing NtStatus Unit
  | system infoClass => querySystemInformation c infoClass information length out
  | process handle infoClass => queryInformationProcess c handle infoClass information length out
  | volume handle infoClass => queryVolumeInformationFile c handle out information length infoClass
  | memory baseAddress infoClass =>
    queryVirtualMemory c.space usizeMax baseAddress infoClass information length out

/-- The length of what is stored at `out`. -/
def outLength : Query → Nat
  | system _ | process _ _ => 4
  | volume _ _ => 16
  | memory _ _ => 8

/-- The length that the caller finds at `out`. -/
def told (m : Memory) (out : Nat) : Query → Nat
  | system _ | process _ _ => m.word out 4
  | volume _ _ => m.word (out + 8) 8
  | memory _ _ => m.word out 8

end Query

/-! ## Lengths -/

theorem length_systemBasicInformation : systemBasicInformation.length = 64 := by
  simp [systemBasicInformation]

theorem length_processBasicInformation
    (c : Context) :
    (processBasicInformation c).length = 48 := by
  simp [processBasicInformation]

theorem length_fileFsSizeInformation : fileFsSizeInformation.length = 24 := by
  simp [fileFsSizeInformation]

theorem length_fileFsDeviceInformation : fileFsDeviceInformation.length = 8 := by
  simp [fileFsDeviceInformation]

theorem length_fileFsAttributeInformationHead : fileFsAttributeInformationHead.length = 12 := by
  simp [fileFsAttributeInformationHead]

section

variable {c : Context} {information length out : Nat} {m : Memory}

/-- A part of an allowed area is allowed. -/
theorem owns_part {P : Nat → Prop} {offset n : Nat}
    (h : Owns P information length)
    (hle : offset + n ≤ length) :
    Owns P (information + offset) n := by
  intro i hi
  rw [Nat.add_assoc]
  exact h _ (by omega)

theorem within_storeEach {P : Nat → Prop} {writes : List (Nat × Bytes)}
    (h : Owns P information length)
    (hwrites : ∀ w ∈ writes, w.1 + w.2.length ≤ length) :
    Within P (storeEach information writes) m fun _ _ => True := by
  induction writes generalizing m with
  | nil => simp [storeEach]
  | cons w rest ih =>
    rw [storeEach, within_bind, within_store]
    exact ⟨owns_part h (hwrites w List.mem_cons_self),
      ih fun w hw => hwrites w (List.mem_cons_of_mem _ hw)⟩

theorem performanceCounters_fit
    (time : Nat) :
    ∀ w ∈ performanceCounters time, w.1 + w.2.length ≤ 0x178 := by
  simp [performanceCounters]

/-! ## What a call can do -/

namespace Query

/-- The length of the record of a class that the call knows. -/
def required : Query → Option Nat
  | system 0 => some 64
  | system 2 => some 0x178
  | process _ 0 => some 48
  | volume _ 3 => some 24
  | volume _ 4 => some 8
  | volume _ 5 => some (12 + 2 * fsName.length)
  | memory _ 0 => some 48
  | _ => none

/-- The handle of the query is one that the call accepts. -/
def Accepts (c : Context) : Query → Prop
  | system _ | memory _ _ => True
  | process handle _ => resolveProcess c handle = .ok ()
  | volume handle _ => ∃ object, c.answers.resolveHandleEntry handle = .ok object ∧
    c.isFile object = true

/-- The memory that a call leaves if the buffer is too short. -/
def refused (m : Memory) (length out n : Nat) : Query → Memory
  | system _ => m.storeOpt out (toLE 4 n)
  | volume _ _ => m.storeOpt out (ioStatusBlock .infoLengthMismatch length)
  | process _ _ | memory _ _ => m

end Query

/-- A length that is told comes before the refusal. -/
theorem tellLength_of_short {f : Unit → Storing NtStatus Unit} {n : Nat}
    (hshort : length < n) :
    ((tellLength information length out n >>= f) m).1 = Rust.err .infoLengthMismatch ∧
      ((tellLength information length out n >>= f) m).2.1 = m.storeOpt out (toLE 4 n) := by
  rw [tellLength, refuse_of (.inr hshort), Storing.storeOpt, Memory.storeOpt]
  split <;> exact ⟨rfl, rfl⟩

theorem run_volume {handle infoClass object : Nat}
    (hinformation : information ≠ 0)
    (hobject : c.answers.resolveHandleEntry handle = .ok object)
    (hfile : c.isFile object = true) :
    (Query.volume handle infoClass).run c information length out =
      volumeInformation information length infoClass >>= answerVolume out length := by
  rw [Query.run, queryVolumeInformationFile, refuse_bind_of_not hinformation, hobject,
    answer_bind_ok, refuse_bind_of_not (by simp [hfile])]

theorem answerVolume_of_failure {status : NtStatus}
    (hstatus : status ≠ .success) :
    (answerVolume out length status m).1 = Rust.err status ∧
      (answerVolume out length status m).2.1 = m.storeOpt out (ioStatusBlock status length) := by
  rw [answerVolume, refuse_of hstatus]
  exact Storing.storeOpt_bind

/-- A buffer that is too short is refused, and the caller may be told more. -/
theorem run_of_short {q : Query} {n : Nat}
    (hinformation : information ≠ 0)
    (haccepts : q.Accepts c)
    (hrequired : q.required = some n)
    (hshort : length < n) :
    (q.run c information length out m).1 = Rust.err .infoLengthMismatch ∧
      (q.run c information length out m).2.1 = q.refused m length out n := by
  unfold Query.required at hrequired
  split at hrequired <;> cases hrequired
  case h_1 => exact tellLength_of_short hshort
  case h_2 => exact tellLength_of_short hshort
  case h_3 handle =>
    have hprocess : resolveProcess c handle = .ok () := haccepts
    rw [Query.run, queryInformationProcess, refuse_bind_of_not hinformation, hprocess,
      answer_bind_ok, refuse_bind_of_not (by simp), refuse_of hshort]
    exact ⟨rfl, rfl⟩
  case h_7 =>
    rw [Query.run, queryVirtualMemory, refuse_bind_of_not (by simp [hinformation]),
      refuse_bind_of_not (by simp), refuse_of hshort]
    exact ⟨rfl, rfl⟩
  all_goals
    obtain ⟨object, hobject, hfile⟩ := haccepts
    rw [run_volume hinformation hobject hfile]
    simp only [volumeInformation, if_pos hshort, Storing.pure_bind]
    exact answerVolume_of_failure (by decide)

/-- What the query stores can be computed: the time of the ticks is one of 64 bits, and the
region of a page has an end behind it. -/
def Query.Computes (c : Context) : Query → Prop
  | .system 2 => (mulU 64 c.globalTick 100000).isSome
  | .memory baseAddress _ => (memoryBasicInformation (sortedMappings c.space) baseAddress).isSome
  | _ => True

theorem returns_storeEach
    (base : Nat) (writes : List (Nat × Bytes)) :
    Returns (storeEach base writes) := by
  induction writes with
  | nil => exact returns_pure ()
  | cons w rest ih => exact (returns_store _ _).bind fun _ => ih

theorem returns_tellLength {n : Nat}
    (hinformation : information ≠ 0)
    (hlong : n ≤ length) :
    Returns (tellLength information length out n) := by
  rw [tellLength, refuse_of_not (by omega)]
  exact (returns_storeOpt _ _).bind fun _ => returns_pure ()

theorem returns_success :
    Returns (answerVolume out length .success) := by
  rw [answerVolume, refuse_of_not (by simp)]
  exact (returns_storeOpt _ _).bind fun _ => returns_pure ()

theorem run_process {handle : Nat}
    (hinformation : information ≠ 0)
    (hprocess : resolveProcess c handle = .ok ())
    (hlong : 48 ≤ length) :
    (Query.process handle 0).run c information length out = (do
      Storing.store information (processBasicInformation c)
      Storing.storeOpt out (toLE 4 48)) := by
  rw [Query.run, queryInformationProcess, refuse_bind_of_not hinformation, hprocess,
    answer_bind_ok, refuse_bind_of_not (by simp), refuse_bind_of_not (Nat.not_lt.mpr hlong)]

theorem run_memory {baseAddress : Nat}
    (hinformation : information ≠ 0)
    (hlong : 48 ≤ length) :
    (Query.memory baseAddress 0).run c information length out = (do
      let info ← Storing.orPanic (memoryBasicInformation (sortedMappings c.space) baseAddress)
      Storing.store information info.bytes
      Storing.storeOpt out (toLE 8 48)) := by
  rw [Query.run, queryVirtualMemory, refuse_bind_of_not (by simp [hinformation]),
    refuse_bind_of_not (by simp), refuse_bind_of_not (Nat.not_lt.mpr hlong)]

/-- With a buffer that is long enough a query returns, if it can compute what it stores. -/
theorem returns_run {q : Query} {n : Nat}
    (hinformation : information ≠ 0)
    (haccepts : q.Accepts c)
    (hrequired : q.required = some n)
    (hlong : n ≤ length)
    (hcomputes : q.Computes c) :
    Returns (q.run c information length out) := by
  have hnot : ¬ length < n := Nat.not_lt.mpr hlong
  unfold Query.required at hrequired
  split at hrequired <;> cases hrequired
  case h_1 => exact (returns_tellLength hinformation hlong).bind fun _ => returns_store _ _
  case h_2 =>
    exact (returns_tellLength hinformation hlong).bind fun _ => (returns_store _ _).bind fun _ =>
      (returns_orPanic hcomputes).bind fun _ => returns_storeEach _ _
  case h_3 handle =>
    rw [run_process hinformation haccepts hlong]
    exact (returns_store _ _).bind fun _ => returns_storeOpt _ _
  case h_7 baseAddress =>
    rw [run_memory hinformation hlong]
    exact (returns_orPanic hcomputes).bind fun _ => (returns_store _ _).bind fun _ =>
      returns_storeOpt _ _
  all_goals
    obtain ⟨object, hobject, hfile⟩ := haccepts
    rw [run_volume hinformation hobject hfile]
    simp only [volumeInformation, if_neg hnot]
    exact fun m => returns_success _

/-- Otherwise it panics. -/
theorem panics_run {q : Query} {n : Nat}
    (hinformation : information ≠ 0)
    (hrequired : q.required = some n)
    (hlong : n ≤ length)
    (hcomputes : ¬ q.Computes c) :
    Panics (q.run c information length out) := by
  unfold Query.required at hrequired
  split at hrequired <;> cases hrequired
  case h_2 =>
    exact (returns_tellLength hinformation hlong).bind_panics fun _ =>
      (returns_store _ _).bind_panics fun _ => panics_orPanic_bind (Option.not_isSome_iff_eq_none.mp
        hcomputes)
  case h_7 baseAddress =>
    rw [run_memory hinformation hlong]
    exact panics_orPanic_bind (Option.not_isSome_iff_eq_none.mp hcomputes)
  all_goals exact absurd trivial hcomputes

/-! ## Asking twice -/

/-- The outcome of the second call, with the length that the first has told. -/
def askTwice (c : Context) (q : Query) (information length out : Nat) (m : Memory) :
    Rust NtStatus Unit :=
  let m' := (q.run c information length out m).2.1
  (q.run c information (q.told m' out) out m').1

/-- The length at `out` is enough after a failure. -/
def Query.TellsEnough (m : Memory) (out : Nat) : Query → Prop
  | system _ => True
  | process _ _ => 48 ≤ m.word out 4
  | volume _ _ => False
  | memory _ _ => 48 ≤ m.word out 8

/-- The last number of what was stored. -/
theorem word_store_append {bytes : Bytes} {v : Nat}
    (hlen : bytes.length + 8 ≤ 2 ^ 64)
    (hv : v < 2 ^ 64) :
    (m.store out (bytes ++ toLE 8 v)).word (out + bytes.length) 8 = v := by
  have hload : (m.store out (bytes ++ toLE 8 v)).load (out + bytes.length) 8 = toLE 8 v := by
    apply List.ext_getElem
    · simp [Memory.load]
    · intro i hi hi'
      rw [length_toLE] at hi'
      have hindex : ((out + bytes.length + i) % 2 ^ 64 + (2 ^ 64 - out % 2 ^ 64)) % 2 ^ 64 =
          bytes.length + i := by
        omega
      simp only [Memory.load, Memory.store, List.getElem_map, List.getElem_range, hindex]
      simp [hi']
  rw [Memory.word, hload, ofLE_toLE]
  omega

theorem required_le {q : Query} {n : Nat}
    (hrequired : q.required = some n) :
    n ≤ 0x178 := by
  unfold Query.required at hrequired
  split at hrequired <;> cases hrequired <;> decide

theorem eq_of_required_process {handle infoClass n : Nat}
    (hrequired : (Query.process handle infoClass).required = some n) :
    n = 48 := by
  unfold Query.required at hrequired
  split at hrequired <;> simp_all

theorem eq_of_required_memory {baseAddress infoClass n : Nat}
    (hrequired : (Query.memory baseAddress infoClass).required = some n) :
    n = 48 := by
  unfold Query.required at hrequired
  split at hrequired <;> simp_all

theorem le_told_iff {q : Query} {n : Nat}
    (hout : out ≠ 0)
    (hrequired : q.required = some n)
    (hshort : length < n) :
    n ≤ q.told (q.refused m length out n) out ↔ q.TellsEnough m out := by
  have hn := required_le hrequired
  cases q with
  | system infoClass =>
    have hword : (m.store out (toLE 4 n)).word out 4 = n := by
      rw [Memory.word_store _ _ (by decide), Nat.mod_eq_of_lt (by omega)]
    simp [Query.told, Query.refused, Query.TellsEnough, Memory.storeOpt, hout, hword]
  | volume handle infoClass =>
    have hword : (m.store out (ioStatusBlock .infoLengthMismatch length)).word (out + 8) 8 =
        length :=
      word_store_append (by simp) (by omega)
    simp [Query.told, Query.refused, Query.TellsEnough, Memory.storeOpt, hout, hword, hshort]
  | process handle infoClass =>
    rw [eq_of_required_process hrequired]
    rfl
  | memory baseAddress infoClass =>
    rw [eq_of_required_memory hrequired]
    rfl

def sampleContext : Context where
  answers := onlyEvents
  space := AddressSpace.default
  isFile := fun _ => false
  globalTick := 7
  pebAddr := 0x7ffff0000200
  pid := 1
  ppid := 0

/-- Where a query tells more. -/
def Query.Out (q : Query) (out a : Nat) : Prop :=
  out ≠ 0 ∧ a ∈ area out q.outLength

theorem owns_out {q : Query} {n : Nat}
    (hn : n = q.outLength) :
    out ≠ 0 → Owns (q.Out out) out n := by
  intro hne i hi
  exact ⟨hne, List.mem_map.mpr ⟨i, List.mem_range.mpr (hn ▸ hi), rfl⟩⟩

theorem stays_tellLength {infoClass n : Nat} :
    Stays ((Query.system infoClass).Out out) (tellLength information length out n) := by
  refine stays_of_within fun m => ?_
  have hout : out ≠ 0 → Owns ((Query.system infoClass).Out out) out 4 := owns_out rfl
  simpa [tellLength] using hout

theorem stays_answerVolume {handle infoClass : Nat} {status : NtStatus} :
    Stays ((Query.volume handle infoClass).Out out) (answerVolume out length status) := by
  refine stays_of_within fun m => ?_
  have hout : out ≠ 0 → Owns ((Query.volume handle infoClass).Out out) out 16 := owns_out rfl
  simpa [answerVolume, length_ioStatusBlock] using hout

/-- A record is stored only with the status of success. -/
theorem clean_volume {handle infoClass : Nat} :
    Clean ((Query.volume handle infoClass).Out out)
      (volumeInformation information length infoClass >>= answerVolume out length) := by
  have hanswer {status : NtStatus} : Clean ((Query.volume handle infoClass).Out out)
      (pure status >>= answerVolume out length) :=
    clean_of_stays stays_answerVolume
  unfold volumeInformation
  split
  case h_4 => exact hanswer
  all_goals
    split
    · exact hanswer
    · exact clean_of_sure fun m => returns_success.sure _

/-- A query that fails has left the buffer alone. -/
theorem clean_run
    (q : Query) :
    Clean (q.Out out) (q.run c information length out) := by
  cases q with
  | system infoClass =>
    rw [Query.run]
    unfold querySystemInformation
    split
    · exact stays_tellLength.bind fun _ => clean_of_sure (sure_store _ _)
    · exact stays_tellLength.bind fun _ => clean_of_sure ((sure_store _ _).bind fun _ =>
        (sure_orPanic _).bind fun _ => (returns_storeEach _ _).sure)
    · exact clean_of_stays (stays_of_within fun m => by simp)
  | process handle infoClass =>
    exact stays_refuse.bind fun _ => stays_answer.bind fun _ => stays_refuse.bind fun _ =>
      stays_refuse.bind fun _ => clean_of_sure ((sure_store _ _).bind fun _ => sure_storeOpt _ _)
  | volume handle infoClass =>
    exact stays_refuse.bind fun _ => stays_answer.bind fun _ => stays_refuse.bind fun _ =>
      clean_volume
  | memory baseAddress infoClass =>
    exact stays_refuse.bind fun _ => stays_refuse.bind fun _ => stays_refuse.bind fun _ =>
      clean_of_sure ((sure_orPanic _).bind fun _ => (sure_store _ _).bind fun _ =>
        sure_storeOpt _ _)

theorem owns_buffer {q : Query} {n : Nat}
    (hn : n ≤ length) :
    Owns (fun a => a ∈ area information length ∨ q.Out out a) information n := by
  intro i hi
  exact .inl (List.mem_map.mpr ⟨i, List.mem_range.mpr (by omega), rfl⟩)

theorem stays_run
    (q : Query) :
    Stays (fun a => a ∈ area information length ∨ q.Out out a)
      (q.run c information length out) := by
  have hout {n : Nat} (hn : n = q.outLength) (hne : out ≠ 0) :
      Owns (fun a => a ∈ area information length ∨ q.Out out a) out n :=
    fun i hi => .inr (owns_out hn hne i hi)
  refine stays_of_within fun m => ?_
  cases q with
  | system infoClass =>
    rw [Query.run]
    unfold querySystemInformation
    split
    · simp only [within_bind, tellLength, within_storeOpt, within_refuse, within_store, length_toLE,
        length_systemBasicInformation, and_true]
      exact ⟨hout rfl, fun h => owns_buffer (by omega)⟩
    · simp only [within_bind, tellLength, within_storeOpt, within_refuse, within_store, length_toLE,
        within_orPanic, List.length_replicate]
      refine ⟨hout rfl, fun h => ⟨owns_buffer (by omega), fun time _ => ?_⟩⟩
      exact within_storeEach (owns_buffer (by omega)) (performanceCounters_fit time)
    · simp
  | process handle infoClass =>
    simp only [Query.run, queryInformationProcess, within_bind, within_refuse, within_answer,
      within_store, within_storeOpt, length_toLE, length_processBasicInformation, and_true]
    exact fun _ _ _ _ h => ⟨owns_buffer (by omega), hout rfl⟩
  | volume handle infoClass =>
    have hanswer (status : NtStatus) (m : Memory) :
        Within (fun a => a ∈ area information length ∨ (Query.volume handle infoClass).Out out a)
          (answerVolume out length status) m fun _ _ => True := by
      have hio : out ≠ 0 → Owns _ out 16 := hout rfl
      simpa [answerVolume, length_ioStatusBlock] using hio
    simp only [Query.run, queryVolumeInformationFile, within_bind, within_refuse, within_answer]
    intro _ object _ _
    unfold volumeInformation
    split
    case h_4 => simp only [within_pure, hanswer]
    all_goals
      simp only [within_ite, within_pure, within_bind, within_store, hanswer, and_true,
        length_fileFsSizeInformation, length_fileFsDeviceInformation,
        length_fileFsAttributeInformationHead, length_unitsLE, ← owns_add]
      split
      · trivial
      · exact owns_buffer (by omega)
  | memory baseAddress infoClass =>
    simp only [Query.run, queryVirtualMemory, within_bind, within_refuse, within_orPanic,
      within_store, within_storeOpt, length_toLE, MemoryBasicInformation.length_bytes, and_true]
    exact fun _ _ h _ _ => ⟨owns_buffer (by omega), hout rfl⟩

/-- Whatever the class and the length, a query stores into the buffer that it was given and to
where it tells more, and nowhere else; if it returns an error, the buffer is as it was. -/
theorem query_stores_fit
    (c : Context) (q : Query) (information length out : Nat) (m : Memory) :
    (∀ a ∈ (q.run c information length out m).2.2, a ∈ area information length ∨ q.Out out a) ∧
      ∀ status, (q.run c information length out m).1 = Rust.err status →
        ∀ a ∈ (q.run c information length out m).2.2, q.Out out a :=
  ⟨stays_run q m, clean_run q m⟩

end

end Queries
end Kernel
end Theos
