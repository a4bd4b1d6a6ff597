import Theos.Base.Run
import Theos.Kernel.ActiveProcess

/-!
# The GS bases of a CPU

The entry and the exit of `syscall_handler` exchange the active GS base and the kernel's
one, so that inside a system call the active base is the CPU's entry of
`SYSCALL_CPU_LOCALS`, and in user mode the `gs_base` of the process.
`switch_active_process` and `load_init_context` write the active base, whichever of the
two it is at that moment.

Outside a system call (`start`, or the first tick that finds a task for a CPU) that is
right.  Inside one it is the kernel's base that is overwritten: by `create_user_process`,
and by a pick of a task of another process in the tick of a wait or at an exit.  A pick
of a task of the same process writes nothing, which is wrong if that task has not been in
user mode yet.  The result is that a CPU which does none of this keeps its bases apart.

Which task the scheduler picks is left open here: a tick and an exit have it as an
argument.
-/

namespace Theos
namespace Kernel
namespace GsBases

open Base
open Processes (Registry currentCpu)

/-! ## The state -/

/-- What is read of a `UserProcess`. -/
structure Proc where
  pid : Nat
  gsBase : Nat

/-- The fields of `UserProcess::default`. -/
instance : Inhabited Proc :=
  ⟨⟨1, 0⟩⟩

/-- A user task.  Its saved context is the initial one, which enters user mode, until the
task is interrupted inside a system call. -/
structure UserTask where
  processId : Nat
  kernelStackTop : Nat
  inSyscall : Bool

/-- Where the code is that a CPU executes.  In kernel code before its first user task the
bases have not been exchanged. -/
inductive Mode where
  | boot
  | user
  | syscall
deriving DecidableEq

/-- A CPU: its two bases, `kernel_rsp` of its entry of `SYSCALL_CPU_LOCALS`, and the task
it executes. -/
structure Core where
  gsBase : Nat
  kernelGsBase : Nat
  kernelRsp : Nat
  mode : Mode
  executing : Option (Nat × UserTask)

structure Machine where
  registry : Registry Proc
  taskToPid : Nat → Option Nat
  nextPid : Nat
  tasks : Nat → Option UserTask
  nextTaskId : Nat
  cores : Fin maxCpus → Core

/-- `init_for_cpu`, with the address of the CPU's entry of `SYSCALL_CPU_LOCALS` and the
end of its entry of `SYSCALL_STACKS`. -/
def initForCpu (cpuLocal stackTop : Nat) : Core where
  gsBase := 0
  kernelGsBase := cpuLocal
  kernelRsp := stackTop
  mode := .boot
  executing := none

namespace Machine

/-- Every CPU is initialised, and there is no process yet. -/
def boot (cpuLocals stackTops : Fin maxCpus → Nat) : Machine where
  registry := ⟨∅, fun _ => 0, fun _ => default⟩
  taskToPid := fun _ => none
  nextPid := 2
  tasks := fun _ => none
  nextTaskId := 1
  cores := fun cpu => initForCpu (cpuLocals cpu) (stackTops cpu)

def setCore (m : Machine) (cpu : Fin maxCpus) (core : Core) : Machine :=
  { m with cores := Function.update m.cores cpu core }

/-! ## Switches -/

/-- The active base after `switch_active_process`: it is not written if the process is
active already, or is not in the map. -/
def gsBaseAfterSwitch (r : Registry Proc) (cpu : Fin maxCpus) (pid : Option Nat)
    (gsBase : Nat) : Nat :=
  if r.active cpu = pid then gsBase
  else
    match pid with
    | none => 0
    | some next =>
      match (r.putBack cpu).byPid.lookup next with
      | none => gsBase
      | some proc => proc.gsBase

def switchActiveProcess (m : Machine) (cpu : Fin maxCpus) (pid : Option Nat) : Machine :=
  { m with registry := m.registry.switchActiveProcess cpu pid }.setCore cpu
    { m.cores cpu with gsBase := gsBaseAfterSwitch m.registry cpu pid (m.cores cpu).gsBase }

def activateTask (m : Machine) (cpu : Fin maxCpus) (id : Nat) : Machine :=
  m.switchActiveProcess cpu (m.taskToPid id)

/-- The end of `load_init_context`, if it gets that far: the base of the active process is
the address of the new environment block. -/
def loadInitContext (m : Machine) (cpu : Fin maxCpus) : Option Nat → Machine
  | none => m
  | some teb =>
    { m with
      registry :=
        { m.registry with
          slots := Function.update m.registry.slots cpu
            { m.registry.slots cpu with gsBase := teb } } }.setCore cpu
      { m.cores cpu with gsBase := teb }

/-! ## The tasks a CPU executes -/

/-- The pick of a task: `activate_task`, `set_kernel_stack_top` and the `iretq` into the
saved context. -/
def resume (m : Machine) (cpu : Fin maxCpus) (id : Nat) : Option Machine := do
  let task ← m.tasks id
  let m := m.activateTask cpu id
  return m.setCore cpu
    { m.cores cpu with
      kernelRsp := task.kernelStackTop
      mode := if task.inSyscall then .syscall else .user
      executing := some (id, task) }

def resumePicked (m : Machine) (cpu : Fin maxCpus) : Option Nat → Option Machine
  | none => some m
  | some id => m.resume cpu id

/-- The context of the task that a CPU executes is saved inside a system call. -/
def saveContext (m : Machine) (cpu : Fin maxCpus) : Machine :=
  match (m.cores cpu).executing with
  | none => m
  | some (id, _) =>
    { m with
      tasks := Function.update m.tasks id
        ((m.tasks id).map fun task => { task with inSyscall := true }) }

/-- `scheduler_timer_tick`, and `start`: a tick in user mode returns at once. -/
def tick (m : Machine) (cpu : Fin maxCpus) (picked : Option Nat) : Option Machine :=
  match (m.cores cpu).mode with
  | .user => some m
  | .boot => m.resumePicked cpu picked
  | .syscall => (m.saveContext cpu).resumePicked cpu picked

/-- The entry of a task in `task_to_pid` is removed. -/
def unlink (taskToPid : Nat → Option Nat) : Option (Nat × UserTask) → Nat → Option Nat
  | none => taskToPid
  | some (id, _) => Function.update taskToPid id none

/-- The exit of the task that a CPU executes, up to the pick of the next one. -/
def leave (m : Machine) (cpu : Fin maxCpus) : Machine :=
  { m with taskToPid := unlink m.taskToPid (m.cores cpu).executing }.setCore cpu
    { m.cores cpu with executing := none }

/-! ## System calls -/

/-- The two bases are exchanged. -/
def swapgs (core : Core) : Core :=
  { core with gsBase := core.kernelGsBase, kernelGsBase := core.gsBase }

/-- `current_pid_internal`. -/
def currentPid (m : Machine) (cpu : Fin maxCpus) : Nat :=
  (m.registry.active cpu).getD (m.registry.slots cpu).pid

/-- `allocate_task_id` and `allocate_pid`. -/
def allocateIds (m : Machine) : Machine :=
  { m with
    nextTaskId := satAddU 64 (max m.nextTaskId 1) 1
    nextPid := satAddU 32 (max m.nextPid 1) 1 }

/-- The first task of a process is added. -/
def addTask (m : Machine) (id pid kernelStackTop : Nat) : Machine :=
  { m with
    tasks := Function.update m.tasks id (some ⟨pid, kernelStackTop, false⟩)
    nextTaskId := max m.nextTaskId (satAddU 64 id 1) }

/-- The record of a new process is entered, and the task it will have. -/
def register (m : Machine) (pid id : Nat) : Machine :=
  { m with
    registry := { m.registry with byPid := m.registry.byPid.insert pid ⟨pid, 0⟩ }
    taskToPid := Function.update m.taskToPid id (some pid) }

/-- How far `create_user_process` gets: it rejects its arguments; it fails to open the
standard handles or to create the address space; or it switches to the new process, to
load its image there.  The image may fail to load. -/
inductive Spawn where
  | rejected
  | unprepared
  | prepared (initContext : Option Nat) (kernelStackTop : Nat)
deriving DecidableEq

def createUserProcess (m : Machine) (cpu : Fin maxCpus) : Spawn → Machine
  | .rejected => m
  | .unprepared => m.allocateIds
  | .prepared initContext kernelStackTop =>
    let parentActive := m.registry.active cpu
    let id := max m.nextTaskId 1
    let pid := max m.nextPid 1
    let m := m.allocateIds.register pid id
    let m := m.switchActiveProcess cpu (some pid)
    let m := m.loadInitContext cpu initContext
    let m := m.switchActiveProcess cpu parentActive
    match initContext with
    | none =>
      { m with
        registry := { m.registry with byPid := m.registry.byPid.erase pid }
        taskToPid := Function.update m.taskToPid id none }
    | some _ => m.addTask id pid kernelStackTop

/-- `create_thread_ex`, if it can allocate a stack: a task without an entry in
`task_to_pid`. -/
def createThreadEx (m : Machine) (cpu : Fin maxCpus) (kernelStackTop : Nat) : Machine :=
  m.addTask (max m.nextTaskId 1) (m.currentPid cpu) kernelStackTop

/-- `create_init_task` on the boot processor, with the `add_task` that follows it. -/
def createInitTask (m : Machine) (id : Nat) (initContext : Option Nat) (kernelStackTop : Nat) :
    Machine :=
  let m := { m with
    registry := { m.registry with slots := Function.update m.registry.slots (currentCpu 0) ⟨1, 0⟩ } }
  let m := (m.register 1 id).switchActiveProcess (currentCpu 0) (some 1)
  let m := m.loadInitContext (currentCpu 0) initContext
  match initContext with
  | none => m
  | some _ => m.addTask id 1 kernelStackTop

end Machine

/-! ## Runs -/

/-- A tick (or `start`) and an exit come with the task that is picked. -/
inductive Event where
  | tick (cpu : Fin maxCpus) (picked : Option Nat)
  | syscall (cpu : Fin maxCpus)
  | sysret (cpu : Fin maxCpus)
  | createUserProcess (cpu : Fin maxCpus) (spawn : Machine.Spawn)
  | createThreadEx (cpu : Fin maxCpus) (kernelStackTop : Nat)
  | exitTask (cpu : Fin maxCpus) (picked : Option Nat)

/-- The CPU of an event. -/
def Event.cpu : Event → Fin maxCpus
  | .tick cpu _ | .syscall cpu | .sysret cpu | .createUserProcess cpu _
  | .createThreadEx cpu _ | .exitTask cpu _ => cpu

/-- One event; `none` if it cannot happen in this mode, or the task picked is unknown. -/
def step (m : Machine) : Event → Option Machine
  | .tick cpu picked => m.tick cpu picked
  | .syscall cpu =>
    if (m.cores cpu).mode = .user then
      some (m.setCore cpu { Machine.swapgs (m.cores cpu) with mode := .syscall })
    else none
  | .sysret cpu =>
    if (m.cores cpu).mode = .syscall ∧ (m.cores cpu).executing.isSome then
      some (m.setCore cpu { Machine.swapgs (m.cores cpu) with mode := .user })
    else none
  | .createUserProcess cpu spawn =>
    if (m.cores cpu).mode = .syscall then some (m.createUserProcess cpu spawn) else none
  | .createThreadEx cpu kernelStackTop =>
    if (m.cores cpu).mode = .syscall then some (m.createThreadEx cpu kernelStackTop) else none
  | .exitTask cpu picked =>
    if (m.cores cpu).mode = .syscall then (m.leave cpu).resumePicked cpu picked else none

/-- The state in which the first task is picked. -/
def initial (cpuLocals stackTops : Fin maxCpus → Nat) (id : Nat) (initContext : Option Nat)
    (kernelStackTop : Nat) : Machine :=
  (Machine.boot cpuLocals stackTops).createInitTask id initContext kernelStackTop

/-! ## What the two bases have to be -/

/-- After the `swapgs` of a syscall entry: the active base is the CPU's entry of
`SYSCALL_CPU_LOCALS`, which holds the kernel stack of the calling task. -/
def Entered (cpuLocals : Fin maxCpus → Nat) (m : Machine) (cpu : Fin maxCpus) : Prop :=
  (m.cores cpu).gsBase = cpuLocals cpu ∧
    ∃ id task, (m.cores cpu).executing = some (id, task) ∧
      (m.cores cpu).kernelRsp = task.kernelStackTop

/-- In user mode: the process of the task is the one in the CPU's slot, and the active
base is its `gs_base`. -/
def Returned (m : Machine) (cpu : Fin maxCpus) : Prop :=
  ∃ id task proc, (m.cores cpu).executing = some (id, task) ∧
    m.registry.At task.processId (.slot cpu) proc ∧ (m.cores cpu).gsBase = proc.gsBase

/-- A task fits the bases of a CPU: outside a system call it has not been in user mode yet
and its process can be made active; inside one it is inside a system call itself and its
process is active already. -/
def FitsIn (m : Machine) (cpu : Fin maxCpus) (id : Nat) (task : UserTask) : Mode → Prop
  | .boot => task.inSyscall = false ∧
      (m.registry.active cpu = some task.processId ∨ task.processId ∈ m.registry.byPid)
  | .user => True
  | .syscall => (task.inSyscall = true ∨ (m.cores cpu).executing.map Prod.fst = some id) ∧
      m.registry.active cpu = some task.processId

/-- The task that is picked is linked to its process, and fits. -/
def Fits (m : Machine) (cpu : Fin maxCpus) (id : Nat) : Prop :=
  ∀ task ∈ m.tasks id, m.taskToPid id = some task.processId ∧
    FitsIn m cpu id task (m.cores cpu).mode

/-- What has to hold before an event on a CPU: no process is created inside a system call,
and a task that is picked fits. -/
def Keeps (cpu : Fin maxCpus) (m : Machine) : Event → Prop
  | .createUserProcess k spawn => k = cpu → spawn = .rejected ∨ spawn = .unprepared
  | .tick k (some id) => k = cpu → Fits m cpu id
  | .exitTask k (some id) => k = cpu → Fits m cpu id ∧
      (m.cores cpu).executing.map Prod.fst ≠ some id
  | _ => True

instance (m : Machine) (cpu : Fin maxCpus) (id : Nat) (task : UserTask) :
    ∀ mode, Decidable (FitsIn m cpu id task mode)
  | .boot => inferInstanceAs (Decidable (_ ∧ _))
  | .user => .isTrue trivial
  | .syscall => inferInstanceAs (Decidable (_ ∧ _))

instance (m : Machine) (cpu : Fin maxCpus) (id : Nat) : Decidable (Fits m cpu id) :=
  inferInstanceAs (Decidable (∀ _ ∈ _, _ ∧ _))

instance (cpu : Fin maxCpus) (m : Machine) : ∀ event, Decidable (Keeps cpu m event)
  | .createUserProcess .. => inferInstanceAs (Decidable (_ → _))
  | .tick _ (some _) => inferInstanceAs (Decidable (_ → _))
  | .exitTask _ (some _) => inferInstanceAs (Decidable (_ → _))
  | .tick _ none => .isTrue trivial
  | .exitTask _ none => .isTrue trivial
  | .syscall _ => .isTrue trivial
  | .sysret _ => .isTrue trivial
  | .createThreadEx .. => .isTrue trivial

/-! ## What a switch does -/

section Registry

variable {r : Registry Proc} {cpu : Fin maxCpus}

theorem active_eq_some
    {pid : Nat} :
    r.active cpu = some pid ↔ r.activePids cpu = pid ∧ pid ≠ 0 := by
  rw [Registry.active]
  split
  next hzero =>
    simp only [reduceCtorEq, false_iff, not_and_not_right]
    rintro rfl
    exact hzero
  next hactive =>
    rw [Option.some.injEq]
    exact ⟨fun h => ⟨h, h ▸ hactive⟩, And.left⟩

/-- No process has the number 0. -/
theorem lookup_zero_switchActiveProcess (h : r.byPid.lookup 0 = none)
    (cpu : Fin maxCpus) (pid : Option Nat) :
    (r.switchActiveProcess cpu pid).byPid.lookup 0 = none := by
  have hback : (r.putBack cpu).byPid.lookup 0 = none := by
    rw [Registry.putBack]
    split
    next =>
      exact h
    next old hold =>
      exact (Finmap.lookup_insert_of_ne _ (active_eq_some.mp hold).2.symm).trans h
  rw [Registry.switchActiveProcess]
  split
  · exact h
  cases pid with
  | none =>
    exact hback
  | some next =>
    dsimp only
    split
    · exact hback
    · rw [← Option.not_isSome_iff_eq_none, Finmap.lookup_isSome] at hback ⊢
      exact fun hmem => hback (Finmap.mem_erase.mp hmem).2

/-- A switch to a process that is active or in the map. -/
theorem switchActiveProcess_fits {pid gsBase : Nat} (hzero : r.byPid.lookup 0 = none)
    (hpid : r.active cpu = some pid ∨ pid ∈ r.byPid)
    (hgs : r.active cpu = none ∨ gsBase = (r.slots cpu).gsBase) :
    (r.switchActiveProcess cpu (some pid)).active cpu = some pid ∧
      Machine.gsBaseAfterSwitch r cpu (some pid) gsBase =
        ((r.switchActiveProcess cpu (some pid)).slots cpu).gsBase := by
  rw [Machine.gsBaseAfterSwitch, Registry.switchActiveProcess]
  by_cases hactive : r.active cpu = some pid
  · rw [if_pos hactive, if_pos hactive]
    exact ⟨hactive, hgs.resolve_left (by simp [hactive])⟩
  · rw [if_neg hactive, if_neg hactive]
    have hmem := hpid.resolve_left hactive
    have hback : pid ∈ (r.putBack cpu).byPid := by
      rw [Registry.putBack]
      split
      · exact hmem
      · exact Finmap.mem_insert.mpr (Or.inr hmem)
    obtain ⟨proc, hproc⟩ := Option.isSome_iff_exists.mp (Finmap.lookup_isSome.mpr hback)
    have hne : pid ≠ 0 := by
      rintro rfl
      exact absurd (Finmap.lookup_isSome.mpr hmem) (by simp [hzero])
    simp only [hproc, Registry.adopt, Function.update_self, and_true]
    exact active_eq_some.mpr ⟨Function.update_self .., hne⟩

theorem switchActiveProcess_other {k : Fin maxCpus} (hk : cpu ≠ k)
    (pid : Option Nat) :
    (r.switchActiveProcess k pid).activePids cpu = r.activePids cpu ∧
      (r.switchActiveProcess k pid).slots cpu = r.slots cpu := by
  have hback : (r.putBack k).activePids cpu = r.activePids cpu ∧
      (r.putBack k).slots cpu = r.slots cpu := by
    rw [Registry.putBack]
    split
    · exact ⟨rfl, rfl⟩
    · exact ⟨rfl, Function.update_of_ne hk _ _⟩
  rw [Registry.switchActiveProcess]
  split
  · exact ⟨rfl, rfl⟩
  split
  · simpa [Registry.idle, hk] using hback
  dsimp only
  split
  · simpa [Registry.idle, hk] using hback
  · simpa [Registry.adopt, hk] using hback

end Registry

/-! ## The bases of one CPU -/

/-- The two bases of a CPU and the task it executes, in each mode. -/
def Apart (cpuLocal : Nat) (r : Registry Proc) (cpu : Fin maxCpus) (core : Core) : Prop :=
  match core.mode with
  | .boot => core.kernelGsBase = cpuLocal ∧
      (r.active cpu = none ∨ core.gsBase = (r.slots cpu).gsBase)
  | .user => core.kernelGsBase = cpuLocal ∧ core.gsBase = (r.slots cpu).gsBase ∧
      ∃ id task, core.executing = some (id, task) ∧ r.active cpu = some task.processId ∧
        core.kernelRsp = task.kernelStackTop
  | .syscall => core.gsBase = cpuLocal ∧ core.kernelGsBase = (r.slots cpu).gsBase ∧
      ∀ id task, core.executing = some (id, task) → r.active cpu = some task.processId ∧
        core.kernelRsp = task.kernelStackTop

/-- The bases of a CPU are apart, and no process has the number 0. -/
structure Kept (cpuLocal : Nat) (cpu : Fin maxCpus) (m : Machine) : Prop where
  zero : m.registry.byPid.lookup 0 = none
  apart : Apart cpuLocal m.registry cpu (m.cores cpu)

/-- A CPU, its slot and its active process are the same. -/
structure SameAt (cpu : Fin maxCpus) (m m' : Machine) : Prop where
  core : m'.cores cpu = m.cores cpu
  activePid : m'.registry.activePids cpu = m.registry.activePids cpu
  slot : m'.registry.slots cpu = m.registry.slots cpu

namespace SameAt

variable {cpu k : Fin maxCpus} {m m' m'' : Machine}

theorem refl
    (cpu : Fin maxCpus) (m : Machine) :
    SameAt cpu m m :=
  ⟨rfl, rfl, rfl⟩

theorem trans (h : SameAt cpu m m')
    (h' : SameAt cpu m' m'') :
    SameAt cpu m m'' :=
  ⟨h'.core.trans h.core, h'.activePid.trans h.activePid, h'.slot.trans h.slot⟩

theorem setCore (hk : cpu ≠ k)
    (m : Machine) (core : Core) :
    SameAt cpu m (m.setCore k core) :=
  ⟨Function.update_of_ne hk _ _, rfl, rfl⟩

theorem switchActiveProcess (hk : cpu ≠ k)
    (m : Machine) (pid : Option Nat) :
    SameAt cpu m (m.switchActiveProcess k pid) :=
  ⟨Function.update_of_ne hk _ _, (switchActiveProcess_other hk pid).1,
    (switchActiveProcess_other hk pid).2⟩

theorem loadInitContext (hk : cpu ≠ k)
    (m : Machine) (initContext : Option Nat) :
    SameAt cpu m (m.loadInitContext k initContext) := by
  cases initContext with
  | none =>
    exact refl cpu m
  | some teb =>
    exact ⟨Function.update_of_ne hk _ _, rfl, Function.update_of_ne hk _ _⟩

theorem resumePicked {picked : Option Nat} (hk : cpu ≠ k)
    (h : m.resumePicked k picked = some m') :
    SameAt cpu m m' := by
  cases picked with
  | none =>
    cases h
    exact refl cpu m
  | some id =>
    obtain ⟨task, -, h⟩ := Option.bind_eq_some_iff.mp h
    cases h
    exact (switchActiveProcess hk m _).trans (setCore hk _ _)

theorem saveContext
    (cpu : Fin maxCpus) (m : Machine) (k : Fin maxCpus) :
    SameAt cpu m (m.saveContext k) := by
  rw [Machine.saveContext]
  split <;> exact ⟨rfl, rfl, rfl⟩

theorem createUserProcess (hk : cpu ≠ k)
    (m : Machine) (spawn : Machine.Spawn) :
    SameAt cpu m (m.createUserProcess k spawn) := by
  cases spawn with
  | rejected =>
    exact refl cpu m
  | unprepared =>
    exact ⟨rfl, rfl, rfl⟩
  | prepared initContext kernelStackTop =>
    have hloaded := ((switchActiveProcess hk
      (m.allocateIds.register (max m.nextPid 1) (max m.nextTaskId 1)) (some (max m.nextPid 1))).trans
        (loadInitContext hk _ initContext)).trans
          (switchActiveProcess hk _ (m.registry.active k))
    cases initContext <;> exact ⟨hloaded.core, hloaded.activePid, hloaded.slot⟩

/-- An event on another CPU. -/
theorem step {event : Event} (hk : cpu ≠ event.cpu)
    (h : GsBases.step m event = some m') :
    SameAt cpu m m' := by
  cases event with
  | tick k picked =>
    simp only [GsBases.step, Machine.tick] at h
    split at h
    · cases h
      exact refl cpu m
    · exact resumePicked hk h
    · exact (saveContext cpu m k).trans (resumePicked hk h)
  | syscall k | sysret k =>
    simp only [GsBases.step, Option.ite_none_right_eq_some, Option.some.injEq] at h
    exact h.2 ▸ setCore hk m _
  | createUserProcess k spawn =>
    simp only [GsBases.step, Option.ite_none_right_eq_some, Option.some.injEq] at h
    exact h.2 ▸ createUserProcess hk m spawn
  | createThreadEx k kernelStackTop =>
    simp only [GsBases.step, Option.ite_none_right_eq_some, Option.some.injEq] at h
    exact h.2 ▸ ⟨rfl, rfl, rfl⟩
  | exitTask k picked =>
    simp only [GsBases.step, Option.ite_none_right_eq_some] at h
    have hleft : SameAt cpu m (m.leave k) := ⟨Function.update_of_ne hk _ _, rfl, rfl⟩
    exact hleft.trans (resumePicked hk h.2)

end SameAt

/-! ## No process has the number 0 -/

section Zero

variable {m m' : Machine}

theorem lookup_zero_resumePicked {cpu : Fin maxCpus} {picked : Option Nat}
    (hzero : m.registry.byPid.lookup 0 = none)
    (h : m.resumePicked cpu picked = some m') :
    m'.registry.byPid.lookup 0 = none := by
  cases picked with
  | none =>
    cases h
    exact hzero
  | some id =>
    obtain ⟨task, -, h⟩ := Option.bind_eq_some_iff.mp h
    cases h
    exact lookup_zero_switchActiveProcess hzero cpu _

theorem registry_loadInitContext
    (m : Machine) (cpu : Fin maxCpus) (initContext : Option Nat) :
    (m.loadInitContext cpu initContext).registry.byPid = m.registry.byPid := by
  cases initContext <;> rfl

theorem lookup_zero_createUserProcess (hzero : m.registry.byPid.lookup 0 = none)
    (cpu : Fin maxCpus) (spawn : Machine.Spawn) :
    (m.createUserProcess cpu spawn).registry.byPid.lookup 0 = none := by
  cases spawn with
  | rejected | unprepared =>
    exact hzero
  | prepared initContext kernelStackTop =>
    have hentered : (m.allocateIds.register (max m.nextPid 1)
        (max m.nextTaskId 1)).registry.byPid.lookup 0 = none :=
      (Finmap.lookup_insert_of_ne _ (by omega)).trans hzero
    have hswitched := lookup_zero_switchActiveProcess hentered cpu (some (max m.nextPid 1))
    have hloaded : ((Machine.switchActiveProcess _ cpu (some (max m.nextPid 1))).loadInitContext
        cpu initContext).registry.byPid.lookup 0 = none :=
      (congrArg _ (registry_loadInitContext _ cpu initContext)).trans hswitched
    have hback := lookup_zero_switchActiveProcess hloaded cpu (m.registry.active cpu)
    cases initContext with
    | none =>
      exact (Finmap.lookup_erase_ne (by omega)).trans hback
    | some teb =>
      exact hback

theorem lookup_zero_step {event : Event} (hzero : m.registry.byPid.lookup 0 = none)
    (h : step m event = some m') :
    m'.registry.byPid.lookup 0 = none := by
  cases event with
  | tick k picked =>
    simp only [step, Machine.tick] at h
    have hsaved : (m.saveContext k).registry.byPid.lookup 0 = none := by
      rw [Machine.saveContext]
      split <;> exact hzero
    split at h
    · cases h
      exact hzero
    · exact lookup_zero_resumePicked hzero h
    · exact lookup_zero_resumePicked hsaved h
  | syscall k | sysret k =>
    simp only [step, Option.ite_none_right_eq_some, Option.some.injEq] at h
    exact h.2 ▸ hzero
  | createUserProcess k spawn =>
    simp only [step, Option.ite_none_right_eq_some, Option.some.injEq] at h
    exact h.2 ▸ lookup_zero_createUserProcess hzero k spawn
  | createThreadEx k kernelStackTop =>
    simp only [step, Option.ite_none_right_eq_some, Option.some.injEq] at h
    exact h.2 ▸ hzero
  | exitTask k picked =>
    simp only [step, Option.ite_none_right_eq_some] at h
    have hleft : (m.leave k).registry.byPid.lookup 0 = none := hzero
    exact lookup_zero_resumePicked hleft h.2

end Zero

/-! ## The tasks that may be picked -/

/-- A task whose context is saved goes on inside a system call. -/
theorem tasks_saveContext {m : Machine} {cpu : Fin maxCpus} {id : Nat} {task : UserTask}
    (h : (m.saveContext cpu).tasks id = some task) :
    ∃ before, m.tasks id = some before ∧ before.processId = task.processId ∧
      ((before.inSyscall = true ∨ (m.cores cpu).executing.map Prod.fst = some id) →
        task.inSyscall = true) := by
  rw [Machine.saveContext] at h
  split at h
  next hnone =>
    exact ⟨task, h, rfl, fun hin => hin.resolve_right (by simp [hnone])⟩
  next id' t hsome =>
    by_cases hid : id = id'
    · subst hid
      simp only [Function.update_self, Option.map_eq_some_iff] at h
      obtain ⟨before, hbefore, rfl⟩ := h
      exact ⟨before, hbefore, rfl, fun _ => rfl⟩
    · simp only [Function.update_of_ne hid] at h
      exact ⟨task, h, rfl, fun hin => hin.resolve_right (by simp [hsome, Ne.symm hid])⟩

theorem unlink_of_ne {taskToPid : Nat → Option Nat} {executing : Option (Nat × UserTask)} {id : Nat}
    (h : executing.map Prod.fst ≠ some id) :
    Machine.unlink taskToPid executing id = taskToPid id := by
  cases executing with
  | none =>
    rfl
  | some running =>
    have hne : id ≠ running.1 := by
      rintro rfl
      exact h rfl
    exact Function.update_of_ne hne _ _

namespace Kept

variable {cpuLocal : Nat} {cpu : Fin maxCpus} {m m' : Machine}

theorem of_sameAt (h : Kept cpuLocal cpu m) (hzero : m'.registry.byPid.lookup 0 = none)
    (hsame : SameAt cpu m m') :
    Kept cpuLocal cpu m' := by
  refine ⟨hzero, ?_⟩
  have hactive : m'.registry.active cpu = m.registry.active cpu := by
    simp only [Registry.active, hsame.activePid]
  simp only [Apart, hsame.core, hsame.slot, hactive]
  exact h.apart

/-- The first task of a CPU is picked. -/
theorem resume_boot {id : Nat} (h : Kept cpuLocal cpu m) (hmode : (m.cores cpu).mode = .boot)
    (hfits : Fits m cpu id)
    (hr : m.resume cpu id = some m') :
    Apart cpuLocal m'.registry cpu (m'.cores cpu) := by
  obtain ⟨task, htask, hr⟩ := Option.bind_eq_some_iff.mp hr
  cases hr
  have hapart := h.apart
  obtain ⟨hlink, hpick⟩ := hfits task htask
  simp only [Apart, FitsIn, hmode] at hapart hpick
  obtain ⟨hactive, hgs⟩ := switchActiveProcess_fits h.zero hpick.2 hapart.2
  simp only [Apart, Machine.setCore, Machine.activateTask, Machine.switchActiveProcess,
    Function.update_self, hpick.1, hlink, Bool.false_eq_true, if_false]
  exact ⟨hapart.1, hgs, id, task, rfl, hactive, rfl⟩

/-- A task of the active process is picked inside a system call. -/
theorem resume_syscall {id : Nat} (h : Kept cpuLocal cpu m) (hmode : (m.cores cpu).mode = .syscall)
    (hfits : ∀ task, m.tasks id = some task → m.taskToPid id = some task.processId ∧
      task.inSyscall = true ∧ m.registry.active cpu = some task.processId)
    (hr : m.resume cpu id = some m') :
    Apart cpuLocal m'.registry cpu (m'.cores cpu) := by
  obtain ⟨task, htask, hr⟩ := Option.bind_eq_some_iff.mp hr
  cases hr
  have hapart := h.apart
  obtain ⟨hlink, hin, hactive⟩ := hfits task htask
  simp only [Apart, hmode] at hapart
  have hsame : m.registry.switchActiveProcess cpu (some task.processId) = m.registry := by
    rw [Registry.switchActiveProcess, if_pos hactive]
  simp only [Apart, Machine.setCore, Machine.activateTask, Machine.switchActiveProcess,
    Machine.gsBaseAfterSwitch, Function.update_self, hin, hlink, hsame, if_pos hactive, if_true]
  refine ⟨hapart.1, hapart.2.1, ?_⟩
  rintro id' task' hexecuting
  cases hexecuting
  exact ⟨hactive, rfl⟩

theorem tick {picked : Option Nat} (h : Kept cpuLocal cpu m)
    (hkeeps : Keeps cpu m (.tick cpu picked))
    (ht : m.tick cpu picked = some m') :
    Apart cpuLocal m'.registry cpu (m'.cores cpu) := by
  simp only [Machine.tick] at ht
  have hsaved : Kept cpuLocal cpu (m.saveContext cpu) := by
    refine h.of_sameAt ?_ (SameAt.saveContext cpu m cpu)
    rw [Machine.saveContext]
    split <;> exact h.zero
  split at ht
  next =>
    cases ht
    exact h.apart
  next hmode =>
    cases picked with
    | none =>
      cases ht
      exact h.apart
    | some id =>
      exact h.resume_boot hmode (hkeeps rfl) ht
  next hmode =>
    cases picked with
    | none =>
      cases ht
      exact hsaved.apart
    | some id =>
      have hfits : Fits m cpu id := hkeeps rfl
      simp only [Fits, FitsIn, hmode] at hfits
      refine hsaved.resume_syscall ?_ ?_ ht
      · rw [(SameAt.saveContext cpu m cpu).core]
        exact hmode
      · intro task htask
        obtain ⟨before, hbefore, hpid, hin⟩ := tasks_saveContext htask
        obtain ⟨hlink, hsaved, hactive⟩ := hfits before hbefore
        rw [hpid] at hlink hactive
        refine ⟨?_, hin hsaved, ?_⟩
        · rw [Machine.saveContext]
          split <;> exact hlink
        · rw [Machine.saveContext]
          split <;> exact hactive

theorem exitTask {picked : Option Nat} (h : Kept cpuLocal cpu m)
    (hmode : (m.cores cpu).mode = .syscall) (hkeeps : Keeps cpu m (.exitTask cpu picked))
    (he : (m.leave cpu).resumePicked cpu picked = some m') :
    Apart cpuLocal m'.registry cpu (m'.cores cpu) := by
  have hapart := h.apart
  simp only [Apart, hmode] at hapart
  have hleft : Kept cpuLocal cpu (m.leave cpu) := by
    refine ⟨h.zero, ?_⟩
    simp only [Machine.leave, Machine.setCore, Apart, Function.update_self, hmode]
    exact ⟨hapart.1, hapart.2.1, by simp⟩
  cases picked with
  | none =>
    cases he
    exact hleft.apart
  | some id =>
    obtain ⟨hfits, hother⟩ := hkeeps rfl
    simp only [Fits, FitsIn, hmode] at hfits
    refine hleft.resume_syscall ?_ ?_ he
    · simp only [Machine.leave, Machine.setCore, Function.update_self, hmode]
    · intro task htask
      obtain ⟨hlink, hin, hactive⟩ := hfits task htask
      exact ⟨(unlink_of_ne hother).trans hlink, hin.resolve_right hother, hactive⟩

theorem syscall (h : Kept cpuLocal cpu m)
    (hmode : (m.cores cpu).mode = .user) :
    Apart cpuLocal m.registry cpu { Machine.swapgs (m.cores cpu) with mode := .syscall } := by
  have hapart := h.apart
  simp only [Apart, hmode] at hapart
  obtain ⟨hkernel, hgs, id, task, hexecuting, hactive, hrsp⟩ := hapart
  refine ⟨hkernel, hgs, ?_⟩
  intro id' task' hexecuting'
  cases hexecuting.symm.trans hexecuting'
  exact ⟨hactive, hrsp⟩

theorem sysret (h : Kept cpuLocal cpu m) (hmode : (m.cores cpu).mode = .syscall)
    (hsome : (m.cores cpu).executing.isSome) :
    Apart cpuLocal m.registry cpu { Machine.swapgs (m.cores cpu) with mode := .user } := by
  have hapart := h.apart
  obtain ⟨⟨id, task⟩, hexecuting⟩ := Option.isSome_iff_exists.mp hsome
  simp only [Apart, hmode] at hapart
  obtain ⟨hactive, hrsp⟩ := hapart.2.2 id task hexecuting
  exact ⟨hapart.1, hapart.2.1, id, task, hexecuting, hactive, hrsp⟩

/-- An event on the CPU itself. -/
theorem step_self {event : Event} (h : Kept cpuLocal event.cpu m) (hkeeps : Keeps event.cpu m event)
    (hs : GsBases.step m event = some m') :
    Apart cpuLocal m'.registry event.cpu (m'.cores event.cpu) := by
  cases event with
  | tick k picked =>
    exact h.tick hkeeps hs
  | syscall k =>
    obtain ⟨hmode, hs⟩ := Option.ite_none_right_eq_some.mp hs
    cases hs
    simp only [Machine.setCore, Event.cpu, Function.update_self]
    exact h.syscall hmode
  | sysret k =>
    obtain ⟨⟨hmode, hsome⟩, hs⟩ := Option.ite_none_right_eq_some.mp hs
    cases hs
    simp only [Machine.setCore, Event.cpu, Function.update_self]
    exact h.sysret hmode hsome
  | createUserProcess k spawn =>
    obtain ⟨-, hs⟩ := Option.ite_none_right_eq_some.mp hs
    cases hs
    rcases hkeeps rfl with rfl | rfl <;> exact h.apart
  | createThreadEx k kernelStackTop =>
    obtain ⟨-, hs⟩ := Option.ite_none_right_eq_some.mp hs
    cases hs
    exact h.apart
  | exitTask k picked =>
    obtain ⟨hmode, hs⟩ := Option.ite_none_right_eq_some.mp hs
    exact h.exitTask hmode hkeeps hs

/-- One event. -/
theorem step {event : Event} (h : Kept cpuLocal cpu m) (hkeeps : Keeps cpu m event)
    (hs : GsBases.step m event = some m') :
    Kept cpuLocal cpu m' := by
  have hzero := lookup_zero_step h.zero hs
  by_cases hk : cpu = event.cpu
  · subst hk
    exact ⟨hzero, h.step_self hkeeps hs⟩
  · exact h.of_sameAt hzero (SameAt.step hk hs)

/-- A switch on a CPU that has not executed a user task. -/
theorem switchActiveProcess_boot {k : Fin maxCpus} {pid : Nat} (h : Kept cpuLocal cpu m)
    (hmode : (m.cores cpu).mode = .boot)
    (hpid : m.registry.active k = some pid ∨ pid ∈ m.registry.byPid) :
    Kept cpuLocal cpu (m.switchActiveProcess k (some pid)) := by
  have hzero := lookup_zero_switchActiveProcess h.zero k (some pid)
  by_cases hk : cpu = k
  · subst hk
    have hapart := h.apart
    simp only [Apart, hmode] at hapart
    refine ⟨hzero, ?_⟩
    simp only [Apart, Machine.switchActiveProcess, Machine.setCore, Function.update_self, hmode]
    exact ⟨hapart.1, Or.inr (switchActiveProcess_fits h.zero hpid hapart.2).2⟩
  · exact h.of_sameAt hzero (.switchActiveProcess hk m _)

theorem loadInitContext_boot (h : Kept cpuLocal cpu m) (hmode : (m.cores cpu).mode = .boot)
    (k : Fin maxCpus) (initContext : Option Nat) :
    Kept cpuLocal cpu (m.loadInitContext k initContext) := by
  by_cases hk : cpu = k
  · subst hk
    cases initContext with
    | none =>
      exact h
    | some teb =>
      have hapart := h.apart
      simp only [Apart, hmode] at hapart
      refine ⟨h.zero, ?_⟩
      simp only [Apart, Machine.loadInitContext, Machine.setCore, Function.update_self, hmode]
      exact ⟨hapart.1, Or.inr trivial⟩
  · refine h.of_sameAt ?_ (.loadInitContext hk m initContext)
    rw [registry_loadInitContext]
    exact h.zero

/-- The state in which the first task is picked. -/
theorem initial (cpuLocals stackTops : Fin maxCpus → Nat) (id : Nat) (initContext : Option Nat)
    (kernelStackTop : Nat) (cpu : Fin maxCpus) :
    Kept (cpuLocals cpu) cpu
      (GsBases.initial cpuLocals stackTops id initContext kernelStackTop) := by
  let m := Machine.boot cpuLocals stackTops
  let entered := Machine.register { m with
    registry := { m.registry with slots := Function.update m.registry.slots (currentCpu 0) ⟨1, 0⟩ } } 1 id
  have hentered : Kept (cpuLocals cpu) cpu entered :=
    ⟨(Finmap.lookup_insert_of_ne _ (by decide)).trans rfl, rfl, Or.inl rfl⟩
  have hswitched : Kept (cpuLocals cpu) cpu (entered.switchActiveProcess (currentCpu 0) (some 1)) :=
    hentered.switchActiveProcess_boot rfl (Or.inr (Finmap.mem_insert.mpr (Or.inl rfl)))
  have hmode : ((entered.switchActiveProcess (currentCpu 0) (some 1)).cores cpu).mode = .boot := by
    by_cases hcpu : cpu = currentCpu 0
    · subst hcpu
      rfl
    · rw [(SameAt.switchActiveProcess hcpu entered (some 1)).core]
      rfl
  have hloaded := hswitched.loadInitContext_boot hmode (currentCpu 0) initContext
  cases initContext with
  | none =>
    exact hloaded
  | some teb =>
    exact ⟨hloaded.zero, hloaded.apart⟩

end Kept

/-! ## Every run -/

/-- On every CPU, along every run in which no process is created inside a system call of
that CPU and every task that is picked there fits: each syscall entry finds the kernel's
base and stack, and in user mode the base is that of the process.

On the other CPUs anything may happen. -/
theorem gs_bases_kept (cpuLocals stackTops : Fin maxCpus → Nat)
    (id : Nat) (initContext : Option Nat) (kernelStackTop : Nat) (cpu : Fin maxCpus)
    {events : List Event} {m : Machine}
    (hrun : Run (fun m event m' => Keeps cpu m event ∧ step m event = some m')
      (initial cpuLocals stackTops id initContext kernelStackTop) events m) :
    ((m.cores cpu).mode = .user → Returned m cpu) ∧
      ∀ m', step m (.syscall cpu) = some m' → Entered cpuLocals m' cpu := by
  have hkept : Kept (cpuLocals cpu) cpu m :=
    hrun.invariant (fun _ _ _ h hs => h.step hs.1 hs.2) (.initial ..)
  have hapart := hkept.apart
  constructor
  · intro hmode
    simp only [Apart, hmode] at hapart
    obtain ⟨-, hgs, id, task, hexecuting, hactive, -⟩ := hapart
    obtain ⟨hpid, hne⟩ := active_eq_some.mp hactive
    exact ⟨id, task, _, hexecuting, ⟨hne, hpid, rfl⟩, hgs⟩
  · intro m' hs
    obtain ⟨hmode, hs⟩ := Option.ite_none_right_eq_some.mp hs
    cases hs
    simp only [Apart, hmode] at hapart
    obtain ⟨hkernel, -, id, task, hexecuting, -, hrsp⟩ := hapart
    simp only [Entered, Machine.setCore, Function.update_self]
    exact ⟨hkernel, id, task, hexecuting, hrsp⟩

/-- The init task has the environment block and the kernel stack given here. -/
def sampleInitial : Machine :=
  initial (fun cpu => 0xffffffff80200000 + 24 * cpu) (fun cpu => 0xffffffff80300000 + 65536 * cpu)
    3 (some 0x7ffff0001000) 0xffff900000010000

/-- The first task starts another process, and a second CPU picks it and serves one of its
system calls, with a tick in between. -/
theorem gs_bases_kept_second_cpu :
    ∃ m, Run (fun m event m' => Keeps (currentCpu 1) m event ∧ step m event = some m')
        sampleInitial
        [.tick (currentCpu 0) (some 3), .syscall (currentCpu 0),
          .createUserProcess (currentCpu 0) (.prepared (some 0x7ffff0002000) 0xffff900000020000),
          .tick (currentCpu 1) (some 4), .syscall (currentCpu 1), .tick (currentCpu 1) (some 4),
          .sysret (currentCpu 1)] m ∧
      Returned m (currentCpu 1) := by
  have hview :
      (runAll (guarded (Keeps (currentCpu 1)) step) sampleInitial
        [.tick (currentCpu 0) (some 3), .syscall (currentCpu 0),
          .createUserProcess (currentCpu 0) (.prepared (some 0x7ffff0002000) 0xffff900000020000),
          .tick (currentCpu 1) (some 4), .syscall (currentCpu 1), .tick (currentCpu 1) (some 4),
          .sysret (currentCpu 1)]).map (fun m => (m.cores (currentCpu 1)).mode) = some .user := by
    decide +kernel
  obtain ⟨m, hm, hmode⟩ := Option.map_eq_some_iff.mp hview
  have hrun := run_of_guarded hm
  exact ⟨m, hrun, (gs_bases_kept _ _ _ _ _ (currentCpu 1) hrun).1 hmode⟩

/-- The first task starts another process.  At its next system call the active base is its
own `gs_base`, from which the kernel takes its stack pointer. -/
theorem syscall_on_user_base :
    ∃ m m', Run (Det step) sampleInitial
        [.tick (currentCpu 0) (some 3), .syscall (currentCpu 0),
          .createUserProcess (currentCpu 0) (.prepared (some 0x7ffff0002000) 0xffff900000020000),
          .sysret (currentCpu 0)] m ∧
      step m (.syscall (currentCpu 0)) = some m' ∧
      (m'.cores (currentCpu 0)).gsBase = 0x7ffff0001000 ∧
      ¬ Entered (fun cpu => 0xffffffff80200000 + 24 * cpu) m' (currentCpu 0) := by
  have hview :
      (runAll step sampleInitial
        [.tick (currentCpu 0) (some 3), .syscall (currentCpu 0),
          .createUserProcess (currentCpu 0) (.prepared (some 0x7ffff0002000) 0xffff900000020000),
          .sysret (currentCpu 0)]).map (fun m => (step m (.syscall (currentCpu 0))).map fun m' =>
            (m'.cores (currentCpu 0)).gsBase) = some (some 0x7ffff0001000) := by
    decide +kernel
  obtain ⟨m, hm, hentry⟩ := Option.map_eq_some_iff.mp hview
  obtain ⟨m', hm', hgs⟩ := Option.map_eq_some_iff.mp hentry
  refine ⟨m, m', (runAll_eq_some_iff _ _ _ _).mp hm, hm', hgs, ?_⟩
  rintro ⟨hlocal, -⟩
  rw [hgs] at hlocal
  exact absurd hlocal (by decide)

end GsBases
end Kernel
end Theos
