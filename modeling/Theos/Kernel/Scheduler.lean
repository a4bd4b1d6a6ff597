import Theos.Base.Run
import Theos.Base.Rust
import Mathlib.Data.List.MinMax
import Mathlib.Logic.Function.Basic
import Mathlib.Tactic

/-!
# The scheduler

This module follows `Scheduler` of `kernel/process.rs`: tasks with their
scheduling data, one run queue per CPU with a queue, a deficit and a rotating
cursor over the four task classes, and the calls the rest of the kernel makes
(`configure_topology`, `add_task`, `start`, `on_timer_tick`, `request_yield`,
`block_current`, `wake_task`, `exit_current`).

Every function returns an `Option`, where `none` is a panic of the source: an
unknown task id or a CPU index out of range.

The source keeps tasks in a vector together with a map from id to position.
Tasks are never removed and the vector is only read through the map, so the two
are one partial function here, and `taskCount` is the vector's length.  The
saved stack contents, the cache domains (which nothing reads) and the calls
that switch address space and kernel stack are left out.
-/

namespace Theos
namespace Kernel

open Base

/-- `smp::MAX_CPUS`. -/
def maxCpus : Nat := 32

def numClasses : Nat := 4

def u64Max : Nat := 2 ^ 64 - 1

inductive TaskState where
  | ready
  | running
  | blocked
  | exited
deriving DecidableEq, Repr

inductive TaskClass where
  | game
  | normal
  | hog
  | background
deriving DecidableEq, Repr

namespace TaskClass

def index : TaskClass → Nat
  | game => 0
  | normal => 1
  | hog => 2
  | background => 3

def fromIndex : Nat → TaskClass
  | 0 => game
  | 1 => normal
  | 2 => hog
  | _ => background

/-- The classes in the order of their indices. -/
def all : List TaskClass :=
  [game, normal, hog, background]

/-- `CLASS_QUANTA`. -/
def quanta : TaskClass → Int
  | game => 6
  | normal => 4
  | hog => 2
  | background => 1

/-- `CLASS_WEIGHTS`. -/
def weights : TaskClass → Nat
  | game => 4
  | normal => 3
  | hog => 2
  | background => 1

theorem mem_all
    (cls : TaskClass) :
    cls ∈ all := by
  cases cls <;> decide

theorem index_lt
    (cls : TaskClass) :
    cls.index < numClasses := by
  cases cls <;> decide

@[simp]
theorem fromIndex_index
    (cls : TaskClass) :
    fromIndex cls.index = cls := by
  cases cls <;> rfl

theorem index_fromIndex {i : Nat}
    (hi : i < numClasses) :
    (fromIndex i).index = i := by
  revert hi
  revert i
  decide

theorem quanta_pos
    (cls : TaskClass) :
    0 < cls.quanta := by
  cases cls <;> decide

end TaskClass

def runnableScale : Nat := 1024
def hogUtilThreshold : Nat := 896
def hogSliceThreshold : Nat := 4
def wakeCreditPerTick : Nat := 32
def maxSleepCredit : Nat := 256

structure SchedParams where
  classHint : Option TaskClass
  nice : Int
  preferredCpu : Option Nat
  processId : Nat
deriving DecidableEq, Repr

structure Task where
  id : Nat
  processId : Nat
  threadId : Nat
  state : TaskState
  savedRsp : Nat
  classHint : Option TaskClass
  cls : TaskClass
  nice : Int
  preferredCpu : Option Nat
  lastCpu : Nat
  runtimeTicks : Nat
  runnableAvg : Nat
  vruntime : Nat
  sleepCredit : Nat
  deficit : Int
  sliceTicks : Nat
  voluntaryYields : Nat
  fullSliceRuns : Nat
  sleepStartedAt : Option Nat
  queued : Bool
deriving DecidableEq, Repr

def clampNice (nice : Int) : Int :=
  max (-20) (min nice 19)

def niceWeight (nice : Int) : Nat :=
  (max (40 - (clampNice nice + 20)) 1).toNat

/-- `task_quantum`: at least one tick, more for heavier classes and lower nice. -/
def taskQuantum (cls : TaskClass) (nice : Int) : Int :=
  max ((cls.quanta * (niceWeight nice : Int)) / 20) 1

def vruntimeDelta (cls : TaskClass) (nice : Int) : Nat :=
  1024 / max (cls.weights * niceWeight nice) 1

namespace Task

/-- `Task::with_params` and `Task::with_initial_context` as far as scheduling
goes: they differ only in the context they write on the new stack. -/
def withParams (id threadId savedRsp : Nat) (params : SchedParams) : Task where
  id := id
  processId := params.processId
  threadId := threadId
  state := .ready
  savedRsp := savedRsp
  classHint := params.classHint
  cls := params.classHint.getD .normal
  nice := clampNice params.nice
  preferredCpu := params.preferredCpu
  lastCpu := 0
  runtimeTicks := 0
  runnableAvg := 0
  vruntime := 0
  sleepCredit := 0
  deficit := 0
  sliceTicks := 0
  voluntaryYields := 0
  fullSliceRuns := 0
  sleepStartedAt := none
  queued := false

/-- `task.vruntime.saturating_sub(task.sleep_credit)`. -/
def effectiveVruntime (t : Task) : Nat :=
  t.vruntime - t.sleepCredit

/-- `recompute_task_class`, used when a task is added. -/
def recomputeClass (t : Task) : Task :=
  { t with cls := t.classHint.getD (if t.nice ≥ 10 then .background else .normal) }

/-- `recompute_task_class_by_id`, used after a tick: a task that keeps the CPU
busy and uses its slices up becomes a hog. -/
def recomputeClassById (t : Task) : Task :=
  { t with
    cls := t.classHint.getD
      (if t.nice ≥ 10 then .background
        else if t.runnableAvg ≥ hogUtilThreshold ∧ t.fullSliceRuns ≥ hogSliceThreshold then
          .hog
        else .normal) }

/-- The accounting block of `account_running_task`. -/
def accountTick (t : Task) (currentRsp : Nat) : Task :=
  let quantum := taskQuantum t.cls t.nice
  let slice := satAddU 64 t.sliceTicks 1
  let full : Bool := decide (quantum ≤ (slice : Int))
  { t with
    savedRsp := currentRsp
    runtimeTicks := satAddU 64 t.runtimeTicks 1
    sliceTicks := if full then 0 else slice
    runnableAvg := (t.runnableAvg * 7 + runnableScale) / 8
    vruntime := satAddU 64 t.vruntime (vruntimeDelta t.cls t.nice)
    sleepCredit := t.sleepCredit - 1
    fullSliceRuns := if full then satAddU 64 t.fullSliceRuns 1 else t.fullSliceRuns
    state := if t.state = .running then .ready else t.state }

/-- The sleep credit and deficit a woken task starts with. -/
def wake (t : Task) (globalTick : Nat) : Task :=
  let slept := (t.sleepStartedAt.map fun start => globalTick - start).getD 0
  { t with
    sleepStartedAt := none
    sleepCredit := min maxSleepCredit
      (satAddU 64 t.sleepCredit (min (slept * wakeCreditPerTick) u64Max))
    state := .ready
    deficit := taskQuantum t.cls t.nice }

/-- What `block_current` writes into the task. -/
def block (t : Task) (globalTick : Nat) : Task :=
  { t with
    state := .blocked
    queued := false
    sliceTicks := 0
    deficit := 0
    sleepStartedAt := some globalTick }

/-- What `pick_next_task` writes into the task it takes from a queue. -/
def dispatch (t : Task) (id cpu : Nat) (previous : Option Nat) : Task :=
  { t with
    state := .running
    lastCpu := cpu
    sliceTicks := if some id ≠ previous then 0 else t.sliceTicks
    deficit := (if t.deficit ≤ 0 then taskQuantum t.cls t.nice else t.deficit) - 1 }

/-- One refill of a task's deficit, at most two quanta. -/
def refillDeficit (t : Task) (cls : TaskClass) : Task :=
  { t with
    deficit := min (max t.deficit 0 + taskQuantum cls t.nice)
      (taskQuantum cls t.nice * 2) }

end Task

structure CpuRunQueue where
  id : Nat
  currentTask : Option Nat
  classCursor : Nat
  classDeficits : TaskClass → Int
  queues : TaskClass → List Nat

namespace CpuRunQueue

def new (id : Nat) : CpuRunQueue where
  id := id
  currentTask := none
  classCursor := 0
  classDeficits := fun _ => 0
  queues := fun _ => []

/-- The ids in the queues of this CPU, class by class. -/
def allQueues (rq : CpuRunQueue) : List Nat :=
  TaskClass.all.flatMap rq.queues

def setQueue (rq : CpuRunQueue) (cls : TaskClass) (queue : List Nat) : CpuRunQueue :=
  { rq with queues := Function.update rq.queues cls queue }

def setDeficit (rq : CpuRunQueue) (cls : TaskClass) (deficit : Int) : CpuRunQueue :=
  { rq with classDeficits := Function.update rq.classDeficits cls deficit }

/-- What a pick from the class costs it: one unit of deficit, and the cursor
moves on to the next class. -/
def serve (rq : CpuRunQueue) (cls : TaskClass) : CpuRunQueue :=
  { rq.setDeficit cls (rq.classDeficits cls - 1) with
    classCursor := (cls.index + 1) % numClasses }

/-- The class the scan of `pick_next_task` looks at after `offset` steps. -/
def classAt (rq : CpuRunQueue) (offset : Nat) : TaskClass :=
  TaskClass.fromIndex ((rq.classCursor + offset) % numClasses)

end CpuRunQueue

structure Scheduler where
  tasks : Nat → Option Task
  taskCount : Nat
  cpus : List CpuRunQueue
  globalTick : Nat
  started : Bool
  nextTaskId : Nat
  currentTaskIds : Nat → Nat

namespace Scheduler

def new : Scheduler where
  tasks := fun _ => none
  taskCount := 0
  cpus := [CpuRunQueue.new 0]
  globalTick := 0
  started := false
  nextTaskId := 1
  currentTaskIds := fun _ => 0

/-- All ids in all class queues of all CPUs. -/
def allQueues (s : Scheduler) : List Nat :=
  s.cpus.flatMap CpuRunQueue.allQueues

/-- Write through `task_mut`. -/
def modifyTask (s : Scheduler) (id : Nat) (f : Task → Task) : Option Scheduler :=
  (s.tasks id).map fun t => { s with tasks := Function.update s.tasks id (some (f t)) }

/-- Write through `self.cpus[cpu]`. -/
def modifyCpu (s : Scheduler) (cpu : Nat) (f : CpuRunQueue → CpuRunQueue) :
    Option Scheduler :=
  s.cpus[cpu]?.map fun rq => { s with cpus := s.cpus.set cpu (f rq) }

/-- `CURRENT_TASK_IDS[cpu].store(id)`. -/
def storeCurrentTaskId (s : Scheduler) (cpu id : Nat) : Option Scheduler :=
  if cpu < maxCpus then
    some { s with currentTaskIds := Function.update s.currentTaskIds cpu id }
  else
    none

def cpuIsIdle (s : Scheduler) (cpu : Nat) : Option Bool :=
  s.cpus[cpu]?.map fun rq => rq.currentTask.isNone && rq.allQueues.isEmpty

/-- The number `select_cpu_for_task` minimises. -/
def load (rq : CpuRunQueue) : Nat :=
  (if rq.currentTask.isSome then 1 else 0) + rq.allQueues.length

def selectCpuForTask (s : Scheduler) (t : Task) : Option Nat := do
  if ← s.cpuIsIdle t.lastCpu then
    return t.lastCpu
  let preferred ←
    match t.preferredCpu with
    | some cpu =>
      if cpu < s.cpus.length then do
        if ← s.cpuIsIdle cpu then pure (some cpu) else pure none
      else
        pure none
    | none => pure none
  return preferred.getD (((s.cpus.argmin load).map CpuRunQueue.id).getD 0)

/-- `enqueue_task`: only a Ready task that is not queued yet. -/
def enqueueTask (s : Scheduler) (id : Nat) : Option Scheduler := do
  let t ← s.tasks id
  if t.state = .ready ∧ t.queued = false then
    let s ← s.modifyCpu t.lastCpu fun rq => rq.setQueue t.cls (rq.queues t.cls ++ [id])
    s.modifyTask id fun t => { t with queued := true }
  else
    return s

def addTask (s : Scheduler) (task : Task) : Option Scheduler := do
  let cpu ← s.selectCpuForTask task
  let task := ({ task with lastCpu := cpu }).recomputeClass
  let task := { task with deficit := taskQuantum task.cls task.nice }
  let s := { s with
    tasks := Function.update s.tasks task.id (some task)
    taskCount := s.taskCount + 1 }
  let s ← s.enqueueTask task.id
  return { s with nextTaskId := max s.nextTaskId (satAddU 64 task.id 1) }

def configureTopology (s : Scheduler) (cpuCount : Nat) : Scheduler :=
  if s.taskCount ≠ 0 ∨ s.started then s
  else { s with cpus := (List.range (max cpuCount 1)).map CpuRunQueue.new }

/-- The scan of `pick_task_from_class` over a snapshot of the queue: the Ready
task with positive deficit and the least effective virtual runtime, the first
one in case of a tie. -/
def bestTask (s : Scheduler) : List Nat → Option Nat → Nat → Option (Option Nat)
  | [], best, _ => some best
  | id :: rest, best, bestVruntime => do
    let t ← s.tasks id
    if t.state = .ready ∧ 0 < t.deficit ∧ t.effectiveVruntime < bestVruntime then
      s.bestTask rest (some id) t.effectiveVruntime
    else
      s.bestTask rest best bestVruntime

/-- `refill_task_deficits` over a snapshot of the queue. -/
def refillTaskDeficits (cls : TaskClass) : List Nat → Scheduler → Option Scheduler
  | [], s => some s
  | id :: rest, s => do
    let t ← s.tasks id
    if t.state = .ready then
      let s ← s.modifyTask id fun t => t.refillDeficit cls
      refillTaskDeficits cls rest s
    else
      refillTaskDeficits cls rest s

/-- Take the first occurrence of `id` out of its queue. -/
def takeTask (s : Scheduler) (cpu : Nat) (cls : TaskClass) (id : Nat) : Option Scheduler := do
  let s ← s.modifyCpu cpu fun rq => rq.setQueue cls ((rq.queues cls).erase id)
  s.modifyTask id fun t => { t with queued := false }

/-- `pick_task_from_class`: two passes, with a refill of the task deficits
between them. -/
def pickTaskFromClass (s : Scheduler) (cpu : Nat) (cls : TaskClass) :
    Option (Scheduler × Option Nat) := do
  let rq ← s.cpus[cpu]?
  match ← s.bestTask (rq.queues cls) none u64Max with
  | some id =>
    let s ← s.takeTask cpu cls id
    return (s, some id)
  | none =>
    let s ← refillTaskDeficits cls (rq.queues cls) s
    match ← s.bestTask (rq.queues cls) none u64Max with
    | some id =>
      let s ← s.takeTask cpu cls id
      return (s, some id)
    | none =>
      return (s, none)

/-- The `any` of `has_ready_task_in_class`. -/
def anyReady (s : Scheduler) : List Nat → Option Bool
  | [] => some false
  | id :: rest => do
    let t ← s.tasks id
    if t.state = .ready then return true else s.anyReady rest

def hasReadyTaskInClass (s : Scheduler) (cpu : Nat) (cls : TaskClass) : Option Bool := do
  let rq ← s.cpus[cpu]?
  s.anyReady (rq.queues cls)

/-- `refill_class_deficits` over the listed classes. -/
def refillClassDeficits (cpu : Nat) : List TaskClass → Scheduler → Option Scheduler
  | [], s => some s
  | cls :: rest, s => do
    if ← s.hasReadyTaskInClass cpu cls then
      let s ← s.modifyCpu cpu fun rq => rq.setDeficit cls
        (min (max (rq.classDeficits cls) 0 + cls.quanta) (cls.quanta * 2))
      refillClassDeficits cpu rest s
    else
      refillClassDeficits cpu rest s

/-- The inner loop of `pick_next_task`: the first class from the cursor on that
has deficit left and yields a task. -/
def scanClasses (cpu : Nat) :
    List Nat → Scheduler → Option (Scheduler × Option (Nat × TaskClass))
  | [], s => some (s, none)
  | offset :: rest, s => do
    let rq ← s.cpus[cpu]?
    if rq.classDeficits (rq.classAt offset) ≤ 0 then
      scanClasses cpu rest s
    else
      match ← s.pickTaskFromClass cpu (rq.classAt offset) with
      | (s, some id) => return (s, some (id, rq.classAt offset))
      | (s, none) => scanClasses cpu rest s

/-- Both rounds of the loop of `pick_next_task`, up to the task it takes. -/
def selectTask (s : Scheduler) (cpu : Nat) :
    Option (Scheduler × Option (Nat × TaskClass)) := do
  match ← scanClasses cpu (List.range numClasses) s with
  | (s, some picked) => return (s, some picked)
  | (s, none) =>
    let s ← refillClassDeficits cpu TaskClass.all s
    match ← scanClasses cpu (List.range numClasses) s with
    | (s, some picked) => return (s, some picked)
    | (s, none) =>
      let s ← refillClassDeficits cpu TaskClass.all s
      return (s, none)

/-- `pick_next_task`: returns the stack pointer to resume, if any. -/
def pickNextTask (s : Scheduler) (cpu : Nat) (previous : Option Nat) :
    Option (Scheduler × Option Nat) := do
  match ← s.selectTask cpu with
  | (s, some (id, cls)) =>
    let s ← s.modifyCpu cpu fun rq => rq.serve cls
    let s ← s.modifyTask id fun t => t.dispatch id cpu previous
    let s ← s.modifyCpu cpu fun rq => { rq with currentTask := some id }
    let s ← s.storeCurrentTaskId cpu id
    let t ← s.tasks id
    return (s, some t.savedRsp)
  | (s, none) =>
    match previous with
    | some id =>
      let t ← s.tasks id
      if t.state = .ready ∨ t.state = .running then
        let s ← s.modifyTask id fun t => { t with state := .running }
        let s ← s.modifyCpu cpu fun rq => { rq with currentTask := some id }
        let s ← s.storeCurrentTaskId cpu id
        return (s, some t.savedRsp)
      else
        return (s, none)
    | none =>
      let s ← s.storeCurrentTaskId cpu 0
      return (s, none)

def start (s : Scheduler) : Option (Scheduler × Option Nat) :=
  ({ s with started := true }).pickNextTask 0 none

/-- `account_running_task`. -/
def accountRunningTask (s : Scheduler) (cpu id currentRsp : Nat) : Option Scheduler := do
  let s ← s.modifyTask id fun t => t.accountTick currentRsp
  let s ← s.modifyTask id Task.recomputeClassById
  let t ← s.tasks id
  let s ← (if t.state = .ready then s.enqueueTask id else some s)
  s.modifyCpu cpu fun rq => { rq with currentTask := none }

/-- The part of `on_timer_tick` before `pick_next_task`: advance the clock and
account for the task that was running. -/
def accountTimerTick (s : Scheduler) (cpu currentRsp : Nat) :
    Option (Scheduler × Option Nat) := do
  let s := { s with globalTick := (s.globalTick + 1) % 2 ^ 64 }
  let rq ← s.cpus[cpu]?
  match rq.currentTask with
  | some id =>
    let s ← s.accountRunningTask cpu id currentRsp
    return (s, some id)
  | none =>
    return (s, none)

def onTimerTick (s : Scheduler) (cpu currentRsp : Nat) : Option (Scheduler × Nat) := do
  if s.started then
    let (s, prev) ← s.accountTimerTick cpu currentRsp
    let (s, next) ← s.pickNextTask cpu prev
    return (s, next.getD currentRsp)
  else
    return (s, currentRsp)

def requestYield (s : Scheduler) (cpu : Nat) : Option Scheduler := do
  let rq ← s.cpus[cpu]?
  match rq.currentTask with
  | some id =>
    s.modifyTask id fun t =>
      { t with
        voluntaryYields := satAddU 64 t.voluntaryYields 1
        sliceTicks := 0
        deficit := 0 }
  | none => return s

def blockCurrent (s : Scheduler) (cpu : Nat) : Option Scheduler := do
  let rq ← s.cpus[cpu]?
  match rq.currentTask with
  | some id => s.modifyTask id fun t => t.block s.globalTick
  | none => return s

def wakeTask (s : Scheduler) (id : Nat) : Option Scheduler := do
  let t ← s.tasks id
  if t.state = .blocked then
    let s ← s.modifyTask id fun t => t.wake s.globalTick
    s.enqueueTask id
  else
    return s

/-- The part of `exit_current` before `pick_next_task`. -/
def retireCurrent (s : Scheduler) (cpu : Nat) : Option Scheduler := do
  let rq ← s.cpus[cpu]?
  match rq.currentTask with
  | some id =>
    let s ← s.modifyCpu cpu fun rq => { rq with currentTask := none }
    s.modifyTask id fun t => { t with state := .exited, queued := false }
  | none => return s

def exitCurrent (s : Scheduler) (cpu : Nat) : Option (Scheduler × Option Nat) := do
  let s ← s.retireCurrent cpu
  s.pickNextTask cpu none

/-- The calls on the scheduler. -/
inductive Call where
  | configureTopology (cpuCount : Nat)
  | addTask (id threadId savedRsp : Nat) (params : SchedParams)
  | start
  | timerTick (cpu currentRsp : Nat)
  | requestYield (cpu : Nat)
  | blockCurrent (cpu : Nat)
  | wakeTask (id : Nat)
  | exitCurrent (cpu : Nat)
deriving DecidableEq, Repr

/-- One call.  Task ids are distinct, so adding an id twice is not a step. -/
def step (s : Scheduler) : Call → Option Scheduler
  | .configureTopology cpuCount => some (s.configureTopology cpuCount)
  | .addTask id threadId savedRsp params =>
    if (s.tasks id).isSome then none
    else s.addTask (Task.withParams id threadId savedRsp params)
  | .start => s.start.map Prod.fst
  | .timerTick cpu currentRsp => (s.onTimerTick cpu currentRsp).map Prod.fst
  | .requestYield cpu => s.requestYield cpu
  | .blockCurrent cpu => s.blockCurrent cpu
  | .wakeTask id => s.wakeTask id
  | .exitCurrent cpu => (s.exitCurrent cpu).map Prod.fst

/-! ## What the writes do -/

theorem modifyTask_eq_some {s s' : Scheduler} {id : Nat}
    {f : Task → Task} :
    s.modifyTask id f = some s' ↔
      ∃ t, s.tasks id = some t ∧
        s' = { s with tasks := Function.update s.tasks id (some (f t)) } := by
  simp only [modifyTask, Option.map_eq_some_iff, @eq_comm _ s']

theorem modifyCpu_eq_some {s s' : Scheduler} {cpu : Nat}
    {f : CpuRunQueue → CpuRunQueue} :
    s.modifyCpu cpu f = some s' ↔
      ∃ rq, s.cpus[cpu]? = some rq ∧
        s' = { s with cpus := s.cpus.set cpu (f rq) } := by
  simp only [modifyCpu, Option.map_eq_some_iff, @eq_comm _ s']

theorem storeCurrentTaskId_eq_some {s s' : Scheduler}
    {cpu id : Nat} :
    s.storeCurrentTaskId cpu id = some s' ↔
      cpu < maxCpus ∧
        s' = { s with currentTaskIds := Function.update s.currentTaskIds cpu id } := by
  by_cases hcpu : cpu < maxCpus
  · simp [storeCurrentTaskId, hcpu, eq_comm]
  · simp [storeCurrentTaskId, hcpu]

/-! ## What the calls write -/

section Cases

variable {s s' : Scheduler} {cpu id currentRsp : Nat}

/-- A write for the current task of a CPU, if there is one. -/
theorem currentTask_cases {rq : CpuRunQueue} {write : Nat → Option Scheduler}
    (h : (match rq.currentTask with
      | some id => write id
      | none => some s) = some s') :
    (∃ id, rq.currentTask = some id ∧ write id = some s') ∨ rq.currentTask = none ∧ s' = s := by
  split at h
  next id hcurrent =>
    exact Or.inl ⟨id, hcurrent, h⟩
  next hcurrent =>
    exact Or.inr ⟨hcurrent, (Option.some.inj h).symm⟩

theorem enqueueTask_cases
    (h : s.enqueueTask id = some s') :
    ∃ t, s.tasks id = some t ∧
      ((∃ s₁, (t.state = .ready ∧ t.queued = false) ∧
        (s.modifyCpu t.lastCpu fun rq => rq.setQueue t.cls (rq.queues t.cls ++ [id])) = some s₁ ∧
        (s₁.modifyTask id fun t => { t with queued := true }) = some s') ∨
      ¬(t.state = .ready ∧ t.queued = false) ∧ s' = s) := by
  obtain ⟨t, ht, h⟩ := Option.bind_eq_some_iff.mp h
  refine ⟨t, ht, ?_⟩
  split at h
  next hfree =>
    obtain ⟨s₁, hcpu, htask⟩ := Option.bind_eq_some_iff.mp h
    exact Or.inl ⟨s₁, hfree, hcpu, htask⟩
  next hfree =>
    exact Or.inr ⟨hfree, (Option.some.inj h).symm⟩

theorem wakeTask_cases
    (h : s.wakeTask id = some s') :
    ∃ t, s.tasks id = some t ∧
      ((∃ s₁, t.state = .blocked ∧ (s.modifyTask id fun t => t.wake s.globalTick) = some s₁ ∧
        s₁.enqueueTask id = some s') ∨
      t.state ≠ .blocked ∧ s' = s) := by
  obtain ⟨t, ht, h⟩ := Option.bind_eq_some_iff.mp h
  refine ⟨t, ht, ?_⟩
  split at h
  next hblocked =>
    obtain ⟨s₁, hwake, henqueue⟩ := Option.bind_eq_some_iff.mp h
    exact Or.inl ⟨s₁, hblocked, hwake, henqueue⟩
  next hblocked =>
    exact Or.inr ⟨hblocked, (Option.some.inj h).symm⟩

theorem retireCurrent_cases
    (h : s.retireCurrent cpu = some s') :
    ∃ rq, s.cpus[cpu]? = some rq ∧
      ((∃ id s₁, rq.currentTask = some id ∧
        (s.modifyCpu cpu fun rq => { rq with currentTask := none }) = some s₁ ∧
        (s₁.modifyTask id fun t => { t with state := .exited, queued := false }) = some s') ∨
      rq.currentTask = none ∧ s' = s) := by
  obtain ⟨rq, hrq, h⟩ := Option.bind_eq_some_iff.mp h
  refine ⟨rq, hrq, (currentTask_cases h).imp_left ?_⟩
  rintro ⟨id, hcurrent, h⟩
  obtain ⟨s₁, hcpu, htask⟩ := Option.bind_eq_some_iff.mp h
  exact ⟨id, s₁, hcurrent, hcpu, htask⟩

theorem accountRunningTask_cases
    (h : s.accountRunningTask cpu id currentRsp = some s') :
    ∃ s₁ s₂ s₃ t, (s.modifyTask id fun t => t.accountTick currentRsp) = some s₁ ∧
      s₁.modifyTask id Task.recomputeClassById = some s₂ ∧ s₂.tasks id = some t ∧
      (t.state = .ready ∧ s₂.enqueueTask id = some s₃ ∨ t.state ≠ .ready ∧ s₃ = s₂) ∧
      (s₃.modifyCpu cpu fun rq => { rq with currentTask := none }) = some s' := by
  obtain ⟨s₁, haccount, h⟩ := Option.bind_eq_some_iff.mp h
  obtain ⟨s₂, hclass, h⟩ := Option.bind_eq_some_iff.mp h
  obtain ⟨t, ht, h⟩ := Option.bind_eq_some_iff.mp h
  obtain ⟨s₃, henqueue, hclear⟩ := Option.bind_eq_some_iff.mp h
  refine ⟨s₁, s₂, s₃, t, haccount, hclass, ht, ?_, hclear⟩
  split at henqueue
  next hready =>
    exact Or.inl ⟨hready, henqueue⟩
  next hready =>
    exact Or.inr ⟨hready, (Option.some.inj henqueue).symm⟩

theorem accountTimerTick_cases {previous : Option Nat}
    (h : s.accountTimerTick cpu currentRsp = some (s', previous)) :
    ∃ rq, s.cpus[cpu]? = some rq ∧ rq.currentTask = previous ∧
      ((∃ id, previous = some id ∧
        accountRunningTask { s with globalTick := (s.globalTick + 1) % 2 ^ 64 } cpu id
          currentRsp = some s') ∨
      previous = none ∧ s' = { s with globalTick := (s.globalTick + 1) % 2 ^ 64 }) := by
  obtain ⟨rq, hrq, h⟩ := Option.bind_eq_some_iff.mp h
  refine ⟨rq, hrq, ?_⟩
  split at h
  next id hcurrent =>
    obtain ⟨s₁, haccount, h⟩ := Option.bind_eq_some_iff.mp h
    cases h
    exact ⟨hcurrent, Or.inl ⟨id, rfl, haccount⟩⟩
  next hcurrent =>
    cases h
    exact ⟨hcurrent, Or.inr ⟨rfl, rfl⟩⟩

end Cases

end Scheduler

end Kernel
end Theos
