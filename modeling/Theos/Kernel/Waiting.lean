import Theos.Base.Run
import Theos.Kernel.Nt
import Theos.Kernel.Scheduler

/-!
# Waiting for objects

`wait_for_single_object`, the event calls and `exit_current` of `kernel/user.rs`,
run by any number of tasks on any number of CPUs.  A call is cut into the pieces
that hold a lock: each task has a program counter, and one step of a CPU runs the
next piece of the task whose context is loaded there.

The context of a CPU is the one the last pick on it returned.  A tick that picks
nothing resumes the interrupted context, so a blocked task may go on running.
Ticks are allowed at every point; the code runs the scheduler only in ticks that
interrupt the kernel, as in the `hlt` of the wait loop.

The calls are given the object their handle resolves to, and `exit_current` the
objects its handle table names.  Alertable waits and waits with another timeout
return at once, before they look at the object.
-/

namespace Theos
namespace Kernel
namespace Waiting

open Base
open Nt

/-! ## Signals -/

/-- `consume_waitable_signal`. -/
def consumeWaitableSignal (m : ObjectManager) (id : Nat) : Except NtStatus Bool × ObjectManager :=
  let consume (event : EventObject) : Bool × EventObject :=
    if event.signaled then
      (true, if event.manualReset then event else { event with signaled := false })
    else (false, event)
  match m.withEventMut id consume with
  | (.ok signaled, m) => (.ok signaled, m)
  | (.error _, m) =>
    match m.process id, m.thread id with
    | .ok process, _ => (.ok process.signaled, m)
    | .error _, .ok thread => (.ok thread.signaled, m)
    | .error _, .error _ => (.error .notSupported, m)

/-- The write of `set_event`, `clear_event` and `reset_event`. -/
def writeEvent (m : ObjectManager) (id : Nat) (signaled : Bool) :
    Except NtStatus Unit × ObjectManager :=
  m.withEventMut id fun event => ((), { event with signaled := signaled })

/-! ## Program counters -/

/-- Where a task is.  `tid` is the task id a wait has registered, `exits` says
whether `exit_current` called `wake_waiters`. -/
inductive Pc where
  | user
  /-- `wait_for_single_object` before its first check. -/
  | waitFirst (o : Nat)
  /-- The same with a timeout of zero. -/
  | waitPoll (o : Nat)
  /-- The first check failed. -/
  | waitRegister (o : Nat)
  /-- At the head of the loop. -/
  | waitCheck (o tid : Nat)
  /-- The check in the loop failed. -/
  | waitBlock (o tid : Nat)
  /-- After `block_current`, in the `hlt`. -/
  | waitHalt (o tid : Nat)
  /-- The loop is left. -/
  | waitDone (o tid : Nat)
  | setEvent (o : Nat)
  /-- `clear_event` or `reset_event`. -/
  | clearEvent (o : Nat)
  | exitRelease (ids : List Nat) (threadObject processObject : Nat) (status : NtStatus)
  | exitThread (threadObject processObject : Nat) (status : NtStatus)
  | exitProcess (threadObject processObject : Nat) (status : NtStatus)
  /-- About to call `wake_waiters` for each of the objects. -/
  | wake (objects : List Nat) (exits : Bool)
  /-- In `wake_waiters(o)`, with `rest` of the list it took. -/
  | waking (o : Nat) (rest objects : List Nat) (exits : Bool)
  | exited
deriving DecidableEq

/-- The calls. -/
inductive Call where
  | waitForSingleObject (o : Nat)
  /-- `wait_for_single_object` with a timeout of zero. -/
  | pollSingleObject (o : Nat)
  | setEvent (o : Nat)
  | clearEvent (o : Nat)
  | resetEvent (o : Nat)
  | exitCurrent (ids : List Nat) (threadObject processObject : Nat) (status : NtStatus)

/-- Where a call begins. -/
def Call.entry : Call → Pc
  | .waitForSingleObject o => .waitFirst o
  | .pollSingleObject o => .waitPoll o
  | .setEvent o => .setEvent o
  | .clearEvent o => .clearEvent o
  | .resetEvent o => .clearEvent o
  | .exitCurrent ids threadObject processObject status =>
    .exitRelease ids threadObject processObject status

/-! ## The machine -/

/-- The scheduler, the objects, `WAITERS`, the context loaded on each CPU and the
program counter of each task. -/
structure World where
  sched : Scheduler
  objects : ObjectManager
  waiters : Nat → List Nat
  executing : Nat → Option Nat
  pc : Nat → Pc

namespace World

variable (w : World)

def setPc (t : Nat) (pc : Pc) : World :=
  { w with pc := Function.update w.pc t pc }

/-- `register_waiter`. -/
def registerWaiter (o tid : Nat) : World :=
  if tid ∈ w.waiters o then w
  else { w with waiters := Function.update w.waiters o (w.waiters o ++ [tid]) }

/-- `unregister_waiter`. -/
def unregisterWaiter (o tid : Nat) : World :=
  { w with waiters := Function.update w.waiters o ((w.waiters o).filter (· ≠ tid)) }

/-- A pick on a CPU loads the context of the task it returned, if it returned one. -/
def load (cpu : Nat) (sched : Scheduler) (picked : Option Nat) : World :=
  { w with
    sched := sched
    executing :=
      if picked.isSome then
        Function.update w.executing cpu (sched.cpus[cpu]?.bind CpuRunQueue.currentTask)
      else w.executing }

/-- `on_timer_tick`, as the handler uses its result. -/
def tick (cpu currentRsp : Nat) : Option World :=
  if w.sched.started then do
    let (sched, previous) ← w.sched.accountTimerTick cpu currentRsp
    let (sched, picked) ← sched.pickNextTask cpu previous
    return w.load cpu sched picked
  else
    return w

/-- The check of the loop: left with the signal or with an error, else it goes on. -/
def check (t o tid : Nat) : World :=
  match consumeWaitableSignal w.objects o with
  | (.ok false, m) => { w with objects := m }.setPc t (.waitBlock o tid)
  | (_, m) => { w with objects := m }.setPc t (.waitDone o tid)

/-- The next piece of the task `t`, which is loaded on `cpu`. -/
def runTask (cpu t : Nat) : Option World :=
  match w.pc t with
  | .user => none
  | .waitFirst o =>
    match consumeWaitableSignal w.objects o with
    | (.ok false, m) => some ({ w with objects := m }.setPc t (.waitRegister o))
    | (_, m) => some ({ w with objects := m }.setPc t .user)
  | .waitPoll o =>
    some ({ w with objects := (consumeWaitableSignal w.objects o).2 }.setPc t .user)
  | .waitRegister o =>
    let tid := w.sched.currentTaskIds cpu
    if tid = 0 then some (w.setPc t .user)
    else some ((w.registerWaiter o tid).setPc t (.waitCheck o tid))
  | .waitCheck o tid => some (w.check t o tid)
  | .waitBlock o tid =>
    (w.sched.blockCurrent cpu).map fun sched =>
      { w with sched := sched }.setPc t (.waitHalt o tid)
  | .waitHalt o tid => some (w.setPc t (.waitCheck o tid))
  | .waitDone o tid => some ((w.unregisterWaiter o tid).setPc t .user)
  | .setEvent o =>
    match writeEvent w.objects o true with
    | (.ok (), m) => some ({ w with objects := m }.setPc t (.wake [o] false))
    | (.error _, m) => some ({ w with objects := m }.setPc t .user)
  | .clearEvent o =>
    some ({ w with objects := (writeEvent w.objects o false).2 }.setPc t .user)
  | .exitRelease [] threadObject processObject status =>
    some (w.setPc t (.exitThread threadObject processObject status))
  | .exitRelease (id :: ids) threadObject processObject status =>
    some ({ w with objects := (w.objects.release id).2 }.setPc t
      (.exitRelease ids threadObject processObject status))
  | .exitThread threadObject processObject status =>
    some ({ w with objects := w.objects.signalExited .thread threadObject status }.setPc t
      (.exitProcess threadObject processObject status))
  | .exitProcess threadObject processObject status =>
    some ({ w with objects := w.objects.signalExited .process processObject status }.setPc t
      (.wake [threadObject, processObject] true))
  | .wake [] false => some (w.setPc t .user)
  | .wake [] true =>
    (w.sched.exitCurrent cpu).map fun (sched, picked) =>
      (w.load cpu sched picked).setPc t .exited
  | .wake (o :: objects) exits =>
    some ({ w with waiters := Function.update w.waiters o [] }.setPc t
      (.waking o (w.waiters o) objects exits))
  | .waking _ [] objects exits => some (w.setPc t (.wake objects exits))
  | .waking o (u :: rest) objects exits =>
    (w.sched.wakeTask u).map fun sched =>
      { w with sched := sched }.setPc t (.waking o rest objects exits)
  | .exited => none

end World

/-! ## Steps -/

/-- What can happen: the scheduler is set up, a CPU takes a tick, the task loaded on a
CPU makes a call, or it runs the next piece of the call it is in. -/
inductive Event where
  | configureTopology (cpuCount : Nat)
  | addTask (id threadId savedRsp : Nat) (params : SchedParams)
  | start
  | tick (cpu currentRsp : Nat)
  | call (cpu : Nat) (call : Call)
  | run (cpu : Nat)

/-- One step; `none` is a panic, or a step that cannot happen. -/
def step (w : World) : Event → Option World
  | .configureTopology cpuCount =>
    some { w with sched := w.sched.configureTopology cpuCount }
  | .addTask id threadId savedRsp params =>
    (w.sched.step (.addTask id threadId savedRsp params)).map fun sched =>
      { w with sched := sched }
  | .start => w.sched.start.map fun (sched, picked) => w.load 0 sched picked
  | .tick cpu currentRsp => w.tick cpu currentRsp
  | .call cpu call => do
    let t ← w.executing cpu
    if w.pc t = .user then some (w.setPc t call.entry) else none
  | .run cpu => do
    let t ← w.executing cpu
    w.runTask cpu t

/-- Before anything runs: no task, nobody waits. -/
def World.new (objects : ObjectManager) : World where
  sched := Scheduler.new
  objects := objects
  waiters := fun _ => []
  executing := fun _ => none
  pc := fun _ => .user

end Waiting
end Kernel
end Theos
