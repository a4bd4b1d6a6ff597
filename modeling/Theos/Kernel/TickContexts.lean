import Theos.Kernel.SchedulerPlacement
import Theos.Kernel.SchedulerWork

/-!
# Contexts that a tick interrupts

`on_timer_tick` saves the interrupted stack pointer in the task that the scheduler has as
current, and returns the one to go on with.  A tick that finds the current task blocked
and nothing else to run goes on with the interrupted context, but leaves the CPU without
a current task.  The next tick there has no task to save its stack pointer in, and if it
picks a task, the context it interrupted is gone.

If a tick that finds the current task blocked always finds another one to run, the task
that a CPU executes is its current one, and every tick saves it.
-/

namespace Theos
namespace Kernel
namespace Scheduler

open Base

/-! ## What a CPU executes -/

/-- The scheduler, and the task whose context was last returned to each CPU. -/
structure Traced where
  sched : Scheduler
  executing : Nat → Option Nat

namespace Traced

def new : Traced :=
  ⟨Scheduler.new, fun _ => none⟩

/-- A pick on a CPU; if it returns nothing, the CPU goes on with `otherwise`. -/
def load (x : Traced) (cpu : Nat) (sched : Scheduler) (picked otherwise : Option Nat) : Traced :=
  { sched := sched
    executing := Function.update x.executing cpu
      (if picked.isSome then sched.currentTask cpu else otherwise) }

/-- One call.  After `exit_current` a CPU executes no task unless one is picked. -/
def step (x : Traced) : Call → Option Traced
  | .start => x.sched.start.map fun (sched, picked) => x.load 0 sched picked (x.executing 0)
  | .timerTick cpu currentRsp =>
    if x.sched.started then do
      let (sched, previous) ← x.sched.accountTimerTick cpu currentRsp
      let (sched, picked) ← sched.pickNextTask cpu previous
      return x.load cpu sched picked (x.executing cpu)
    else
      return x
  | .exitCurrent cpu =>
    (x.sched.exitCurrent cpu).map fun (sched, picked) => x.load cpu sched picked none
  | call => (x.sched.step call).map fun sched => { x with sched := sched }

end Traced

/-- What a call does to the scheduler does not depend on what the CPUs execute. -/
theorem Traced.step_sched {x x' : Traced} {call : Call}
    (h : x.step call = some x') :
    x.sched.step call = some x'.sched := by
  cases call with
  | start | exitCurrent =>
    obtain ⟨⟨s, picked⟩, hs, rfl⟩ := Option.map_eq_some_iff.mp h
    exact Option.map_eq_some_iff.mpr ⟨_, hs, rfl⟩
  | timerTick cpu currentRsp =>
    simp only [Traced.step] at h
    simp only [Scheduler.step, onTimerTick]
    split at h
    next hstarted =>
      obtain ⟨⟨s, previous⟩, haccount, h⟩ := Option.bind_eq_some_iff.mp h
      obtain ⟨⟨s', picked⟩, hpick, h⟩ := Option.bind_eq_some_iff.mp h
      cases h
      simp [hstarted, haccount, hpick, Traced.load]
    next hstarted =>
      cases h
      simp [hstarted]
  | configureTopology =>
    cases h
    rfl
  | addTask | requestYield | blockCurrent | wakeTask =>
    obtain ⟨s, hs, rfl⟩ := Option.map_eq_some_iff.mp h
    exact hs

/-! ## A blocked task is relieved -/

/-- No virtual runtime is about to reach its maximum. -/
def VruntimeRoom (s : Scheduler) : Prop :=
  ∀ id t, s.tasks id = some t → t.vruntime + 1024 < u64Max

/-- A task is known, and neither Ready nor Running. -/
def Stopped (s : Scheduler) (id : Nat) : Prop :=
  ∃ t, s.tasks id = some t ∧ t.state ≠ .ready ∧ t.state ≠ .running

/-- What has to hold before a call: a tick that finds the current task of its CPU blocked
finds a Ready one in the queues there. -/
def Relieved (s : Scheduler) : Call → Prop
  | .timerTick cpu _ => ∀ id, s.currentTask cpu = some id → s.Stopped id →
      s.VruntimeRoom ∧ ∃ rq cls, s.cpus[cpu]? = some rq ∧ s.ReadyIn rq cls
  | _ => True

theorem vruntimeDelta_le
    (cls : TaskClass) (nice : Int) :
    vruntimeDelta cls nice ≤ 1024 :=
  Nat.div_le_self _ _

/-- A tick accounts for the current task of its CPU. -/
theorem accountTimerTick_of_current
    {s s' : Scheduler} {cpu id currentRsp : Nat} {previous : Option Nat}
    (hcurrent : s.currentTask cpu = some id)
    (h : s.accountTimerTick cpu currentRsp = some (s', previous)) :
    previous = some id ∧
      accountRunningTask { s with globalTick := (s.globalTick + 1) % 2 ^ 64 } cpu id currentRsp =
        some s' := by
  obtain ⟨rq, hrq, hid, hcases⟩ := accountTimerTick_cases h
  obtain rfl : previous = some id := by
    rw [← hid, ← hcurrent, currentTask, hrq]
    rfl
  rcases hcases with ⟨_, ⟨⟩, haccount⟩ | ⟨⟨⟩, -⟩
  exact ⟨rfl, haccount⟩

/-- The accounting for a task that has stopped. -/
theorem accountRunningTask_of_stopped {s s' : Scheduler} {cpu id currentRsp : Nat}
    (hstopped : s.Stopped id)
    (ha : s.accountRunningTask cpu id currentRsp = some s') :
    ∃ t rq, s.tasks id = some t ∧ s.cpus[cpu]? = some rq ∧
      s' = { s with
        tasks := Function.update s.tasks id (some (t.accountTick currentRsp).recomputeClassById)
        cpus := s.cpus.set cpu { rq with currentTask := none } } := by
  obtain ⟨s₁, s₂, s₃, u, haccount, hclass, hu, henqueue, hclear⟩ := accountRunningTask_cases ha
  obtain ⟨t, ht, rfl⟩ := modifyTask_eq_some.mp haccount
  obtain ⟨v, hv, rfl⟩ := modifyTask_eq_some.mp hclass
  simp only [Function.update_self, Option.some.injEq] at hv hu
  subst hv
  subst hu
  obtain ⟨hready, hrunning⟩ : t.state ≠ .ready ∧ t.state ≠ .running := by
    obtain ⟨t', ht', hstate⟩ := hstopped
    cases ht.symm.trans ht'
    exact hstate
  obtain rfl := (henqueue.resolve_left fun h => by
    simp [Task.recomputeClassById, Task.accountTick, hready, hrunning] at h).2
  obtain ⟨rq, hrq, rfl⟩ := modifyCpu_eq_some.mp hclear
  refine ⟨t, rq, ht, hrq, ?_⟩
  simp only [Function.update_idem]

theorem vruntimeBelowMax_of_room {s : Scheduler} {id currentRsp : Nat} {t : Task}
    (hroom : s.VruntimeRoom) (ht : s.tasks id = some t)
    (cpus : List CpuRunQueue) :
    VruntimeBelowMax { s with
      tasks := Function.update s.tasks id (some (t.accountTick currentRsp).recomputeClassById)
      cpus := cpus } := by
  intro j u hu
  by_cases hj : j = id
  · subst hj
    simp only [Function.update_self, Option.some.injEq] at hu
    subst hu
    have hdelta := vruntimeDelta_le t.cls t.nice
    have hbefore := hroom j t ht
    have hafter : satAddU 64 t.vruntime (vruntimeDelta t.cls t.nice) ≤
        t.vruntime + vruntimeDelta t.cls t.nice :=
      Nat.min_le_left _ _
    simp only [Task.recomputeClassById, Task.accountTick]
    omega
  · simp only [Function.update_of_ne hj] at hu
    have := hroom j u hu
    omega

/-- A pick that returns nothing leaves the task it could go on with stopped. -/
theorem stopped_of_pickNextTask {s s' : Scheduler} {cpu id : Nat}
    (hp : s.pickNextTask cpu (some id) = some (s', none)) :
    s.Stopped id := by
  obtain ⟨s₁, found, hselect, hends⟩ := pickNextTask_ends hp
  cases hends with
  | stopped ht hnot =>
    obtain ⟨rq, D, d, -, rfl, -⟩ := selectTask_eq_none hselect
    obtain ⟨u, hu, rfl⟩ := withDeficits_tasks_eq_some.mp ht
    exact ⟨u, hu, not_or.mp hnot⟩

/-- The accounting for a task stops it only if it was stopped. -/
theorem stopped_of_accountRunningTask {s s' : Scheduler} {cpu id currentRsp : Nat}
    (ha : s.accountRunningTask cpu id currentRsp = some s')
    (h : s'.Stopped id) :
    s.Stopped id := by
  obtain ⟨s₁, s₂, s₃, u, haccount, hclass, hu, henqueue, hclear⟩ := accountRunningTask_cases ha
  have hstate : s'.stateOf id = some u.state := by
    obtain ⟨rq, -, rfl⟩ := modifyCpu_eq_some.mp hclear
    have hsame : s₃.stateOf id = s₂.stateOf id := by
      rcases henqueue with ⟨-, henqueue⟩ | ⟨-, rfl⟩
      · exact enqueueTask_stateOf henqueue id
      · rfl
    exact hsame.trans (by rw [stateOf, hu]; rfl)
  obtain ⟨t', ht', hready, hrunning⟩ := h
  rw [stateOf, ht', Option.map_some, Option.some.injEq] at hstate
  obtain ⟨t, ht, rfl⟩ := modifyTask_eq_some.mp haccount
  obtain ⟨v, hv, rfl⟩ := modifyTask_eq_some.mp hclass
  simp only [Function.update_self, Option.some.injEq] at hv hu
  subst hv
  subst hu
  rw [hstate] at hready hrunning
  refine ⟨t, ht, ?_⟩
  simp only [Task.recomputeClassById, Task.accountTick] at hready hrunning
  split at hready
  · exact absurd rfl hready
  next hnot =>
    exact ⟨hready, hnot⟩

/-- A pick finds a task if the accounting was for a stopped one and another is Ready. -/
theorem pickNextTask_of_relieved
    {s s₁ s' : Scheduler} {cpu id currentRsp : Nat} {result : Option Nat} (hwork : Workable s)
    (hstopped : s.Stopped id) (hroom : s.VruntimeRoom) {rq : CpuRunQueue} {cls : TaskClass}
    (hrq : s.cpus[cpu]? = some rq) (hready : s.ReadyIn rq cls)
    (ha : s.accountRunningTask cpu id currentRsp = some s₁)
    (hp : s₁.pickNextTask cpu (some id) = some (s', result)) :
    result.isSome = true := by
  obtain ⟨t, rq', ht, hrq', rfl⟩ := accountRunningTask_of_stopped hstopped ha
  cases hrq.symm.trans hrq'
  obtain ⟨s₂, found, hselect, hends⟩ := pickNextTask_ends hp
  cases hends with
  | dispatched | resumed =>
    rfl
  | stopped =>
    -- the Ready task is another one than the stopped one, so it is still there
    obtain ⟨rq₁, D, d, hrq₁, -, hnone⟩ := selectTask_eq_none hselect
    rw [cpus_set_getElem? hrq, Option.some.injEq] at hrq₁
    subst hrq₁
    obtain ⟨hno, -⟩ := hnone (vruntimeBelowMax_of_room hroom ht _)
      (hwork.cursor rq (List.mem_of_getElem? hrq))
    obtain ⟨j, hj, u, hu, hstate⟩ := hready
    refine absurd ⟨j, hj, u, ?_, hstate⟩ (hno cls)
    have hne : j ≠ id := by
      rintro rfl
      obtain ⟨v, hv, hnot, -⟩ := hstopped
      cases hu.symm.trans hv
      exact hnot hstate
    exact (Function.update_of_ne hne _ _).trans hu

/-! ## The executing task is the current one -/

structure Followed (x : Traced) : Prop where
  current : ∀ cpu t, x.executing cpu = some t → x.sched.currentTask cpu = some t
  known : ∀ cpu id, x.sched.currentTask cpu = some id → (x.sched.tasks id).isSome = true
  no_tasks : x.sched.taskCount = 0 → ∀ id, x.sched.tasks id = none

namespace Followed

variable {x x' : Traced}

theorem new :
    Followed Traced.new := by
  refine ⟨?_, ?_, fun _ _ => rfl⟩
  · intro cpu t ht
    cases ht
  · intro cpu id hid
    cases (Placed.new.current cpu id hid)

theorem no_tasks_of_frame (h : Followed x) {except : Option Nat} {s : Scheduler}
    (hframe : Frame except x.sched s) (hzero : s.taskCount = 0)
    (id : Nat) :
    s.tasks id = none := by
  have hknown := hframe.known id
  rw [h.no_tasks (hframe.taskCount_eq ▸ hzero) id] at hknown
  simpa using hknown

/-- A pick: the CPU executes what was picked, or goes on with a task that is current. -/
theorem load (h : Followed x)
    {cpu : Nat} {s s' : Scheduler} {previous picked otherwise : Option Nat}
    (hframe : Frame none x.sched s) (hkeeps : Keeps (some cpu) x.sched s)
    (hcurrent : ∀ id, s.currentTask cpu = some id → x.sched.currentTask cpu = some id)
    (hp : s.pickNextTask cpu previous = some (s', picked))
    (hotherwise : picked = none → ∀ t, otherwise = some t → s.currentTask cpu = some t) :
    Followed (x.load cpu s' picked otherwise) := by
  have hpicked := pickNextTask_picked hp
  have hframes : Frame (some cpu) x.sched s' := hframe.of_none.trans (Frame.pickNextTask hp)
  have hother (k : Nat) (hk : k ≠ cpu) : s'.currentTask k = x.sched.currentTask k :=
    (hkeeps.trans hpicked.keeps).current k (by simpa using hk)
  refine ⟨?_, ?_, h.no_tasks_of_frame hframes⟩
  · intro k t ht
    by_cases hk : k = cpu
    · subst hk
      simp only [Traced.load, Function.update_self] at ht ⊢
      cases hresult : picked with
      | some rsp =>
        simpa [hresult] using ht
      | none =>
        rw [(hpicked.of_none hresult).1]
        exact hotherwise hresult t (by simpa [hresult] using ht)
    · simp only [Traced.load, Function.update_of_ne hk] at ht ⊢
      rw [hother k hk]
      exact h.current k t ht
  · intro k id hid
    replace hid : s'.currentTask k = some id := hid
    have hbefore (hid : x.sched.currentTask k = some id) : (s'.tasks id).isSome = true :=
      (hframes.known id).trans (h.known k id hid)
    by_cases hk : k = cpu
    · subst hk
      cases hresult : picked with
      | some rsp =>
        rw [hresult] at hp
        obtain ⟨id', t, hid', ht, -⟩ := pickNextTask_running hp
        cases hid.symm.trans hid'
        exact Option.isSome_iff_exists.mpr ⟨t, ht⟩
      | none =>
        rw [(hpicked.of_none hresult).1] at hid
        exact hbefore (hcurrent id hid)
    · rw [hother k hk] at hid
      exact hbefore hid

/-- A call that picks nothing and leaves the current tasks. -/
theorem of_current (h : Followed x) {s : Scheduler} (hframe : Frame none x.sched s)
    (hcurrent : ∀ k, s.currentTask k = x.sched.currentTask k) :
    Followed { x with sched := s } := by
  refine ⟨?_, ?_, h.no_tasks_of_frame hframe⟩
  · intro k t ht
    exact (hcurrent k).trans (h.current k t ht)
  · intro k id hid
    exact (hframe.known id).trans (h.known k id ((hcurrent k).symm.trans hid))

theorem timerTick (h : Followed x) (hwork : Workable x.sched) {cpu currentRsp : Nat}
    (hrelieved : Relieved x.sched (.timerTick cpu currentRsp))
    (hs : x.step (.timerTick cpu currentRsp) = some x') :
    Followed x' := by
  simp only [Traced.step] at hs
  split at hs
  next =>
    obtain ⟨⟨s, previous⟩, haccount, hs⟩ := Option.bind_eq_some_iff.mp hs
    obtain ⟨⟨s', picked⟩, hpick, hs⟩ := Option.bind_eq_some_iff.mp hs
    cases hs
    obtain ⟨hkeeps, hnone, -⟩ := accountTimerTick_keeps haccount
    refine h.load (Frame.accountTimerTick haccount) hkeeps (by simp [hnone]) hpick ?_
    intro hresult t ht
    -- nothing was picked, so the executing task was blocked and another one is Ready
    exfalso
    have hcurrent := h.current cpu t ht
    obtain ⟨rfl, haccounted⟩ := accountTimerTick_of_current hcurrent haccount
    obtain rfl : picked = none := hresult
    have hstopped := stopped_of_accountRunningTask haccounted (stopped_of_pickNextTask hpick)
    obtain ⟨hroom, rq', cls, hrq', hready⟩ := hrelieved t hcurrent hstopped
    have hsome := pickNextTask_of_relieved
      (s := { x.sched with globalTick := (x.sched.globalTick + 1) % 2 ^ 64 })
      (hwork.grow rfl fun _ hj => hj) hstopped hroom hrq' hready haccounted hpick
    cases hsome
  next =>
    cases hs
    exact h

theorem configureTopology (h : Followed x)
    (cpuCount : Nat) :
    Followed { x with sched := x.sched.configureTopology cpuCount } := by
  rw [Scheduler.configureTopology]
  split
  next =>
    exact h
  next hfresh =>
    have hnone := h.no_tasks (not_not.mp (not_or.mp hfresh).1)
    refine ⟨?_, ?_, fun _ => hnone⟩
    · intro k t ht
      have hknown := h.known k t (h.current k t ht)
      rw [hnone t] at hknown
      cases hknown
    · intro k id hid
      simp [currentTask, Option.bind_eq_some_iff, CpuRunQueue.new] at hid

theorem addTask (h : Followed x) {task : Task} {s : Scheduler} (hready : task.state = .ready)
    (hs : x.sched.addTask task = some s) :
    Followed { x with sched := s } := by
  have hcurrent (k : Nat) : s.currentTask k = x.sched.currentTask k :=
    (addTask_keeps hready hs).current k (by simp)
  refine ⟨?_, ?_, ?_⟩
  · intro k t ht
    exact (hcurrent k).trans (h.current k t ht)
  · intro k id hid
    have hknown := h.known k id ((hcurrent k).symm.trans hid)
    have hprocess := congrArg Option.isSome (addTask_processId hs id)
    rw [Option.isSome_map] at hprocess
    rw [hprocess]
    split
    · rfl
    · rw [Option.isSome_map]
      exact hknown
  · intro hzero
    exact absurd ((addTask_spec hs).1.symm.trans hzero) (by simp)

theorem step (h : Followed x) (hwork : Workable x.sched) {call : Call}
    (hrelieved : Relieved x.sched call)
    (hs : x.step call = some x') :
    Followed x' := by
  cases call with
  | start =>
    obtain ⟨⟨s, picked⟩, hstart, rfl⟩ := Option.map_eq_some_iff.mp hs
    exact h.load (s := { x.sched with started := true }) ⟨rfl, fun _ => rfl, fun _ _ => rfl⟩
      ⟨fun _ hb => hb, fun _ _ => rfl, fun _ _ => rfl⟩ (fun _ hid => hid) hstart
      (fun _ t ht => h.current 0 t ht)
  | timerTick cpu currentRsp =>
    exact h.timerTick hwork hrelieved hs
  | exitCurrent cpu =>
    obtain ⟨⟨s, picked⟩, hexit, rfl⟩ := Option.map_eq_some_iff.mp hs
    obtain ⟨s₁, hretire, hpick⟩ := Option.bind_eq_some_iff.mp hexit
    obtain ⟨hkeeps, hnone, -⟩ := retireCurrent_keeps hretire
    exact h.load (Frame.retireCurrent hretire) hkeeps (by simp [hnone]) hpick (by simp)
  | configureTopology cpuCount =>
    cases hs
    exact h.configureTopology cpuCount
  | addTask id threadId savedRsp params =>
    obtain ⟨s, hadd, rfl⟩ := Option.map_eq_some_iff.mp hs
    simp only [Scheduler.step] at hadd
    split at hadd
    · cases hadd
    next =>
      exact h.addTask rfl hadd
  | requestYield cpu =>
    obtain ⟨s, hyield, rfl⟩ := Option.map_eq_some_iff.mp hs
    obtain ⟨rq, -, hyield⟩ := Option.bind_eq_some_iff.mp hyield
    refine h.of_current (Frame.of_currentTask hyield) fun k => ?_
    rw [currentTask, (Touches.of_currentTask hyield).2]
    rfl
  | blockCurrent cpu =>
    obtain ⟨s, hblock, rfl⟩ := Option.map_eq_some_iff.mp hs
    obtain ⟨rq, -, hblock⟩ := Option.bind_eq_some_iff.mp hblock
    refine h.of_current (Frame.of_currentTask hblock) fun k => ?_
    rw [currentTask, (Touches.of_currentTask hblock).2]
    rfl
  | wakeTask id =>
    obtain ⟨s, hwake, rfl⟩ := Option.map_eq_some_iff.mp hs
    exact h.of_current (Frame.wakeTask hwake)
      fun k => (wakeTask_keeps hwake).1.current k (by simp)

end Followed

/-! ## Ticks -/

theorem fixed_savedRsp :
    Fixed Task.savedRsp :=
  ⟨fun _ _ => rfl, fun _ _ => rfl, fun _ _ => rfl, fun _ _ _ _ => rfl⟩

/-- The stack pointer that a tick interrupts is saved in the current task. -/
theorem savedRsp_of_onTimerTick {s s' : Scheduler} {cpu currentRsp next id : Nat}
    (hstarted : s.started = true) (hcurrent : s.currentTask cpu = some id)
    (ht : s.onTimerTick cpu currentRsp = some (s', next)) :
    (s'.tasks id).map Task.savedRsp = some currentRsp := by
  simp only [onTimerTick, hstarted, if_true] at ht
  obtain ⟨⟨s₁, previous⟩, haccount, ht⟩ := Option.bind_eq_some_iff.mp ht
  obtain ⟨⟨s₂, result⟩, hpick, ht⟩ := Option.bind_eq_some_iff.mp ht
  cases ht
  refine (SameField.pickNextTask fixed_savedRsp hpick id).trans ?_
  obtain ⟨s₄, s₅, s₆, u, htask, hclass, -, henqueue, hclear⟩ :=
    accountRunningTask_cases (accountTimerTick_of_current hcurrent haccount).2
  have hsame : SameField Task.savedRsp s₅ s₆ := by
    rcases henqueue with ⟨-, henqueue⟩ | ⟨-, rfl⟩
    · exact SameField.enqueueTask fixed_savedRsp.queued henqueue
    · exact SameField.of_tasks_eq rfl
  refine ((SameField.modifyTask hclass fun _ => rfl).trans
    (hsame.trans (SameField.modifyCpu hclear)) id).trans ?_
  obtain ⟨t, ht, rfl⟩ := modifyTask_eq_some.mp htask
  simp [Task.accountTick]

/-- If every tick that finds the current task blocked finds another one to run, a tick that
leaves the interrupted context has saved it in the task that was executing. -/
theorem tick_saves_interrupted_context {calls : List Call} {x : Traced}
    (hrun : Run (fun x call x' => Relieved x.sched call ∧ x.step call = some x') Traced.new calls x)
    {cpu currentRsp next t : Nat} {s' : Scheduler}
    (htick : x.sched.onTimerTick cpu currentRsp = some (s', next)) (hnext : next ≠ currentRsp)
    (hexecuting : x.executing cpu = some t) :
    ∃ task, s'.tasks t = some task ∧ task.savedRsp = currentRsp := by
  obtain ⟨hfollowed, -⟩ : Followed x ∧ Workable x.sched := by
    refine hrun.invariant (P := fun x => Followed x ∧ Workable x.sched) ?_
      ⟨Followed.new, Workable.new⟩
    rintro x call x' ⟨h, hwork⟩ ⟨hrelieved, hs⟩
    exact ⟨h.step hwork hrelieved hs, hwork.step (Traced.step_sched hs)⟩
  cases hstarted : x.sched.started with
  | true =>
    have hcurrent := hfollowed.current cpu t hexecuting
    exact Option.map_eq_some_iff.mp (savedRsp_of_onTimerTick hstarted hcurrent htick)
  | false =>
    simp only [onTimerTick, hstarted] at htick
    cases htick
    exact absurd rfl hnext

/-- A task blocks while another one is Ready; the next tick there saves its context. -/
theorem tick_saves_interrupted_context_two_tasks :
    ∃ x s' task, Run (fun x call x' => Relieved x.sched call ∧ x.step call = some x') Traced.new
        [.addTask 1 0 100 plainParams, .addTask 2 0 200 plainParams, .start, .blockCurrent 0] x ∧
      x.sched.onTimerTick 0 150 = some (s', 200) ∧ x.executing 0 = some 1 ∧
      s'.tasks 1 = some task ∧ task.savedRsp = 150 := by
  have hview :
      (runAll Traced.step Traced.new
        [.addTask 1 0 100 plainParams, .addTask 2 0 200 plainParams, .start, .blockCurrent 0]).map
        (fun x => (x.executing 0, (x.sched.onTimerTick 0 150).map Prod.snd)) =
        some (some 1, some 200) := by
    decide +kernel
  obtain ⟨x, hx, hfinal⟩ := Option.map_eq_some_iff.mp hview
  simp only [Prod.mk.injEq] at hfinal
  obtain ⟨hexecuting, htick⟩ := hfinal
  obtain ⟨⟨s', next⟩, htick, rfl⟩ := Option.map_eq_some_iff.mp htick
  have hrun := run_of_runAll_of_forall (g := fun x call => Relieved x.sched call) _ hx <| by
    intro k call y hcall _
    rcases k with _ | _ | _ | _ | k
    iterate 4 · cases hcall; exact trivial
    · cases hcall
  obtain ⟨task, htask, hsaved⟩ := tick_saves_interrupted_context hrun htick (by simp) hexecuting
  exact ⟨x, s', task, hrun, htick, hexecuting, htask, hsaved⟩

/-- The task blocks with nothing else to run, so the tick goes on with it and takes it off
the CPU.  It is woken, and the next tick returns the stack pointer of the first one. -/
theorem tick_discards_context :
    ∃ x s', Run (Det Traced.step) Traced.new
        [.addTask 1 0 0 plainParams, .start, .blockCurrent 0, .timerTick 0 100, .wakeTask 1] x ∧
      x.sched.onTimerTick 0 200 = some (s', 100) ∧ x.executing 0 = some 1 ∧
      (s'.tasks 1).map Task.savedRsp = some 100 := by
  have hrun :
      (runAll Traced.step Traced.new
        [.addTask 1 0 0 plainParams, .start, .blockCurrent 0, .timerTick 0 100, .wakeTask 1]).map
        (fun x => (x.executing 0, (x.sched.onTimerTick 0 200).map fun r =>
          (r.2, (r.1.tasks 1).map Task.savedRsp))) =
        some (some 1, some (100, some 100)) := by
    decide +kernel
  obtain ⟨x, hx, hfinal⟩ := Option.map_eq_some_iff.mp hrun
  simp only [Prod.mk.injEq] at hfinal
  obtain ⟨hexecuting, htick⟩ := hfinal
  obtain ⟨⟨s', next⟩, htick, heq⟩ := Option.map_eq_some_iff.mp htick
  simp only [Prod.mk.injEq] at heq
  obtain ⟨rfl, hsaved⟩ := heq
  exact ⟨x, s', (runAll_eq_some_iff _ _ _ _).mp hx, htick, hexecuting, hsaved⟩

end Scheduler
end Kernel
end Theos
