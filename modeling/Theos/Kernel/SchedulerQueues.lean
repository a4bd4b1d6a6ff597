import Theos.Kernel.SchedulerPick

/-!
# The run queues

`enqueue_task` and `pick_task_from_class` keep the `queued` flag of a task in
step with the queues, and every operation that makes a task Ready enqueues it.
`block_current` and `exit_current` clear the flag without touching the queues,
which is right only for a task that is in no queue.  A current task is in a
queue when it blocked and was woken again before the next tick of its CPU.

The main result is the run-queue invariant for every run in which no task
blocks or exits while it is queued.  A run of six calls shows that the
condition is needed.
-/

namespace Theos
namespace Kernel
namespace Scheduler

open Base

/-- The `queued` flag, false for an unknown id. -/
def isQueued (s : Scheduler)
    (id : Nat) : Bool :=
  (s.tasks id).any Task.queued

/-- The invariant of the queues.  In the middle of an operation one task, the
loose one, may be Ready without being queued. -/
structure QueueInvariant
    (loose : Option Nat)
    (s : Scheduler) : Prop where
  count_eq : ∀ id, s.allQueues.count id = (s.isQueued id).toNat
  ready_queued : ∀ id t, s.tasks id = some t → t.state = .ready → some id ≠ loose →
    t.queued = true
  no_tasks : s.taskCount = 0 → ∀ id, s.tasks id = none

/-! ## Counting ids in the queues -/

theorem count_flatMap_set {α : Type} {f : α → List Nat} {l : List α} {i : Nat} {a b : α}
    (h : l[i]? = some a)
    (x : Nat) :
    ((l.set i b).flatMap f).count x + (f a).count x =
      (l.flatMap f).count x + (f b).count x := by
  induction l generalizing i with
  | nil =>
    simp at h
  | cons y rest ih =>
    cases i with
    | zero =>
      simp only [List.getElem?_cons_zero, Option.some.injEq] at h
      simp only [List.set_cons_zero, List.flatMap_cons, List.count_append, h]
      omega
    | succ i =>
      simp only [List.getElem?_cons_succ] at h
      have := ih h
      simp only [List.set_cons_succ, List.flatMap_cons, List.count_append]
      omega

theorem count_setQueue (rq : CpuRunQueue) (cls : TaskClass) (queue : List Nat)
    (x : Nat) :
    (rq.setQueue cls queue).allQueues.count x + (rq.queues cls).count x =
      rq.allQueues.count x + queue.count x := by
  cases cls <;>
    simp [CpuRunQueue.allQueues, CpuRunQueue.setQueue, TaskClass.all, Function.update] <;>
    omega

/-- Replacing one class queue of one CPU. -/
theorem count_set_setQueue {s : Scheduler} {cpu : Nat} {rq : CpuRunQueue}
    (hrq : s.cpus[cpu]? = some rq) (cls : TaskClass) (queue : List Nat)
    (x : Nat) :
    ((s.cpus.set cpu (rq.setQueue cls queue)).flatMap CpuRunQueue.allQueues).count x +
        (rq.queues cls).count x =
      s.allQueues.count x + queue.count x := by
  have hset := count_flatMap_set (f := CpuRunQueue.allQueues)
    (b := rq.setQueue cls queue) hrq x
  have hqueue := count_setQueue rq cls queue x
  simp only [allQueues]
  omega

/-- Replacing a CPU's run queue by one with the same queues. -/
theorem count_set_same {s : Scheduler} {cpu : Nat} {rq rq' : CpuRunQueue}
    (hrq : s.cpus[cpu]? = some rq) (hsame : rq'.queues = rq.queues)
    (x : Nat) :
    ((s.cpus.set cpu rq').flatMap CpuRunQueue.allQueues).count x = s.allQueues.count x := by
  have hset := count_flatMap_set (f := CpuRunQueue.allQueues) (b := rq') hrq x
  have hqueue : rq'.allQueues = rq.allQueues := by
    simp only [CpuRunQueue.allQueues, hsame]
  rw [hqueue] at hset
  simp only [allQueues]
  omega

@[simp]
theorem allQueues_new
    (id : Nat) :
    (CpuRunQueue.new id).allQueues = [] :=
  rfl

/-! ## The single writes -/

namespace QueueInvariant

theorem modifyTask {s s' : Scheduler} {loose loose' : Option Nat} {id : Nat} {f : Task → Task}
    (h : QueueInvariant loose s) (hm : s.modifyTask id f = some s')
    (hqueued : ∀ t, s.tasks id = some t → (f t).queued = t.queued)
    (hready : ∀ t, s.tasks id = some t → (f t).state = .ready → some id ≠ loose' →
      t.queued = true)
    (hloose : ∀ j, j ≠ id → some j ≠ loose' → some j ≠ loose) :
    QueueInvariant loose' s' := by
  obtain ⟨t, ht, rfl⟩ := modifyTask_eq_some.mp hm
  refine ⟨?_, ?_, ?_⟩
  · intro j
    refine (h.count_eq j).trans ?_
    by_cases hj : j = id
    · subst hj
      simp [isQueued, ht, hqueued t ht]
    · simp [isQueued, Function.update_of_ne hj]
  · intro j u hu hstate hne
    by_cases hj : j = id
    · subst hj
      simp only [Function.update_self, Option.some.injEq] at hu
      subst hu
      rw [hqueued t ht]
      exact hready t ht hstate hne
    · simp only [Function.update_of_ne hj] at hu
      exact h.ready_queued j u hu hstate (hloose j hj hne)
  · intro hzero
    have := h.no_tasks hzero id
    simp [ht] at this

theorem modifyCpu {s s' : Scheduler} {loose : Option Nat} {cpu : Nat}
    {f : CpuRunQueue → CpuRunQueue} (h : QueueInvariant loose s) (hm : s.modifyCpu cpu f = some s')
    (hqueues : ∀ rq, (f rq).queues = rq.queues) :
    QueueInvariant loose s' := by
  obtain ⟨rq, hrq, rfl⟩ := modifyCpu_eq_some.mp hm
  refine ⟨?_, h.ready_queued, h.no_tasks⟩
  intro id
  exact (count_set_same hrq (hqueues rq) id).trans (h.count_eq id)

theorem storeCurrentTaskId {s s' : Scheduler} {loose : Option Nat} {cpu id : Nat}
    (h : QueueInvariant loose s)
    (hm : s.storeCurrentTaskId cpu id = some s') :
    QueueInvariant loose s' := by
  obtain ⟨-, rfl⟩ := storeCurrentTaskId_eq_some.mp hm
  exact ⟨h.count_eq, h.ready_queued, h.no_tasks⟩

theorem withDeficits {s : Scheduler} {loose : Option Nat} (h : QueueInvariant loose s)
    (d : Nat → Int) :
    QueueInvariant loose (s.withDeficits d) := by
  refine ⟨?_, ?_, ?_⟩
  · intro id
    refine (h.count_eq id).trans ?_
    simp only [isQueued, Scheduler.withDeficits]
    cases s.tasks id <;> rfl
  · intro id t ht hstate hne
    obtain ⟨u, hu, rfl⟩ := withDeficits_tasks_eq_some.mp ht
    exact h.ready_queued id u hu hstate hne
  · intro hzero id
    simp [Scheduler.withDeficits, h.no_tasks hzero id]

theorem withClassDeficits {s : Scheduler} {loose : Option Nat} {cpu : Nat} {rq : CpuRunQueue}
    (h : QueueInvariant loose s) (hrq : s.cpus[cpu]? = some rq)
    (D : TaskClass → Int) :
    QueueInvariant loose (s.withClassDeficits cpu rq D) := by
  have hsame : ({ rq with classDeficits := D } : CpuRunQueue).queues = rq.queues := rfl
  exact ⟨fun id => (count_set_same hrq hsame id).trans (h.count_eq id), h.ready_queued,
    h.no_tasks⟩

/-- `enqueue_task` ends the exception for the loose task. -/
theorem enqueueTask {s s' : Scheduler} {id : Nat} (h : QueueInvariant (some id) s)
    (he : s.enqueueTask id = some s') :
    QueueInvariant none s' := by
  obtain ⟨t, ht, ⟨s₁, hcond, hcpu, htask⟩ | ⟨hcond, rfl⟩⟩ := enqueueTask_cases he
  · obtain ⟨rq, hrq, rfl⟩ := modifyCpu_eq_some.mp hcpu
    obtain ⟨u, hu, rfl⟩ := modifyTask_eq_some.mp htask
    refine ⟨?_, ?_, ?_⟩
    · intro j
      have hcount := count_set_setQueue hrq t.cls (rq.queues t.cls ++ [id]) j
      have hold := h.count_eq j
      rw [List.count_append] at hcount
      by_cases hj : j = id
      · subst hj
        simp only [isQueued, ht, hcond.2, Option.any_some, Bool.toNat_false] at hold
        simp only [isQueued, Function.update_self, Option.any_some, Bool.toNat_true, allQueues]
        simp only [List.count_singleton_self] at hcount
        omega
      · have hone : [id].count j = 0 := by simp [Ne.symm hj]
        simp only [isQueued, Function.update_of_ne hj, allQueues] at hold ⊢
        simp only [allQueues] at hcount
        omega
    · intro j w hw hstate _
      by_cases hj : j = id
      · subst hj
        simp only [Function.update_self, Option.some.injEq] at hw
        simp [← hw]
      · simp only [Function.update_of_ne hj] at hw
        exact h.ready_queued j w hw hstate (by simpa using hj)
    · intro hzero
      have := h.no_tasks hzero id
      simp [ht] at this
  · refine ⟨h.count_eq, ?_, h.no_tasks⟩
    intro j w hw hstate _
    by_cases hj : j = id
    · subst hj
      rw [ht, Option.some.injEq] at hw
      subst hw
      by_contra hq
      exact hcond ⟨hstate, by simpa using hq⟩
    · exact h.ready_queued j w hw hstate (by simpa using hj)

/-- Taking a task out of its queue makes it the loose one. -/
theorem takeTask {s s' : Scheduler} {cpu id : Nat} {rq : CpuRunQueue} {cls : TaskClass}
    (h : QueueInvariant none s) (hrq : s.cpus[cpu]? = some rq) (hmem : id ∈ rq.queues cls)
    (ht : s.takeTask cpu cls id = some s') :
    QueueInvariant (some id) s' := by
  obtain ⟨s₁, hcpu, htask⟩ := Option.bind_eq_some_iff.mp ht
  obtain ⟨rq₀, hrq₀, rfl⟩ := modifyCpu_eq_some.mp hcpu
  rw [hrq, Option.some.injEq] at hrq₀
  subst hrq₀
  obtain ⟨u, hu, rfl⟩ := modifyTask_eq_some.mp htask
  refine ⟨?_, ?_, ?_⟩
  · intro j
    have hcount := count_set_setQueue hrq cls ((rq.queues cls).erase id) j
    have hold := h.count_eq j
    by_cases hj : j = id
    · subst hj
      have hpos : 0 < (rq.queues cls).count j := List.count_pos_iff.mpr hmem
      have hle : (s.isQueued j).toNat ≤ 1 := Bool.toNat_le _
      rw [List.count_erase_self] at hcount
      simp only [isQueued, Function.update_self, Option.any_some, Bool.toNat_false, allQueues]
      simp only [allQueues] at hcount hold
      omega
    · rw [List.count_erase_of_ne hj] at hcount
      simp only [isQueued, Function.update_of_ne hj, allQueues] at hold ⊢
      simp only [allQueues] at hcount
      omega
  · intro j w hw hstate hne
    have hj : j ≠ id := by simpa using hne
    simp only [Function.update_of_ne hj] at hw
    exact h.ready_queued j w hw hstate (by simp)
  · intro hzero
    have hnone := h.no_tasks hzero id
    simp only at hu
    rw [hnone] at hu
    simp at hu

/-! ## The operations -/

theorem selectTask_none {s s' : Scheduler} {cpu : Nat} (h : QueueInvariant none s)
    (hs : s.selectTask cpu = some (s', none)) :
    QueueInvariant none s' := by
  obtain ⟨rq, D, d, hrq, rfl, -⟩ := selectTask_eq_none hs
  exact (h.withClassDeficits hrq D).withDeficits d

theorem selectTask_some {s s' : Scheduler} {cpu id : Nat} {cls : TaskClass}
    (h : QueueInvariant none s)
    (hs : s.selectTask cpu = some (s', some (id, cls))) :
    QueueInvariant (some id) s' := by
  obtain ⟨rq, D, hrq, ⟨hmem, -, d, htake⟩, -⟩ := selectTask_eq_some hs
  exact ((h.withClassDeficits hrq D).withDeficits d).takeTask (cpus_set_getElem? hrq) hmem htake

theorem pickNextTask {s s' : Scheduler} {cpu : Nat} {previous result : Option Nat}
    (h : QueueInvariant none s)
    (hp : s.pickNextTask cpu previous = some (s', result)) :
    QueueInvariant none s' := by
  obtain ⟨s₁, ⟨id, cls, hselect, hdispatches⟩ | ⟨hselect, hresumes⟩⟩ := pickNextTask_cases hp
  · obtain ⟨s₂, s₃, s₄, hserve, hdispatch, hcurrent, hstore⟩ := hdispatches
    have h₂ := (h.selectTask_some hselect).modifyCpu hserve (fun _ => rfl)
    -- the task that was taken is Running now, so it is no longer loose
    have h₃ : QueueInvariant none s₃ :=
      h₂.modifyTask hdispatch (fun _ _ => rfl) (by simp [Task.dispatch]) (by simp)
    exact (h₃.modifyCpu hcurrent (fun _ => rfl)).storeCurrentTaskId hstore
  · have h₁ := h.selectTask_none hselect
    rcases hresumes with ⟨id, s₂, s₃, hrunning, hcurrent, hstore⟩ | rfl | hstore
    · have h₂ : QueueInvariant none s₂ :=
        h₁.modifyTask hrunning (fun _ _ => rfl) (by simp) (by simp)
      exact (h₂.modifyCpu hcurrent (fun _ => rfl)).storeCurrentTaskId hstore
    · exact h₁
    · exact h₁.storeCurrentTaskId hstore

theorem accountRunningTask {s s' : Scheduler} {cpu id currentRsp : Nat} (h : QueueInvariant none s)
    (ha : s.accountRunningTask cpu id currentRsp = some s') :
    QueueInvariant none s' := by
  obtain ⟨s₁, s₂, s₃, t, haccount, hclass, ht, henqueue, hclear⟩ := accountRunningTask_cases ha
  have h₁ : QueueInvariant (some id) s₁ :=
    h.modifyTask haccount (fun _ _ => rfl) (by simp) (by simp)
  have h₂ : QueueInvariant (some id) s₂ :=
    h₁.modifyTask hclass (fun _ _ => rfl) (by simp) (by simp)
  refine QueueInvariant.modifyCpu ?_ hclear (fun _ => rfl)
  rcases henqueue with ⟨-, henqueue⟩ | ⟨hstate, rfl⟩
  · exact h₂.enqueueTask henqueue
  · refine ⟨h₂.count_eq, ?_, h₂.no_tasks⟩
    intro j w hw hready _
    by_cases hj : j = id
    · subst hj
      rw [ht, Option.some.injEq] at hw
      exact absurd (hw ▸ hready) hstate
    · exact h₂.ready_queued j w hw hready (by simpa using hj)

theorem onTimerTick {s s' : Scheduler} {cpu currentRsp next : Nat} (h : QueueInvariant none s)
    (ht : s.onTimerTick cpu currentRsp = some (s', next)) :
    QueueInvariant none s' := by
  simp only [Scheduler.onTimerTick] at ht
  split at ht
  next =>
    obtain ⟨⟨s₁, prev⟩, haccount, ht⟩ := Option.bind_eq_some_iff.mp ht
    obtain ⟨⟨s₂, resumed⟩, hpick, ht⟩ := Option.bind_eq_some_iff.mp ht
    simp only [Option.pure_def, Option.some.injEq, Prod.mk.injEq] at ht
    obtain ⟨rfl, -⟩ := ht
    refine QueueInvariant.pickNextTask ?_ hpick
    have htick :
        QueueInvariant none { s with globalTick := (s.globalTick + 1) % 2 ^ 64 } :=
      ⟨h.count_eq, h.ready_queued, h.no_tasks⟩
    obtain ⟨rq, -, -, ⟨id, -, haccount⟩ | ⟨-, rfl⟩⟩ := accountTimerTick_cases haccount
    · exact htick.accountRunningTask haccount
    · exact htick
  next =>
    simp only [Option.pure_def, Option.some.injEq, Prod.mk.injEq] at ht
    exact ht.1 ▸ h

theorem new :
    QueueInvariant none Scheduler.new := by
  refine ⟨?_, ?_, fun _ _ => rfl⟩
  · intro id
    simp [allQueues, isQueued, Scheduler.new]
  · intro id t ht
    simp [Scheduler.new] at ht

theorem configureTopology {s : Scheduler} (h : QueueInvariant none s)
    (cpuCount : Nat) :
    QueueInvariant none (s.configureTopology cpuCount) := by
  simp only [Scheduler.configureTopology]
  split
  next =>
    exact h
  next hfresh =>
    have hnone := h.no_tasks (by simpa using fun hne => hfresh (Or.inl hne))
    refine ⟨?_, h.ready_queued, h.no_tasks⟩
    intro id
    simp [allQueues, isQueued, hnone id, List.flatMap_map, List.count_eq_zero]

theorem addTask {s s' : Scheduler} {task : Task} (h : QueueInvariant none s)
    (hnew : s.tasks task.id = none) (hqueued : task.queued = false)
    (ha : s.addTask task = some s') :
    QueueInvariant none s' := by
  obtain ⟨cpu, -, ha⟩ := Option.bind_eq_some_iff.mp ha
  obtain ⟨s₁, henqueue, ha⟩ := Option.bind_eq_some_iff.mp ha
  simp only [Option.pure_def, Option.some.injEq] at ha
  subst ha
  have h₁ : QueueInvariant none s₁ := by
    refine QueueInvariant.enqueueTask ?_ henqueue
    refine ⟨?_, ?_, by simp⟩
    · intro j
      refine (h.count_eq j).trans ?_
      by_cases hj : j = task.id
      · subst hj
        simp [isQueued, hnew, hqueued, Task.recomputeClass]
      · simp [isQueued, Task.recomputeClass, Function.update_of_ne hj]
    · intro j w hw hready hne
      have hj : j ≠ task.id := by simpa [Task.recomputeClass] using hne
      simp only [Task.recomputeClass, Function.update_of_ne hj] at hw
      exact h.ready_queued j w hw hready (by simp)
  exact ⟨h₁.count_eq, h₁.ready_queued, h₁.no_tasks⟩

theorem requestYield {s s' : Scheduler} {cpu : Nat} (h : QueueInvariant none s)
    (hy : s.requestYield cpu = some s') :
    QueueInvariant none s' := by
  obtain ⟨rq, -, hy⟩ := Option.bind_eq_some_iff.mp hy
  rcases currentTask_cases hy with ⟨id, -, hy⟩ | ⟨-, rfl⟩
  · exact h.modifyTask hy (fun _ _ => rfl)
      (fun t ht hstate hne => h.ready_queued id t ht hstate hne) (by simp)
  · exact h

theorem wakeTask {s s' : Scheduler} {id : Nat} (h : QueueInvariant none s)
    (hw : s.wakeTask id = some s') :
    QueueInvariant none s' := by
  obtain ⟨t, -, ⟨s₁, -, hwake, henqueue⟩ | ⟨-, rfl⟩⟩ := wakeTask_cases hw
  · have h₁ : QueueInvariant (some id) s₁ :=
      h.modifyTask hwake (fun _ _ => rfl) (by simp) (by simp)
    exact h₁.enqueueTask henqueue
  · exact h

end QueueInvariant

/-- The current task of the CPU is in a queue. -/
def currentQueued (s : Scheduler)
    (cpu : Nat) : Bool :=
  (s.cpus[cpu]?.bind CpuRunQueue.currentTask).any s.isQueued

/-- The CPU whose current task a call takes out of service. -/
def leavingCpu : Call → Option Nat
  | .blockCurrent cpu => some cpu
  | .exitCurrent cpu => some cpu
  | _ => none

/-- A call that blocks or ends a task finds it in no queue. -/
def LeavesUnqueued (s : Scheduler)
    (call : Call) : Prop :=
  (leavingCpu call).any s.currentQueued = false

instance (s : Scheduler) (call : Call) : Decidable (s.LeavesUnqueued call) :=
  inferInstanceAs (Decidable (_ = false))

theorem queued_eq_false {s : Scheduler} {cpu id : Nat} {rq : CpuRunQueue} {t : Task}
    (hfree : s.currentQueued cpu = false) (hrq : s.cpus[cpu]? = some rq)
    (hcurrent : rq.currentTask = some id)
    (ht : s.tasks id = some t) :
    t.queued = false := by
  simpa [currentQueued, isQueued, hrq, hcurrent, ht] using hfree

namespace QueueInvariant

theorem blockCurrent {s s' : Scheduler} {cpu : Nat} (h : QueueInvariant none s)
    (hfree : s.currentQueued cpu = false)
    (hb : s.blockCurrent cpu = some s') :
    QueueInvariant none s' := by
  obtain ⟨rq, hrq, hb⟩ := Option.bind_eq_some_iff.mp hb
  rcases currentTask_cases hb with ⟨id, hcurrent, hb⟩ | ⟨-, rfl⟩
  · exact h.modifyTask hb (fun t ht => (queued_eq_false hfree hrq hcurrent ht).symm)
      (by simp [Task.block]) (by simp)
  · exact h

theorem retireCurrent {s s' : Scheduler} {cpu : Nat} (h : QueueInvariant none s)
    (hfree : s.currentQueued cpu = false)
    (hr : s.retireCurrent cpu = some s') :
    QueueInvariant none s' := by
  obtain ⟨rq, hrq, ⟨id, s₁, hcurrent, hcpu, htask⟩ | ⟨-, rfl⟩⟩ := retireCurrent_cases hr
  · have h₁ := h.modifyCpu hcpu (fun _ => rfl)
    have htasks : s₁.tasks = s.tasks := by
      obtain ⟨_, -, rfl⟩ := modifyCpu_eq_some.mp hcpu
      rfl
    refine h₁.modifyTask htask ?_ (by simp) (by simp)
    intro t ht
    exact (queued_eq_false hfree hrq hcurrent (htasks ▸ ht)).symm
  · exact h

/-- One call keeps the invariant unless it blocks or ends a queued task. -/
theorem step {s s' : Scheduler} {call : Call} (h : QueueInvariant none s)
    (hfree : s.LeavesUnqueued call)
    (hs : s.step call = some s') :
    QueueInvariant none s' := by
  cases call with
  | configureTopology cpuCount =>
    simp only [Scheduler.step, Option.some.injEq] at hs
    exact hs ▸ h.configureTopology cpuCount
  | addTask id threadId savedRsp params =>
    simp only [Scheduler.step] at hs
    split at hs
    next =>
      simp at hs
    next hnew =>
      exact h.addTask (by simpa [Task.withParams] using hnew) rfl hs
  | start =>
    obtain ⟨⟨s₁, result⟩, hpick, rfl⟩ := Option.map_eq_some_iff.mp hs
    have hstarted : QueueInvariant none { s with started := true } :=
      ⟨h.count_eq, h.ready_queued, h.no_tasks⟩
    exact hstarted.pickNextTask hpick
  | timerTick cpu currentRsp =>
    obtain ⟨⟨s₁, next⟩, htick, rfl⟩ := Option.map_eq_some_iff.mp hs
    exact h.onTimerTick htick
  | requestYield cpu =>
    exact h.requestYield hs
  | blockCurrent cpu =>
    exact h.blockCurrent hfree hs
  | wakeTask id =>
    exact h.wakeTask hs
  | exitCurrent cpu =>
    obtain ⟨⟨s₁, result⟩, hexit, rfl⟩ := Option.map_eq_some_iff.mp hs
    obtain ⟨s₂, hretire, hpick⟩ := Option.bind_eq_some_iff.mp hexit
    exact (h.retireCurrent hfree hretire).pickNextTask hpick

end QueueInvariant

theorem queueInvariant_of_run {calls : List Call} {s : Scheduler}
    (hrun : Run (Det (guarded LeavesUnqueued Scheduler.step)) Scheduler.new calls s) :
    QueueInvariant none s := by
  refine hrun.invariant ?_ QueueInvariant.new
  intro s call s' h hstep
  obtain ⟨hfree, hstep⟩ := guarded_eq_some_iff.mp hstep
  exact h.step hfree hstep

/-- The run-queue invariant: every id is in at most one queue and there at most
once, it is in one exactly when its flag is set, and a Ready task that is not
running is in one. -/
theorem run_queue_invariant {calls : List Call} {s : Scheduler}
    (hrun : Run (Det (guarded LeavesUnqueued Scheduler.step)) Scheduler.new calls s) :
    s.allQueues.Nodup ∧
      (∀ id, id ∈ s.allQueues ↔ ∃ t, s.tasks id = some t ∧ t.queued = true) ∧
      ∀ id t, s.tasks id = some t → t.state = .ready →
        (∀ rq ∈ s.cpus, rq.currentTask ≠ some id) → s.allQueues.count id = 1 := by
  have h := queueInvariant_of_run hrun
  refine ⟨?_, ?_, ?_⟩
  · rw [List.nodup_iff_count_le_one]
    intro id
    rw [h.count_eq id]
    exact Bool.toNat_le _
  · intro id
    rw [← List.count_pos_iff, h.count_eq id]
    cases ht : s.tasks id with
    | none =>
      simp [isQueued, ht]
    | some t =>
      cases hq : t.queued <;> simp [isQueued, ht, hq]
  · intro id t ht hready _
    rw [h.count_eq id]
    simp [isQueued, ht, h.ready_queued id t ht hready (by simp)]

def plainParams : SchedParams where
  classHint := none
  nice := 0
  preferredCpu := none
  processId := 0

/-- Two tasks; the first blocks while it is in no queue and is woken again. -/
theorem run_queue_invariant_two_tasks :
    ∃ s, Run (Det (guarded LeavesUnqueued Scheduler.step)) Scheduler.new
        [.addTask 1 0 0 plainParams, .addTask 2 0 0 plainParams, .start, .blockCurrent 0,
          .wakeTask 1] s ∧
      s.allQueues = [2, 1] ∧ s.allQueues.Nodup := by
  have hrun :
      (runAll (guarded LeavesUnqueued Scheduler.step) Scheduler.new
        [.addTask 1 0 0 plainParams, .addTask 2 0 0 plainParams, .start, .blockCurrent 0,
          .wakeTask 1]).map allQueues = some [2, 1] := by
    decide
  obtain ⟨s, hs, hqueues⟩ := Option.map_eq_some_iff.mp hrun
  have hs := (runAll_eq_some_iff _ _ _ _).mp hs
  exact ⟨s, hs, hqueues, (run_queue_invariant hs).1⟩

/-- Without the condition: a task that blocks, is woken, blocks again and is
woken again before the next tick is in its queue twice. -/
theorem run_queue_duplicate :
    ∃ s, Run (Det Scheduler.step) Scheduler.new
        [.addTask 1 0 0 plainParams, .start, .blockCurrent 0, .wakeTask 1, .blockCurrent 0,
          .wakeTask 1] s ∧
      s.allQueues = [1, 1] := by
  have hrun :
      (runAll Scheduler.step Scheduler.new
        [.addTask 1 0 0 plainParams, .start, .blockCurrent 0, .wakeTask 1, .blockCurrent 0,
          .wakeTask 1]).map allQueues = some [1, 1] := by
    decide
  obtain ⟨s, hs, hqueues⟩ := Option.map_eq_some_iff.mp hrun
  exact ⟨s, (runAll_eq_some_iff _ _ _ _).mp hs, hqueues⟩

end Scheduler
end Kernel
end Theos
