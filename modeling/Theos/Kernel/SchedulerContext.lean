import Theos.Kernel.SchedulerPick

/-!
# Blocked tasks and current tasks

What the calls of the scheduler do to the tasks that are blocked and to the task
each CPU runs.  Only `block_current` blocks a task, and only its own CPU's; a
pick changes the current task of its own CPU and of no other.
-/

namespace Theos
namespace Kernel
namespace Scheduler

open Base

/-- A task is known and blocked. -/
def Blocked (s : Scheduler) (id : Nat) : Prop :=
  ∃ t, s.tasks id = some t ∧ t.state = .blocked

/-- The task a CPU runs, as the scheduler records it. -/
def currentTask (s : Scheduler) (cpu : Nat) : Option Nat :=
  s.cpus[cpu]?.bind CpuRunQueue.currentTask

/-- No task becomes blocked, and every CPU but the excepted one keeps its current
task. -/
structure Keeps
    (except : Option Nat)
    (s s' : Scheduler) : Prop where
  blocked : ∀ id, s'.Blocked id → s.Blocked id
  current : ∀ k, some k ≠ except → s'.currentTask k = s.currentTask k
  taskIds : ∀ k, some k ≠ except → s'.currentTaskIds k = s.currentTaskIds k

namespace Keeps

variable {except : Option Nat}
variable {s s' s'' : Scheduler}

theorem refl
    (s : Scheduler) :
    Keeps except s s :=
  ⟨fun _ h => h, fun _ _ => rfl, fun _ _ => rfl⟩

theorem trans (h : Keeps except s s')
    (h' : Keeps except s' s'') :
    Keeps except s s'' :=
  ⟨fun id hb => h.blocked id (h'.blocked id hb),
    fun k hk => (h'.current k hk).trans (h.current k hk),
    fun k hk => (h'.taskIds k hk).trans (h.taskIds k hk)⟩

theorem of_none
    (h : Keeps none s s') :
    Keeps except s s' :=
  ⟨h.blocked, fun k _ => h.current k (by simp), fun k _ => h.taskIds k (by simp)⟩

theorem modifyTask {id : Nat} {f : Task → Task} (hm : s.modifyTask id f = some s')
    (hf : ∀ t, s.tasks id = some t → (f t).state = .blocked → t.state = .blocked) :
    Keeps except s s' := by
  obtain ⟨t, ht, rfl⟩ := modifyTask_eq_some.mp hm
  refine ⟨?_, fun _ _ => rfl, fun _ _ => rfl⟩
  rintro j ⟨u, hu, hstate⟩
  by_cases hj : j = id
  · subst hj
    simp only [Function.update_self, Option.some.injEq] at hu
    subst hu
    exact ⟨t, ht, hf t ht hstate⟩
  · simp only [Function.update_of_ne hj] at hu
    exact ⟨u, hu, hstate⟩

theorem modifyCpu {cpu : Nat} {f : CpuRunQueue → CpuRunQueue} (hm : s.modifyCpu cpu f = some s')
    (hf : some cpu = except ∨ ∀ rq, (f rq).currentTask = rq.currentTask) :
    Keeps except s s' := by
  obtain ⟨rq, hrq, rfl⟩ := modifyCpu_eq_some.mp hm
  refine ⟨fun _ h => h, ?_, fun _ _ => rfl⟩
  intro k hk
  by_cases hcpu : cpu = k
  · subst hcpu
    have hsame := hf.resolve_left hk rq
    simp [currentTask, cpus_set_getElem? hrq, hrq, hsame]
  · simp [currentTask, List.getElem?_set_ne hcpu]

theorem storeCurrentTaskId {cpu id : Nat}
    (hm : s.storeCurrentTaskId cpu id = some s') :
    Keeps (some cpu) s s' := by
  obtain ⟨-, rfl⟩ := storeCurrentTaskId_eq_some.mp hm
  refine ⟨fun _ h => h, fun _ _ => rfl, ?_⟩
  intro k hk
  have hne : k ≠ cpu := by simpa using hk
  simp [hne]

theorem withDeficits
    (d : Nat → Int) :
    Keeps except s (s.withDeficits d) := by
  refine ⟨?_, fun _ _ => rfl, fun _ _ => rfl⟩
  rintro id ⟨t, ht, hstate⟩
  obtain ⟨u, hu, rfl⟩ := withDeficits_tasks_eq_some.mp ht
  exact ⟨u, hu, hstate⟩

theorem withClassDeficits {cpu : Nat} {rq : CpuRunQueue} (hrq : s.cpus[cpu]? = some rq)
    (D : TaskClass → Int) :
    Keeps except s (s.withClassDeficits cpu rq D) := by
  refine ⟨fun _ h => h, ?_, fun _ _ => rfl⟩
  intro k _
  by_cases hcpu : cpu = k
  · subst hcpu
    simp [currentTask, Scheduler.withClassDeficits, cpus_set_getElem? hrq, hrq]
  · simp [currentTask, Scheduler.withClassDeficits, List.getElem?_set_ne hcpu]

theorem enqueueTask {id : Nat}
    (he : s.enqueueTask id = some s') :
    Keeps except s s' := by
  obtain ⟨t, -, ⟨s₁, -, hcpu, htask⟩ | ⟨-, rfl⟩⟩ := enqueueTask_cases he
  · exact (modifyCpu hcpu (Or.inr fun _ => rfl)).trans (modifyTask htask fun _ _ h => h)
  · exact refl _

theorem takeTask {cpu id : Nat} {cls : TaskClass}
    (ht : s.takeTask cpu cls id = some s') :
    Keeps except s s' := by
  obtain ⟨s₁, hcpu, htask⟩ := Option.bind_eq_some_iff.mp ht
  exact (modifyCpu hcpu (Or.inr fun _ => rfl)).trans (modifyTask htask fun _ _ h => h)

theorem selectTask {cpu : Nat} {found : Option (Nat × TaskClass)}
    (h : s.selectTask cpu = some (s', found)) :
    Keeps none s s' := by
  cases found with
  | none =>
    obtain ⟨rq, D, d, hrq, rfl, -⟩ := selectTask_eq_none h
    exact (withClassDeficits hrq D).trans (withDeficits d)
  | some picked =>
    obtain ⟨rq, D, hrq, ⟨-, -, d, htake⟩, -⟩ := selectTask_eq_some h
    exact ((withClassDeficits hrq D).trans (withDeficits d)).trans (takeTask htake)

end Keeps

/-- What a pick on a CPU leaves there: the task it returns is current and is the one
`current_task_id` answers; if it returns none, the CPU keeps its current task. -/
structure Picked
    (cpu : Nat)
    (s s' : Scheduler)
    (result : Option Nat) : Prop where
  keeps : Keeps (some cpu) s s'
  of_some : result.isSome → ∃ id, s'.currentTask cpu = some id ∧ s'.currentTaskIds cpu = id
  of_none : result = none → s'.currentTask cpu = s.currentTask cpu ∧
    (s'.currentTaskIds cpu = s.currentTaskIds cpu ∨ s'.currentTaskIds cpu = 0)

/-- The last two writes of a pick that resumes a task. -/
theorem current_of_store {s s₁ s' : Scheduler} {cpu id : Nat}
    (hcurrent : (s.modifyCpu cpu fun rq => { rq with currentTask := some id }) = some s₁)
    (hstore : s₁.storeCurrentTaskId cpu id = some s') :
    s'.currentTask cpu = some id ∧ s'.currentTaskIds cpu = id := by
  obtain ⟨rq, hrq, rfl⟩ := modifyCpu_eq_some.mp hcurrent
  obtain ⟨-, rfl⟩ := storeCurrentTaskId_eq_some.mp hstore
  simp [currentTask, cpus_set_getElem? hrq]

theorem pickNextTask_picked {s s' : Scheduler} {cpu : Nat} {previous result : Option Nat}
    (h : s.pickNextTask cpu previous = some (s', result)) :
    Picked cpu s s' result := by
  obtain ⟨s₁, found, hselect, hends⟩ := pickNextTask_ends h
  have hkeeps := Keeps.selectTask hselect
  cases hends with
  | dispatched hdispatches =>
    obtain ⟨s₂, s₃, s₄, hserve, hdispatch, hcurrent, hstore⟩ := hdispatches
    refine ⟨?_, fun _ => ⟨_, current_of_store hcurrent hstore⟩, by simp⟩
    exact ((((hkeeps.of_none).trans (.modifyCpu hserve (Or.inl rfl))).trans
      (.modifyTask hdispatch (by simp [Task.dispatch]))).trans
      (.modifyCpu hcurrent (Or.inl rfl))).trans (.storeCurrentTaskId hstore)
  | resumed _ hrunning hcurrent hstore =>
    refine ⟨?_, fun _ => ⟨_, current_of_store hcurrent hstore⟩, by simp⟩
    exact (((hkeeps.of_none).trans (.modifyTask hrunning (by simp))).trans
      (.modifyCpu hcurrent (Or.inl rfl))).trans (.storeCurrentTaskId hstore)
  | stopped =>
    exact ⟨hkeeps.of_none, by simp, fun _ => ⟨hkeeps.current cpu (by simp),
      Or.inl (hkeeps.taskIds cpu (by simp))⟩⟩
  | idle hstore =>
    refine ⟨hkeeps.of_none.trans (.storeCurrentTaskId hstore), by simp, fun _ => ?_⟩
    obtain ⟨-, rfl⟩ := storeCurrentTaskId_eq_some.mp hstore
    exact ⟨hkeeps.current cpu (by simp), Or.inr (by simp)⟩

/-- The accounting part of a tick leaves its CPU without a current task. -/
theorem accountTimerTick_keeps {s s' : Scheduler} {cpu currentRsp : Nat} {previous : Option Nat}
    (h : s.accountTimerTick cpu currentRsp = some (s', previous)) :
    Keeps (some cpu) s s' ∧ s'.currentTask cpu = none ∧
      s'.currentTaskIds cpu = s.currentTaskIds cpu := by
  have htick : Keeps none s { s with globalTick := (s.globalTick + 1) % 2 ^ 64 } :=
    ⟨fun _ hb => hb, fun _ _ => rfl, fun _ _ => rfl⟩
  obtain ⟨rq, hrq, hcurrent, ⟨id, -, haccount⟩ | ⟨rfl, rfl⟩⟩ := accountTimerTick_cases h
  · obtain ⟨s₂, s₃, s₄, t, htask, hclass, -, henqueue, hcpu⟩ := accountRunningTask_cases haccount
    have hstate : ∀ t : Task, (t.accountTick currentRsp).state = .blocked →
        t.state = .blocked := by
      intro t
      simp only [Task.accountTick]
      split <;> simp
    have h₄ : Keeps none s₃ s₄ := by
      rcases henqueue with ⟨-, henqueue⟩ | ⟨-, rfl⟩
      · exact .enqueueTask henqueue
      · exact .refl _
    have hbefore : Keeps none s s₄ :=
      ((htick.trans (.modifyTask htask fun t _ => hstate t)).trans
        (.modifyTask hclass fun _ _ hb => hb)).trans h₄
    refine ⟨hbefore.of_none.trans (.modifyCpu hcpu (Or.inl rfl)), ?_, ?_⟩
    · obtain ⟨rq', hrq', rfl⟩ := modifyCpu_eq_some.mp hcpu
      simp [currentTask, cpus_set_getElem? hrq']
    · obtain ⟨rq', hrq', rfl⟩ := modifyCpu_eq_some.mp hcpu
      exact hbefore.taskIds cpu (by simp)
  · exact ⟨htick.of_none, by simp [currentTask, hrq, hcurrent], rfl⟩

/-- The state of a task, if it is known. -/
def stateOf (s : Scheduler) (id : Nat) : Option TaskState :=
  (s.tasks id).map Task.state

theorem blocked_iff
    {s : Scheduler} {id : Nat} :
    s.Blocked id ↔ s.stateOf id = some .blocked := by
  simp [Blocked, stateOf]

theorem enqueueTask_stateOf {s s' : Scheduler} {id : Nat} (h : s.enqueueTask id = some s')
    (j : Nat) :
    s'.stateOf j = s.stateOf j := by
  obtain ⟨t, -, ⟨s₁, -, hcpu, htask⟩ | ⟨-, rfl⟩⟩ := enqueueTask_cases h
  · obtain ⟨rq, -, rfl⟩ := modifyCpu_eq_some.mp hcpu
    obtain ⟨u, hu, rfl⟩ := modifyTask_eq_some.mp htask
    simp only [stateOf, Function.update_apply]
    split
    next hj =>
      have hu : s.tasks id = some u := hu
      simp [hj, hu]
    next =>
      rfl
  · rfl

/-- Waking makes its task Ready if it was blocked, and no other task changes state. -/
theorem wakeTask_stateOf {s s' : Scheduler} {id : Nat} (h : s.wakeTask id = some s')
    (j : Nat) :
    s'.stateOf j =
      if j = id ∧ s.stateOf id = some .blocked then some .ready else s.stateOf j := by
  obtain ⟨t, ht, hcases⟩ := wakeTask_cases h
  have hstate : s.stateOf id = some t.state := by simp [stateOf, ht]
  rcases hcases with ⟨s₁, hblocked, hwake, henqueue⟩ | ⟨hblocked, rfl⟩
  · obtain ⟨u, hu, rfl⟩ := modifyTask_eq_some.mp hwake
    rw [enqueueTask_stateOf henqueue, hstate, hblocked]
    by_cases hj : j = id
    · subst hj
      simp [stateOf, Task.wake]
    · simp [stateOf, hj]
  · simp [hstate, hblocked]

theorem wakeTask_keeps {s s' : Scheduler} {id : Nat}
    (h : s.wakeTask id = some s') :
    Keeps none s s' ∧ ¬ s'.Blocked id := by
  have hstate := wakeTask_stateOf h
  have hnot : ¬ s'.Blocked id := by
    rw [blocked_iff, hstate]
    split <;> simp_all
  refine ⟨?_, hnot⟩
  obtain ⟨t, -, ⟨s₁, -, hwake, henqueue⟩ | ⟨-, rfl⟩⟩ := wakeTask_cases h
  · have hkeeps : Keeps none s s₁ := .modifyTask hwake (by simp [Task.wake])
    exact hkeeps.trans (.enqueueTask henqueue)
  · exact .refl _

/-- `block_current` blocks the current task of its CPU and no other. -/
theorem blockCurrent_blocked {s s' : Scheduler} {cpu : Nat}
    (h : s.blockCurrent cpu = some s') :
    (∀ id, s'.Blocked id → s.Blocked id ∨ s.currentTask cpu = some id) ∧
      (∀ k, s'.currentTask k = s.currentTask k) ∧ s'.currentTaskIds = s.currentTaskIds := by
  obtain ⟨rq, hrq, h⟩ := Option.bind_eq_some_iff.mp h
  rcases currentTask_cases h with ⟨id, hcurrent, h⟩ | ⟨-, rfl⟩
  · obtain ⟨t, ht, rfl⟩ := modifyTask_eq_some.mp h
    refine ⟨?_, fun _ => rfl, rfl⟩
    rintro j ⟨u, hu, hstate⟩
    by_cases hj : j = id
    · subst hj
      exact Or.inr (by simp [currentTask, hrq, hcurrent])
    · simp only [Function.update_of_ne hj] at hu
      exact Or.inl ⟨u, hu, hstate⟩
  · exact ⟨fun _ hb => Or.inl hb, fun _ => rfl, rfl⟩

theorem retireCurrent_keeps {s s' : Scheduler} {cpu : Nat}
    (h : s.retireCurrent cpu = some s') :
    Keeps (some cpu) s s' ∧ s'.currentTask cpu = none ∧
      s'.currentTaskIds cpu = s.currentTaskIds cpu := by
  obtain ⟨rq, hrq, ⟨id, s₁, -, hcpu, htask⟩ | ⟨hcurrent, rfl⟩⟩ := retireCurrent_cases h
  · refine ⟨Keeps.trans (.modifyCpu hcpu (Or.inl rfl)) (.modifyTask htask (by simp)), ?_⟩
    obtain ⟨rq', hrq', rfl⟩ := modifyCpu_eq_some.mp hcpu
    obtain ⟨t, ht, rfl⟩ := modifyTask_eq_some.mp htask
    exact ⟨by simp [currentTask, cpus_set_getElem? hrq'], rfl⟩
  · exact ⟨.refl _, by simp [currentTask, hrq, hcurrent], rfl⟩

/-- A new task is Ready. -/
theorem addTask_keeps {s s' : Scheduler} {task : Task} (hready : task.state = .ready)
    (h : s.addTask task = some s') :
    Keeps none s s' := by
  obtain ⟨cpu, -, h⟩ := Option.bind_eq_some_iff.mp h
  obtain ⟨s₁, henqueue, h⟩ := Option.bind_eq_some_iff.mp h
  simp only [Option.pure_def, Option.some.injEq] at h
  subst h
  have hkeeps : Keeps none _ s₁ := Keeps.enqueueTask henqueue
  refine ⟨?_, hkeeps.current, hkeeps.taskIds⟩
  intro id hb
  obtain ⟨t, ht, hstate⟩ := hkeeps.blocked id hb
  simp only [Function.update_apply] at ht
  split at ht
  next =>
    simp only [Option.some.injEq] at ht
    subst ht
    simp [Task.recomputeClass, hready] at hstate
  next =>
    exact ⟨t, ht, hstate⟩

/-- Before the first task the topology may be set; no CPU runs anything then. -/
theorem configureTopology_keeps (s : Scheduler)
    (cpuCount : Nat) :
    (∀ id, (s.configureTopology cpuCount).Blocked id → s.Blocked id) ∧
      (∀ cpu t, (s.configureTopology cpuCount).currentTask cpu = some t →
        s.currentTask cpu = some t) ∧
      (s.configureTopology cpuCount).currentTaskIds = s.currentTaskIds := by
  simp only [configureTopology]
  split
  next =>
    exact ⟨fun _ h => h, fun _ _ h => h, rfl⟩
  next =>
    refine ⟨fun _ h => h, ?_, rfl⟩
    intro cpu t ht
    simp only [currentTask, List.getElem?_map, Option.bind_map, Option.bind_eq_some_iff,
      Function.comp_apply, CpuRunQueue.new] at ht
    obtain ⟨_, _, hnone⟩ := ht
    exact absurd hnone (by simp)

/-! ## The process of a task -/

namespace SameProcess

variable {s s' : Scheduler}

theorem fixed :
    Fixed Task.processId :=
  ⟨fun _ _ => rfl, fun _ _ => rfl, fun _ _ => rfl, fun _ _ _ _ => rfl⟩

end SameProcess

/-- Adding a task leaves the others' processes alone. -/
theorem addTask_processId {s s' : Scheduler} {task : Task} (h : s.addTask task = some s')
    (id : Nat) :
    (s'.tasks id).map Task.processId =
      if id = task.id then some task.processId else (s.tasks id).map Task.processId := by
  obtain ⟨cpu, -, h⟩ := Option.bind_eq_some_iff.mp h
  obtain ⟨s₁, henqueue, h⟩ := Option.bind_eq_some_iff.mp h
  simp only [Option.pure_def, Option.some.injEq] at h
  subst h
  have hsame := SameField.enqueueTask SameProcess.fixed.queued henqueue id
  refine hsame.trans ?_
  by_cases hid : id = task.id
  · subst hid
    simp [Task.recomputeClass]
  · have hne : id ≠ ({ task with lastCpu := cpu } : Task).recomputeClass.id := hid
    simp [hid, Function.update_of_ne hne]

end Scheduler
end Kernel
end Theos
