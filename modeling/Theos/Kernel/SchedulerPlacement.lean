import Theos.Kernel.SchedulerContext
import Theos.Kernel.SchedulerQueues

/-!
# One CPU for each task

A task gets its CPU when it is added, and `last_cpu` stays what it is: `enqueue_task`
puts the task into a queue of that CPU, and `pick_next_task` takes from the queues of its
own CPU.  So a task is current there or nowhere, and a Running task is current.

`start` picks without looking at what CPU 0 runs.  Nothing is lost as long as it is
called once and no `exit_current` on CPU 0 has picked a task before.
-/

namespace Theos
namespace Kernel
namespace Scheduler

open Base

/-- A task is known, and its `last_cpu` is the given one. -/
def LivesOn (s : Scheduler) (id cpu : Nat) : Prop :=
  (s.tasks id).map Task.lastCpu = some cpu

/-- The tasks are where their `last_cpu` says.  In the middle of an operation one task, the
loose one, may be Running without being current. -/
structure Placed (loose : Option Nat) (s : Scheduler) : Prop where
  current : ∀ cpu id, s.currentTask cpu = some id → s.LivesOn id cpu
  running : ∀ id t, s.tasks id = some t → t.state = .running → some id ≠ loose →
    s.currentTask t.lastCpu = some id
  queued : ∀ (cpu : Nat) rq cls id, s.cpus[cpu]? = some rq → id ∈ rq.queues cls →
    s.LivesOn id cpu
  no_tasks : s.taskCount = 0 → ∀ id, s.tasks id = none

theorem livesOn_iff
    {s : Scheduler} {id cpu : Nat} :
    s.LivesOn id cpu ↔ ∃ t, s.tasks id = some t ∧ t.lastCpu = cpu :=
  Option.map_eq_some_iff

theorem LivesOn.unique {s : Scheduler} {id cpu cpu' : Nat} (h : s.LivesOn id cpu)
    (h' : s.LivesOn id cpu') :
    cpu = cpu' :=
  Option.some.inj (h.symm.trans h')

theorem LivesOn.of_sameField {s s' : Scheduler} {id cpu : Nat} (hsame : SameField Task.lastCpu s s')
    (h : s.LivesOn id cpu) :
    s'.LivesOn id cpu :=
  (hsame id).trans h

namespace Placed

variable {s s' : Scheduler} {loose loose' : Option Nat}

/-! ## The single writes -/

theorem modifyTask {id : Nat} {f : Task → Task} (h : Placed loose s)
    (hm : s.modifyTask id f = some s') (hcpu : ∀ t, s.tasks id = some t → (f t).lastCpu = t.lastCpu)
    (hrunning : ∀ t, s.tasks id = some t → (f t).state = .running → some id ≠ loose' →
      t.state = .running ∧ some id ≠ loose)
    (hloose : ∀ j, j ≠ id → some j ≠ loose' → some j ≠ loose) :
    Placed loose' s' := by
  have hlives {j cpu : Nat} (hj : s.LivesOn j cpu) : s'.LivesOn j cpu := by
    obtain ⟨t, ht, rfl⟩ := modifyTask_eq_some.mp hm
    by_cases hid : j = id
    · subst hid
      have ht' : some t.lastCpu = some cpu := by simpa [LivesOn, ht] using hj
      simpa [LivesOn, hcpu t ht] using ht'
    · simpa [LivesOn, Function.update_of_ne hid] using hj
  obtain ⟨t, ht, rfl⟩ := modifyTask_eq_some.mp hm
  refine ⟨fun cpu j hj => hlives (h.current cpu j hj), ?_,
    fun cpu rq cls j hrq hj => hlives (h.queued cpu rq cls j hrq hj), ?_⟩
  · intro j u hu hstate hne
    by_cases hid : j = id
    · subst hid
      simp only [Function.update_self, Option.some.injEq] at hu
      subst hu
      obtain ⟨hbefore, hnot⟩ := hrunning t ht hstate hne
      rw [hcpu t ht]
      exact h.running j t ht hbefore hnot
    · simp only [Function.update_of_ne hid] at hu
      exact h.running j u hu hstate (hloose j hid hne)
  · intro hzero
    rw [h.no_tasks hzero id] at ht
    cases ht

/-- A write to a task that does not make it Running. -/
theorem modifyTask_same {id : Nat} {f : Task → Task} (h : Placed loose s)
    (hm : s.modifyTask id f = some s') (hcpu : ∀ t, (f t).lastCpu = t.lastCpu)
    (hrunning : ∀ t, (f t).state = .running → t.state = .running) :
    Placed loose s' :=
  h.modifyTask hm (fun t _ => hcpu t) (fun t _ hstate hne => ⟨hrunning t hstate, hne⟩)
    (fun _ _ hne => hne)

/-- A write to a CPU that keeps its current task and queues nothing new. -/
theorem modifyCpu {cpu : Nat} {f : CpuRunQueue → CpuRunQueue} (h : Placed loose s)
    (hm : s.modifyCpu cpu f = some s') (hcurrent : ∀ rq, (f rq).currentTask = rq.currentTask)
    (hqueued : ∀ rq cls id, s.cpus[cpu]? = some rq → id ∈ (f rq).queues cls → s.LivesOn id cpu) :
    Placed loose s' := by
  obtain ⟨rq, hrq, rfl⟩ := modifyCpu_eq_some.mp hm
  have hsame (k : Nat) : Scheduler.currentTask { s with cpus := s.cpus.set cpu (f rq) } k =
      s.currentTask k := by
    by_cases hk : cpu = k
    · subst hk
      simp [Scheduler.currentTask, cpus_set_getElem? hrq, hrq, hcurrent]
    · simp [Scheduler.currentTask, List.getElem?_set_ne hk]
  refine ⟨fun k id hid => h.current k id (hsame k ▸ hid), ?_, ?_, h.no_tasks⟩
  · intro id t ht hstate hne
    rw [hsame]
    exact h.running id t ht hstate hne
  · intro k rq' cls id hrq' hid
    by_cases hk : cpu = k
    · subst hk
      rw [cpus_set_getElem? hrq, Option.some.injEq] at hrq'
      subst hrq'
      exact hqueued rq cls id hrq hid
    · rw [List.getElem?_set_ne hk] at hrq'
      exact h.queued k rq' cls id hrq' hid

theorem currentTask_set {cpu : Nat} {rq : CpuRunQueue} {current : Option Nat}
    (hrq : s.cpus[cpu]? = some rq)
    (k : Nat) :
    Scheduler.currentTask { s with cpus := s.cpus.set cpu { rq with currentTask := current } } k =
      if k = cpu then current else s.currentTask k := by
  by_cases hk : k = cpu
  · subst hk
    simp [Scheduler.currentTask, cpus_set_getElem? hrq]
  · simp [Scheduler.currentTask, List.getElem?_set_ne (Ne.symm hk), hk]

theorem queues_set {cpu : Nat} {rq : CpuRunQueue} {current : Option Nat} (h : Placed loose s)
    (hrq : s.cpus[cpu]? = some rq) (k : Nat) (rq' : CpuRunQueue) (cls : TaskClass) (id : Nat)
    (hrq' : (s.cpus.set cpu { rq with currentTask := current })[k]? = some rq')
    (hid : id ∈ rq'.queues cls) :
    s.LivesOn id k := by
  by_cases hk : cpu = k
  · subst hk
    rw [cpus_set_getElem? hrq, Option.some.injEq] at hrq'
    subst hrq'
    exact h.queued cpu rq cls id hrq hid
  · rw [List.getElem?_set_ne hk] at hrq'
    exact h.queued k rq' cls id hrq' hid

/-- The loose task becomes the current one of an idle CPU. -/
theorem setCurrent {cpu id : Nat} (h : Placed (some id) s) (hidle : s.currentTask cpu = none)
    (hlives : s.LivesOn id cpu)
    (hm : (s.modifyCpu cpu fun rq => { rq with currentTask := some id }) = some s') :
    Placed none s' := by
  obtain ⟨rq, hrq, rfl⟩ := modifyCpu_eq_some.mp hm
  refine ⟨?_, ?_, fun k rq' cls j => h.queues_set hrq k rq' cls j, h.no_tasks⟩
  · intro k j hj
    rw [currentTask_set hrq] at hj
    split at hj
    next hk =>
      cases hj
      exact hk ▸ hlives
    next =>
      exact h.current k j hj
  · intro j t ht hstate _
    rw [currentTask_set hrq]
    by_cases hj : j = id
    · subst hj
      obtain ⟨u, hu, hcpu⟩ := livesOn_iff.mp hlives
      cases ht.symm.trans hu
      rw [if_pos hcpu]
    · have hcurrent := h.running j t ht hstate (by simpa using hj)
      have hk : t.lastCpu ≠ cpu := by
        intro hk
        rw [hk, hidle] at hcurrent
        cases hcurrent
      rw [if_neg hk]
      exact hcurrent

/-- The current task of a CPU is taken off it. -/
theorem clearCurrent {cpu : Nat} (h : Placed none s)
    (hm : (s.modifyCpu cpu fun rq => { rq with currentTask := none }) = some s') :
    Placed (s.currentTask cpu) s' ∧ s'.currentTask cpu = none ∧ s'.tasks = s.tasks := by
  obtain ⟨rq, hrq, rfl⟩ := modifyCpu_eq_some.mp hm
  refine ⟨⟨?_, ?_, fun k rq' cls j => h.queues_set hrq k rq' cls j, h.no_tasks⟩,
    by rw [currentTask_set hrq, if_pos rfl], rfl⟩
  · intro k j hj
    rw [currentTask_set hrq] at hj
    split at hj
    · cases hj
    · exact h.current k j hj
  · intro j t ht hstate hne
    have hcurrent := h.running j t ht hstate (by simp)
    have hk : t.lastCpu ≠ cpu := by
      intro hk
      rw [hk] at hcurrent
      exact hne hcurrent.symm
    rw [currentTask_set hrq, if_neg hk]
    exact hcurrent

theorem of_not_running (h : Placed loose s)
    (hnot : ∀ id t, loose = some id → s.tasks id = some t → t.state ≠ .running) :
    Placed none s := by
  refine ⟨h.current, ?_, h.queued, h.no_tasks⟩
  intro id t ht hstate _
  apply h.running id t ht hstate
  rintro rfl
  exact hnot id t rfl ht hstate

theorem storeCurrentTaskId {cpu id : Nat} (h : Placed loose s)
    (hm : s.storeCurrentTaskId cpu id = some s') :
    Placed loose s' := by
  obtain ⟨-, rfl⟩ := storeCurrentTaskId_eq_some.mp hm
  exact ⟨h.current, h.running, h.queued, h.no_tasks⟩

theorem withDeficits (h : Placed loose s)
    (d : Nat → Int) :
    Placed loose (s.withDeficits d) := by
  have hsame : SameField Task.lastCpu s (s.withDeficits d) :=
    SameField.withDeficits (fun _ _ => rfl) d
  refine ⟨fun k id hid => (h.current k id hid).of_sameField hsame, ?_,
    fun k rq cls id hrq hid => (h.queued k rq cls id hrq hid).of_sameField hsame, ?_⟩
  · intro id t ht hstate hne
    obtain ⟨u, hu, rfl⟩ := withDeficits_tasks_eq_some.mp ht
    exact h.running id u hu hstate hne
  · intro hzero id
    have hnone : s.tasks id = none := h.no_tasks hzero id
    simp [Scheduler.withDeficits, hnone]

theorem withClassDeficits {cpu : Nat} {rq : CpuRunQueue} (h : Placed loose s)
    (hrq : s.cpus[cpu]? = some rq)
    (D : TaskClass → Int) :
    Placed loose (s.withClassDeficits cpu rq D) := by
  refine h.modifyCpu (f := fun rq => { rq with classDeficits := D })
    (modifyCpu_eq_some.mpr ⟨rq, hrq, rfl⟩) (fun _ => rfl) ?_
  intro rq' cls id hrq' hid
  exact h.queued cpu rq' cls id hrq' hid

theorem enqueueTask {id : Nat} (h : Placed loose s)
    (he : s.enqueueTask id = some s') :
    Placed loose s' := by
  obtain ⟨t, ht, ⟨s₁, -, hcpu, htask⟩ | ⟨-, rfl⟩⟩ := enqueueTask_cases he
  · refine (h.modifyCpu hcpu (fun _ => rfl) ?_).modifyTask_same htask (fun _ => rfl) (fun _ h => h)
    intro rq cls j hrq hj
    have hmem : j ∈ rq.queues cls ∨ j = id := by
      simp only [CpuRunQueue.setQueue, Function.update_apply] at hj
      split at hj
      next heq =>
        subst heq
        simpa using hj
      next =>
        exact .inl hj
    rcases hmem with hmem | rfl
    · exact h.queued _ rq cls j hrq hmem
    · exact livesOn_iff.mpr ⟨t, ht, rfl⟩
  · exact h

theorem takeTask {cpu id : Nat} {cls : TaskClass} (h : Placed loose s)
    (ht : s.takeTask cpu cls id = some s') :
    Placed loose s' := by
  obtain ⟨s₁, hcpu, htask⟩ := Option.bind_eq_some_iff.mp ht
  refine (h.modifyCpu hcpu (fun _ => rfl) ?_).modifyTask_same htask (fun _ => rfl) (fun _ h => h)
  intro rq cls' j hrq hj
  apply h.queued cpu rq cls' j hrq
  simp only [CpuRunQueue.setQueue, Function.update_apply] at hj
  split at hj
  next heq =>
    subst heq
    exact List.mem_of_mem_erase hj
  next =>
    exact hj

/-- The search of a pick leaves the tasks where they are, and finds one that lives on the
CPU. -/
theorem selectTask {cpu : Nat} {found : Option (Nat × TaskClass)} (h : Placed loose s)
    (hs : s.selectTask cpu = some (s', found)) :
    Placed loose s' ∧ SameField Task.lastCpu s s' ∧
      ∀ id cls, found = some (id, cls) → s.LivesOn id cpu := by
  have hsame : SameField Task.lastCpu s s' :=
    SameField.selectTask (fun _ _ => rfl) (fun _ _ => rfl) hs
  cases found with
  | none =>
    obtain ⟨rq, D, d, hrq, rfl, -⟩ := selectTask_eq_none hs
    exact ⟨(h.withClassDeficits hrq D).withDeficits d, hsame, by simp⟩
  | some picked =>
    obtain ⟨id, cls⟩ := picked
    obtain ⟨rq, D, hrq, ⟨hmem, -, d, htake⟩, -⟩ := selectTask_eq_some hs
    refine ⟨((h.withClassDeficits hrq D).withDeficits d).takeTask htake, hsame, ?_⟩
    rintro id' cls' heq
    cases heq
    exact h.queued cpu rq cls id hrq hmem

/-! ## The calls -/

/-- A task that lives on an idle CPU is made Running there. -/
theorem makeRunning {cpu id stored : Nat} {s₁ s₂ : Scheduler} {f : Task → Task} (h : Placed none s)
    (hidle : s.currentTask cpu = none) (hlives : s.LivesOn id cpu)
    (htask : s.modifyTask id f = some s₁)
    (hcpu : ∀ t, s.tasks id = some t → (f t).lastCpu = t.lastCpu)
    (hcurrent : (s₁.modifyCpu cpu fun rq => { rq with currentTask := some id }) = some s₂)
    (hstore : s₂.storeCurrentTaskId cpu stored = some s') :
    Placed none s' := by
  have h₁ : Placed (some id) s₁ :=
    h.modifyTask htask hcpu (fun _ _ _ hne => absurd rfl hne) (fun _ _ _ => by simp)
  refine (h₁.setCurrent ?_ ?_ hcurrent).storeCurrentTaskId hstore
  · obtain ⟨t, -, rfl⟩ := modifyTask_eq_some.mp htask
    exact hidle
  · obtain ⟨t, ht, rfl⟩ := modifyTask_eq_some.mp htask
    obtain ⟨u, hu, rfl⟩ := livesOn_iff.mp hlives
    cases ht.symm.trans hu
    simp [LivesOn, hcpu t ht]

theorem pickNextTask {cpu : Nat} {previous result : Option Nat} (h : Placed none s)
    (hidle : s.currentTask cpu = none) (hprevious : ∀ id, previous = some id → s.LivesOn id cpu)
    (hp : s.pickNextTask cpu previous = some (s', result)) :
    Placed none s' := by
  obtain ⟨s₁, found, hselect, hends⟩ := pickNextTask_ends hp
  obtain ⟨h₁, hsame, hfound⟩ := h.selectTask hselect
  have hidle₁ : s₁.currentTask cpu = none :=
    ((Keeps.selectTask hselect).current cpu (by simp)).trans hidle
  cases hends with
  | @dispatched _ id cls _ _ hdispatches =>
    obtain ⟨s₂, s₃, s₄, hserve, hdispatch, hcurrent, hstore⟩ := hdispatches
    have h₂ : Placed none s₂ :=
      h₁.modifyCpu hserve (fun _ => rfl) (fun rq cls' j hrq hj => h₁.queued cpu rq cls' j hrq hj)
    have hlives : s₂.LivesOn id cpu :=
      ((hfound id cls rfl).of_sameField hsame).of_sameField (SameField.modifyCpu hserve)
    have hkeeps : Keeps none s₁ s₂ := .modifyCpu hserve (.inr fun _ => rfl)
    have hidle₂ : s₂.currentTask cpu = none :=
      (hkeeps.current cpu (by simp)).trans hidle₁
    refine h₂.makeRunning hidle₂ hlives hdispatch ?_ hcurrent hstore
    intro t ht
    obtain ⟨u, hu, rfl⟩ := livesOn_iff.mp hlives
    cases ht.symm.trans hu
    rfl
  | resumed _ hrunning hcurrent hstore =>
    exact h₁.makeRunning hidle₁ ((hprevious _ rfl).of_sameField hsame) hrunning
      (fun _ _ => rfl) hcurrent hstore
  | stopped =>
    exact h₁
  | idle hstore =>
    exact h₁.storeCurrentTaskId hstore

/-- The accounting part of a tick makes the current task Ready, if it was Running, and takes
it off its CPU. -/
theorem accountRunningTask {cpu id currentRsp : Nat} (h : Placed none s)
    (hcurrent : s.currentTask cpu = some id)
    (ha : s.accountRunningTask cpu id currentRsp = some s') :
    Placed none s' ∧ s'.currentTask cpu = none ∧ s'.LivesOn id cpu := by
  obtain ⟨s₁, s₂, s₃, t, haccount, hclass, ht, henqueue, hclear⟩ := accountRunningTask_cases ha
  have hnot : t.state ≠ .running := by
    obtain ⟨u, hu, rfl⟩ := modifyTask_eq_some.mp haccount
    obtain ⟨v, hv, rfl⟩ := modifyTask_eq_some.mp hclass
    simp only [Function.update_self, Option.some.injEq] at hv ht
    subst hv
    subst ht
    simp only [Task.recomputeClassById, Task.accountTick]
    split <;> simp_all
  have h₂ : Placed none s₂ := by
    refine (h.modifyTask_same haccount (fun _ => rfl) ?_).modifyTask_same hclass (fun _ => rfl)
      (fun _ h => h)
    intro t
    simp only [Task.accountTick]
    split <;> simp
  have hsame₂ : SameField Task.lastCpu s s₂ :=
    (SameField.modifyTask haccount fun _ => rfl).trans (SameField.modifyTask hclass fun _ => rfl)
  have hcurrent₂ : s₂.currentTask cpu = some id := by
    obtain ⟨u, -, rfl⟩ := modifyTask_eq_some.mp haccount
    obtain ⟨v, -, rfl⟩ := modifyTask_eq_some.mp hclass
    exact hcurrent
  obtain ⟨h₃, hsame₃, hcurrent₃, hstate₃⟩ : Placed none s₃ ∧ SameField Task.lastCpu s s₃ ∧
      s₃.currentTask cpu = some id ∧ s₃.stateOf id = s₂.stateOf id := by
    rcases henqueue with ⟨-, henqueue⟩ | ⟨-, rfl⟩
    · have hkeeps : Keeps none s₂ s₃ := .enqueueTask henqueue
      exact ⟨h₂.enqueueTask henqueue,
        hsame₂.trans (SameField.enqueueTask (fun _ _ => rfl) henqueue),
        (hkeeps.current cpu (by simp)).trans hcurrent₂, enqueueTask_stateOf henqueue id⟩
    · exact ⟨h₂, hsame₂, hcurrent₂, rfl⟩
  obtain ⟨h₄, hidle, htasks⟩ := h₃.clearCurrent hclear
  refine ⟨h₄.of_not_running ?_, hidle, ?_⟩
  · intro j u hj hu
    rw [hcurrent₃] at hj
    cases hj
    have hstate : some u.state = some t.state := by
      simpa [stateOf, ← htasks, hu, ht] using hstate₃
    rw [Option.some.inj hstate]
    exact hnot
  · rw [LivesOn, htasks]
    exact (h.current cpu id hcurrent).of_sameField hsame₃

theorem onTimerTick {cpu currentRsp next : Nat} (h : Placed none s)
    (ht : s.onTimerTick cpu currentRsp = some (s', next)) :
    Placed none s' := by
  simp only [Scheduler.onTimerTick] at ht
  split at ht
  next =>
    obtain ⟨⟨s₁, previous⟩, haccount, ht⟩ := Option.bind_eq_some_iff.mp ht
    obtain ⟨⟨s₂, result⟩, hpick, ht⟩ := Option.bind_eq_some_iff.mp ht
    cases ht
    have hclock : Placed none { s with globalTick := (s.globalTick + 1) % 2 ^ 64 } :=
      ⟨h.current, h.running, h.queued, h.no_tasks⟩
    obtain ⟨rq, hrq, hid, hcases⟩ := accountTimerTick_cases haccount
    have hcurrent : Scheduler.currentTask { s with globalTick := (s.globalTick + 1) % 2 ^ 64 } cpu =
        previous := by
      rw [Scheduler.currentTask, hrq]
      exact hid
    rcases hcases with ⟨id, rfl, haccounted⟩ | ⟨rfl, rfl⟩
    · obtain ⟨h₁, hidle, hlives⟩ := hclock.accountRunningTask hcurrent haccounted
      refine h₁.pickNextTask hidle ?_ hpick
      rintro j hj
      cases hj
      exact hlives
    · exact hclock.pickNextTask hcurrent (by simp) hpick
  next =>
    cases ht
    exact h

/-- A call that writes to the current task of a CPU and does not make it Running. -/
theorem of_currentTask {rq : CpuRunQueue} {f : Task → Task} (h : Placed none s)
    (hs : (match rq.currentTask with
      | some id => s.modifyTask id f
      | none => some s) = some s')
    (hcpu : ∀ t, (f t).lastCpu = t.lastCpu)
    (hrunning : ∀ t, (f t).state = .running → t.state = .running) :
    Placed none s' := by
  rcases currentTask_cases hs with ⟨id, -, hs⟩ | ⟨-, rfl⟩
  · exact h.modifyTask_same hs hcpu hrunning
  · exact h

theorem requestYield {cpu : Nat} (h : Placed none s)
    (hs : s.requestYield cpu = some s') :
    Placed none s' := by
  obtain ⟨rq, -, hs⟩ := Option.bind_eq_some_iff.mp hs
  exact h.of_currentTask hs (fun _ => rfl) (fun _ h => h)

theorem blockCurrent {cpu : Nat} (h : Placed none s)
    (hs : s.blockCurrent cpu = some s') :
    Placed none s' := by
  obtain ⟨rq, -, hs⟩ := Option.bind_eq_some_iff.mp hs
  exact h.of_currentTask hs (fun _ => rfl) (fun t => by simp [Task.block])

theorem wakeTask {id : Nat} (h : Placed none s)
    (hs : s.wakeTask id = some s') :
    Placed none s' := by
  obtain ⟨t, -, ⟨s₁, -, hwake, henqueue⟩ | ⟨-, rfl⟩⟩ := wakeTask_cases hs
  · exact (h.modifyTask_same hwake (fun _ => rfl) (fun t => by simp [Task.wake])).enqueueTask henqueue
  · exact h

theorem retireCurrent {cpu : Nat} (h : Placed none s)
    (hs : s.retireCurrent cpu = some s') :
    Placed none s' := by
  obtain ⟨rq, hrq, ⟨id, s₁, hcurrent, hclear, htask⟩ | ⟨-, rfl⟩⟩ := retireCurrent_cases hs
  · obtain ⟨h₁, -, -⟩ := h.clearCurrent hclear
    have hloose : s.currentTask cpu = some id := by
      rw [Scheduler.currentTask, hrq]
      exact hcurrent
    rw [hloose] at h₁
    refine h₁.modifyTask htask (fun _ _ => rfl) (fun t _ hstate => ?_) (fun j hj _ => ?_)
    · cases hstate
    · simpa using hj
  · exact h

theorem exitCurrent {cpu : Nat} {result : Option Nat} (h : Placed none s)
    (hs : s.exitCurrent cpu = some (s', result)) :
    Placed none s' := by
  obtain ⟨s₁, hretire, hpick⟩ := Option.bind_eq_some_iff.mp hs
  exact (h.retireCurrent hretire).pickNextTask (retireCurrent_keeps hretire).2.1 (by simp) hpick

theorem start {result : Option Nat} (h : Placed none s) (hidle : s.currentTask 0 = none)
    (hs : s.start = some (s', result)) :
    Placed none s' := by
  have hstarted : Placed none { s with started := true } :=
    ⟨h.current, h.running, h.queued, h.no_tasks⟩
  exact hstarted.pickNextTask hidle (by simp) hs

theorem addTask {task : Task} (h : Placed none s) (hnew : s.tasks task.id = none)
    (hready : task.state = .ready)
    (hs : s.addTask task = some s') :
    Placed none s' := by
  obtain ⟨cpu, -, hs⟩ := Option.bind_eq_some_iff.mp hs
  obtain ⟨s₁, henqueue, hs⟩ := Option.bind_eq_some_iff.mp hs
  cases hs
  have hlives {id k : Nat} (hid : s.LivesOn id k) : id ≠ task.id := by
    rintro rfl
    rw [LivesOn, hnew] at hid
    cases hid
  have hadded : Placed none { s with
      tasks := Function.update s.tasks task.id (some
        { ({ task with lastCpu := cpu } : Task).recomputeClass with
          deficit := taskQuantum ({ task with lastCpu := cpu } : Task).recomputeClass.cls
            ({ task with lastCpu := cpu } : Task).recomputeClass.nice })
      taskCount := s.taskCount + 1 } := by
    refine ⟨?_, ?_, ?_, by simp⟩
    · intro k id hid
      have hold := h.current k id hid
      simp only [LivesOn, Function.update_of_ne (hlives hold)]
      exact hold
    · intro id t ht hstate _
      by_cases hid : id = task.id
      · subst hid
        simp only [Function.update_self, Option.some.injEq] at ht
        subst ht
        simp [Task.recomputeClass, hready] at hstate
      · simp only [Function.update_of_ne hid] at ht
        exact h.running id t ht hstate (by simp)
    · intro k rq cls id hrq hid
      have hold := h.queued k rq cls id hrq hid
      simp only [LivesOn, Function.update_of_ne (hlives hold)]
      exact hold
  obtain ⟨hcurrent, hrunning, hqueued, hno⟩ := hadded.enqueueTask henqueue
  exact ⟨hcurrent, hrunning, hqueued, hno⟩

theorem configureTopology (h : Placed none s)
    (cpuCount : Nat) :
    Placed none (s.configureTopology cpuCount) := by
  simp only [Scheduler.configureTopology]
  split
  next =>
    exact h
  next hfresh =>
    obtain ⟨hzero, -⟩ := not_or.mp hfresh
    have hnone := h.no_tasks (not_not.mp hzero)
    refine ⟨?_, ?_, ?_, fun _ => hnone⟩
    · intro k id hid
      simp [Scheduler.currentTask, Option.bind_eq_some_iff, CpuRunQueue.new] at hid
    · intro id t ht
      rw [hnone id] at ht
      cases ht
    · intro k rq cls id hrq hid
      obtain ⟨i, -, rfl⟩ := List.mem_map.mp (List.mem_of_getElem? hrq)
      cases hid

theorem new :
    Placed none Scheduler.new := by
  refine ⟨?_, ?_, ?_, fun _ _ => rfl⟩
  · intro k id hid
    rcases k with _ | k <;>
      simp [Scheduler.currentTask, Scheduler.new, CpuRunQueue.new] at hid
  · intro id t ht
    cases ht
  · intro k rq cls id hrq hid
    obtain rfl := List.mem_singleton.mp (List.mem_of_getElem? hrq)
    cases hid

/-- One call; `start` finds CPU 0 idle. -/
theorem step {call : Call} (h : Placed none s) (hstart : call = .start → s.currentTask 0 = none)
    (hs : s.step call = some s') :
    Placed none s' := by
  cases call with
  | configureTopology cpuCount =>
    cases hs
    exact h.configureTopology cpuCount
  | addTask id threadId savedRsp params =>
    simp only [Scheduler.step] at hs
    split at hs
    · cases hs
    next hnew =>
      exact h.addTask (Option.not_isSome_iff_eq_none.mp hnew) rfl hs
  | start =>
    obtain ⟨⟨s₁, result⟩, hpick, rfl⟩ := Option.map_eq_some_iff.mp hs
    exact h.start (hstart rfl) hpick
  | timerTick cpu currentRsp =>
    obtain ⟨⟨s₁, next⟩, htick, rfl⟩ := Option.map_eq_some_iff.mp hs
    exact h.onTimerTick htick
  | requestYield cpu =>
    exact h.requestYield hs
  | blockCurrent cpu =>
    exact h.blockCurrent hs
  | wakeTask id =>
    exact h.wakeTask hs
  | exitCurrent cpu =>
    obtain ⟨⟨s₁, result⟩, hexit, rfl⟩ := Option.map_eq_some_iff.mp hs
    exact h.exitCurrent hexit

end Placed

/-- A pick that returns a stack pointer has made a task Running and current, and it is that
task's. -/
theorem pickNextTask_running {s s' : Scheduler} {cpu rsp : Nat} {previous : Option Nat}
    (hp : s.pickNextTask cpu previous = some (s', some rsp)) :
    ∃ id t, s'.currentTask cpu = some id ∧ s'.tasks id = some t ∧ t.state = .running ∧
      t.savedRsp = rsp := by
  obtain ⟨s₁, found, -, hends⟩ := pickNextTask_ends hp
  cases hends with
  | dispatched hdispatches ht =>
    obtain ⟨s₂, s₃, s₄, -, hdispatch, hcurrent, hstore⟩ := hdispatches
    refine ⟨_, _, (current_of_store hcurrent hstore).1, ht, ?_, rfl⟩
    obtain ⟨u, -, rfl⟩ := modifyTask_eq_some.mp hdispatch
    obtain ⟨rq, -, rfl⟩ := modifyCpu_eq_some.mp hcurrent
    obtain ⟨-, rfl⟩ := storeCurrentTaskId_eq_some.mp hstore
    simp only [Function.update_self, Option.some.injEq] at ht
    rw [← ht]
    rfl
  | @resumed id t _ _ _ ht hrunning hcurrent hstore =>
    refine ⟨id, { t with state := .running }, (current_of_store hcurrent hstore).1, ?_, rfl, rfl⟩
    obtain ⟨u, hu, rfl⟩ := modifyTask_eq_some.mp hrunning
    obtain ⟨rq, -, rfl⟩ := modifyCpu_eq_some.mp hcurrent
    obtain ⟨-, rfl⟩ := storeCurrentTaskId_eq_some.mp hstore
    cases ht.symm.trans hu
    exact Function.update_self _ _ _

/-! ## The calls before `start` -/

/-- At most the tasks, the CPUs and the current task ids differ. -/
def Touches (s s' : Scheduler) : Prop :=
  ∃ tasks cpus ids, s' = { s with tasks := tasks, cpus := cpus, currentTaskIds := ids }

namespace Touches

variable {s s' s'' : Scheduler}

theorem refl
    (s : Scheduler) :
    Touches s s :=
  ⟨s.tasks, s.cpus, s.currentTaskIds, rfl⟩

theorem trans (h : Touches s s')
    (h' : Touches s' s'') :
    Touches s s'' := by
  obtain ⟨tasks, cpus, ids, rfl⟩ := h
  obtain ⟨tasks', cpus', ids', rfl⟩ := h'
  exact ⟨tasks', cpus', ids', rfl⟩

theorem started
    (h : Touches s s') :
    s'.started = s.started := by
  obtain ⟨tasks, cpus, ids, rfl⟩ := h
  rfl

theorem modifyTask {id : Nat} {f : Task → Task}
    (hm : s.modifyTask id f = some s') :
    Touches s s' := by
  obtain ⟨t, -, rfl⟩ := modifyTask_eq_some.mp hm
  exact ⟨_, _, _, rfl⟩

theorem modifyCpu {cpu : Nat} {f : CpuRunQueue → CpuRunQueue}
    (hm : s.modifyCpu cpu f = some s') :
    Touches s s' := by
  obtain ⟨rq, -, rfl⟩ := modifyCpu_eq_some.mp hm
  exact ⟨_, _, _, rfl⟩

theorem storeCurrentTaskId {cpu id : Nat}
    (hm : s.storeCurrentTaskId cpu id = some s') :
    Touches s s' := by
  obtain ⟨-, rfl⟩ := storeCurrentTaskId_eq_some.mp hm
  exact ⟨_, _, _, rfl⟩

theorem enqueueTask {id : Nat}
    (he : s.enqueueTask id = some s') :
    Touches s s' := by
  obtain ⟨t, -, ⟨s₁, -, hcpu, htask⟩ | ⟨-, rfl⟩⟩ := enqueueTask_cases he
  · exact (modifyCpu hcpu).trans (modifyTask htask)
  · exact refl _

theorem selectTask {cpu : Nat} {found : Option (Nat × TaskClass)}
    (h : s.selectTask cpu = some (s', found)) :
    Touches s s' := by
  cases found with
  | none =>
    obtain ⟨rq, D, d, -, rfl, -⟩ := selectTask_eq_none h
    exact ⟨_, _, _, rfl⟩
  | some picked =>
    obtain ⟨rq, D, -, ⟨-, -, d, htake⟩, -⟩ := selectTask_eq_some h
    obtain ⟨s₁, hcpu, htask⟩ := Option.bind_eq_some_iff.mp htake
    have hdeficits : Touches s ((s.withClassDeficits cpu rq D).withDeficits d) :=
      ⟨_, _, _, rfl⟩
    exact (hdeficits.trans (modifyCpu hcpu)).trans (modifyTask htask)

theorem pickNextTask {cpu : Nat} {previous result : Option Nat}
    (h : s.pickNextTask cpu previous = some (s', result)) :
    Touches s s' := by
  obtain ⟨s₁, ⟨id, cls, hselect, hdispatches⟩ | ⟨hselect, hresumes⟩⟩ := pickNextTask_cases h
  · obtain ⟨s₂, s₃, s₄, hserve, hdispatch, hcurrent, hstore⟩ := hdispatches
    exact ((((selectTask hselect).trans (modifyCpu hserve)).trans (modifyTask hdispatch)).trans
      (modifyCpu hcurrent)).trans (storeCurrentTaskId hstore)
  · rcases hresumes with ⟨id, s₂, s₃, hrunning, hcurrent, hstore⟩ | rfl | hstore
    · exact (((selectTask hselect).trans (modifyTask hrunning)).trans (modifyCpu hcurrent)).trans
        (storeCurrentTaskId hstore)
    · exact selectTask hselect
    · exact (selectTask hselect).trans (storeCurrentTaskId hstore)

theorem of_currentTask {rq : CpuRunQueue} {f : Task → Task}
    (hs : (match rq.currentTask with
      | some id => s.modifyTask id f
      | none => some s) = some s') :
    Touches s s' ∧ s'.cpus = s.cpus := by
  rcases currentTask_cases hs with ⟨id, -, hs⟩ | ⟨-, rfl⟩
  · refine ⟨modifyTask hs, ?_⟩
    obtain ⟨t, -, rfl⟩ := modifyTask_eq_some.mp hs
    rfl
  · exact ⟨refl _, rfl⟩

theorem wakeTask {id : Nat}
    (h : s.wakeTask id = some s') :
    Touches s s' := by
  obtain ⟨t, -, ⟨s₁, -, hwake, henqueue⟩ | ⟨-, rfl⟩⟩ := wakeTask_cases h
  · exact (modifyTask hwake).trans (enqueueTask henqueue)
  · exact refl _

theorem exitCurrent {cpu : Nat} {result : Option Nat}
    (h : s.exitCurrent cpu = some (s', result)) :
    Touches s s' := by
  obtain ⟨s₁, hretire, hpick⟩ := Option.bind_eq_some_iff.mp h
  refine trans ?_ (pickNextTask hpick)
  obtain ⟨rq, -, ⟨id, s₂, -, hcpu, htask⟩ | ⟨-, rfl⟩⟩ := retireCurrent_cases hretire
  · exact (modifyCpu hcpu).trans (modifyTask htask)
  · exact refl _

end Touches

/-- The scheduler has not been started, and CPU 0 runs nothing. -/
def AtRest (s : Scheduler) : Prop :=
  s.started = false ∧ s.currentTask 0 = none

theorem AtRest.step {s s' : Scheduler} {call : Call} (h : AtRest s) (hstart : call ≠ .start)
    (hexit : call ≠ .exitCurrent 0)
    (hs : s.step call = some s') :
    AtRest s' := by
  obtain ⟨hstarted, hidle⟩ := h
  cases call with
  | configureTopology cpuCount =>
    cases hs
    constructor
    · rw [configureTopology]
      split
      · exact hstarted
      · exact hstarted
    · rw [Option.eq_none_iff_forall_ne_some]
      intro t ht
      rw [(configureTopology_keeps s cpuCount).2.1 0 t ht] at hidle
      cases hidle
  | addTask id threadId savedRsp params =>
    simp only [Scheduler.step] at hs
    split at hs
    · cases hs
    next =>
      have hkeeps := addTask_keeps (rfl : (Task.withParams id threadId savedRsp params).state = _) hs
      refine ⟨?_, (hkeeps.current 0 (by simp)).trans hidle⟩
      obtain ⟨cpu, -, hs⟩ := Option.bind_eq_some_iff.mp hs
      obtain ⟨s₁, henqueue, hs⟩ := Option.bind_eq_some_iff.mp hs
      cases hs
      exact (Touches.enqueueTask henqueue).started.trans hstarted
  | start =>
    exact absurd rfl hstart
  | timerTick cpu currentRsp =>
    simp only [Scheduler.step, onTimerTick, hstarted] at hs
    cases hs
    exact ⟨hstarted, hidle⟩
  | requestYield cpu =>
    obtain ⟨rq, -, hs⟩ := Option.bind_eq_some_iff.mp hs
    obtain ⟨htouches, hcpus⟩ := Touches.of_currentTask hs
    exact ⟨htouches.started.trans hstarted, by rw [currentTask, hcpus]; exact hidle⟩
  | blockCurrent cpu =>
    obtain ⟨rq, -, hs⟩ := Option.bind_eq_some_iff.mp hs
    obtain ⟨htouches, hcpus⟩ := Touches.of_currentTask hs
    exact ⟨htouches.started.trans hstarted, by rw [currentTask, hcpus]; exact hidle⟩
  | wakeTask id =>
    exact ⟨(Touches.wakeTask hs).started.trans hstarted,
      ((wakeTask_keeps hs).1.current 0 (by simp)).trans hidle⟩
  | exitCurrent cpu =>
    obtain ⟨⟨s₁, result⟩, hexits, rfl⟩ := Option.map_eq_some_iff.mp hs
    refine ⟨(Touches.exitCurrent hexits).started.trans hstarted, ?_⟩
    obtain ⟨s₂, hretire, hpick⟩ := Option.bind_eq_some_iff.mp hexits
    have hkeeps := (retireCurrent_keeps hretire).1.trans (pickNextTask_picked hpick).keeps
    have hne : some 0 ≠ some cpu := by
      rintro heq
      cases heq
      exact hexit rfl
    exact (hkeeps.current 0 hne).trans hidle

/-! ## Runs -/

/-- The order of the calls: `start` at most once, and no exit on CPU 0 before it. -/
def StartsOnce (calls : List Call) : Prop :=
  ∃ setup rest, calls = setup ++ rest ∧ .start ∉ setup ∧ .exitCurrent 0 ∉ setup ∧
    .start ∉ rest.tail

theorem placed_of_run {calls : List Call} {s s' : Scheduler} (hplaced : Placed none s)
    (hnot : .start ∉ calls)
    (hrun : Run (Det Scheduler.step) s calls s') :
    Placed none s' := by
  induction hrun with
  | nil =>
    exact hplaced
  | cons hs _ ih =>
    obtain ⟨hne, hrest⟩ := not_or.mp (mt List.mem_cons.mpr hnot)
    exact ih (hplaced.step (fun heq => absurd heq.symm hne) hs) hrest

theorem placed_of_setup {calls : List Call} {s s' : Scheduler} (hplaced : Placed none s)
    (hrest : AtRest s) (hstart : .start ∉ calls) (hexit : .exitCurrent 0 ∉ calls)
    (hrun : Run (Det Scheduler.step) s calls s') :
    Placed none s' ∧ AtRest s' := by
  induction hrun with
  | nil =>
    exact ⟨hplaced, hrest⟩
  | cons hs _ ih =>
    obtain ⟨hne, hstart⟩ := not_or.mp (mt List.mem_cons.mpr hstart)
    obtain ⟨hne', hexit⟩ := not_or.mp (mt List.mem_cons.mpr hexit)
    exact ih (hplaced.step (fun heq => absurd heq.symm hne) hs)
      (hrest.step (Ne.symm hne) (Ne.symm hne') hs) hstart hexit

/-- In every run with one `start` a task is current on at most one CPU, a Running task on
exactly one, and a task is queued on the CPU that it records.  A pick returns the stack
pointer of the task that it makes current and Running. -/
theorem task_on_one_cpu {calls : List Call} {s : Scheduler}
    (hrun : Run (Det Scheduler.step) Scheduler.new calls s)
    (horder : StartsOnce calls) :
    (∀ id k k', s.currentTask k = some id → s.currentTask k' = some id → k = k') ∧
      (∀ id t, s.tasks id = some t → t.state = .running → ∃! k, s.currentTask k = some id) ∧
      (∀ (k : Nat) rq, s.cpus[k]? = some rq → ∀ id ∈ rq.allQueues,
        ∃ t, s.tasks id = some t ∧ t.lastCpu = k) ∧
      ∀ p p' k previous rsp, pickNextTask p k previous = some (p', some rsp) →
        ∃ id t, p'.currentTask k = some id ∧ p'.tasks id = some t ∧ t.state = .running ∧
          t.savedRsp = rsp := by
  have hplaced : Placed none s := by
    obtain ⟨setup, rest, rfl, hstart, hexit, htail⟩ := horder
    obtain ⟨between, hsetup, hrest⟩ := hrun.split
    obtain ⟨hplaced, hidle⟩ := placed_of_setup Placed.new ⟨rfl, rfl⟩ hstart hexit hsetup
    cases hrest with
    | nil =>
      exact hplaced
    | cons hs hrest =>
      exact placed_of_run (hplaced.step (fun _ => hidle.2) hs) htail hrest
  have hunique (id k k' : Nat) (hk : s.currentTask k = some id)
      (hk' : s.currentTask k' = some id) : k = k' :=
    (hplaced.current k id hk).unique (hplaced.current k' id hk')
  refine ⟨hunique, ?_, ?_, fun p p' k previous rsp => pickNextTask_running⟩
  · intro id t ht hstate
    have hcurrent := hplaced.running id t ht hstate (by simp)
    exact ⟨t.lastCpu, hcurrent, fun k hk => hunique id k t.lastCpu hk hcurrent⟩
  · intro k rq hrq id hid
    obtain ⟨cls, -, hid⟩ := List.mem_flatMap.mp hid
    exact livesOn_iff.mp (hplaced.queued k rq cls id hrq hid)

/-- Two CPUs with a task each; the first one blocks, is woken and runs again. -/
theorem task_on_one_cpu_two_cpus :
    ∃ s, Run (Det Scheduler.step) Scheduler.new
        [.configureTopology 2, .addTask 1 0 0 plainParams, .addTask 2 0 0 plainParams, .start,
          .timerTick 1 7, .blockCurrent 0, .wakeTask 1, .timerTick 0 5] s ∧
      s.currentTask 0 = some 1 ∧ s.currentTask 1 = some 2 ∧
      ∀ id k k', s.currentTask k = some id → s.currentTask k' = some id → k = k' := by
  have hrun :
      (runAll Scheduler.step Scheduler.new
        [.configureTopology 2, .addTask 1 0 0 plainParams, .addTask 2 0 0 plainParams, .start,
          .timerTick 1 7, .blockCurrent 0, .wakeTask 1, .timerTick 0 5]).map
        (fun s => (s.currentTask 0, s.currentTask 1)) = some (some 1, some 2) := by
    decide +kernel
  obtain ⟨s, hs, hcurrent⟩ := Option.map_eq_some_iff.mp hrun
  simp only [Prod.mk.injEq] at hcurrent
  have hrun := (runAll_eq_some_iff _ _ _ _).mp hs
  refine ⟨s, hrun, hcurrent.1, hcurrent.2, (task_on_one_cpu hrun ?_).1⟩
  exact ⟨[.configureTopology 2, .addTask 1 0 0 plainParams, .addTask 2 0 0 plainParams],
    [.start, .timerTick 1 7, .blockCurrent 0, .wakeTask 1, .timerTick 0 5], rfl, by decide,
    by decide, by decide⟩

end Scheduler
end Kernel
end Theos
