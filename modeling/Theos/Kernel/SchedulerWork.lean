import Theos.Kernel.SchedulerFairness
import Theos.Kernel.SchedulerQueues

/-!
# The scheduler never idles while a task is Ready

`pick_next_task` may find a class without deficit, and in a class with deficit
only tasks without deficit.  It refills the task deficits of the class it is
looking at and, after a whole round, the class deficits, and looks again.

Two facts make the second look succeed.  A search that ends with nobody had no
Ready task to find (`selectTask_eq_none`), and a search always ends: the ids in
the queues are ids of tasks, so no lookup on the way panics.  The second fact
holds after any calls at all, also when a task sits in its queue twice.
-/

namespace Theos
namespace Kernel
namespace Scheduler

open Base

/-- Every id in the queues of the CPU is the id of a task. -/
def KnownIn (s : Scheduler) (rq : CpuRunQueue) : Prop :=
  ∀ cls, ∀ id ∈ rq.queues cls, (s.tasks id).isSome

/-- What a pick relies on: known ids in the queues, cursors that name a class. -/
structure Workable (s : Scheduler) : Prop where
  known : ∀ rq ∈ s.cpus, s.KnownIn rq
  cursor : ∀ rq ∈ s.cpus, rq.classCursor < numClasses

/-! ## Every call keeps the queues workable -/

namespace Workable

variable {s s' : Scheduler} {cpu id : Nat}

theorem grow (h : Workable s) (hcpus : s'.cpus = s.cpus)
    (htasks : ∀ id, (s.tasks id).isSome → (s'.tasks id).isSome) : Workable s' :=
  ⟨fun rq hrq cls id hid => htasks id (h.known rq (hcpus ▸ hrq) cls id hid),
    fun rq hrq => h.cursor rq (hcpus ▸ hrq)⟩

theorem setCpu {rq : CpuRunQueue} (h : Workable s) (hknown : s.KnownIn rq)
    (hcursor : rq.classCursor < numClasses) :
    Workable { s with cpus := s.cpus.set cpu rq } := by
  refine ⟨fun rq' hrq' => ?_, fun rq' hrq' => ?_⟩
  · rcases List.mem_or_eq_of_mem_set hrq' with hmem | rfl
    · exact h.known rq' hmem
    · exact hknown
  · rcases List.mem_or_eq_of_mem_set hrq' with hmem | rfl
    · exact h.cursor rq' hmem
    · exact hcursor

theorem modifyTask {f : Task → Task} (h : Workable s) (hm : s.modifyTask id f = some s') :
    Workable s' := by
  obtain ⟨t, ht, rfl⟩ := modifyTask_eq_some.mp hm
  refine h.grow rfl fun j hj => ?_
  by_cases hji : j = id
  · simp [hji]
  · simpa [Function.update_of_ne hji] using hj

/-- A write to a run queue that adds no id to it. -/
theorem modifyCpu {f : CpuRunQueue → CpuRunQueue} (h : Workable s)
    (hm : s.modifyCpu cpu f = some s') (hqueues : ∀ rq cls, (f rq).queues cls ⊆ rq.queues cls)
    (hcursor : ∀ rq, rq.classCursor < numClasses → (f rq).classCursor < numClasses) :
    Workable s' := by
  obtain ⟨rq, hrq, rfl⟩ := modifyCpu_eq_some.mp hm
  have hmem := List.mem_of_getElem? hrq
  exact h.setCpu (fun cls id hid => h.known rq hmem cls id (hqueues rq cls hid))
    (hcursor rq (h.cursor rq hmem))

theorem setCurrent {current : Option Nat} (h : Workable s)
    (hm : (s.modifyCpu cpu fun rq => { rq with currentTask := current }) = some s') :
    Workable s' :=
  h.modifyCpu hm (fun _ _ => List.Subset.refl _) fun _ hrq => hrq

theorem storeCurrentTaskId (h : Workable s) (hs : s.storeCurrentTaskId cpu id = some s') :
    Workable s' := by
  obtain ⟨-, rfl⟩ := storeCurrentTaskId_eq_some.mp hs
  exact h.grow rfl fun _ hj => hj

theorem withDeficits (h : Workable s) (d : Nat → Int) : Workable (s.withDeficits d) :=
  h.grow rfl fun _ hj => by simpa [Scheduler.withDeficits] using hj

theorem withClassDeficits {rq : CpuRunQueue} (h : Workable s) (hrq : s.cpus[cpu]? = some rq)
    (D : TaskClass → Int) : Workable (s.withClassDeficits cpu rq D) :=
  have hmem := List.mem_of_getElem? hrq
  h.setCpu (h.known rq hmem) (h.cursor rq hmem)

theorem enqueueTask (h : Workable s) (he : s.enqueueTask id = some s') : Workable s' := by
  obtain ⟨t, ht, ⟨s₁, -, hpush, hflag⟩ | ⟨-, rfl⟩⟩ := enqueueTask_cases he
  · obtain ⟨rq, hrq, rfl⟩ := modifyCpu_eq_some.mp hpush
    have hmem := List.mem_of_getElem? hrq
    -- the only new id is the one whose task was just read
    have hknown : s.KnownIn (rq.setQueue t.cls (rq.queues t.cls ++ [id])) := by
      intro cls j hj
      simp only [CpuRunQueue.setQueue] at hj
      by_cases hcls : cls = t.cls
      · subst hcls
        rw [Function.update_self, List.mem_append, List.mem_singleton] at hj
        rcases hj with hj | rfl
        · exact h.known rq hmem _ j hj
        · simp [ht]
      · rw [Function.update_of_ne hcls] at hj
        exact h.known rq hmem cls j hj
    exact (h.setCpu hknown (h.cursor rq hmem)).modifyTask hflag
  · exact h

theorem takeTask {cls : TaskClass} (h : Workable s) (ht : s.takeTask cpu cls id = some s') :
    Workable s' := by
  obtain ⟨s₁, herase, hflag⟩ := Option.bind_eq_some_iff.mp ht
  refine (h.modifyCpu herase (fun rq c j hj => ?_) fun _ hrq => hrq).modifyTask hflag
  simp only [CpuRunQueue.setQueue] at hj
  by_cases hc : c = cls
  · subst hc
    rw [Function.update_self] at hj
    exact List.mem_of_mem_erase hj
  · rwa [Function.update_of_ne hc] at hj

theorem selectTask {found : Option (Nat × TaskClass)} (h : Workable s)
    (hs : s.selectTask cpu = some (s', found)) : Workable s' := by
  cases found with
  | none =>
    obtain ⟨rq, D, d, hrq, rfl, -⟩ := selectTask_eq_none hs
    exact (h.withClassDeficits hrq D).withDeficits d
  | some picked =>
    obtain ⟨rq, D, hrq, ⟨-, -, d, htake⟩, -⟩ := selectTask_eq_some hs
    exact ((h.withClassDeficits hrq D).withDeficits d).takeTask htake

theorem pickNextTask {previous result : Option Nat} (h : Workable s)
    (hp : s.pickNextTask cpu previous = some (s', result)) : Workable s' := by
  obtain ⟨s₁, ⟨id, cls, hselect, s₂, s₃, s₄, hserve, hdispatch, hcurrent, hstore⟩ |
    ⟨hselect, hresumes⟩⟩ := pickNextTask_cases hp
  · have hserved := (h.selectTask hselect).modifyCpu hserve (fun _ _ => List.Subset.refl _)
      fun _ _ => Nat.mod_lt _ (by decide)
    exact ((hserved.modifyTask hdispatch).setCurrent hcurrent).storeCurrentTaskId hstore
  · have hsel := h.selectTask hselect
    rcases hresumes with ⟨id, s₂, s₃, hrunning, hcurrent, hstore⟩ | rfl | hstore
    · exact ((hsel.modifyTask hrunning).setCurrent hcurrent).storeCurrentTaskId hstore
    · exact hsel
    · exact hsel.storeCurrentTaskId hstore

theorem accountTimerTick {currentRsp : Nat} {previous : Option Nat} (h : Workable s)
    (ha : s.accountTimerTick cpu currentRsp = some (s', previous)) : Workable s' := by
  have htick : Workable { s with globalTick := (s.globalTick + 1) % 2 ^ 64 } :=
    h.grow rfl fun _ hj => hj
  obtain ⟨rq, -, -, ⟨id, -, haccount⟩ | ⟨-, rfl⟩⟩ := accountTimerTick_cases ha
  · obtain ⟨s₂, s₃, s₄, t, htask, hclass, -, henqueue, hcpu⟩ := accountRunningTask_cases haccount
    have h₃ := (htick.modifyTask htask).modifyTask hclass
    refine setCurrent ?_ hcpu
    rcases henqueue with ⟨-, henqueue⟩ | ⟨-, rfl⟩
    · exact h₃.enqueueTask henqueue
    · exact h₃
  · exact htick

theorem retireCurrent (h : Workable s) (hr : s.retireCurrent cpu = some s') : Workable s' := by
  obtain ⟨rq, -, ⟨id, s₁, -, hcpu, htask⟩ | ⟨-, rfl⟩⟩ := retireCurrent_cases hr
  · exact (h.setCurrent hcpu).modifyTask htask
  · exact h

/-- The state in which a call picks is workable too. -/
theorem pickState {call : Call} (h : Workable s) (hp : s.pickState call = some (cpu, s')) :
    Workable s' := by
  cases call with
  | start =>
    simp only [Scheduler.pickState, Option.some.injEq, Prod.mk.injEq] at hp
    exact hp.2 ▸ h.grow rfl fun _ hj => hj
  | timerTick k currentRsp =>
    simp only [Scheduler.pickState, Option.ite_none_right_eq_some] at hp
    obtain ⟨-, ⟨p, previous⟩, haccount, heq⟩ := by simpa only [Option.map_eq_some_iff] using hp
    cases heq
    exact h.accountTimerTick haccount
  | exitCurrent k =>
    obtain ⟨p, hretire, heq⟩ := Option.map_eq_some_iff.mp hp
    cases heq
    exact h.retireCurrent hretire
  | configureTopology | addTask | requestYield | blockCurrent | wakeTask => cases hp

theorem of_currentTask {rq : CpuRunQueue} {f : Task → Task} (h : Workable s)
    (hc : (match rq.currentTask with
      | some id => s.modifyTask id f
      | none => some s) = some s') : Workable s' := by
  rcases currentTask_cases hc with ⟨id, -, hc⟩ | ⟨-, rfl⟩
  · exact h.modifyTask hc
  · exact h

theorem addTask {task : Task} (h : Workable s) (ha : s.addTask task = some s') :
    Workable s' := by
  obtain ⟨k, -, ha⟩ := Option.bind_eq_some_iff.mp ha
  obtain ⟨s₁, henqueue, ha⟩ := Option.bind_eq_some_iff.mp ha
  refine Option.some.inj ha ▸ (enqueueTask ?_ henqueue).grow rfl fun _ hj => hj
  refine h.grow rfl fun j hj => ?_
  simp only [Function.update_apply]
  split
  · rfl
  · exact hj

theorem configureTopology (h : Workable s) (n : Nat) : Workable (s.configureTopology n) := by
  simp only [Scheduler.configureTopology]
  split
  next => exact h
  next =>
    refine ⟨fun rq hrq => ?_, fun rq hrq => ?_⟩ <;>
      obtain ⟨i, -, rfl⟩ := List.mem_map.mp hrq
    · intro cls id hid
      cases hid
    · exact Nat.zero_lt_succ _

theorem step {call : Call} (h : Workable s) (hs : s.step call = some s') : Workable s' := by
  rcases hpick : s.pickState call with _ | ⟨k, p⟩
  · cases call with
    | configureTopology n => exact Option.some.inj hs ▸ h.configureTopology n
    | addTask id threadId savedRsp params =>
      exact h.addTask (Option.ite_none_left_eq_some.mp hs).2
    | requestYield k | blockCurrent k =>
      obtain ⟨rq, -, hs⟩ := Option.bind_eq_some_iff.mp hs
      exact h.of_currentTask hs
    | wakeTask id =>
      obtain ⟨t, -, ⟨s₁, -, hwake, henqueue⟩ | ⟨-, rfl⟩⟩ := wakeTask_cases hs
      · exact (h.modifyTask hwake).enqueueTask henqueue
      · exact h
    | start => cases hpick
    | timerTick k currentRsp =>
      obtain ⟨⟨t, next⟩, htick, rfl⟩ := Option.map_eq_some_iff.mp hs
      simp only [onTimerTick] at htick
      split at htick
      next hstarted =>
        obtain ⟨r, haccount, -⟩ := Option.bind_eq_some_iff.mp htick
        simp [Scheduler.pickState, hstarted, haccount] at hpick
      next =>
        cases htick
        exact h
    | exitCurrent k =>
      obtain ⟨⟨t, result⟩, hexit, -⟩ := Option.map_eq_some_iff.mp hs
      obtain ⟨s₁, hretire, -⟩ := Option.bind_eq_some_iff.mp hexit
      simp [Scheduler.pickState, hretire] at hpick
  · obtain ⟨-, previous, result, hp⟩ := pickNextTask_of_pickState hs hpick
    exact (h.pickState hpick).pickNextTask hp

theorem new : Workable Scheduler.new := by
  refine ⟨fun rq hrq cls id hid => ?_, fun rq hrq => ?_⟩ <;>
    obtain rfl := List.mem_singleton.mp hrq
  · cases hid
  · exact Nat.zero_lt_succ _

end Workable

/-! ## A search always ends -/

section Totality

variable {s : Scheduler} {cpu : Nat} {rq : CpuRunQueue} {ids : List Nat}

theorem exists_bestTask (h : ∀ id ∈ ids, (s.tasks id).isSome) (best : Option Nat) (v : Nat) :
    ∃ found, s.bestTask ids best v = some found := by
  induction ids generalizing best v with
  | nil => exact ⟨best, rfl⟩
  | cons id rest ih =>
    obtain ⟨t, ht⟩ := Option.isSome_iff_exists.mp (h id List.mem_cons_self)
    have hrest : ∀ j ∈ rest, (s.tasks j).isSome := fun j hj => h j (List.mem_cons_of_mem _ hj)
    simp only [bestTask, ht, Option.bind_eq_bind, Option.bind_some]
    split
    · exact ih hrest _ _
    · exact ih hrest _ _

theorem exists_refillTaskDeficits (cls : TaskClass) (h : ∀ id ∈ ids, (s.tasks id).isSome) :
    ∃ s', refillTaskDeficits cls ids s = some s' := by
  induction ids generalizing s with
  | nil => exact ⟨s, rfl⟩
  | cons id rest ih =>
    obtain ⟨t, ht⟩ := Option.isSome_iff_exists.mp (h id List.mem_cons_self)
    have hrest : ∀ j ∈ rest, (s.tasks j).isSome := fun j hj => h j (List.mem_cons_of_mem _ hj)
    simp only [refillTaskDeficits, ht, Option.bind_eq_bind, Option.bind_some, modifyTask,
      Option.map_some]
    split
    · refine ih fun j hj => ?_
      simp only [Function.update_apply]
      split
      · rfl
      · exact hrest j hj
    · exact ih hrest

theorem exists_anyReady (h : ∀ id ∈ ids, (s.tasks id).isSome) :
    ∃ b, s.anyReady ids = some b := by
  induction ids with
  | nil => exact ⟨false, rfl⟩
  | cons id rest ih =>
    obtain ⟨t, ht⟩ := Option.isSome_iff_exists.mp (h id List.mem_cons_self)
    simp only [anyReady, ht, Option.bind_eq_bind, Option.bind_some]
    split
    · exact ⟨true, rfl⟩
    · exact ih fun j hj => h j (List.mem_cons_of_mem _ hj)

theorem KnownIn.withDeficits (h : s.KnownIn rq) (d : Nat → Int) :
    (s.withDeficits d).KnownIn rq :=
  fun cls id hid => by simpa [Scheduler.withDeficits] using h cls id hid

theorem exists_takeTask {id : Nat} (cls : TaskClass) (hrq : s.cpus[cpu]? = some rq)
    (h : (s.tasks id).isSome) : ∃ s', s.takeTask cpu cls id = some s' := by
  obtain ⟨t, ht⟩ := Option.isSome_iff_exists.mp h
  simp [takeTask, modifyCpu, modifyTask, hrq, ht]

theorem exists_pickTaskFromClass (hrq : s.cpus[cpu]? = some rq) (h : s.KnownIn rq)
    (cls : TaskClass) : ∃ s' found, s.pickTaskFromClass cpu cls = some (s', found) := by
  obtain ⟨best, hbest⟩ := exists_bestTask (h cls) none u64Max
  simp only [pickTaskFromClass, hrq, Option.bind_eq_bind, Option.bind_some, hbest]
  cases best with
  | some id =>
    obtain ⟨-, t, ht, -⟩ := (bestTask_eq_some hbest).resolve_left (by simp)
    obtain ⟨s', hs'⟩ := exists_takeTask cls hrq (Option.isSome_of_mem ht)
    exact ⟨s', some id, by simp [hs']⟩
  | none =>
    obtain ⟨s₁, hs₁⟩ := exists_refillTaskDeficits cls (h cls)
    obtain ⟨⟨d, rfl⟩, -⟩ := refillTaskDeficits_spec hs₁
    obtain ⟨best, hbest'⟩ := exists_bestTask (h.withDeficits d cls) none u64Max
    simp only [hs₁, Option.bind_some, hbest']
    cases best with
    | some id =>
      obtain ⟨-, t, ht, -⟩ := (bestTask_eq_some hbest').resolve_left (by simp)
      have hrq₁ : (s.withDeficits d).cpus[cpu]? = some rq := hrq
      obtain ⟨s', hs'⟩ := exists_takeTask cls hrq₁ (Option.isSome_of_mem ht)
      exact ⟨s', some id, by simp [hs']⟩
    | none => exact ⟨_, none, rfl⟩

theorem exists_scanClasses (hrq : s.cpus[cpu]? = some rq) (h : s.KnownIn rq)
    (offsets : List Nat) : ∃ s' found, scanClasses cpu offsets s = some (s', found) := by
  induction offsets generalizing s with
  | nil => exact ⟨s, none, rfl⟩
  | cons o rest ih =>
    simp only [scanClasses, hrq, Option.bind_eq_bind, Option.bind_some]
    split
    · exact ih hrq h
    · obtain ⟨s₁, found, hpick⟩ := exists_pickTaskFromClass hrq h (rq.classAt o)
      simp only [hpick, Option.bind_some]
      cases found with
      | some id => exact ⟨_, _, rfl⟩
      | none =>
        obtain ⟨⟨d, rfl⟩, -⟩ := pickTaskFromClass_eq_none hrq hpick
        exact ih hrq (h.withDeficits d)

theorem exists_refillClassDeficits (hrq : s.cpus[cpu]? = some rq) (h : s.KnownIn rq)
    (classes : List TaskClass) : ∃ s', refillClassDeficits cpu classes s = some s' := by
  induction classes generalizing s rq with
  | nil => exact ⟨s, rfl⟩
  | cons cls rest ih =>
    obtain ⟨b, hb⟩ := exists_anyReady (h cls)
    simp only [refillClassDeficits, hasReadyTaskInClass, hrq, Option.bind_eq_bind,
      Option.bind_some, hb, modifyCpu, Option.map_some]
    split
    · exact ih (cpus_set_getElem? hrq) h
    · exact ih hrq h

theorem exists_selectTask (hrq : s.cpus[cpu]? = some rq) (h : s.KnownIn rq) :
    ∃ s' found, s.selectTask cpu = some (s', found) := by
  obtain ⟨s₁, found, hscan⟩ := exists_scanClasses hrq h (List.range numClasses)
  simp only [selectTask, hscan, Option.bind_eq_bind, Option.bind_some]
  cases found with
  | some picked => exact ⟨_, _, rfl⟩
  | none =>
    obtain ⟨⟨d, rfl⟩, -⟩ := scanClasses_eq_none hrq hscan
    have hrq₁ : (s.withDeficits d).cpus[cpu]? = some rq := hrq
    have h₁ := h.withDeficits d
    obtain ⟨s₂, hrefill⟩ := exists_refillClassDeficits hrq₁ h₁ TaskClass.all
    obtain ⟨D, rfl, -⟩ := refillAll_spec hrq₁ hrefill
    have hrq₂ : ((s.withDeficits d).withClassDeficits cpu rq D).cpus[cpu]? =
        some { rq with classDeficits := D } := cpus_set_getElem? hrq₁
    obtain ⟨s₃, found, hscan₂⟩ := exists_scanClasses hrq₂ h₁ (List.range numClasses)
    simp only [hrefill, Option.bind_some, hscan₂]
    cases found with
    | some picked => exact ⟨_, _, rfl⟩
    | none =>
      obtain ⟨⟨d', rfl⟩, -⟩ := scanClasses_eq_none hrq₂ hscan₂
      have hrq₃ : (((s.withDeficits d).withClassDeficits cpu rq D).withDeficits d').cpus[cpu]? =
          some { rq with classDeficits := D } := hrq₂
      obtain ⟨s₄, hrefill₂⟩ :=
        exists_refillClassDeficits hrq₃ (KnownIn.withDeficits h₁ d') TaskClass.all
      exact ⟨s₄, none, by simp [hrefill₂]⟩

end Totality

/-! ## The pick -/

/-- The states in which `pick_next_task` may run: those between two calls, and those in
which a call has done the work that comes before its pick. -/
def AtPick (s : Scheduler) : Prop :=
  ∃ calls s₀, Run (Det step) Scheduler.new calls s₀ ∧
    (s = s₀ ∨ ∃ call cpu, s₀.pickState call = some (cpu, s))

theorem AtPick.workable {s : Scheduler} (h : AtPick s) : Workable s := by
  obtain ⟨calls, s₀, hrun, hs⟩ := h
  have h₀ : Workable s₀ := hrun.invariant (fun _ _ _ h hstep => h.step hstep) Workable.new
  rcases hs with rfl | ⟨call, cpu, hpick⟩
  · exact h₀
  · exact h₀.pickState hpick

/-- What a pick leaves behind when it takes `id` from the queue of `cls`. -/
theorem exists_pickNextTask_of_select {s s₁ : Scheduler} {cpu id : Nat} {cls : TaskClass}
    (hcpu : cpu < maxCpus) (hselect : s.selectTask cpu = some (s₁, some (id, cls)))
    (previous : Option Nat) :
    ∃ s' rq rq' t t', s.pickNextTask cpu previous = some (s', some t'.savedRsp) ∧
      s.cpus[cpu]? = some rq ∧ id ∈ rq.queues cls ∧
      s.tasks id = some t ∧ t.state = .ready ∧
      s'.cpus[cpu]? = some rq' ∧ rq'.currentTask = some id ∧ s'.currentTaskIds cpu = id ∧
      rq'.queues = Function.update rq.queues cls ((rq.queues cls).erase id) ∧
      s'.tasks id = some t' ∧ t'.state = .running ∧ t'.queued = false := by
  obtain ⟨rq, D, hrq, ⟨hmem, ⟨t, ht, hready⟩, d, htake⟩, -⟩ := selectTask_eq_some hselect
  obtain ⟨s₂, herase, hflag⟩ := Option.bind_eq_some_iff.mp htake
  obtain ⟨rq₁, hrq₁, rfl⟩ := modifyCpu_eq_some.mp herase
  obtain rfl : rq₁ = { rq with classDeficits := D } :=
    Option.some.inj (hrq₁.symm.trans (cpus_set_getElem? hrq))
  obtain ⟨u, -, rfl⟩ := modifyTask_eq_some.mp hflag
  obtain ⟨hlt, rfl⟩ := List.getElem?_eq_some_iff.mp hrq
  simp only [pickNextTask, hselect, Option.bind_eq_bind, Option.bind_some]
  have hfound : id ∈ s.cpus[cpu].queues cls ∧ ∃ t, s.tasks id = some t ∧ t.state = .ready :=
    ⟨hmem, t, ht, hready⟩
  simpa [modifyCpu, modifyTask, storeCurrentTaskId, hcpu, withDeficits, withClassDeficits, hlt,
    CpuRunQueue.serve, CpuRunQueue.setQueue, CpuRunQueue.setDeficit, Task.dispatch] using hfound

/-- A CPU with a Ready task in one of its queues gets a Ready task to run, whatever the
deficits are: the task leaves the queue it was in, is Running and is current. -/
theorem pick_work_conserving {s : Scheduler} {cpu : Nat} {rq : CpuRunQueue} {cls : TaskClass}
    (hs : AtPick s) (hcpu : cpu < maxCpus) (hrq : s.cpus[cpu]? = some rq)
    (hbelow : s.VruntimeBelowMax) (hready : s.ReadyIn rq cls) (previous : Option Nat) :
    ∃ s' rq' id source t t', s.pickNextTask cpu previous = some (s', some t'.savedRsp) ∧
      id ∈ rq.queues source ∧ s.tasks id = some t ∧ t.state = .ready ∧
      s'.cpus[cpu]? = some rq' ∧ rq'.currentTask = some id ∧ s'.currentTaskIds cpu = id ∧
      rq'.queues = Function.update rq.queues source ((rq.queues source).erase id) ∧
      s'.tasks id = some t' ∧ t'.state = .running ∧ t'.queued = false := by
  have hwork := hs.workable
  have hmem := List.mem_of_getElem? hrq
  obtain ⟨s₁, found, hselect⟩ := exists_selectTask hrq (hwork.known rq hmem)
  cases found with
  | none =>
    obtain ⟨rq₁, D, d, hrq₁, -, hidle⟩ := selectTask_eq_none hselect
    obtain rfl : rq₁ = rq := Option.some.inj (hrq₁.symm.trans hrq)
    exact absurd hready ((hidle hbelow (hwork.cursor rq₁ hmem)).1 cls)
  | some picked =>
    obtain ⟨id, cls'⟩ := picked
    obtain ⟨s', rq₁, rq', t, t', hpick, hrq₁, h⟩ :=
      exists_pickNextTask_of_select hcpu hselect previous
    obtain rfl : rq₁ = rq := Option.some.inj (hrq₁.symm.trans hrq)
    exact ⟨s', rq', id, cls', t, t', hpick, h⟩

/-- Right after a first task was added, CPU 0 gets it. -/
theorem pick_work_conserving_one_task :
    ∃ s s' rsp, Scheduler.new.step (.addTask 1 0 0 plainParams) = some s ∧
      s.pickNextTask 0 none = some (s', some rsp) := by
  obtain ⟨s, rq, t, hs, hrq, hmem, ht, hready⟩ :
      ∃ s rq t, Scheduler.new.step (.addTask 1 0 0 plainParams) = some s ∧
        s.cpus[0]? = some rq ∧ 1 ∈ rq.queues .normal ∧ s.tasks 1 = some t ∧ t.state = .ready :=
    ⟨_, _, _, rfl, rfl, by decide, rfl, rfl⟩
  have hbelow₀ : Scheduler.new.VruntimeBelowMax := fun id t ht => by simp [Scheduler.new] at ht
  obtain ⟨s', rq', id, cls, t, t', hpick, -⟩ :=
    pick_work_conserving ⟨_, s, .single hs, Or.inl rfl⟩ (by decide) hrq (hbelow₀.addTask hs)
      ⟨1, hmem, t, ht, hready⟩ none
  exact ⟨s, s', t'.savedRsp, hs, hpick⟩

end Scheduler
end Kernel
end Theos
