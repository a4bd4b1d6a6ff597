import Theos.Kernel.SchedulerPick

/-!
# Fairness between the task classes

The class cursor and the class deficits of a CPU are a deficit round robin over
the four classes: every call of `pick_next_task` that takes a task is one turn
of it, and no other operation moves it.  The bound on how often a class with a
Ready task can be passed over then follows from the rotor's measure.
-/

namespace Theos
namespace Kernel
namespace Scheduler

open Base

/-! ## What leaves the rotors alone -/

/-- No task appears or disappears, and every CPU but the excepted one keeps its
class cursor and class deficits. -/
structure Frame
    (except : Option Nat)
    (s s' : Scheduler) : Prop where
  taskCount_eq : s'.taskCount = s.taskCount
  known : ∀ id, (s'.tasks id).isSome = (s.tasks id).isSome
  rotor_eq : ∀ k, some k ≠ except → s'.cpus[k]?.map rotor = s.cpus[k]?.map rotor

namespace Frame

variable {except : Option Nat}
variable {s s' s'' : Scheduler}

theorem refl
    (s : Scheduler) :
    Frame except s s :=
  ⟨rfl, fun _ => rfl, fun _ _ => rfl⟩

theorem trans (h : Frame except s s')
    (h' : Frame except s' s'') :
    Frame except s s'' :=
  ⟨h'.taskCount_eq.trans h.taskCount_eq,
    fun id => (h'.known id).trans (h.known id),
    fun k hk => (h'.rotor_eq k hk).trans (h.rotor_eq k hk)⟩

theorem of_none
    (h : Frame none s s') :
    Frame except s s' :=
  ⟨h.taskCount_eq, h.known, fun k _ => h.rotor_eq k (by simp)⟩

theorem modifyTask {id : Nat} {f : Task → Task}
    (hm : s.modifyTask id f = some s') :
    Frame except s s' := by
  obtain ⟨t, ht, rfl⟩ := modifyTask_eq_some.mp hm
  refine ⟨rfl, ?_, fun _ _ => rfl⟩
  intro j
  by_cases hj : j = id
  · subst hj
    simp [ht]
  · simp [Function.update_of_ne hj]

theorem modifyCpu {cpu : Nat} {f : CpuRunQueue → CpuRunQueue} (hm : s.modifyCpu cpu f = some s')
    (hf : some cpu = except ∨ ∀ rq, rotor (f rq) = rotor rq) :
    Frame except s s' := by
  obtain ⟨rq, hrq, rfl⟩ := modifyCpu_eq_some.mp hm
  refine ⟨rfl, fun _ => rfl, ?_⟩
  intro k hk
  by_cases hcpu : cpu = k
  · subst hcpu
    have hsame := hf.resolve_left hk rq
    simp [cpus_set_getElem? hrq, hrq, hsame]
  · simp [List.getElem?_set_ne hcpu]

theorem storeCurrentTaskId {cpu id : Nat}
    (hm : s.storeCurrentTaskId cpu id = some s') :
    Frame except s s' := by
  obtain ⟨-, rfl⟩ := storeCurrentTaskId_eq_some.mp hm
  exact ⟨rfl, fun _ => rfl, fun _ _ => rfl⟩

theorem withDeficits
    (d : Nat → Int) :
    Frame except s (s.withDeficits d) := by
  refine ⟨rfl, ?_, fun _ _ => rfl⟩
  intro id
  simp [Scheduler.withDeficits]

theorem withClassDeficits {cpu : Nat} {rq : CpuRunQueue}
    (D : TaskClass → Int) :
    Frame (some cpu) s (s.withClassDeficits cpu rq D) := by
  refine ⟨rfl, fun _ => rfl, ?_⟩
  intro k hk
  have hcpu : cpu ≠ k := by simpa [eq_comm] using hk
  simp [Scheduler.withClassDeficits, List.getElem?_set_ne hcpu]

theorem enqueueTask {id : Nat}
    (he : s.enqueueTask id = some s') :
    Frame except s s' := by
  obtain ⟨t, -, ⟨s₁, -, hcpu, htask⟩ | ⟨-, rfl⟩⟩ := enqueueTask_cases he
  · exact (modifyCpu hcpu (Or.inr fun _ => rfl)).trans (modifyTask htask)
  · exact refl _

theorem takeTask {cpu id : Nat} {cls : TaskClass}
    (ht : s.takeTask cpu cls id = some s') :
    Frame except s s' := by
  obtain ⟨s₁, hcpu, htask⟩ := Option.bind_eq_some_iff.mp ht
  exact (modifyCpu hcpu (Or.inr fun _ => rfl)).trans (modifyTask htask)

theorem selectTask {cpu : Nat} {found : Option (Nat × TaskClass)}
    (h : s.selectTask cpu = some (s', found)) :
    Frame (some cpu) s s' := by
  cases found with
  | none =>
    obtain ⟨rq, D, d, -, rfl, -⟩ := selectTask_eq_none h
    exact (withClassDeficits D).trans (withDeficits d)
  | some picked =>
    obtain ⟨rq, D, -, ⟨-, -, d, htake⟩, -⟩ := selectTask_eq_some h
    exact ((withClassDeficits D).trans (withDeficits d)).trans (takeTask htake)

theorem dispatches {cpu id : Nat} {previous : Option Nat} {cls : TaskClass}
    (h : s.Dispatches cpu previous id cls s') :
    Frame (some cpu) s s' := by
  obtain ⟨s₁, s₂, s₃, hserve, hdispatch, hcurrent, hstore⟩ := h
  exact (((modifyCpu hserve (Or.inl rfl)).trans (modifyTask hdispatch)).trans
    (modifyCpu hcurrent (Or.inl rfl))).trans (storeCurrentTaskId hstore)

theorem resumes {cpu : Nat}
    (h : s.Resumes cpu s') :
    Frame except s s' := by
  rcases h with ⟨id, s₁, s₂, hrunning, hcurrent, hstore⟩ | rfl | hstore
  · exact ((modifyTask hrunning).trans (modifyCpu hcurrent (Or.inr fun _ => rfl))).trans
      (storeCurrentTaskId hstore)
  · exact refl _
  · exact storeCurrentTaskId hstore

/-- A pick moves the rotor of its own CPU only. -/
theorem pickNextTask {cpu : Nat} {previous result : Option Nat}
    (h : s.pickNextTask cpu previous = some (s', result)) :
    Frame (some cpu) s s' := by
  obtain ⟨s₁, ⟨id, cls, hselect, hdispatches⟩ | ⟨hselect, hresumes⟩⟩ := pickNextTask_cases h
  · exact (selectTask hselect).trans (dispatches hdispatches)
  · exact (selectTask hselect).trans (resumes hresumes)

theorem accountTimerTick {cpu currentRsp : Nat} {previous : Option Nat}
    (h : s.accountTimerTick cpu currentRsp = some (s', previous)) :
    Frame except s s' := by
  have htick : Frame except s { s with globalTick := (s.globalTick + 1) % 2 ^ 64 } :=
    ⟨rfl, fun _ => rfl, fun _ _ => rfl⟩
  obtain ⟨rq, -, -, ⟨id, -, haccount⟩ | ⟨-, rfl⟩⟩ := accountTimerTick_cases h
  · obtain ⟨s₂, s₃, s₄, t, htask, hclass, -, henqueue, hcpu⟩ := accountRunningTask_cases haccount
    have h₄ : Frame except s₃ s₄ := by
      rcases henqueue with ⟨-, henqueue⟩ | ⟨-, rfl⟩
      · exact enqueueTask henqueue
      · exact refl _
    exact (((htick.trans (modifyTask htask)).trans (modifyTask hclass)).trans h₄).trans
      (modifyCpu hcpu (Or.inr fun _ => rfl))
  · exact htick

theorem retireCurrent {cpu : Nat}
    (h : s.retireCurrent cpu = some s') :
    Frame except s s' := by
  obtain ⟨rq, -, ⟨id, s₁, -, hcpu, htask⟩ | ⟨-, rfl⟩⟩ := retireCurrent_cases h
  · exact (modifyCpu hcpu (Or.inr fun _ => rfl)).trans (modifyTask htask)
  · exact refl _

/-- `request_yield` and `block_current` write one task. -/
theorem of_currentTask {rq : CpuRunQueue} {f : Task → Task}
    (h : (match rq.currentTask with
      | some id => s.modifyTask id f
      | none => some s) = some s') :
    Frame except s s' := by
  rcases currentTask_cases h with ⟨id, -, h⟩ | ⟨-, rfl⟩
  · exact modifyTask h
  · exact refl _

theorem wakeTask {id : Nat}
    (h : s.wakeTask id = some s') :
    Frame except s s' := by
  obtain ⟨t, -, ⟨s₁, -, hwake, henqueue⟩ | ⟨-, rfl⟩⟩ := wakeTask_cases h
  · exact (modifyTask hwake).trans (enqueueTask henqueue)
  · exact refl _

end Frame

/-! ## Virtual runtimes during a pick -/

/-- No virtual runtime differs. -/
def SameVruntime
    (s s' : Scheduler) : Prop :=
  ∀ id, (s'.tasks id).map Task.vruntime = (s.tasks id).map Task.vruntime

namespace SameVruntime

variable {s s' : Scheduler}

theorem fixed :
    Fixed Task.vruntime :=
  ⟨fun _ _ => rfl, fun _ _ => rfl, fun _ _ => rfl, fun _ _ _ _ => rfl⟩

theorem symm
    (h : SameVruntime s s') :
    SameVruntime s' s :=
  fun id => (h id).symm

theorem enqueueTask {id : Nat}
    (h : s.enqueueTask id = some s') :
    SameVruntime s s' :=
  SameField.enqueueTask fixed.queued h

theorem pickNextTask {cpu : Nat} {previous result : Option Nat}
    (h : s.pickNextTask cpu previous = some (s', result)) :
    SameVruntime s s' :=
  SameField.pickNextTask fixed h

theorem vruntimeBelowMax (h : SameVruntime s s')
    (hbelow : s'.VruntimeBelowMax) :
    s.VruntimeBelowMax := by
  intro id t ht
  have hid := h id
  rw [ht, Option.map_some, Option.map_eq_some_iff] at hid
  obtain ⟨t', ht', hsame⟩ := hid
  exact hsame ▸ hbelow id t' ht'

end SameVruntime

/-! ## A pick is a turn of the rotor -/

theorem rotor_serve_agree (rq : CpuRunQueue)
    (cls : TaskClass) :
    Rotor.Agree numClasses (rotor (rq.serve cls)) ((rotor rq).serve numClasses cls.index) := by
  refine ⟨rfl, ?_⟩
  intro i hi
  by_cases hcls : i = cls.index
  · subst hcls
    simp [rotor, CpuRunQueue.serve, CpuRunQueue.setDeficit, Rotor.serve]
  · have hne : TaskClass.fromIndex i ≠ cls := by
      intro heq
      rw [← heq, TaskClass.index_fromIndex hi] at hcls
      exact hcls rfl
    simp [rotor, CpuRunQueue.serve, CpuRunQueue.setDeficit, Rotor.serve,
      Function.update_of_ne hcls, Function.update_of_ne hne]

theorem exists_rotor_of_map_eq {s s' : Scheduler} {k : Nat} {rq : CpuRunQueue}
    (h : s'.cpus[k]?.map rotor = s.cpus[k]?.map rotor)
    (hrq : s.cpus[k]? = some rq) :
    ∃ rq', s'.cpus[k]? = some rq' ∧ rotor rq' = rotor rq := by
  rw [hrq, Option.map_some] at h
  exact Option.map_eq_some_iff.mp h

/-- What a pick that took a task of class `cls` did to the rotor of its CPU. -/
theorem rotor_of_taken {p p' t : Scheduler} {k id : Nat} {cls : TaskClass} {rq : CpuRunQueue}
    {previous : Option Nat} (hrq : p.cpus[k]? = some rq) (hbelow : p.VruntimeBelowMax)
    (hcursor : rq.classCursor < numClasses) (hselect : p.selectTask k = some (p', some (id, cls)))
    (hdispatches : p'.Dispatches k previous id cls t) :
    ∃ rq' o r₁, t.cpus[k]? = some rq' ∧
      Rotor.Turn numClasses quantumAt (p.ReadyAt rq) (rotor rq) o r₁ ∧
      r₁.slot numClasses o = cls.index ∧
      Rotor.Agree numClasses (rotor rq') (r₁.serve numClasses (r₁.slot numClasses o)) := by
  obtain ⟨rq₀, D, hrq₀, ⟨-, -, d, htake⟩, hturn⟩ := selectTask_eq_some hselect
  rw [hrq, Option.some.injEq] at hrq₀
  subst hrq₀
  obtain ⟨o, hcls, hturn⟩ := hturn hbelow hcursor
  have hslot :
      (rotor { rq with classDeficits := D }).slot numClasses o = cls.index := by
    rw [hcls, CpuRunQueue.classAt]
    exact (TaskClass.index_fromIndex (Nat.mod_lt _ (by decide))).symm
  have hrqD : ((p.withClassDeficits k rq D).withDeficits d).cpus[k]? =
      some { rq with classDeficits := D } := cpus_set_getElem? hrq
  -- follow the CPU through the writes after the turn was chosen
  have htaken : Frame none _ p' := Frame.takeTask htake
  obtain ⟨rq₁, hrq₁, hrotor₁⟩ := exists_rotor_of_map_eq (htaken.rotor_eq k (by simp)) hrqD
  obtain ⟨s₁, s₂, s₃, hserve, hdispatch, hcurrent, hstore⟩ := hdispatches
  obtain ⟨rq₂, hrq₂, rfl⟩ := modifyCpu_eq_some.mp hserve
  rw [hrq₁, Option.some.injEq] at hrq₂
  subst hrq₂
  have hframe : Frame none _ t :=
    ((Frame.modifyTask hdispatch).trans
      (Frame.modifyCpu hcurrent (Or.inr fun _ => rfl))).trans (Frame.storeCurrentTaskId hstore)
  obtain ⟨rq', hrq', hrotor'⟩ :=
    exists_rotor_of_map_eq (hframe.rotor_eq k (by simp)) (cpus_set_getElem? hrq₁)
  refine ⟨rq', o, _, hrq', hturn, hslot, ?_⟩
  rw [hrotor', hslot, ← hrotor₁]
  exact rotor_serve_agree rq₁ cls

/-- A pick that took nothing did not move the rotor. -/
theorem rotor_of_not_taken {p p' t : Scheduler} {k : Nat} {rq : CpuRunQueue}
    (hrq : p.cpus[k]? = some rq) (hbelow : p.VruntimeBelowMax)
    (hcursor : rq.classCursor < numClasses) (hselect : p.selectTask k = some (p', none))
    (hresumes : p'.Resumes k t) :
    (∀ cls, ¬ p.ReadyIn rq cls) ∧
      ∃ rq', t.cpus[k]? = some rq' ∧ rotor rq' = rotor rq := by
  obtain ⟨rq₀, D, d, hrq₀, rfl, hidle⟩ := selectTask_eq_none hselect
  rw [hrq, Option.some.injEq] at hrq₀
  subst hrq₀
  obtain ⟨hnone, rfl⟩ := hidle hbelow hcursor
  rw [withClassDeficits_self hrq] at hresumes
  have hframe : Frame none p t := (Frame.withDeficits d).trans (Frame.resumes hresumes)
  exact ⟨hnone, exists_rotor_of_map_eq (hframe.rotor_eq k (by simp)) hrq⟩

/-! ## The picks a call makes -/

/-- The CPU on which a call runs `pick_next_task`, and the state it runs it in. -/
def pickState (s : Scheduler) : Call → Option (Nat × Scheduler)
  | .start => some (0, { s with started := true })
  | .timerTick cpu currentRsp =>
    if s.started then
      (s.accountTimerTick cpu currentRsp).map fun r => (cpu, r.1)
    else
      none
  | .exitCurrent cpu => (s.retireCurrent cpu).map fun s' => (cpu, s')
  | _ => none

theorem pickNextTask_of_pickState {s p t : Scheduler} {k : Nat} {call : Call}
    (hstep : s.step call = some t)
    (hpick : s.pickState call = some (k, p)) :
    Frame none s p ∧ ∃ previous result, p.pickNextTask k previous = some (t, result) := by
  cases call with
  | start =>
    simp only [pickState, Option.some.injEq, Prod.mk.injEq] at hpick
    obtain ⟨rfl, rfl⟩ := hpick
    obtain ⟨⟨t', result⟩, hp, rfl⟩ := Option.map_eq_some_iff.mp hstep
    exact ⟨⟨rfl, fun _ => rfl, fun _ _ => rfl⟩, none, result, hp⟩
  | timerTick cpu currentRsp =>
    simp only [pickState] at hpick
    split at hpick
    next hstarted =>
      obtain ⟨⟨p', previous⟩, haccount, heq⟩ := Option.map_eq_some_iff.mp hpick
      simp only [Prod.mk.injEq] at heq
      obtain ⟨rfl, rfl⟩ := heq
      obtain ⟨⟨t', next⟩, htick, rfl⟩ := Option.map_eq_some_iff.mp hstep
      simp only [onTimerTick, hstarted, if_true, haccount, Option.bind_eq_bind,
        Option.bind_some] at htick
      obtain ⟨⟨t'', result⟩, hp, heq⟩ := Option.bind_eq_some_iff.mp htick
      simp only [Option.pure_def, Option.some.injEq, Prod.mk.injEq] at heq
      obtain ⟨rfl, -⟩ := heq
      exact ⟨Frame.accountTimerTick haccount, previous, result, hp⟩
    next =>
      simp at hpick
  | exitCurrent cpu =>
    obtain ⟨p', hretire, heq⟩ := Option.map_eq_some_iff.mp hpick
    simp only [Prod.mk.injEq] at heq
    obtain ⟨rfl, rfl⟩ := heq
    obtain ⟨⟨t', result⟩, hexit, rfl⟩ := Option.map_eq_some_iff.mp hstep
    simp only [exitCurrent, hretire, Option.bind_eq_bind, Option.bind_some] at hexit
    exact ⟨Frame.retireCurrent hretire, none, result, hexit⟩
  | configureTopology => simp [pickState] at hpick
  | addTask => simp [pickState] at hpick
  | requestYield => simp [pickState] at hpick
  | blockCurrent => simp [pickState] at hpick
  | wakeTask => simp [pickState] at hpick

/-- `add_task` adds one task and moves no rotor. -/
theorem addTask_spec {s t : Scheduler} {task : Task}
    (h : s.addTask task = some t) :
    t.taskCount = s.taskCount + 1 ∧ ∀ k : Nat, t.cpus[k]?.map rotor = s.cpus[k]?.map rotor := by
  obtain ⟨cpu, -, h⟩ := Option.bind_eq_some_iff.mp h
  obtain ⟨s₁, henqueue, h⟩ := Option.bind_eq_some_iff.mp h
  simp only [Option.pure_def, Option.some.injEq] at h
  subst h
  have hframe : Frame none _ s₁ := Frame.enqueueTask henqueue
  exact ⟨hframe.taskCount_eq, fun k => hframe.rotor_eq k (by simp)⟩

/-- What a call does to the rotors: it picks, it adds a task, it sets up the
CPUs before there is any task, or it leaves them alone. -/
theorem step_cases {s t : Scheduler} {call : Call}
    (hstep : s.step call = some t) :
    (∃ k p previous result, s.pickState call = some (k, p) ∧ Frame none s p ∧
      p.pickNextTask k previous = some (t, result)) ∨
    Frame none s t ∨
    (t.taskCount = s.taskCount + 1 ∧ ∀ k : Nat, t.cpus[k]?.map rotor = s.cpus[k]?.map rotor) ∨
    (s.taskCount = 0 ∧ t.taskCount = 0 ∧ t.tasks = s.tasks ∧
      ∃ n, t.cpus = (List.range n).map CpuRunQueue.new) := by
  cases hpick : s.pickState call with
  | some picked =>
    obtain ⟨k, p⟩ := picked
    obtain ⟨hframe, previous, result, hp⟩ := pickNextTask_of_pickState hstep hpick
    exact Or.inl ⟨k, p, previous, result, rfl, hframe, hp⟩
  | none =>
    refine Or.inr ?_
    cases call with
    | start => simp [pickState] at hpick
    | timerTick cpu currentRsp =>
      by_cases hstarted : s.started = true
      · obtain ⟨⟨t', next⟩, htick, -⟩ := Option.map_eq_some_iff.mp hstep
        simp only [onTimerTick, hstarted, if_true] at htick
        obtain ⟨r, haccount, -⟩ := Option.bind_eq_some_iff.mp htick
        simp [pickState, hstarted, haccount] at hpick
      · simp only [step, onTimerTick, hstarted] at hstep
        simp only [Bool.false_eq_true, if_false, Option.pure_def, Option.map_some,
          Option.some.injEq] at hstep
        exact Or.inl (hstep ▸ Frame.refl s)
    | exitCurrent cpu =>
      obtain ⟨⟨t', result⟩, hexit, -⟩ := Option.map_eq_some_iff.mp hstep
      obtain ⟨s₁, hretire, -⟩ := Option.bind_eq_some_iff.mp hexit
      simp [pickState, hretire] at hpick
    | requestYield cpu =>
      obtain ⟨rq, -, hyield⟩ := Option.bind_eq_some_iff.mp hstep
      exact Or.inl (Frame.of_currentTask hyield)
    | blockCurrent cpu =>
      obtain ⟨rq, -, hblock⟩ := Option.bind_eq_some_iff.mp hstep
      exact Or.inl (Frame.of_currentTask hblock)
    | wakeTask id =>
      exact Or.inl (Frame.wakeTask hstep)
    | addTask id threadId savedRsp params =>
      simp only [step] at hstep
      split at hstep
      next =>
        simp at hstep
      next =>
        exact Or.inr (Or.inl (addTask_spec hstep))
    | configureTopology cpuCount =>
      simp only [step, configureTopology, Option.some.injEq] at hstep
      split at hstep
      next =>
        exact Or.inl (hstep ▸ Frame.refl s)
      next hfresh =>
        have hzero : s.taskCount = 0 := by
          by_contra hne
          exact hfresh (Or.inl hne)
        subst hstep
        exact Or.inr (Or.inr ⟨hzero, hzero, rfl, _, rfl⟩)

/-! ## The bound -/

/-- A call after which no virtual runtime has reached its maximum. -/
def FreshStep (s : Scheduler) (call : Call)
    (t : Scheduler) : Prop :=
  s.step call = some t ∧ t.VruntimeBelowMax

structure FairInvariant
    (s : Scheduler) : Prop where
  bounded : ∀ (k : Nat) rq, s.cpus[k]? = some rq → Rotor.Bounded numClasses quantumAt (rotor rq)
  no_tasks : s.taskCount = 0 → ∀ id, s.tasks id = none

theorem quantumAt_pos (i : Nat)
    (_ : i < numClasses) :
    0 < quantumAt i :=
  TaskClass.quanta_pos _

theorem bounded_new
    (id : Nat) :
    Rotor.Bounded numClasses quantumAt (rotor (CpuRunQueue.new id)) :=
  ⟨Nat.zero_lt_succ _, fun i hi => (quantumAt_pos i hi).le⟩

namespace FairInvariant

variable {s t : Scheduler}

theorem new :
    FairInvariant Scheduler.new := by
  refine ⟨?_, fun _ _ => rfl⟩
  intro k rq hrq
  obtain ⟨hlt, hget⟩ := List.getElem?_eq_some_iff.mp hrq
  have hk : k = 0 := by simpa [Scheduler.new] using hlt
  subst hk
  exact hget ▸ bounded_new 0

theorem bounded_of_map_eq (h : FairInvariant s) {k : Nat}
    (hsame : t.cpus[k]?.map rotor = s.cpus[k]?.map rotor) (rq : CpuRunQueue)
    (hrq : t.cpus[k]? = some rq) :
    Rotor.Bounded numClasses quantumAt (rotor rq) := by
  obtain ⟨rq', hrq', hrotor⟩ := exists_rotor_of_map_eq hsame.symm hrq
  exact hrotor ▸ h.bounded k rq' hrq'

theorem of_frame (h : FairInvariant s)
    (hframe : Frame none s t) :
    FairInvariant t := by
  refine ⟨fun k rq hrq => h.bounded_of_map_eq (hframe.rotor_eq k (by simp)) rq hrq, ?_⟩
  intro hzero id
  have hnone := h.no_tasks (hframe.taskCount_eq ▸ hzero) id
  have hknown := hframe.known id
  rw [hnone] at hknown
  simpa using hknown

theorem pickNextTask {k : Nat} {previous result : Option Nat} (h : FairInvariant s)
    (hbelow : s.VruntimeBelowMax)
    (hp : s.pickNextTask k previous = some (t, result)) :
    FairInvariant t := by
  have hframe := Frame.pickNextTask hp
  refine ⟨?_, ?_⟩
  · intro j rqj hrqj
    by_cases hj : j = k
    · subst hj
      obtain ⟨s₁, ⟨id, cls, hselect, hdispatches⟩ | ⟨hselect, hresumes⟩⟩ :=
        pickNextTask_cases hp
      · obtain ⟨rq, D, hrq, -⟩ := selectTask_eq_some hselect
        have hbound := h.bounded j rq hrq
        obtain ⟨rq', o, r₁, hrq', hturn, hslot, hagree⟩ :=
          rotor_of_taken hrq hbelow hbound.cursor_lt hselect hdispatches
        rw [hrq', Option.some.injEq] at hrqj
        subst hrqj
        exact hagree.bounded (hturn.bounded quantumAt_pos hbound)
      · obtain ⟨rq, D, d, hrq, -⟩ := selectTask_eq_none hselect
        have hbound := h.bounded j rq hrq
        obtain ⟨-, rq', hrq', hrotor⟩ :=
          rotor_of_not_taken hrq hbelow hbound.cursor_lt hselect hresumes
        rw [hrq', Option.some.injEq] at hrqj
        subst hrqj
        exact hrotor ▸ hbound
    · exact h.bounded_of_map_eq (hframe.rotor_eq j (by simpa using hj)) rqj hrqj
  · intro hzero id
    have hnone := h.no_tasks (hframe.taskCount_eq ▸ hzero) id
    have hknown := hframe.known id
    rw [hnone] at hknown
    simpa using hknown

theorem step {call : Call} (h : FairInvariant s)
    (hstep : FreshStep s call t) :
    FairInvariant t := by
  obtain ⟨hstep, hbelow⟩ := hstep
  rcases step_cases hstep with ⟨k, p, previous, result, -, hframe, hp⟩ | hframe |
    ⟨hcount, hrotor⟩ | ⟨hzero, -, htasks, n, hcpus⟩
  · have hbelow' := (SameVruntime.pickNextTask hp).vruntimeBelowMax hbelow
    exact (h.of_frame hframe).pickNextTask hbelow' hp
  · exact h.of_frame hframe
  · exact ⟨fun k rq hrq => h.bounded_of_map_eq (hrotor k) rq hrq, by omega⟩
  · refine ⟨?_, fun _ id => htasks ▸ h.no_tasks hzero id⟩
    intro k rq hrq
    rw [hcpus, List.getElem?_map, Option.map_eq_some_iff] at hrq
    obtain ⟨i, -, rfl⟩ := hrq
    exact bounded_new i

end FairInvariant

/-- A stretch of a run in which `n` picks happen on CPU `k`, each while the
queue of class `c` there holds a Ready task and none of them taking a task of
class `c`; anything else may happen in between. -/
inductive BypassRun
    (k : Nat)
    (c : TaskClass) : Scheduler → Nat → Scheduler → Prop
  | nil
      (s : Scheduler) :
      BypassRun k c s 0 s
  | other
      {s t r : Scheduler}
      {call : Call}
      {n : Nat}
      (hstep : FreshStep s call t)
      (hother : ∀ p, s.pickState call ≠ some (k, p))
      (rest : BypassRun k c t n r) :
      BypassRun k c s n r
  | bypass
      {s t r p p' : Scheduler}
      {rq : CpuRunQueue}
      {call : Call}
      {picked : Option (Nat × TaskClass)}
      {n : Nat}
      (hstep : FreshStep s call t)
      (hpick : s.pickState call = some (k, p))
      (hrq : p.cpus[k]? = some rq)
      (hready : p.ReadyIn rq c)
      (hselect : p.selectTask k = some (p', picked))
      (hother : ∀ id, picked ≠ some (id, c))
      (rest : BypassRun k c t n r) :
      BypassRun k c s (n + 1) r

/-- The quanta of the other classes, plus the other classes themselves. -/
def bypassBound
    (c : TaskClass) : Int :=
  ((TaskClass.all.filter (· ≠ c)).map TaskClass.quanta).sum + numClasses - 1

theorem bypassBound_eq
    (c : TaskClass) :
    bypassBound c =
      ∑ i ∈ (Finset.range numClasses).erase c.index, quantumAt i + ((numClasses : Int) - 1) := by
  cases c <;> decide

theorem bypassBound_nonneg
    (c : TaskClass) :
    0 ≤ bypassBound c := by
  cases c <;> decide

/-- Between two picks on a CPU that has work its rotor stands still. -/
theorem rotor_eq_of_other {s t : Scheduler} {k : Nat} {call : Call} (hstep : s.step call = some t)
    (hother : ∀ p, s.pickState call ≠ some (k, p))
    (hcount : s.taskCount ≠ 0) :
    t.taskCount ≠ 0 ∧ t.cpus[k]?.map rotor = s.cpus[k]?.map rotor := by
  rcases step_cases hstep with ⟨j, p, previous, result, hpick, hframe, hp⟩ | hframe |
    ⟨hadd, hrotor⟩ | ⟨hzero, -⟩
  · have hj : k ≠ j := by
      rintro rfl
      exact hother p hpick
    have hpframe := hframe.of_none.trans (Frame.pickNextTask hp)
    exact ⟨hpframe.taskCount_eq ▸ hcount, hpframe.rotor_eq k (by simpa using hj)⟩
  · exact ⟨hframe.taskCount_eq ▸ hcount, hframe.rotor_eq k (by simp)⟩
  · exact ⟨by omega, hrotor k⟩
  · exact absurd hzero hcount

/-- A pick that passes over class `c` brings its turn nearer. -/
theorem wait_lt_of_bypass {p p' t : Scheduler} {k : Nat} {c : TaskClass} {rq : CpuRunQueue}
    {picked : Option (Nat × TaskClass)} {previous result : Option Nat} (h : FairInvariant p)
    (hbelow : p.VruntimeBelowMax) (hrq : p.cpus[k]? = some rq) (hready : p.ReadyIn rq c)
    (hselect : p.selectTask k = some (p', picked)) (hother : ∀ id, picked ≠ some (id, c))
    (hp : p.pickNextTask k previous = some (t, result)) :
    ∃ rq', t.cpus[k]? = some rq' ∧
      (rotor rq').wait numClasses c.index < (rotor rq).wait numClasses c.index := by
  have hcursor := (h.bounded k rq hrq).cursor_lt
  obtain ⟨s₁, ⟨id, cls, hselect', hdispatches⟩ | ⟨hselect', hresumes⟩⟩ := pickNextTask_cases hp
  · obtain ⟨rq', o, r₁, hrq', hturn, hslot, hagree⟩ :=
      rotor_of_taken hrq hbelow hcursor hselect' hdispatches
    rw [hselect, Option.some.injEq, Prod.mk.injEq] at hselect'
    have hne : r₁.slot numClasses o ≠ c.index := by
      intro heq
      rw [hslot] at heq
      have hcls : cls = c := by
        rw [← TaskClass.fromIndex_index cls, heq, TaskClass.fromIndex_index]
      exact hother id (hcls ▸ hselect'.2)
    refine ⟨rq', hrq', ?_⟩
    rw [hagree.wait_eq c.index_lt]
    refine hturn.wait_lt hcursor quantumAt_pos c.index_lt ?_ hne
    rwa [ReadyAt, TaskClass.fromIndex_index]
  · exact absurd hready ((rotor_of_not_taken hrq hbelow hcursor hselect' hresumes).1 c)

theorem taskCount_ne_zero_of_readyIn {s : Scheduler} {rq : CpuRunQueue} {c : TaskClass}
    (h : FairInvariant s)
    (hready : s.ReadyIn rq c) :
    s.taskCount ≠ 0 := by
  intro hzero
  obtain ⟨id, -, t, ht, -⟩ := hready
  rw [h.no_tasks hzero id] at ht
  simp at ht

theorem BypassRun.le_wait {k n : Nat} {c : TaskClass} {s t : Scheduler} (hb : BypassRun k c s n t)
    (h : FairInvariant s) :
    (s.taskCount ≠ 0 → ∀ rq, s.cpus[k]? = some rq →
      n ≤ (rotor rq).wait numClasses c.index) ∧
    (n : Int) ≤ bypassBound c := by
  induction hb with
  | nil s =>
    exact ⟨fun _ _ _ => Nat.zero_le _, bypassBound_nonneg c⟩
  | other hstep hother rest ih =>
    obtain ⟨hwait, hbound⟩ := ih (h.step hstep)
    refine ⟨?_, hbound⟩
    intro hcount rq hrq
    obtain ⟨hcount', hrotor⟩ := rotor_eq_of_other hstep.1 hother hcount
    obtain ⟨rq', hrq', hsame⟩ := exists_rotor_of_map_eq hrotor hrq
    exact hsame ▸ hwait hcount' rq' hrq'
  | @bypass s t r p p' rq call picked n hstep hpick hrq hready hselect hother rest ih =>
    obtain ⟨hwait, -⟩ := ih (h.step hstep)
    obtain ⟨hframe, previous, result, hp⟩ := pickNextTask_of_pickState hstep.1 hpick
    have hinv := h.of_frame hframe
    have hbelow := (SameVruntime.pickNextTask hp).vruntimeBelowMax hstep.2
    have hcount := taskCount_ne_zero_of_readyIn hinv hready
    obtain ⟨rq', hrq', hlt⟩ := wait_lt_of_bypass hinv hbelow hrq hready hselect hother hp
    have hle := hwait ((Frame.pickNextTask hp).taskCount_eq ▸ hcount) rq' hrq'
    have hnext : n + 1 ≤ (rotor rq).wait numClasses c.index := by omega
    refine ⟨?_, ?_⟩
    · intro _ rq₀ hrq₀
      obtain ⟨rq₁, hrq₁, hsame⟩ := exists_rotor_of_map_eq (hframe.rotor_eq k (by simp)) hrq₀
      rw [hrq, Option.some.injEq] at hrq₁
      subst hrq₁
      exact hsame ▸ hnext
    · have hmax := (hinv.bounded k rq hrq).wait_le quantumAt_pos c.index_lt
      rw [bypassBound_eq]
      push_cast
      omega

/-- Bounded bypass: while the queue of a class holds a Ready task at every pick
of a CPU, at most `bypassBound` picks in a row do not take one from it. -/
theorem bounded_bypass {k n : Nat} {c : TaskClass} {calls : List Call} {s t : Scheduler}
    (hrun : Run FreshStep Scheduler.new calls s)
    (hb : BypassRun k c s n t) :
    (n : Int) ≤ bypassBound c :=
  (hb.le_wait (hrun.invariant (fun _ _ _ h hstep => h.step hstep) FairInvariant.new)).2

theorem VruntimeBelowMax.addTask {s t : Scheduler} {id threadId savedRsp : Nat}
    {params : SchedParams} (h : s.VruntimeBelowMax)
    (hstep : s.step (.addTask id threadId savedRsp params) = some t) :
    t.VruntimeBelowMax := by
  simp only [step, Option.ite_none_left_eq_some] at hstep
  obtain ⟨-, ha⟩ := hstep
  obtain ⟨cpu, -, ha⟩ := Option.bind_eq_some_iff.mp ha
  obtain ⟨s₁, henqueue, ha⟩ := Option.bind_eq_some_iff.mp ha
  simp only [Option.pure_def, Option.some.injEq] at ha
  subst ha
  refine (SameVruntime.enqueueTask henqueue).symm.vruntimeBelowMax ?_
  intro j u hu
  by_cases hj : j = id
  · subst hj
    simp only [Task.recomputeClass, Task.withParams, Function.update_self,
      Option.some.injEq] at hu
    rw [← hu]
    exact Nat.zero_lt_succ _
  · simp only [Task.recomputeClass, Task.withParams, Function.update_of_ne hj] at hu
    exact h j u hu

/-- The parameters of a task with a class of its own. -/
def hinted
    (cls : TaskClass) : SchedParams where
  classHint := some cls
  nice := 0
  preferredCpu := none
  processId := 0

/-- A game task goes before a normal one when the scheduler starts. -/
theorem bounded_bypass_start :
    ∃ s t, Run FreshStep Scheduler.new
        [.addTask 1 0 0 (hinted .game), .addTask 2 0 0 (hinted .normal)] s ∧
      BypassRun 0 .normal s 1 t ∧ (1 : Int) ≤ bypassBound .normal := by
  obtain ⟨s₁, s₂, p, t, rq, u, h₁, h₂, hselect, hstart, hrq, hmem, hu, hready⟩ :
      ∃ s₁ s₂ p t rq u,
        Scheduler.new.step (.addTask 1 0 0 (hinted .game)) = some s₁ ∧
        s₁.step (.addTask 2 0 0 (hinted .normal)) = some s₂ ∧
        ({ s₂ with started := true } : Scheduler).selectTask 0 = some (p, some (1, .game)) ∧
        s₂.step .start = some t ∧
        s₂.cpus[0]? = some rq ∧ 2 ∈ rq.queues .normal ∧
        s₂.tasks 2 = some u ∧ u.state = .ready :=
    ⟨_, _, _, _, _, _, rfl, rfl, rfl, rfl, rfl, by decide, rfl, rfl⟩
  have hbelow₀ : Scheduler.new.VruntimeBelowMax := by
    intro id t ht
    simp [Scheduler.new] at ht
  have hbelow₁ : s₁.VruntimeBelowMax := hbelow₀.addTask h₁
  have hbelow₂ : s₂.VruntimeBelowMax := hbelow₁.addTask h₂
  obtain ⟨-, previous, result, hp⟩ := pickNextTask_of_pickState hstart rfl
  have hbelow₃ : t.VruntimeBelowMax :=
    (SameVruntime.pickNextTask hp).symm.vruntimeBelowMax hbelow₂
  have hrun : Run FreshStep Scheduler.new
      [.addTask 1 0 0 (hinted .game), .addTask 2 0 0 (hinted .normal)] s₂ :=
    .cons ⟨h₁, hbelow₁⟩ (.single ⟨h₂, hbelow₂⟩)
  have hbypass : BypassRun 0 .normal s₂ 1 t :=
    .bypass ⟨hstart, hbelow₃⟩ rfl hrq ⟨2, hmem, u, hu, hready⟩ hselect (by simp) (.nil t)
  exact ⟨s₂, t, hrun, hbypass, bounded_bypass hrun hbypass⟩

end Scheduler
end Kernel
end Theos
