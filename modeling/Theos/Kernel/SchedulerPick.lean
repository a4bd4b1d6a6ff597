import Theos.Base.DeficitRoundRobin
import Theos.Kernel.Scheduler

/-!
# What a pick does

The lemmas of this module say, function by function, what the search of
`pick_next_task` can do, so that later modules never unfold it: a search that
fails changes nothing but task deficits and, between its two rounds, the class
deficits of the CPU; a search that succeeds takes one Ready task out of the
queue of the class it was found in.
-/

namespace Theos
namespace Kernel
namespace Scheduler

/-- The state with other task deficits. -/
def withDeficits (s : Scheduler)
    (d : Nat → Int) : Scheduler :=
  { s with tasks := fun id => (s.tasks id).map fun t => { t with deficit := d id } }

/-- The state with other class deficits on one CPU. -/
def withClassDeficits (s : Scheduler) (cpu : Nat) (rq : CpuRunQueue)
    (D : TaskClass → Int) : Scheduler :=
  { s with cpus := s.cpus.set cpu { rq with classDeficits := D } }

/-- The queue of the class holds a Ready task. -/
def ReadyIn (s : Scheduler) (rq : CpuRunQueue)
    (cls : TaskClass) : Prop :=
  ∃ id ∈ rq.queues cls, ∃ t, s.tasks id = some t ∧ t.state = .ready

/-- No task's virtual runtime has reached the largest 64-bit number. -/
def VruntimeBelowMax
    (s : Scheduler) : Prop :=
  ∀ id t, s.tasks id = some t → t.vruntime < u64Max

theorem exists_withDeficits
    (s : Scheduler) :
    ∃ d, s = s.withDeficits d := by
  refine ⟨fun id => ((s.tasks id).map Task.deficit).getD 0, ?_⟩
  have htasks :
      (fun id => (s.tasks id).map fun t =>
        { t with deficit := ((s.tasks id).map Task.deficit).getD 0 }) = s.tasks := by
    funext id
    cases s.tasks id <;> rfl
  simp only [withDeficits, htasks]

@[simp]
theorem withDeficits_withDeficits (s : Scheduler)
    (d d' : Nat → Int) :
    (s.withDeficits d).withDeficits d' = s.withDeficits d' := by
  simp [withDeficits, Function.comp_def]

@[simp]
theorem withDeficits_cpus (s : Scheduler)
    (d : Nat → Int) :
    (s.withDeficits d).cpus = s.cpus :=
  rfl

theorem withDeficits_tasks_eq_some {s : Scheduler} {d : Nat → Int} {id : Nat}
    {t : Task} :
    (s.withDeficits d).tasks id = some t ↔
      ∃ u, s.tasks id = some u ∧ t = { u with deficit := d id } := by
  simp only [withDeficits, Option.map_eq_some_iff, @eq_comm _ t]

@[simp]
theorem withDeficits_readyIn {s : Scheduler} {d : Nat → Int} {rq : CpuRunQueue}
    {cls : TaskClass} :
    (s.withDeficits d).ReadyIn rq cls ↔ s.ReadyIn rq cls := by
  constructor
  · rintro ⟨id, hid, t, ht, hready⟩
    obtain ⟨u, hu, rfl⟩ := withDeficits_tasks_eq_some.mp ht
    exact ⟨id, hid, u, hu, hready⟩
  · rintro ⟨id, hid, t, ht, hready⟩
    exact ⟨id, hid, _, withDeficits_tasks_eq_some.mpr ⟨t, ht, rfl⟩, hready⟩

theorem VruntimeBelowMax.withDeficits {s : Scheduler} (h : s.VruntimeBelowMax)
    (d : Nat → Int) :
    (s.withDeficits d).VruntimeBelowMax := by
  intro id t ht
  obtain ⟨u, hu, rfl⟩ := withDeficits_tasks_eq_some.mp ht
  exact h id u hu

/-- Writing one deficit is a change of deficits. -/
theorem update_deficit_eq_withDeficits {s : Scheduler} {id : Nat} {t : Task}
    (ht : s.tasks id = some t)
    (x : Int) :
    ∃ d, { s with tasks := Function.update s.tasks id (some { t with deficit := x }) } =
      s.withDeficits d := by
  obtain ⟨d, hd⟩ := exists_withDeficits s
  refine ⟨Function.update d id x, ?_⟩
  have htasks :
      Function.update s.tasks id (some { t with deficit := x }) =
        fun j => (s.tasks j).map fun u => { u with deficit := Function.update d id x j } := by
    funext j
    by_cases hj : j = id
    · subst hj
      simp [ht]
    · rw [Function.update_of_ne hj, Function.update_of_ne hj]
      exact congrFun (congrArg Scheduler.tasks hd) j
  simp only [withDeficits, htasks]

/-! ## One class -/

theorem one_le_taskQuantum (cls : TaskClass)
    (nice : Int) :
    1 ≤ taskQuantum cls nice :=
  le_max_right _ _

theorem refillDeficit_pos (t : Task)
    (cls : TaskClass) :
    0 < (t.refillDeficit cls).deficit := by
  have := one_le_taskQuantum cls t.nice
  simp only [Task.refillDeficit]
  omega

/-- The task the scan settles on is the best so far or a Ready task of the list. -/
theorem bestTask_eq_some {s : Scheduler} {ids : List Nat} {best : Option Nat} {v id : Nat}
    (h : s.bestTask ids best v = some (some id)) :
    best = some id ∨
      (id ∈ ids ∧ ∃ t, s.tasks id = some t ∧ t.state = .ready) := by
  induction ids generalizing best v with
  | nil =>
    simp only [bestTask, Option.some.injEq] at h
    exact Or.inl h
  | cons j rest ih =>
    cases hj : s.tasks j with
    | none =>
      simp [bestTask, hj] at h
    | some t =>
      simp only [bestTask, hj, Option.bind_eq_bind, Option.bind_some] at h
      split at h
      next hcond =>
        rcases ih h with hbest | ⟨hmem, hready⟩
        · cases hbest
          exact Or.inr ⟨List.mem_cons_self, t, hj, hcond.1⟩
        · exact Or.inr ⟨List.mem_cons_of_mem _ hmem, hready⟩
      next =>
        rcases ih h with hbest | ⟨hmem, hready⟩
        · exact Or.inl hbest
        · exact Or.inr ⟨List.mem_cons_of_mem _ hmem, hready⟩

/-- A scan that finds nobody had only tasks that are not Ready, have no deficit
or have a virtual runtime of at least `v`. -/
theorem bestTask_eq_none {s : Scheduler} {ids : List Nat} {best : Option Nat} {v : Nat}
    (h : s.bestTask ids best v = some none) :
    best = none ∧
      ∀ id ∈ ids, ∀ t, s.tasks id = some t → t.state = .ready → 0 < t.deficit →
        v ≤ t.effectiveVruntime := by
  induction ids generalizing best v with
  | nil =>
    simp only [bestTask, Option.some.injEq] at h
    simp [h]
  | cons j rest ih =>
    cases hj : s.tasks j with
    | none =>
      simp [bestTask, hj] at h
    | some t =>
      simp only [bestTask, hj, Option.bind_eq_bind, Option.bind_some] at h
      split at h
      next =>
        exact absurd (ih h).1 (by simp)
      next hcond =>
        refine ⟨(ih h).1, ?_⟩
        intro id hid u hu hready hpos
        rcases List.mem_cons.mp hid with rfl | hid
        · rw [hj, Option.some.injEq] at hu
          subst hu
          by_contra hlt
          exact hcond ⟨hready, hpos, by omega⟩
        · exact (ih h).2 id hid u hu hready hpos

/-- A refill changes deficits only, and leaves every Ready task of the list with
a positive one. -/
theorem refillTaskDeficits_spec {cls : TaskClass} {ids : List Nat} {s s' : Scheduler}
    (h : refillTaskDeficits cls ids s = some s') :
    (∃ d, s' = s.withDeficits d) ∧
      ∀ id t', s'.tasks id = some t' → t'.state = .ready →
        (id ∈ ids ∨ ∃ t, s.tasks id = some t ∧ 0 < t.deficit) → 0 < t'.deficit := by
  induction ids generalizing s with
  | nil =>
    simp only [refillTaskDeficits, Option.some.injEq] at h
    subst h
    refine ⟨exists_withDeficits s, ?_⟩
    rintro id t' ht' - (hid | ⟨t, ht, hpos⟩)
    · simp at hid
    · rw [ht, Option.some.injEq] at ht'
      exact ht' ▸ hpos
  | cons j rest ih =>
    cases hj : s.tasks j with
    | none =>
      simp [refillTaskDeficits, hj] at h
    | some t =>
      simp only [refillTaskDeficits, hj, Option.bind_eq_bind, Option.bind_some] at h
      split at h
      next hready =>
        obtain ⟨s₁, h₁, h⟩ := Option.bind_eq_some_iff.mp h
        obtain ⟨u, hu, rfl⟩ := modifyTask_eq_some.mp h₁
        obtain ⟨d₁, hd₁⟩ := update_deficit_eq_withDeficits hu (u.refillDeficit cls).deficit
        obtain ⟨⟨d, hd⟩, hpos⟩ := ih h
        refine ⟨⟨d, ?_⟩, ?_⟩
        · rw [hd]
          exact (congrArg (withDeficits · d) hd₁).trans (withDeficits_withDeficits s d₁ d)
        · intro id t' ht' hr hcase
          refine hpos id t' ht' hr ?_
          -- the head has just been refilled, the others are as they were
          by_cases hid : id = j
          · subst hid
            exact Or.inr ⟨u.refillDeficit cls, by simp, refillDeficit_pos u cls⟩
          · rcases hcase with hmem | ⟨w, hw, hwpos⟩
            · exact Or.inl ((List.mem_cons.mp hmem).resolve_left hid)
            · exact Or.inr ⟨w, by simpa [Function.update_of_ne hid] using hw, hwpos⟩
      next hready =>
        obtain ⟨⟨d, hd⟩, hpos⟩ := ih h
        refine ⟨⟨d, hd⟩, ?_⟩
        intro id t' ht' hr hcase
        refine hpos id t' ht' hr ?_
        rcases hcase with hmem | hold
        · rcases List.mem_cons.mp hmem with rfl | hmem
          · subst hd
            obtain ⟨u, hu, rfl⟩ := withDeficits_tasks_eq_some.mp ht'
            rw [hj, Option.some.injEq] at hu
            subst hu
            exact absurd hr hready
          · exact Or.inl hmem
        · exact Or.inr hold

/-- What a successful search does: one Ready task leaves its queue. -/
def Takes (s : Scheduler) (cpu : Nat) (rq : CpuRunQueue) (cls : TaskClass) (id : Nat)
    (s' : Scheduler) : Prop :=
  id ∈ rq.queues cls ∧
    (∃ t, s.tasks id = some t ∧ t.state = .ready) ∧
    ∃ d, (s.withDeficits d).takeTask cpu cls id = some s'

theorem Takes.of_withDeficits {s s' : Scheduler} {cpu id : Nat} {rq : CpuRunQueue} {cls : TaskClass}
    {d : Nat → Int}
    (h : (s.withDeficits d).Takes cpu rq cls id s') :
    s.Takes cpu rq cls id s' := by
  obtain ⟨hmem, ⟨t, ht, hready⟩, d', htake⟩ := h
  obtain ⟨u, hu, rfl⟩ := withDeficits_tasks_eq_some.mp ht
  rw [withDeficits_withDeficits] at htake
  exact ⟨hmem, ⟨u, hu, hready⟩, d', htake⟩

theorem takes_of_bestTask {s s' : Scheduler} {cpu id : Nat} {rq : CpuRunQueue} {cls : TaskClass}
    (hbest : s.bestTask (rq.queues cls) none u64Max = some (some id))
    (htake : s.takeTask cpu cls id = some s') :
    s.Takes cpu rq cls id s' := by
  rcases bestTask_eq_some hbest with hnone | ⟨hmem, hready⟩
  · simp at hnone
  · obtain ⟨d, hd⟩ := exists_withDeficits s
    exact ⟨hmem, hready, d, hd ▸ htake⟩

theorem pickTaskFromClass_eq_some {s s' : Scheduler} {cpu id : Nat} {rq : CpuRunQueue}
    {cls : TaskClass} (hrq : s.cpus[cpu]? = some rq)
    (h : s.pickTaskFromClass cpu cls = some (s', some id)) :
    s.Takes cpu rq cls id s' := by
  simp only [pickTaskFromClass, hrq, Option.bind_eq_bind, Option.bind_some] at h
  obtain ⟨best, hbest, h⟩ := Option.bind_eq_some_iff.mp h
  cases best with
  | some j =>
    simp only [Option.bind_eq_some_iff, Option.pure_def, Option.some.injEq,
      Prod.mk.injEq] at h
    obtain ⟨s₁, htake, rfl, rfl⟩ := h
    exact takes_of_bestTask hbest htake
  | none =>
    obtain ⟨s₁, hrefill, h⟩ := Option.bind_eq_some_iff.mp h
    obtain ⟨best, hbest', h⟩ := Option.bind_eq_some_iff.mp h
    obtain ⟨⟨d, rfl⟩, -⟩ := refillTaskDeficits_spec hrefill
    cases best with
    | some j =>
      simp only [Option.bind_eq_some_iff, Option.pure_def, Option.some.injEq,
        Prod.mk.injEq] at h
      obtain ⟨s₂, htake, rfl, rfl⟩ := h
      exact (takes_of_bestTask hbest' htake).of_withDeficits
    | none =>
      simp at h

/-- A class that yields nobody had no Ready task. -/
theorem pickTaskFromClass_eq_none {s s' : Scheduler} {cpu : Nat} {rq : CpuRunQueue}
    {cls : TaskClass} (hrq : s.cpus[cpu]? = some rq)
    (h : s.pickTaskFromClass cpu cls = some (s', none)) :
    (∃ d, s' = s.withDeficits d) ∧ (s.VruntimeBelowMax → ¬ s.ReadyIn rq cls) := by
  simp only [pickTaskFromClass, hrq, Option.bind_eq_bind, Option.bind_some] at h
  obtain ⟨best, hbest, h⟩ := Option.bind_eq_some_iff.mp h
  cases best with
  | some j =>
    simp [Option.bind_eq_some_iff] at h
  | none =>
    obtain ⟨s₁, hrefill, h⟩ := Option.bind_eq_some_iff.mp h
    obtain ⟨best, hbest', h⟩ := Option.bind_eq_some_iff.mp h
    obtain ⟨⟨d, rfl⟩, hpos⟩ := refillTaskDeficits_spec hrefill
    cases best with
    | some j =>
      simp [Option.bind_eq_some_iff] at h
    | none =>
      simp only [Option.pure_def, Option.some.injEq, Prod.mk.injEq, and_true] at h
      refine ⟨⟨d, h.symm⟩, ?_⟩
      rintro hbelow ⟨id, hid, t, ht, hready⟩
      have ht' : (s.withDeficits d).tasks id = some { t with deficit := d id } :=
        withDeficits_tasks_eq_some.mpr ⟨t, ht, rfl⟩
      have hdef := hpos id _ ht' hready (Or.inl hid)
      have hmax := (bestTask_eq_none hbest').2 id hid _ ht' hready hdef
      have hlt := hbelow id t ht
      simp only [Task.effectiveVruntime] at hmax
      omega

/-! ## The round over the classes -/

/-- The offset leads to a class that has deficit left and a Ready task. -/
def Serves (s : Scheduler) (rq : CpuRunQueue)
    (o : Nat) : Prop :=
  0 < rq.classDeficits (rq.classAt o) ∧ s.ReadyIn rq (rq.classAt o)

theorem scanClasses_eq_none {s s' : Scheduler} {cpu : Nat} {rq : CpuRunQueue} {offsets : List Nat}
    (hrq : s.cpus[cpu]? = some rq)
    (h : scanClasses cpu offsets s = some (s', none)) :
    (∃ d, s' = s.withDeficits d) ∧
      (s.VruntimeBelowMax → ∀ o ∈ offsets, ¬ s.Serves rq o) := by
  induction offsets generalizing s with
  | nil =>
    simp only [scanClasses, Option.some.injEq, Prod.mk.injEq, and_true] at h
    exact ⟨h ▸ exists_withDeficits s, by simp⟩
  | cons o rest ih =>
    simp only [scanClasses, hrq, Option.bind_eq_bind, Option.bind_some] at h
    split at h
    next hle =>
      obtain ⟨hd, hrest⟩ := ih hrq h
      refine ⟨hd, ?_⟩
      intro hbelow o' ho'
      rcases List.mem_cons.mp ho' with rfl | ho'
      · rintro ⟨hpos, -⟩
        omega
      · exact hrest hbelow o' ho'
    next hle =>
      obtain ⟨⟨s₁, found⟩, hpick, h⟩ := Option.bind_eq_some_iff.mp h
      cases found with
      | some id =>
        simp at h
      | none =>
        obtain ⟨⟨d, rfl⟩, hnone⟩ := pickTaskFromClass_eq_none hrq hpick
        have hrq' : (s.withDeficits d).cpus[cpu]? = some rq := hrq
        obtain ⟨⟨d', hd'⟩, hrest⟩ := ih hrq' h
        refine ⟨⟨d', by rw [hd', withDeficits_withDeficits]⟩, ?_⟩
        intro hbelow o' ho'
        rcases List.mem_cons.mp ho' with rfl | ho'
        · exact fun hserves => hnone hbelow hserves.2
        · rintro ⟨hpos, hready⟩
          exact hrest (hbelow.withDeficits d) o' ho' ⟨hpos, withDeficits_readyIn.mpr hready⟩

theorem scanClasses_eq_some {s s' : Scheduler} {cpu id : Nat} {cls : TaskClass} {rq : CpuRunQueue}
    {offsets : List Nat} (hrq : s.cpus[cpu]? = some rq)
    (h : scanClasses cpu offsets s = some (s', some (id, cls))) :
    s.Takes cpu rq cls id s' ∧
      ∃ before o after, offsets = before ++ o :: after ∧
        cls = rq.classAt o ∧ 0 < rq.classDeficits cls ∧
        (s.VruntimeBelowMax → ∀ j ∈ before, ¬ s.Serves rq j) := by
  induction offsets generalizing s with
  | nil =>
    simp [scanClasses] at h
  | cons o rest ih =>
    simp only [scanClasses, hrq, Option.bind_eq_bind, Option.bind_some] at h
    split at h
    next hle =>
      obtain ⟨htakes, before, o', after, rfl, hcls, hpos, hbefore⟩ := ih hrq h
      refine ⟨htakes, o :: before, o', after, rfl, hcls, hpos, ?_⟩
      intro hbelow j hj
      rcases List.mem_cons.mp hj with rfl | hj
      · rintro ⟨hpos', -⟩
        omega
      · exact hbefore hbelow j hj
    next hle =>
      obtain ⟨⟨s₁, found⟩, hpick, h⟩ := Option.bind_eq_some_iff.mp h
      cases found with
      | some j =>
        simp only [Option.pure_def, Option.some.injEq, Prod.mk.injEq] at h
        obtain ⟨rfl, rfl, rfl⟩ := h
        exact ⟨pickTaskFromClass_eq_some hrq hpick, [], o, rest, rfl, rfl, by omega, by simp⟩
      | none =>
        obtain ⟨⟨d, rfl⟩, hnone⟩ := pickTaskFromClass_eq_none hrq hpick
        have hrq' : (s.withDeficits d).cpus[cpu]? = some rq := hrq
        obtain ⟨htakes, before, o', after, rfl, hcls, hpos, hbefore⟩ := ih hrq' h
        refine ⟨htakes.of_withDeficits, o :: before, o', after, rfl, hcls, hpos, ?_⟩
        intro hbelow j hj
        rcases List.mem_cons.mp hj with rfl | hj
        · exact fun hserves => hnone hbelow hserves.2
        · rintro ⟨hpos', hready⟩
          exact hbefore (hbelow.withDeficits d) j hj
            ⟨hpos', withDeficits_readyIn.mpr hready⟩

/-! ## The refill of the class deficits -/

theorem anyReady_eq_some {s : Scheduler} {ids : List Nat} {b : Bool}
    (h : s.anyReady ids = some b) :
    b = true ↔ ∃ id ∈ ids, ∃ t, s.tasks id = some t ∧ t.state = .ready := by
  induction ids with
  | nil =>
    simp only [anyReady, Option.some.injEq] at h
    simp [← h]
  | cons j rest ih =>
    cases hj : s.tasks j with
    | none =>
      simp [anyReady, hj] at h
    | some t =>
      simp only [anyReady, hj, Option.bind_eq_bind, Option.bind_some] at h
      by_cases hready : t.state = .ready
      · simp only [hready, if_true, Option.pure_def, Option.some.injEq] at h
        simp [← h, hj, hready]
      · simp only [hready, if_false] at h
        simp [ih h, hj, hready]

theorem hasReadyTaskInClass_eq_some {s : Scheduler} {cpu : Nat} {rq : CpuRunQueue} {cls : TaskClass}
    {b : Bool} (hrq : s.cpus[cpu]? = some rq)
    (h : s.hasReadyTaskInClass cpu cls = some b) :
    b = true ↔ s.ReadyIn rq cls := by
  simp only [hasReadyTaskInClass, hrq, Option.bind_eq_bind, Option.bind_some] at h
  exact anyReady_eq_some h

theorem cpus_set_getElem? {s : Scheduler} {cpu : Nat} {rq rq' : CpuRunQueue}
    (hrq : s.cpus[cpu]? = some rq) :
    (s.cpus.set cpu rq')[cpu]? = some rq' := by
  have hlt := (List.getElem?_eq_some_iff.mp hrq).1
  simp [hlt]

theorem withClassDeficits_self {s : Scheduler} {cpu : Nat} {rq : CpuRunQueue}
    (hrq : s.cpus[cpu]? = some rq) :
    s.withClassDeficits cpu rq rq.classDeficits = s := by
  obtain ⟨hlt, hget⟩ := List.getElem?_eq_some_iff.mp hrq
  have hset : s.cpus.set cpu rq = s.cpus := by
    rw [← hget]
    exact List.set_getElem_self hlt
  exact congrArg (fun cpus => { s with cpus := cpus }) hset

theorem refillClassDeficits_spec {s s' : Scheduler} {cpu : Nat} {rq : CpuRunQueue}
    {classes : List TaskClass} (hnodup : classes.Nodup) (hrq : s.cpus[cpu]? = some rq)
    (h : refillClassDeficits cpu classes s = some s') :
    ∃ D, s' = s.withClassDeficits cpu rq D ∧
      (∀ cls ∈ classes,
        (s.ReadyIn rq cls →
          D cls = min (max (rq.classDeficits cls) 0 + cls.quanta) (cls.quanta * 2)) ∧
        (¬ s.ReadyIn rq cls → D cls = rq.classDeficits cls)) ∧
      ∀ cls ∉ classes, D cls = rq.classDeficits cls := by
  induction classes generalizing s rq with
  | nil =>
    simp only [refillClassDeficits, Option.some.injEq] at h
    exact ⟨rq.classDeficits, h ▸ (withClassDeficits_self hrq).symm, by simp, by simp⟩
  | cons head rest ih =>
    obtain ⟨hhead, hrest⟩ := List.nodup_cons.mp hnodup
    obtain ⟨ready, hready, h⟩ := Option.bind_eq_some_iff.mp h
    have hiff := hasReadyTaskInClass_eq_some hrq hready
    cases ready with
    | false =>
      obtain ⟨D, hs', hmem, hnot⟩ := ih hrest hrq h
      have hidle : ¬ s.ReadyIn rq head := by simpa using hiff
      refine ⟨D, hs', ?_, ?_⟩
      · intro cls hcls
        rcases List.mem_cons.mp hcls with rfl | hcls
        · exact ⟨fun hr => absurd hr hidle, fun _ => hnot _ hhead⟩
        · exact hmem cls hcls
      · intro cls hcls
        exact hnot cls fun hin => hcls (List.mem_cons_of_mem _ hin)
    | true =>
      obtain ⟨s₁, hmod, h⟩ := Option.bind_eq_some_iff.mp h
      obtain ⟨rq₀, hrq₀, rfl⟩ := modifyCpu_eq_some.mp hmod
      rw [hrq, Option.some.injEq] at hrq₀
      subst hrq₀
      obtain ⟨D, hs', hmem, hnot⟩ := ih hrest (cpus_set_getElem? hrq) h
      refine ⟨D, ?_, ?_, ?_⟩
      · rw [hs']
        simp [withClassDeficits, CpuRunQueue.setDeficit]
      · intro cls hcls
        rcases List.mem_cons.mp hcls with rfl | hcls
        · refine ⟨fun _ => ?_, fun hidle => absurd (hiff.mp rfl) hidle⟩
          rw [hnot _ hhead]
          simp [CpuRunQueue.setDeficit]
        · have hne : cls ≠ head := fun heq => hhead (heq ▸ hcls)
          obtain ⟨hpos, hneg⟩ := hmem cls hcls
          simp only [CpuRunQueue.setDeficit, Function.update_of_ne hne] at hpos hneg
          exact ⟨hpos, hneg⟩
      · intro cls hcls
        have hne : cls ≠ head := fun heq => hcls (heq ▸ List.mem_cons_self)
        rw [hnot cls fun hin => hcls (List.mem_cons_of_mem _ hin)]
        simp [CpuRunQueue.setDeficit, Function.update_of_ne hne]

/-! ## Both rounds -/

/-- The class cursor and the class deficits of a CPU as a rotor. -/
def rotor
    (rq : CpuRunQueue) : Base.Rotor where
  cursor := rq.classCursor
  deficit := fun i => rq.classDeficits (TaskClass.fromIndex i)

/-- The quanta of the classes by index. -/
def quantumAt
    (i : Nat) : Int :=
  (TaskClass.fromIndex i).quanta

def ReadyAt (s : Scheduler) (rq : CpuRunQueue)
    (i : Nat) : Prop :=
  s.ReadyIn rq (TaskClass.fromIndex i)

theorem withDeficits_readyAt (s : Scheduler) (d : Nat → Int)
    (rq : CpuRunQueue) :
    (s.withDeficits d).ReadyAt rq = s.ReadyAt rq := by
  funext i
  exact propext withDeficits_readyIn

theorem firstAt_of_range {s : Scheduler} {rq : CpuRunQueue} {before after : List Nat} {o : Nat}
    (hsplit : List.range numClasses = before ++ o :: after) (hserves : s.Serves rq o)
    (hbefore : ∀ j ∈ before, ¬ s.Serves rq j) :
    Base.Rotor.FirstAt numClasses (s.ReadyAt rq) (rotor rq) o := by
  obtain ⟨hlt, hmem⟩ : o < numClasses ∧ ∀ j < o, j ∈ before := by
    have hlen : before.length < numClasses := by
      have := congrArg List.length hsplit
      simp at this
      omega
    have ho : o = before.length := by
      have := congrArg (fun l => l[before.length]?) hsplit
      simp [hlen] at this
      exact this.symm
    have htake : before = List.range before.length := by
      have := congrArg (List.take before.length) hsplit
      simpa [List.take_range, Nat.min_eq_left hlen.le] using this.symm
    refine ⟨ho ▸ hlen, fun j hj => ?_⟩
    rw [htake]
    exact List.mem_range.mpr (ho ▸ hj)
  exact ⟨hlt, hserves, fun j hj => hbefore j (hmem j hj)⟩

theorem idle_of_range {s : Scheduler} {rq : CpuRunQueue} (hcursor : rq.classCursor < numClasses)
    (hnone : ∀ o ∈ List.range numClasses, ¬ s.Serves rq o) :
    ∀ i < numClasses, ¬ (rotor rq).Eligible (s.ReadyAt rq) i := by
  intro i hi helig
  refine hnone ((rotor rq).distance numClasses i)
    (List.mem_range.mpr (Base.Rotor.distance_lt hi)) ?_
  have hslot : (rotor rq).slot numClasses ((rotor rq).distance numClasses i) = i :=
    Base.Rotor.slot_distance hcursor hi
  simp only [Serves, CpuRunQueue.classAt]
  rw [← hslot] at helig
  exact helig

theorem Takes.readyIn {s s' : Scheduler} {cpu id : Nat} {rq : CpuRunQueue} {cls : TaskClass}
    (h : s.Takes cpu rq cls id s') :
    s.ReadyIn rq cls :=
  ⟨id, h.1, h.2.1⟩

/-- The class deficits after a refill of every class with a Ready task. -/
theorem refillAll_spec {s s' : Scheduler} {cpu : Nat} {rq : CpuRunQueue}
    (hrq : s.cpus[cpu]? = some rq)
    (h : refillClassDeficits cpu TaskClass.all s = some s') :
    ∃ D, s' = s.withClassDeficits cpu rq D ∧
      Base.Rotor.Refills numClasses quantumAt (s.ReadyAt rq) (rotor rq)
        (rotor { rq with classDeficits := D }) ∧
      ((∀ cls, ¬ s.ReadyIn rq cls) → D = rq.classDeficits) := by
  obtain ⟨D, hs', hmem, -⟩ := refillClassDeficits_spec (by decide) hrq h
  refine ⟨D, hs', ⟨rfl, ?_, ?_⟩, ?_⟩
  · intro i _ hready
    exact (hmem _ (TaskClass.mem_all _)).1 hready
  · intro i _ hidle
    exact (hmem _ (TaskClass.mem_all _)).2 hidle
  · intro hidle
    funext cls
    exact (hmem cls (TaskClass.mem_all cls)).2 (hidle cls)

/-- A pick that takes a task takes it from the class whose turn it is. -/
theorem selectTask_eq_some {s s' : Scheduler} {cpu id : Nat} {cls : TaskClass}
    (h : s.selectTask cpu = some (s', some (id, cls))) :
    ∃ rq D, s.cpus[cpu]? = some rq ∧
      (s.withClassDeficits cpu rq D).Takes cpu { rq with classDeficits := D } cls id s' ∧
      (s.VruntimeBelowMax → rq.classCursor < numClasses →
        ∃ o, cls = rq.classAt o ∧
          Base.Rotor.Turn numClasses quantumAt (s.ReadyAt rq) (rotor rq) o
            (rotor { rq with classDeficits := D })) := by
  cases hrq : s.cpus[cpu]? with
  | none =>
    simp [selectTask, numClasses, List.range_succ, scanClasses, hrq] at h
  | some rq =>
    obtain ⟨⟨s₁, found⟩, hscan, h⟩ := Option.bind_eq_some_iff.mp h
    cases found with
    | some picked =>
      simp only [Option.pure_def, Option.some.injEq, Prod.mk.injEq] at h
      obtain ⟨rfl, rfl⟩ := h
      obtain ⟨htakes, before, o, after, hsplit, hcls, hpos, hbefore⟩ :=
        scanClasses_eq_some hrq hscan
      refine ⟨rq, rq.classDeficits, rfl, ?_, ?_⟩
      · rwa [withClassDeficits_self hrq]
      · intro hbelow _
        refine ⟨o, hcls, .direct (firstAt_of_range hsplit ?_ (hbefore hbelow))⟩
        exact ⟨hcls ▸ hpos, hcls ▸ htakes.readyIn⟩
    | none =>
      obtain ⟨s₂, hrefill, h⟩ := Option.bind_eq_some_iff.mp h
      obtain ⟨⟨s₃, found⟩, hscan₂, h⟩ := Option.bind_eq_some_iff.mp h
      obtain ⟨⟨d, rfl⟩, hnone⟩ := scanClasses_eq_none hrq hscan
      have hrq₁ : (s.withDeficits d).cpus[cpu]? = some rq := hrq
      obtain ⟨D, rfl, hrefills, -⟩ := refillAll_spec hrq₁ hrefill
      cases found with
      | none =>
        obtain ⟨s₄, -, h⟩ := Option.bind_eq_some_iff.mp h
        simp at h
      | some picked =>
        simp only [Option.pure_def, Option.some.injEq, Prod.mk.injEq] at h
        obtain ⟨rfl, rfl⟩ := h
        obtain ⟨htakes, before, o, after, hsplit, hcls, hpos, hbefore⟩ :=
          scanClasses_eq_some (cpus_set_getElem? hrq₁) hscan₂
        refine ⟨rq, D, rfl, Takes.of_withDeficits (d := d) htakes, ?_⟩
        intro hbelow hcursor
        -- the second round ran on the refilled deficits, with the same Ready tasks
        have hfirst := firstAt_of_range hsplit ⟨hcls ▸ hpos, hcls ▸ htakes.readyIn⟩
          (hbefore (hbelow.withDeficits d))
        rw [withDeficits_readyAt] at hrefills
        refine ⟨o, hcls, .refilled (idle_of_range hcursor (hnone hbelow)) hrefills ?_⟩
        rw [← withDeficits_readyAt s d]
        exact hfirst

/-- A pick that takes nothing leaves the queues alone; below the largest virtual
runtime it happens only when the CPU has no Ready task, and changes no class
deficit. -/
theorem selectTask_eq_none {s s' : Scheduler} {cpu : Nat}
    (h : s.selectTask cpu = some (s', none)) :
    ∃ rq D d, s.cpus[cpu]? = some rq ∧
      s' = (s.withClassDeficits cpu rq D).withDeficits d ∧
      (s.VruntimeBelowMax → rq.classCursor < numClasses →
        (∀ cls, ¬ s.ReadyIn rq cls) ∧ D = rq.classDeficits) := by
  cases hrq : s.cpus[cpu]? with
  | none =>
    simp [selectTask, numClasses, List.range_succ, scanClasses, hrq] at h
  | some rq =>
    obtain ⟨⟨s₁, found⟩, hscan, h⟩ := Option.bind_eq_some_iff.mp h
    cases found with
    | some picked =>
      simp at h
    | none =>
      obtain ⟨s₂, hrefill, h⟩ := Option.bind_eq_some_iff.mp h
      obtain ⟨⟨s₃, found⟩, hscan₂, h⟩ := Option.bind_eq_some_iff.mp h
      obtain ⟨⟨d, rfl⟩, hnone⟩ := scanClasses_eq_none hrq hscan
      have hrq₁ : (s.withDeficits d).cpus[cpu]? = some rq := hrq
      obtain ⟨D, rfl, hrefills, hsame⟩ := refillAll_spec hrq₁ hrefill
      cases found with
      | some picked =>
        simp at h
      | none =>
        obtain ⟨s₄, hrefill₂, h⟩ := Option.bind_eq_some_iff.mp h
        simp only [Option.pure_def, Option.some.injEq, Prod.mk.injEq, and_true] at h
        subst h
        have hrq₂ : ((s.withDeficits d).withClassDeficits cpu rq D).cpus[cpu]? =
            some { rq with classDeficits := D } := cpus_set_getElem? hrq₁
        obtain ⟨⟨d', rfl⟩, hnone₂⟩ := scanClasses_eq_none hrq₂ hscan₂
        have hrq₃ : (((s.withDeficits d).withClassDeficits cpu rq D).withDeficits d').cpus[cpu]? =
            some { rq with classDeficits := D } := hrq₂
        obtain ⟨D', rfl, -, hsame₂⟩ := refillAll_spec hrq₃ hrefill₂
        refine ⟨rq, D', d', rfl, ?_, ?_⟩
        · simp [withClassDeficits, withDeficits, Function.comp_def]
        · intro hbelow hcursor
          rw [withDeficits_readyAt] at hrefills
          have hidle : ∀ cls, ¬ s.ReadyIn rq cls := by
            intro cls hready
            have hready' : s.ReadyAt rq cls.index := by
              rwa [ReadyAt, TaskClass.fromIndex_index]
            have hquantum := hrefills.deficit_eq_quantum cls.index_lt
              (TaskClass.quanta_pos _) hready'
              (idle_of_range hcursor (hnone hbelow) _ cls.index_lt)
            -- after the refill the class could have been served
            have hcursor₂ :
                ({ rq with classDeficits := D } : CpuRunQueue).classCursor < numClasses :=
              hcursor
            refine idle_of_range hcursor₂ (hnone₂ (hbelow.withDeficits d)) _ cls.index_lt
              ⟨?_, ?_⟩
            · rw [hquantum]
              exact TaskClass.quanta_pos _
            · exact withDeficits_readyIn.mpr hready'
          refine ⟨hidle, ?_⟩
          have hD := hsame fun cls => withDeficits_readyIn.not.mpr (hidle cls)
          have hD' := hsame₂ fun cls =>
            withDeficits_readyIn.not.mpr (withDeficits_readyIn.not.mpr (hidle cls))
          exact hD'.trans hD

/-! ## The whole pick -/

/-- The task that was taken starts running. -/
def Dispatches (s : Scheduler) (cpu : Nat) (previous : Option Nat) (id : Nat) (cls : TaskClass)
    (s' : Scheduler) : Prop :=
  ∃ s₁ s₂ s₃,
    (s.modifyCpu cpu fun rq => rq.serve cls) = some s₁ ∧
    (s₁.modifyTask id fun t => t.dispatch id cpu previous) = some s₂ ∧
    (s₂.modifyCpu cpu fun rq => { rq with currentTask := some id }) = some s₃ ∧
    s₃.storeCurrentTaskId cpu id = some s'

/-- Nothing was taken: the previous task goes on, or the CPU is idle. -/
def Resumes (s : Scheduler) (cpu : Nat)
    (s' : Scheduler) : Prop :=
  (∃ id s₁ s₂,
    (s.modifyTask id fun t => { t with state := .running }) = some s₁ ∧
    (s₁.modifyCpu cpu fun rq => { rq with currentTask := some id }) = some s₂ ∧
    s₂.storeCurrentTaskId cpu id = some s') ∨
  s' = s ∨
  s.storeCurrentTaskId cpu 0 = some s'

/-- How a pick goes on from what its search has found, and what it returns. -/
inductive PickEnds (s : Scheduler) (cpu : Nat) :
    Option Nat → Option (Nat × TaskClass) → Scheduler → Option Nat → Prop
  | dispatched {previous : Option Nat} {id : Nat} {cls : TaskClass} {s' : Scheduler} {t : Task}
      (hdispatches : s.Dispatches cpu previous id cls s') (ht : s'.tasks id = some t) :
      PickEnds s cpu previous (some (id, cls)) s' (some t.savedRsp)
  | resumed {id : Nat} {t : Task} {s₁ s₂ s' : Scheduler}
      (ht : s.tasks id = some t)
      (hrunning : (s.modifyTask id fun t => { t with state := .running }) = some s₁)
      (hcurrent : (s₁.modifyCpu cpu fun rq => { rq with currentTask := some id }) = some s₂)
      (hstore : s₂.storeCurrentTaskId cpu id = some s') :
      PickEnds s cpu (some id) none s' (some t.savedRsp)
  | stopped {id : Nat} {t : Task}
      (ht : s.tasks id = some t) (hstate : ¬(t.state = .ready ∨ t.state = .running)) :
      PickEnds s cpu (some id) none s none
  | idle {s' : Scheduler}
      (hstore : s.storeCurrentTaskId cpu 0 = some s') :
      PickEnds s cpu none none s' none

theorem pickNextTask_ends {s s' : Scheduler} {cpu : Nat} {previous result : Option Nat}
    (h : s.pickNextTask cpu previous = some (s', result)) :
    ∃ s₁ found, s.selectTask cpu = some (s₁, found) ∧
      s₁.PickEnds cpu previous found s' result := by
  obtain ⟨⟨s₁, found⟩, hselect, h⟩ := Option.bind_eq_some_iff.mp h
  refine ⟨s₁, found, hselect, ?_⟩
  cases found with
  | some picked =>
    obtain ⟨id, cls⟩ := picked
    obtain ⟨s₂, hserve, h⟩ := Option.bind_eq_some_iff.mp h
    obtain ⟨s₃, hdispatch, h⟩ := Option.bind_eq_some_iff.mp h
    obtain ⟨s₄, hcurrent, h⟩ := Option.bind_eq_some_iff.mp h
    obtain ⟨s₅, hstore, h⟩ := Option.bind_eq_some_iff.mp h
    obtain ⟨t, ht, h⟩ := Option.bind_eq_some_iff.mp h
    cases h
    exact .dispatched ⟨s₂, s₃, s₄, hserve, hdispatch, hcurrent, hstore⟩ ht
  | none =>
    cases previous with
    | some id =>
      obtain ⟨t, ht, h⟩ := Option.bind_eq_some_iff.mp h
      split at h
      next =>
        obtain ⟨s₂, hrunning, h⟩ := Option.bind_eq_some_iff.mp h
        obtain ⟨s₃, hcurrent, h⟩ := Option.bind_eq_some_iff.mp h
        obtain ⟨s₄, hstore, h⟩ := Option.bind_eq_some_iff.mp h
        cases h
        exact .resumed ht hrunning hcurrent hstore
      next hstate =>
        cases h
        exact .stopped ht hstate
    | none =>
      obtain ⟨s₂, hstore, h⟩ := Option.bind_eq_some_iff.mp h
      cases h
      exact .idle hstore

theorem pickNextTask_cases {s s' : Scheduler} {cpu : Nat} {previous result : Option Nat}
    (h : s.pickNextTask cpu previous = some (s', result)) :
    ∃ s₁,
      (∃ id cls, s.selectTask cpu = some (s₁, some (id, cls)) ∧
        s₁.Dispatches cpu previous id cls s') ∨
      (s.selectTask cpu = some (s₁, none) ∧ s₁.Resumes cpu s') := by
  obtain ⟨s₁, found, hselect, hends⟩ := pickNextTask_ends h
  refine ⟨s₁, ?_⟩
  cases hends with
  | dispatched hdispatches =>
    exact Or.inl ⟨_, _, hselect, hdispatches⟩
  | resumed _ hrunning hcurrent hstore =>
    exact Or.inr ⟨hselect, Or.inl ⟨_, _, _, hrunning, hcurrent, hstore⟩⟩
  | stopped =>
    exact Or.inr ⟨hselect, Or.inr (Or.inl rfl)⟩
  | idle hstore =>
    exact Or.inr ⟨hselect, Or.inr (Or.inr hstore)⟩

/-! ## What a pick leaves alone -/

section Fields

variable {α : Type}

/-- A field of the tasks is the same in both states. -/
def SameField (field : Task → α)
    (s s' : Scheduler) : Prop :=
  ∀ id, (s'.tasks id).map field = (s.tasks id).map field

/-- A field that no write of a pick changes. -/
structure Fixed
    (field : Task → α) : Prop where
  queued : ∀ t b, field { t with queued := b } = field t
  deficit : ∀ t d, field { t with deficit := d } = field t
  state : ∀ t st, field { t with state := st } = field t
  dispatch : ∀ t id cpu previous, field (t.dispatch id cpu previous) = field t

namespace SameField

variable {field : Task → α}
variable {s s' s'' : Scheduler}

theorem trans (h : SameField field s s')
    (h' : SameField field s' s'') :
    SameField field s s'' :=
  fun id => (h' id).trans (h id)

theorem of_tasks_eq
    (h : s'.tasks = s.tasks) :
    SameField field s s' :=
  fun id => by rw [h]

theorem modifyTask {id : Nat} {f : Task → Task} (hm : s.modifyTask id f = some s')
    (hf : ∀ t, field (f t) = field t) :
    SameField field s s' := by
  obtain ⟨t, ht, rfl⟩ := modifyTask_eq_some.mp hm
  intro j
  by_cases hj : j = id
  · subst hj
    simp [ht, hf]
  · simp [Function.update_of_ne hj]

theorem modifyCpu {cpu : Nat} {f : CpuRunQueue → CpuRunQueue}
    (hm : s.modifyCpu cpu f = some s') :
    SameField field s s' := by
  obtain ⟨rq, -, rfl⟩ := modifyCpu_eq_some.mp hm
  exact of_tasks_eq rfl

theorem storeCurrentTaskId {cpu id : Nat}
    (hm : s.storeCurrentTaskId cpu id = some s') :
    SameField field s s' := by
  obtain ⟨-, rfl⟩ := storeCurrentTaskId_eq_some.mp hm
  exact of_tasks_eq rfl

theorem enqueueTask {id : Nat} (hqueued : ∀ t b, field { t with queued := b } = field t)
    (he : s.enqueueTask id = some s') :
    SameField field s s' := by
  obtain ⟨t, -, ⟨s₁, -, hcpu, htask⟩ | ⟨-, rfl⟩⟩ := enqueueTask_cases he
  · exact (modifyCpu hcpu).trans (modifyTask htask fun t => hqueued t true)
  · exact of_tasks_eq rfl

theorem withDeficits (hdeficit : ∀ t d, field { t with deficit := d } = field t)
    (d : Nat → Int) :
    SameField field s (s.withDeficits d) := by
  intro id
  simp only [Scheduler.withDeficits]
  cases s.tasks id with
  | none =>
    rfl
  | some t =>
    exact congrArg some (hdeficit t (d id))

theorem selectTask {cpu : Nat} {found : Option (Nat × TaskClass)}
    (hqueued : ∀ t b, field { t with queued := b } = field t)
    (hdeficit : ∀ t d, field { t with deficit := d } = field t)
    (h : s.selectTask cpu = some (s', found)) :
    SameField field s s' := by
  cases found with
  | none =>
    obtain ⟨rq, D, d, -, rfl, -⟩ := selectTask_eq_none h
    have hD : SameField field s (s.withClassDeficits cpu rq D) := of_tasks_eq rfl
    exact hD.trans (withDeficits hdeficit d)
  | some picked =>
    obtain ⟨rq, D, -, ⟨-, -, d, htake⟩, -⟩ := selectTask_eq_some h
    obtain ⟨s₁, hcpu, htask⟩ := Option.bind_eq_some_iff.mp htake
    have hD : SameField field s (s.withClassDeficits cpu rq D) := of_tasks_eq rfl
    exact ((hD.trans (withDeficits hdeficit d)).trans (modifyCpu hcpu)).trans
      (modifyTask htask fun t => hqueued t false)

theorem pickNextTask {cpu : Nat} {previous result : Option Nat} (hfixed : Fixed field)
    (h : s.pickNextTask cpu previous = some (s', result)) :
    SameField field s s' := by
  obtain ⟨s₁, ⟨id, cls, hselect, hdispatches⟩ | ⟨hselect, hresumes⟩⟩ := pickNextTask_cases h
  · obtain ⟨s₂, s₃, s₄, hserve, hdispatch, hcurrent, hstore⟩ := hdispatches
    exact (((((selectTask hfixed.queued hfixed.deficit hselect).trans (modifyCpu hserve)).trans
      (modifyTask hdispatch fun t => hfixed.dispatch t id cpu previous)).trans
      (modifyCpu hcurrent))).trans (storeCurrentTaskId hstore)
  · have h₁ := selectTask hfixed.queued hfixed.deficit hselect
    rcases hresumes with ⟨id, s₂, s₃, hrunning, hcurrent, hstore⟩ | rfl | hstore
    · exact ((h₁.trans (modifyTask hrunning fun t => hfixed.state t .running)).trans
        (modifyCpu hcurrent)).trans (storeCurrentTaskId hstore)
    · exact h₁
    · exact h₁.trans (storeCurrentTaskId hstore)

end SameField

end Fields

end Scheduler
end Kernel
end Theos
