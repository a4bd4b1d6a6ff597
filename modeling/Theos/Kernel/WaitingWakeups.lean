import Theos.Kernel.SchedulerContext
import Theos.Kernel.SchedulerQueues
import Theos.Kernel.Waiting

/-!
# Lost wakeups

A task that is blocked in `wait_for_single_object` is made Ready only by a
`wake_waiters` that finds it listed.  A wait registers its task once, before the
loop, and `wake_waiters` takes the whole list, so the listing is lost in two ways:

* the list is taken between the failed check of a task and its `block_current`;
  `wake_task` then finds it running and ignores it;
* a task whose listing was taken checks again and finds the signal already
  consumed by another one, and blocks without being listed.

In every run in which neither happens, a sleeping task is listed or about to be
woken by a `wake_waiters` that has taken its list.
-/

namespace Theos
namespace Kernel
namespace Waiting

open Base
open Nt

/-- The object a task is in the loop of a wait for, with the id it registered. -/
def Pc.loop : Pc → Option (Nat × Nat)
  | .waitCheck o tid => some (o, tid)
  | .waitBlock o tid => some (o, tid)
  | .waitHalt o tid => some (o, tid)
  | .waitDone o tid => some (o, tid)
  | _ => none

/-- The tasks a `wake_waiters(o)` under way has still to wake. -/
def Pc.pending (o : Nat) : Pc → List Nat
  | .waking o' rest _ _ => if o' = o then rest else []
  | _ => []

/-- A task in the loop of a wait for `o` that is blocked: it has not been made Ready
since, and it has not returned. -/
def Sleeps (w : World) (t o : Nat) : Prop :=
  (∃ tid, (w.pc t).loop = some (o, tid)) ∧ w.sched.Blocked t

/-- Some `wake_waiters(o)` has taken the task from the list and will wake it. -/
def InFlight (w : World) (t o : Nat) : Prop :=
  ∃ u, t ∈ (w.pc u).pending o

/-- Nobody sleeps unlisted. -/
def NoLostWakeup (w : World) : Prop :=
  ∀ t o, Sleeps w t o → t ∈ w.waiters o ∨ InFlight w t o

/-- A `wake_waiters(o)` that is run makes every blocked task of its list Ready. -/
def WakesListed (w : World) : Prop :=
  ∀ cpu u o objects exits w', w.executing cpu = some u → w.pc u = .wake (o :: objects) exits →
    runAll step w (List.replicate ((w.waiters o).length + 1) (.run cpu)) = some w' →
    ∀ t, t ∈ w.waiters o → w.sched.Blocked t → w'.sched.stateOf t = some .ready

/-- An object that can be waited for and is not signaled. -/
def Unsignaled (m : ObjectManager) (o : Nat) : Prop :=
  ∃ record, m.objects o = some record ∧
    match record.data with
    | .event event => event.signaled = false
    | .process process => process.signaled = false
    | .thread thread => thread.signaled = false
    | _ => False

/-- What has to hold before a step: no list is taken while a task is between its failed
check and `block_current`, and a task that is not listed finds its object signaled. -/
def Timely (w : World) : Event → Prop
  | .run cpu => ∀ t, w.executing cpu = some t →
      match w.pc t with
      | .wake (o :: _) _ => ∀ u tid, w.pc u ≠ .waitBlock o tid
      | .waitCheck o _ => t ∈ w.waiters o ∨ ¬ Unsignaled w.objects o
      | _ => True
  | _ => True

/-- The check fails for the objects that are not signaled. -/
theorem consumeWaitableSignal_eq_false_iff
    (m : ObjectManager) (o : Nat) :
    (consumeWaitableSignal m o).1 = .ok false ↔ Unsignaled m o := by
  cases hrecord : m.objects o with
  | none =>
    simp [consumeWaitableSignal, ObjectManager.withEventMut, ObjectManager.process,
      ObjectManager.thread, Unsignaled, hrecord]
  | some record =>
    cases hdata : record.data with
    | event event =>
      cases hsignaled : event.signaled <;>
        simp [consumeWaitableSignal, ObjectManager.withEventMut, Unsignaled, hrecord, hdata,
          hsignaled]
    | _ =>
      simp [consumeWaitableSignal, ObjectManager.withEventMut, ObjectManager.process,
        ObjectManager.thread, Unsignaled, hrecord, hdata]

/-! ## The invariant -/

/-- What the scheduler and the loaded contexts have to do with each other. -/
structure Loaded (w : World) : Prop where
  current : ∀ cpu t, w.sched.currentTask cpu = some t → w.executing cpu = some t
  taskIds : ∀ cpu t, w.executing cpu = some t →
    w.sched.currentTaskIds cpu = 0 ∨ w.sched.currentTaskIds cpu = t

/-- The state of the waits. -/
structure Waits (w : World) : Prop where
  own : ∀ t o tid, (w.pc t).loop = some (o, tid) → tid = t
  listed : ∀ t o tid, w.pc t = .waitBlock o tid → t ∈ w.waiters o
  safe : NoLostWakeup w

theorem executing_load
    (w : World) (cpu : Nat) (sched : Scheduler) (picked : Option Nat) :
    (w.load cpu sched picked).executing =
      if picked.isSome then Function.update w.executing cpu (sched.currentTask cpu)
      else w.executing :=
  rfl

namespace Loaded

variable {w w' : World}

theorem of_eq (h : Loaded w) (hcurrent : ∀ cpu, w'.sched.currentTask cpu = w.sched.currentTask cpu)
    (htaskIds : w'.sched.currentTaskIds = w.sched.currentTaskIds)
    (hexecuting : w'.executing = w.executing) :
    Loaded w' := by
  constructor
  · intro cpu t ht
    rw [hexecuting]
    exact h.current cpu t (hcurrent cpu ▸ ht)
  · intro cpu t ht
    rw [htaskIds]
    exact h.taskIds cpu t (hexecuting ▸ ht)

/-- A pick loads what it returns. -/
theorem load (h : Loaded w) {cpu : Nat} {s s' : Scheduler} {picked : Option Nat}
    (hbefore : Scheduler.Keeps (some cpu) w.sched s)
    (hcurrent : s.currentTask cpu = none ∨ s.currentTask cpu = w.sched.currentTask cpu)
    (htaskIds : s.currentTaskIds cpu = w.sched.currentTaskIds cpu)
    (hpicked : Scheduler.Picked cpu s s' picked) :
    Loaded (w.load cpu s' picked) := by
  have hkeeps := hbefore.trans hpicked.keeps
  constructor
  · intro k t ht
    replace ht : s'.currentTask k = some t := ht
    by_cases hk : k = cpu
    · subst hk
      cases hresult : picked with
      | some rsp =>
        simpa [executing_load] using ht
      | none =>
        obtain ⟨hsame, -⟩ := hpicked.of_none hresult
        rw [hsame] at ht
        rcases hcurrent with hnone | hold
        · simp [hnone] at ht
        · simpa [executing_load] using h.current k t (hold ▸ ht)
    · have hold := hkeeps.current k (by simpa using hk)
      have hexec := h.current k t (hold ▸ ht)
      rw [executing_load]
      split
      · rw [Function.update_of_ne hk]
        exact hexec
      · exact hexec
  · intro k t ht
    by_cases hk : k = cpu
    · subst hk
      cases hresult : picked with
      | some rsp =>
        obtain ⟨id, hid, hstored⟩ := hpicked.of_some (by simp [hresult])
        have hloaded : s'.currentTask k = some t := by
          simpa [executing_load, hresult] using ht
        rw [hid, Option.some.injEq] at hloaded
        exact Or.inr (hstored.trans hloaded)
      | none =>
        have hexec : w.executing k = some t := by
          simpa [executing_load, hresult] using ht
        rcases (hpicked.of_none hresult).2 with hsame | hzero
        · have hids := h.taskIds k t hexec
          rw [← htaskIds, ← hsame] at hids
          exact hids
        · exact Or.inl hzero
    · have hexec : w.executing k = some t := by
        rw [executing_load] at ht
        split at ht
        · rwa [Function.update_of_ne hk] at ht
        · exact ht
      have hids := h.taskIds k t hexec
      rw [← hkeeps.taskIds k (by simpa using hk)] at hids
      exact hids

end Loaded

/-! ## What a step may do to the waits -/

namespace Waits

variable {w w' : World}

/-- The step of one task: the others stay where they are.  Whoever was listed or in
flight still is, or is no longer blocked. -/
theorem move (h : Waits w) (t : Nat) (pc : Pc) (hpc : w'.pc = Function.update w.pc t pc)
    (hblocked : ∀ u, u ≠ t → w'.sched.Blocked u → w.sched.Blocked u)
    (hlisted : ∀ u o, u ≠ t → u ∈ w.waiters o → u ∈ w'.waiters o ∨ u ∈ pc.pending o)
    (hpending : ∀ u o, u ≠ t → u ∈ (w.pc t).pending o →
      u ∈ pc.pending o ∨ ¬ w'.sched.Blocked u)
    (hwindow : ∀ u o tid, u ≠ t → w.pc u = .waitBlock o tid → u ∈ w'.waiters o)
    (hself : ∀ o tid, pc.loop = some (o, tid) → tid = t ∧
      (w'.sched.Blocked t → t ∈ w'.waiters o ∨ ∃ u, u ≠ t ∧ t ∈ (w.pc u).pending o))
    (hblock : ∀ o tid, pc = .waitBlock o tid → t ∈ w'.waiters o) :
    Waits w' := by
  have hother : ∀ u, u ≠ t → w'.pc u = w.pc u := by
    intro u hu
    rw [hpc, Function.update_of_ne hu]
  have hmoved : w'.pc t = pc := by
    rw [hpc, Function.update_self]
  constructor
  · intro u o tid hu
    by_cases hut : u = t
    · subst hut
      exact (hself o tid (hmoved ▸ hu)).1
    · exact h.own u o tid (hother u hut ▸ hu)
  · intro u o tid hu
    by_cases hut : u = t
    · subst hut
      exact hblock o tid (hmoved ▸ hu)
    · exact hwindow u o tid hut (hother u hut ▸ hu)
  · rintro u o ⟨⟨tid, hloop⟩, hsleeps⟩
    by_cases hut : u = t
    · subst hut
      rcases (hself o tid (hmoved ▸ hloop)).2 hsleeps with hin | ⟨v, hv, hin⟩
      · exact Or.inl hin
      · exact Or.inr ⟨v, by rw [hother v hv]; exact hin⟩
    · have hbefore : Sleeps w u o := ⟨⟨tid, hother u hut ▸ hloop⟩, hblocked u hut hsleeps⟩
      rcases h.safe u o hbefore with hin | ⟨v, hin⟩
      · exact (hlisted u o hut hin).imp_right fun hp => ⟨t, by rw [hmoved]; exact hp⟩
      · by_cases hv : v = t
        · subst hv
          rcases hpending u o hut hin with hp | hawake
          · exact Or.inr ⟨v, by rw [hmoved]; exact hp⟩
          · exact absurd hsleeps hawake
        · exact Or.inr ⟨v, by rw [hother v hv]; exact hin⟩

/-- A step that leaves the program counters and the lists alone. -/
theorem of_sched (h : Waits w) (hpc : w'.pc = w.pc) (hwaiters : w'.waiters = w.waiters)
    (hblocked : ∀ u, w'.sched.Blocked u → w.sched.Blocked u) :
    Waits w' := by
  refine ⟨?_, ?_, ?_⟩
  · rw [hpc]
    exact h.own
  · rw [hpc, hwaiters]
    exact h.listed
  · rintro t o ⟨hloop, hsleeps⟩
    simp only [InFlight, hpc, hwaiters] at hloop ⊢
    exact h.safe t o ⟨hloop, hblocked t hsleeps⟩

/-- A piece of a call that neither lists nor wakes anybody and ends outside the loop. -/
theorem leave (h : Waits w) {t : Nat} {pc : Pc} (hpc : w'.pc = Function.update w.pc t pc)
    (hwaiters : w'.waiters = w.waiters) (hblocked : ∀ u, w'.sched.Blocked u → w.sched.Blocked u)
    (hpending : ∀ o, (w.pc t).pending o = [])
    (hloop : pc.loop = none) :
    Waits w' := by
  apply h.move _ _ hpc
  · exact fun u _ => hblocked u
  · intro u o _ hu
    exact Or.inl (hwaiters ▸ hu)
  · intro u o _ hu
    rw [hpending] at hu
    exact absurd hu List.not_mem_nil
  · intro u o tid _ hu
    exact hwaiters ▸ h.listed u o tid hu
  · intro o tid ho
    rw [hloop] at ho
    exact absurd ho (by simp)
  · intro o tid ho
    rw [ho] at hloop
    exact absurd hloop (by simp [Pc.loop])

/-- A piece of the loop of a wait: it goes on waiting for the same object. -/
theorem goOn (h : Waits w) {t o tid : Nat} {pc : Pc} (hpc : w'.pc = Function.update w.pc t pc)
    (hwaiters : w'.waiters = w.waiters)
    (hblocked : ∀ u, u ≠ t → w'.sched.Blocked u → w.sched.Blocked u)
    (hbefore : (w.pc t).loop = some (o, tid)) (hloop : pc.loop = some (o, tid))
    (hself : t ∈ w.waiters o ∨ (w'.sched.Blocked t → w.sched.Blocked t) ∧
      pc ≠ .waitBlock o tid) :
    Waits w' := by
  have hpending : ∀ o', (w.pc t).pending o' = [] := by
    intro o'
    revert hbefore
    cases w.pc t <;> simp [Pc.loop, Pc.pending]
  apply h.move _ _ hpc hblocked
  · intro u o' _ hu
    exact Or.inl (hwaiters ▸ hu)
  · intro u o' _ hu
    rw [hpending] at hu
    exact absurd hu List.not_mem_nil
  · intro u o' tid' _ hu
    exact hwaiters ▸ h.listed u o' tid' hu
  · intro o' tid' ho
    obtain ⟨rfl, rfl⟩ : o = o' ∧ tid = tid' := by simpa [hloop] using ho
    refine ⟨h.own t o tid hbefore, fun hsleeps => ?_⟩
    rw [hwaiters]
    rcases hself with hin | ⟨hstill, -⟩
    · exact Or.inl hin
    · rcases h.safe t o ⟨⟨tid, hbefore⟩, hstill hsleeps⟩ with hin | ⟨v, hv⟩
      · exact Or.inl hin
      · refine Or.inr ⟨v, ?_, hv⟩
        rintro rfl
        rw [hpending] at hv
        exact absurd hv List.not_mem_nil
  · intro o' tid' ho
    obtain ⟨rfl, rfl⟩ : o = o' ∧ tid = tid' := by
      rw [ho] at hloop
      simpa [Pc.loop, eq_comm] using hloop
    rw [hwaiters]
    exact hself.resolve_right fun hne => hne.2 ho

/-- `register_waiter`. -/
theorem register (h : Waits w) {t o : Nat}
    (hpc : w.pc t = .waitRegister o) :
    Waits ((w.registerWaiter o t).setPc t (.waitCheck o t)) := by
  have hmono : ∀ u o', u ∈ w.waiters o' → u ∈ (w.registerWaiter o t).waiters o' := by
    intro u o' hu
    simp only [World.registerWaiter]
    split
    · exact hu
    · simp only [Function.update_apply]
      split
      next heq =>
        exact List.mem_append_left _ (heq ▸ hu)
      next =>
        exact hu
  have hin : t ∈ (w.registerWaiter o t).waiters o := by
    simp only [World.registerWaiter]
    split
    · assumption
    · simp
  have hsched : (w.registerWaiter o t).sched = w.sched := by
    simp only [World.registerWaiter]
    split <;> rfl
  have hpcs : (w.registerWaiter o t).pc = w.pc := by
    simp only [World.registerWaiter]
    split <;> rfl
  apply h.move t (.waitCheck o t)
  · simp [World.setPc, hpcs]
  · intro u _ hu
    simpa [World.setPc, hsched] using hu
  · intro u o' _ hu
    exact Or.inl (hmono u o' hu)
  · intro u o' _ hu
    simp [hpc, Pc.pending] at hu
  · intro u o' tid _ hu
    exact hmono u o' (h.listed u o' tid hu)
  · intro o' tid ho
    obtain ⟨rfl, rfl⟩ : o = o' ∧ t = tid := by simpa [Pc.loop] using ho
    exact ⟨rfl, fun _ => Or.inl hin⟩
  · intro o' tid ho
    cases ho

/-- `unregister_waiter`. -/
theorem unregister (h : Waits w) {t o tid : Nat}
    (hpc : w.pc t = .waitDone o tid) :
    Waits ((w.unregisterWaiter o tid).setPc t .user) := by
  obtain rfl : tid = t := h.own t o tid (by rw [hpc]; rfl)
  have hmono : ∀ u o', u ≠ tid → u ∈ w.waiters o' →
      u ∈ (w.unregisterWaiter o tid).waiters o' := by
    intro u o' hne hu
    simp only [World.unregisterWaiter, Function.update_apply]
    split
    next heq =>
      subst heq
      simpa using ⟨hu, hne⟩
    next =>
      exact hu
  apply h.move tid .user
  · rfl
  · exact fun _ _ hu => hu
  · intro u o' hne hu
    exact Or.inl (hmono u o' hne hu)
  · intro u o' _ hu
    simp [hpc, Pc.pending] at hu
  · intro u o' tid' hne hu
    exact hmono u o' hne (h.listed u o' tid' hu)
  · intro o' tid' ho
    cases ho
  · intro o' tid' ho
    cases ho

/-- `wake_waiters` takes the list. -/
theorem take (h : Waits w) {t o : Nat} {objects : List Nat} {exits : Bool}
    (hpc : w.pc t = .wake (o :: objects) exits)
    (hwindow : ∀ u tid, w.pc u ≠ .waitBlock o tid) :
    Waits ({ w with waiters := Function.update w.waiters o [] }.setPc t
      (.waking o (w.waiters o) objects exits)) := by
  apply h.move t (.waking o (w.waiters o) objects exits)
  · rfl
  · exact fun _ _ hu => hu
  · intro u o' _ hu
    by_cases ho : o' = o
    · subst ho
      exact Or.inr (by simpa [Pc.pending] using hu)
    · exact Or.inl (by simpa [World.setPc, ho] using hu)
  · intro u o' _ hu
    simp [hpc, Pc.pending] at hu
  · intro u o' tid _ hu
    have hne : o' ≠ o := by
      rintro rfl
      exact hwindow u tid hu
    simpa [World.setPc, hne] using h.listed u o' tid hu
  · intro o' tid ho
    cases ho
  · intro o' tid ho
    cases ho

/-- `wake_waiters` wakes the next task of the list it took. -/
theorem wakeNext (h : Waits w)
    {t o v : Nat} {rest objects : List Nat} {exits : Bool} {sched : Scheduler}
    (hpc : w.pc t = .waking o (v :: rest) objects exits)
    (hwake : w.sched.wakeTask v = some sched) :
    Waits ({ w with sched := sched }.setPc t (.waking o rest objects exits)) := by
  obtain ⟨hkeeps, hawake⟩ := Scheduler.wakeTask_keeps hwake
  apply h.move t (.waking o rest objects exits)
  · rfl
  · exact fun u _ => hkeeps.blocked u
  · exact fun u o' _ hu => Or.inl hu
  · intro u o' _ hu
    by_cases hv : u = v
    · subst hv
      exact Or.inr hawake
    · left
      simp only [hpc, Pc.pending] at hu ⊢
      split at hu
      next ho =>
        simpa [ho, hv] using hu
      next =>
        exact absurd hu List.not_mem_nil
  · exact fun u o' tid _ hu => h.listed u o' tid hu
  · intro o' tid ho
    cases ho
  · intro o' tid ho
    cases ho

end Waits

/-! ## Steps -/

/-- The invariant of the machine. -/
structure Inv (w : World) : Prop where
  loaded : Loaded w
  waits : Waits w

namespace Inv

variable {w w' : World}

theorem new
    (objects : ObjectManager) :
    Inv (World.new objects) := by
  refine ⟨⟨?_, ?_⟩, ⟨?_, ?_, ?_⟩⟩
  · intro cpu t ht
    rcases cpu with _ | cpu <;>
      simp [World.new, Scheduler.currentTask, Scheduler.new, CpuRunQueue.new] at ht
  · intro cpu t ht
    cases ht
  · intro t o tid ht
    cases ht
  · intro t o tid ht
    cases ht
  · rintro t o ⟨⟨tid, ht⟩, -⟩
    cases ht

theorem tick (h : Inv w) {cpu currentRsp : Nat}
    (hstep : w.tick cpu currentRsp = some w') :
    Inv w' := by
  simp only [World.tick] at hstep
  split at hstep
  next =>
    obtain ⟨⟨s, previous⟩, haccount, hstep⟩ := Option.bind_eq_some_iff.mp hstep
    obtain ⟨⟨s', picked⟩, hpick, hstep⟩ := Option.bind_eq_some_iff.mp hstep
    simp only [Option.pure_def, Option.some.injEq] at hstep
    subst hstep
    obtain ⟨hkeeps, hnone, hids⟩ := Scheduler.accountTimerTick_keeps haccount
    have hpicked := Scheduler.pickNextTask_picked hpick
    exact ⟨h.loaded.load hkeeps (Or.inl hnone) hids hpicked,
      h.waits.of_sched rfl rfl (hkeeps.trans hpicked.keeps).blocked⟩
  next =>
    simp only [Option.pure_def, Option.some.injEq] at hstep
    exact hstep ▸ h

theorem start (h : Inv w) {sched : Scheduler} {picked : Option Nat}
    (hstart : w.sched.start = some (sched, picked)) :
    Inv (w.load 0 sched picked) := by
  have hpicked := Scheduler.pickNextTask_picked hstart
  have hkeeps : Scheduler.Keeps (some 0) w.sched { w.sched with started := true } :=
    ⟨fun _ hb => hb, fun _ _ => rfl, fun _ _ => rfl⟩
  exact ⟨h.loaded.load hkeeps (Or.inr rfl) rfl hpicked,
    h.waits.of_sched rfl rfl (hkeeps.trans hpicked.keeps).blocked⟩

/-- `exit_current` of the scheduler, at the end of the call. -/
theorem exit (h : Inv w) {cpu t : Nat} {sched : Scheduler} {picked : Option Nat}
    (hpc : w.pc t = .wake [] true)
    (hexit : w.sched.exitCurrent cpu = some (sched, picked)) :
    Inv ((w.load cpu sched picked).setPc t .exited) := by
  obtain ⟨s, hretire, hpick⟩ := Option.bind_eq_some_iff.mp hexit
  obtain ⟨hkeeps, hnone, hids⟩ := Scheduler.retireCurrent_keeps hretire
  have hpicked := Scheduler.pickNextTask_picked hpick
  have hload := h.loaded.load hkeeps (Or.inl hnone) hids hpicked
  refine ⟨hload.of_eq (fun _ => rfl) rfl rfl, ?_⟩
  exact h.waits.leave (t := t) rfl rfl (hkeeps.trans hpicked.keeps).blocked
    (fun o => by rw [hpc]; rfl) rfl

/-- A piece of a call that leaves the scheduler alone. -/
theorem of_waits (h : Inv w) (hsched : w'.sched = w.sched) (hexecuting : w'.executing = w.executing)
    (hwaits : Waits w') :
    Inv w' :=
  ⟨h.loaded.of_eq (fun _ => by rw [hsched]) (by rw [hsched]) hexecuting, hwaits⟩

/-- A piece of a call that leaves the scheduler and the lists alone and ends outside the
loop of a wait. -/
theorem leave (h : Inv w) {t : Nat} {pc : Pc} {objects : ObjectManager}
    (hpending : ∀ o, (w.pc t).pending o = [])
    (hloop : pc.loop = none) :
    Inv ({ w with objects := objects }.setPc t pc) :=
  h.of_waits rfl rfl (h.waits.leave rfl rfl (fun _ hb => hb) hpending hloop)

/-- The check of the loop. -/
theorem check (h : Inv w) {t o tid : Nat} (hpc : w.pc t = .waitCheck o tid)
    (htimely : t ∈ w.waiters o ∨ ¬ Unsignaled w.objects o) :
    Inv (w.check t o tid) := by
  have hbefore : (w.pc t).loop = some (o, tid) := by
    rw [hpc]
    rfl
  simp only [World.check]
  split
  next m hconsume =>
    have hquiet : Unsignaled w.objects o := by
      rw [← consumeWaitableSignal_eq_false_iff, hconsume]
    have hin := htimely.resolve_right (not_not_intro hquiet)
    exact h.of_waits rfl rfl
      (h.waits.goOn rfl rfl (fun _ _ hb => hb) hbefore rfl (Or.inl hin))
  next =>
    exact h.of_waits rfl rfl
      (h.waits.goOn rfl rfl (fun _ _ hb => hb) hbefore rfl
        (Or.inr ⟨fun hb => hb, by simp⟩))

/-- `block_current` in the loop. -/
theorem block (h : Inv w) {cpu t o tid : Nat} {sched : Scheduler}
    (hexecuting : w.executing cpu = some t) (hpc : w.pc t = .waitBlock o tid)
    (hblock : w.sched.blockCurrent cpu = some sched) :
    Inv ({ w with sched := sched }.setPc t (.waitHalt o tid)) := by
  obtain ⟨hblocked, hcurrent, hids⟩ := Scheduler.blockCurrent_blocked hblock
  refine ⟨h.loaded.of_eq hcurrent hids rfl, ?_⟩
  have hin := h.waits.listed t o tid hpc
  have hbefore : (w.pc t).loop = some (o, tid) := by
    rw [hpc]
    rfl
  refine h.waits.goOn rfl rfl ?_ hbefore rfl (Or.inl hin)
  intro u hu hb
  rcases hblocked u hb with hold | hrunning
  · exact hold
  · -- only the task loaded on this CPU can be its current one
    have hloaded := h.loaded.current cpu u hrunning
    rw [hexecuting, Option.some.injEq] at hloaded
    exact absurd hloaded.symm hu

/-- One piece of the call a task is in. -/
theorem runTask (h : Inv w) {cpu t : Nat} (hexecuting : w.executing cpu = some t)
    (htimely : Timely w (.run cpu))
    (hrun : w.runTask cpu t = some w') :
    Inv w' := by
  have htimely := htimely t hexecuting
  cases hpc : w.pc t with
  | user | exited =>
    simp [World.runTask, hpc] at hrun
  | waitFirst o =>
    simp only [World.runTask, hpc] at hrun
    split at hrun <;> cases hrun <;> exact h.leave (by simp [hpc, Pc.pending]) rfl
  | waitPoll o =>
    simp only [World.runTask, hpc, Option.some.injEq] at hrun
    exact hrun ▸ h.leave (by simp [hpc, Pc.pending]) rfl
  | waitRegister o =>
    simp only [World.runTask, hpc] at hrun
    split at hrun
    next =>
      cases hrun
      exact h.leave (by simp [hpc, Pc.pending]) rfl
    next hzero =>
      cases hrun
      obtain htid := (h.loaded.taskIds cpu t hexecuting).resolve_left hzero
      rw [htid]
      exact h.of_waits (by simp only [World.registerWaiter]; split <;> rfl)
        (by simp only [World.registerWaiter]; split <;> rfl) (h.waits.register hpc)
  | waitCheck o tid =>
    simp only [World.runTask, hpc, Option.some.injEq] at hrun
    simp only [hpc] at htimely
    exact hrun ▸ h.check hpc htimely
  | waitBlock o tid =>
    simp only [World.runTask, hpc, Option.map_eq_some_iff] at hrun
    obtain ⟨sched, hblock, rfl⟩ := hrun
    exact h.block hexecuting hpc hblock
  | waitHalt o tid =>
    simp only [World.runTask, hpc, Option.some.injEq] at hrun
    subst hrun
    exact h.of_waits rfl rfl (h.waits.goOn rfl rfl (fun _ _ hb => hb) (by rw [hpc]; rfl) rfl
      (Or.inr ⟨fun hb => hb, by simp⟩))
  | waitDone o tid =>
    simp only [World.runTask, hpc, Option.some.injEq] at hrun
    exact hrun ▸ h.of_waits rfl rfl (h.waits.unregister hpc)
  | setEvent o =>
    simp only [World.runTask, hpc] at hrun
    split at hrun <;> cases hrun <;> exact h.leave (by simp [hpc, Pc.pending]) rfl
  | clearEvent o =>
    simp only [World.runTask, hpc, Option.some.injEq] at hrun
    exact hrun ▸ h.leave (by simp [hpc, Pc.pending]) rfl
  | exitRelease ids threadObject processObject status =>
    cases ids <;> simp only [World.runTask, hpc, Option.some.injEq] at hrun <;>
      exact hrun ▸ h.leave (by simp [hpc, Pc.pending]) rfl
  | exitThread threadObject processObject status =>
    simp only [World.runTask, hpc, Option.some.injEq] at hrun
    exact hrun ▸ h.leave (by simp [hpc, Pc.pending]) rfl
  | exitProcess threadObject processObject status =>
    simp only [World.runTask, hpc, Option.some.injEq] at hrun
    exact hrun ▸ h.leave (by simp [hpc, Pc.pending]) rfl
  | wake objects exits =>
    cases objects with
    | nil =>
      cases exits with
      | false =>
        simp only [World.runTask, hpc, Option.some.injEq] at hrun
        exact hrun ▸ h.leave (by simp [hpc, Pc.pending]) rfl
      | true =>
        simp only [World.runTask, hpc, Option.map_eq_some_iff] at hrun
        obtain ⟨⟨sched, picked⟩, hexit, rfl⟩ := hrun
        exact h.exit hpc hexit
    | cons o objects =>
      simp only [World.runTask, hpc, Option.some.injEq] at hrun
      simp only [hpc] at htimely
      exact hrun ▸ h.of_waits rfl rfl (h.waits.take hpc htimely)
  | waking o rest objects exits =>
    cases rest with
    | nil =>
      simp only [World.runTask, hpc, Option.some.injEq] at hrun
      exact hrun ▸ h.leave (by simp [hpc, Pc.pending]) rfl
    | cons v rest =>
      simp only [World.runTask, hpc, Option.map_eq_some_iff] at hrun
      obtain ⟨sched, hwake, rfl⟩ := hrun
      have hkeeps := (Scheduler.wakeTask_keeps hwake).1
      exact ⟨h.loaded.of_eq (fun k => hkeeps.current k (by simp))
        (funext fun k => hkeeps.taskIds k (by simp)) rfl, h.waits.wakeNext hpc hwake⟩

/-- Where a call begins, nobody waits or wakes yet. -/
theorem call (h : Inv w) {t : Nat} (hpc : w.pc t = .user)
    (c : Call) :
    Inv (w.setPc t c.entry) :=
  h.leave (by simp [hpc, Pc.pending]) (by cases c <;> rfl)

theorem step (h : Inv w) {event : Event} (htimely : Timely w event)
    (hstep : step w event = some w') :
    Inv w' := by
  cases event with
  | configureTopology cpuCount =>
    simp only [Waiting.step, Option.some.injEq] at hstep
    subst hstep
    obtain ⟨hblocked, hcurrent, hids⟩ := w.sched.configureTopology_keeps cpuCount
    refine ⟨⟨fun cpu t ht => h.loaded.current cpu t (hcurrent cpu t ht), ?_⟩,
      h.waits.of_sched rfl rfl hblocked⟩
    intro cpu t ht
    rw [hids]
    exact h.loaded.taskIds cpu t ht
  | addTask id threadId savedRsp params =>
    simp only [Waiting.step, Option.map_eq_some_iff] at hstep
    obtain ⟨sched, hadd, rfl⟩ := hstep
    simp only [Scheduler.step] at hadd
    split at hadd
    next =>
      cases hadd
    next =>
      have hkeeps := Scheduler.addTask_keeps rfl hadd
      exact ⟨h.loaded.of_eq (fun k => hkeeps.current k (by simp))
        (funext fun k => hkeeps.taskIds k (by simp)) rfl,
        h.waits.of_sched rfl rfl hkeeps.blocked⟩
  | start =>
    simp only [Waiting.step, Option.map_eq_some_iff] at hstep
    obtain ⟨⟨sched, picked⟩, hstart, rfl⟩ := hstep
    exact h.start hstart
  | tick cpu currentRsp =>
    exact h.tick hstep
  | call cpu c =>
    obtain ⟨t, -, hstep⟩ := Option.bind_eq_some_iff.mp hstep
    split at hstep
    next hpc =>
      exact Option.some.inj hstep ▸ h.call hpc c
    next =>
      cases hstep
  | run cpu =>
    obtain ⟨t, hexecuting, hstep⟩ := Option.bind_eq_some_iff.mp hstep
    exact h.runTask hexecuting htimely hstep

end Inv

/-! ## The next wake -/

/-- The loop of `wake_waiters` over the list it took. -/
theorem stateOf_of_waking {cpu u o : Nat} {objects : List Nat} {exits : Bool} {w' : World}
    (rest : List Nat) (w : World) (hexecuting : w.executing cpu = some u)
    (hpc : w.pc u = .waking o rest objects exits)
    (hrun : runAll step w (List.replicate rest.length (.run cpu)) = some w') {t : Nat}
    (hstate : w.sched.stateOf t = some .ready ∨
      t ∈ rest ∧ w.sched.stateOf t = some .blocked) :
    w'.sched.stateOf t = some .ready := by
  induction rest generalizing w with
  | nil =>
    simp only [List.length_nil, List.replicate_zero, runAll, Option.some.injEq] at hrun
    subst hrun
    exact hstate.resolve_right (by simp)
  | cons v rest ih =>
    simp only [List.length_cons, List.replicate_succ, runAll] at hrun
    split at hrun
    next =>
      cases hrun
    next w₁ hstep =>
      have hstep : (w.sched.wakeTask v).map (fun sched =>
          { w with sched := sched }.setPc u (.waking o rest objects exits)) = some w₁ := by
        simpa [step, hexecuting, World.runTask, hpc] using hstep
      obtain ⟨sched, hwake, rfl⟩ := Option.map_eq_some_iff.mp hstep
      refine ih _ ?_ ?_ hrun ?_
      · exact hexecuting
      · simp only [World.setPc, Function.update_self]
      have hnow := Scheduler.wakeTask_stateOf hwake t
      change sched.stateOf t = _ ∨ _ ∧ sched.stateOf t = _
      rw [hnow]
      by_cases htv : t = v
      · subst htv
        rcases hstate with hready | ⟨-, hblocked⟩
        · simp [hready]
        · simp [hblocked]
      · simpa [htv] using hstate

theorem wakesListed
    (w : World) :
    WakesListed w := by
  intro cpu u o objects exits w' hexecuting hpc hrun t hin hblocked
  simp only [List.replicate_succ, runAll] at hrun
  split at hrun
  next =>
    cases hrun
  next w₁ hstep =>
    have htaken : { w with waiters := Function.update w.waiters o [] }.setPc u
        (.waking o (w.waiters o) objects exits) = w₁ := by
      simpa [step, hexecuting, World.runTask, hpc] using hstep
    subst htaken
    have hnext : (({ w with waiters := Function.update w.waiters o [] }.setPc u
        (.waking o (w.waiters o) objects exits)).pc u) = .waking o (w.waiters o) objects exits := by
      simp only [World.setPc, Function.update_self]
    refine stateOf_of_waking (w.waiters o) _ ?_ hnext hrun (Or.inr ⟨hin, ?_⟩)
    · exact hexecuting
    · exact Scheduler.blocked_iff.mp hblocked

/-! ## Runs -/

/-- No wakeup is lost in a run whose steps are all timely. -/
theorem no_lost_wakeup (objects : ObjectManager) (events : List Event) (w : World)
    (hrun : Run (fun w event w' => Timely w event ∧ step w event = some w')
      (World.new objects) events w) :
    NoLostWakeup w ∧ WakesListed w := by
  have hinv : Inv w :=
    hrun.invariant (P := Inv) (fun _ _ _ h hstep => h.step hstep.1 hstep.2) (Inv.new objects)
  exact ⟨hinv.waits.safe, wakesListed w⟩

/-- One object: an auto-reset event that is not signaled. -/
def oneEvent : ObjectManager :=
  (ObjectManager.new.insertUnnamed (.event ⟨false, false⟩)).2

/-- Two tasks on two CPUs. -/
def twoTasks : List Event :=
  [.configureTopology 2, .addTask 1 0 0 Scheduler.plainParams,
    .addTask 2 0 0 Scheduler.plainParams, .start, .tick 1 0]

/-- The first waits and blocks, then the second sets the event and wakes it. -/
def waitThenSet : List Event :=
  twoTasks ++
    [.call 0 (.waitForSingleObject 1), .run 0, .run 0, .run 0, .run 0,
      .call 1 (.setEvent 1), .run 1, .run 1, .run 1]

/-- The second sets the event between the failed check and `block_current` of the
first. -/
def setBeforeBlock : List Event :=
  twoTasks ++
    [.call 0 (.waitForSingleObject 1), .run 0, .run 0, .run 0,
      .call 1 (.setEvent 1), .run 1, .run 1, .run 1, .run 1, .run 1, .run 0]

/-- The piece of a task that takes no list and, if it checks again, is listed. -/
theorem timely_of_view {w : World} {cpu t o : Nat} (pc : Pc) (list : List Nat)
    (hview : some (some t, pc, list) = some (w.executing cpu, w.pc t, w.waiters o))
    (htake : ∀ o objects exits, pc ≠ .wake (o :: objects) exits)
    (hcheck : ∀ o' tid, pc = .waitCheck o' tid → o' = o ∧ t ∈ list) :
    Timely w (.run cpu) := by
  simp only [Option.some.injEq, Prod.mk.injEq] at hview
  obtain ⟨hexecuting, rfl, rfl⟩ := hview
  intro u hu
  obtain rfl : t = u := by simpa [← hexecuting] using hu
  split
  next heq =>
    exact absurd heq (htake _ _ _)
  next heq =>
    obtain ⟨rfl, hin⟩ := hcheck _ _ heq
    exact Or.inl hin
  next =>
    trivial

/-- The first task waits, blocks and is woken when the second sets the event. -/
theorem no_lost_wakeup_waitThenSet :
    ∃ w, Run (fun w event w' => Timely w event ∧ step w event = some w')
        (World.new oneEvent) waitThenSet w ∧ NoLostWakeup w ∧ WakesListed w := by
  have hdone : (runAll step (World.new oneEvent) waitThenSet).isSome := by
    rfl
  obtain ⟨w, hw⟩ := Option.isSome_iff_exists.mp hdone
  have hrun := run_of_runAll_of_forall (g := Timely) waitThenSet hw <| by
    intro k event v hevent hv
    have hsee {α : Type} (f : World → α) := congrArg (Option.map f) hv
    have hfirst := hsee fun w => (w.executing 0, w.pc 1, w.waiters 1)
    have hsecond := hsee fun w => (w.executing 1, w.pc 2, w.waiters 1)
    rcases k with _ | _ | _ | _ | _ | _ | _ | _ | _ | _ | _ | _ | _ | _ | k
    iterate 6 · cases hevent; exact trivial
    · cases hevent
      exact timely_of_view (t := 1) (o := 1) (.waitFirst 1) [] hfirst (by simp) (by simp)
    · cases hevent
      exact timely_of_view (t := 1) (o := 1) (.waitRegister 1) [] hfirst (by simp) (by simp)
    · cases hevent
      exact timely_of_view (t := 1) (o := 1) (.waitCheck 1 1) [1] hfirst (by simp) (by simp)
    · cases hevent
      exact timely_of_view (t := 1) (o := 1) (.waitBlock 1 1) [1] hfirst (by simp) (by simp)
    · cases hevent
      exact trivial
    · cases hevent
      exact timely_of_view (t := 2) (o := 1) (.setEvent 1) [1] hsecond (by simp) (by simp)
    · cases hevent
      have hexecuting : some (some 2) = some (v.executing 1) := hsee fun w => w.executing 1
      have hpcs : some (Pc.user, Pc.waitHalt 1 1, Pc.wake [1] false) =
          some (v.pc 0, v.pc 1, v.pc 2) := hsee fun w => (w.pc 0, w.pc 1, w.pc 2)
      have hothers (u : Nat) : some Pc.user = some (v.pc (u + 3)) := hsee fun w => w.pc (u + 3)
      simp only [Option.some.injEq, Prod.mk.injEq] at hexecuting hpcs hothers
      intro t ht
      obtain rfl : 2 = t := by simpa [← hexecuting] using ht
      rw [← hpcs.2.2]
      intro u tid
      match u with
      | 0 => simp [← hpcs.1]
      | 1 => simp [← hpcs.2.1]
      | 2 => simp [← hpcs.2.2]
      | u + 3 => simp [← hothers u]
    · cases hevent
      exact timely_of_view (t := 2) (o := 1) (.waking 1 [1] [] false) [] hsecond (by simp) (by simp)
    · cases hevent
  exact ⟨w, hrun, no_lost_wakeup oneEvent waitThenSet w hrun⟩

theorem wakeup_lost_before_block :
    ∃ w, Run (Det step) (World.new oneEvent) setBeforeBlock w ∧
      Sleeps w 1 1 ∧ 1 ∉ w.waiters 1 ∧ ¬ InFlight w 1 1 := by
  have hrun :
      (runAll step (World.new oneEvent) setBeforeBlock).map
        (fun w => (w.pc 0, w.pc 1, w.pc 2, w.sched.stateOf 1, w.waiters 1)) =
        some (.user, .waitHalt 1 1, .user, some .blocked, []) := by
    rfl
  have hothers (u : Nat) :
      (runAll step (World.new oneEvent) setBeforeBlock).map (fun w => w.pc (u + 3)) =
        some .user := by
    rfl
  obtain ⟨w, hw, hfinal⟩ := Option.map_eq_some_iff.mp hrun
  simp only [hw, Option.map_some, Option.some.injEq] at hothers
  simp only [Prod.mk.injEq] at hfinal
  obtain ⟨h₀, h₁, h₂, hstate, hwaiters⟩ := hfinal
  refine ⟨w, (runAll_eq_some_iff _ _ _ _).mp hw, ⟨⟨1, by rw [h₁]; rfl⟩, ?_⟩, ?_, ?_⟩
  · exact Scheduler.blocked_iff.mpr hstate
  · simp [hwaiters]
  · rintro ⟨u, hu⟩
    match u with
    | 0 => simp [h₀, Pc.pending] at hu
    | 1 => simp [h₁, Pc.pending] at hu
    | 2 => simp [h₂, Pc.pending] at hu
    | u + 3 => simp [hothers u, Pc.pending] at hu

end Waiting
end Kernel
end Theos
