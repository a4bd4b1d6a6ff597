import Theos.Kernel.Nt
import Theos.Kernel.SchedulerFairness
import Theos.Kernel.SchedulerPlacement

/-!
# The number of run queues and the CPUs that use them

`smp::init` releases the application processors, waits for them for a while and reads
how many have checked in; `configure_topology` makes that many run queues.  A processor
is numbered when it checks in, which may be later, and uses its number to index the run
queues from its first timer interrupt after `start` on.

The calls of the boot processor come in the order of `kernel_main`.  In between, the
application processors check in and take ticks in any order.  The result is that every
index is in range if no processor among the discovered ones checks in after the count has
been read.
-/

namespace Theos
namespace Kernel

open Base

namespace Scheduler

/-! ## The run queues of a scheduler -/

theorem length_cpus_of_rotor {s s' : Scheduler}
    (h : ∀ k : Nat, s'.cpus[k]?.map rotor = s.cpus[k]?.map rotor) :
    s'.cpus.length = s.cpus.length := by
  have hnone (k : Nat) : s'.cpus.length ≤ k ↔ s.cpus.length ≤ k := by
    rw [← List.getElem?_eq_none_iff, ← List.getElem?_eq_none_iff, ← Option.map_eq_none_iff, h k,
      Option.map_eq_none_iff]
  exact Nat.le_antisymm ((hnone _).mpr (Nat.le_refl _)) ((hnone _).mp (Nat.le_refl _))

theorem length_cpus_modifyCpu {s s' : Scheduler} {cpu : Nat} {f : CpuRunQueue → CpuRunQueue}
    (h : s.modifyCpu cpu f = some s') :
    s'.cpus.length = s.cpus.length := by
  obtain ⟨rq, -, rfl⟩ := modifyCpu_eq_some.mp h
  exact List.length_set

theorem length_cpus_modifyTask {s s' : Scheduler} {id : Nat} {f : Task → Task}
    (h : s.modifyTask id f = some s') :
    s'.cpus.length = s.cpus.length := by
  obtain ⟨t, -, rfl⟩ := modifyTask_eq_some.mp h
  rfl

theorem length_cpus_storeCurrentTaskId {s s' : Scheduler} {cpu id : Nat}
    (h : s.storeCurrentTaskId cpu id = some s') :
    s'.cpus.length = s.cpus.length := by
  obtain ⟨-, rfl⟩ := storeCurrentTaskId_eq_some.mp h
  rfl

theorem length_cpus_selectTask {s s' : Scheduler} {cpu : Nat} {found : Option (Nat × TaskClass)}
    (h : s.selectTask cpu = some (s', found)) :
    s'.cpus.length = s.cpus.length := by
  cases found with
  | none =>
    obtain ⟨rq, D, d, -, rfl, -⟩ := selectTask_eq_none h
    exact List.length_set
  | some picked =>
    obtain ⟨rq, D, -, ⟨-, -, d, htake⟩, -⟩ := selectTask_eq_some h
    obtain ⟨s₁, hcpu, htask⟩ := Option.bind_eq_some_iff.mp htake
    calc s'.cpus.length
        = s₁.cpus.length := length_cpus_modifyTask htask
      _ = (s.withClassDeficits cpu rq D).cpus.length :=
          length_cpus_modifyCpu (s := (s.withClassDeficits cpu rq D).withDeficits d) hcpu
      _ = s.cpus.length := List.length_set

theorem length_cpus_pickNextTask {s s' : Scheduler} {cpu : Nat} {previous result : Option Nat}
    (h : s.pickNextTask cpu previous = some (s', result)) :
    s'.cpus.length = s.cpus.length := by
  obtain ⟨s₁, ⟨id, cls, hselect, hdispatches⟩ | ⟨hselect, hresumes⟩⟩ := pickNextTask_cases h
  · obtain ⟨s₂, s₃, s₄, hserve, hdispatch, hcurrent, hstore⟩ := hdispatches
    rw [length_cpus_storeCurrentTaskId hstore, length_cpus_modifyCpu hcurrent,
      length_cpus_modifyTask hdispatch, length_cpus_modifyCpu hserve,
      length_cpus_selectTask hselect]
  · rcases hresumes with ⟨id, s₂, s₃, hrunning, hcurrent, hstore⟩ | rfl | hstore
    · rw [length_cpus_storeCurrentTaskId hstore, length_cpus_modifyCpu hcurrent,
        length_cpus_modifyTask hrunning, length_cpus_selectTask hselect]
    · exact length_cpus_selectTask hselect
    · rw [length_cpus_storeCurrentTaskId hstore, length_cpus_selectTask hselect]

theorem Frame.length_cpus {s s' : Scheduler}
    (h : Frame none s s') :
    s'.cpus.length = s.cpus.length :=
  length_cpus_of_rotor fun k => h.rotor_eq k (by simp)

theorem length_cpus_addTask {s s' : Scheduler} {id threadId savedRsp : Nat} {params : SchedParams}
    (hs : s.step (.addTask id threadId savedRsp params) = some s') :
    s'.cpus.length = s.cpus.length := by
  simp only [step] at hs
  split at hs
  · cases hs
  · exact length_cpus_of_rotor (addTask_spec hs).2

/-- The calls other than `configure_topology` and `add_task` change neither the number of
run queues nor the number of tasks. -/
theorem step_counts {s s' : Scheduler} {call : Call} (hconfigure : ∀ n, call ≠ .configureTopology n)
    (hadd : ∀ id threadId savedRsp params, call ≠ .addTask id threadId savedRsp params)
    (hs : s.step call = some s') :
    s'.cpus.length = s.cpus.length ∧ s'.taskCount = s.taskCount := by
  have of_frame (h : Frame none s s') :
      s'.cpus.length = s.cpus.length ∧ s'.taskCount = s.taskCount :=
    ⟨h.length_cpus, h.taskCount_eq⟩
  cases hpick : s.pickState call with
  | some picked =>
    obtain ⟨k, p⟩ := picked
    obtain ⟨hframe, previous, result, hp⟩ := pickNextTask_of_pickState hs hpick
    rw [length_cpus_pickNextTask hp, hframe.length_cpus, (Frame.pickNextTask hp).taskCount_eq,
      hframe.taskCount_eq]
    exact ⟨rfl, rfl⟩
  | none =>
    cases call with
    | configureTopology n =>
      exact absurd rfl (hconfigure n)
    | addTask id threadId savedRsp params =>
      exact absurd rfl (hadd id threadId savedRsp params)
    | requestYield cpu | blockCurrent cpu =>
      obtain ⟨rq, -, hs⟩ := Option.bind_eq_some_iff.mp hs
      exact of_frame (Frame.of_currentTask hs)
    | wakeTask id =>
      exact of_frame (Frame.wakeTask hs)
    | start =>
      simp [pickState] at hpick
    | timerTick cpu currentRsp =>
      simp only [step, onTimerTick] at hs
      split at hs
      next hstarted =>
        simp only [pickState, hstarted, if_true, Option.map_eq_none_iff] at hpick
        simp [hpick] at hs
      next =>
        cases hs
        exact ⟨rfl, rfl⟩
    | exitCurrent cpu =>
      obtain ⟨⟨t, result⟩, hexit, -⟩ := Option.map_eq_some_iff.mp hs
      obtain ⟨s₁, hretire, -⟩ := Option.bind_eq_some_iff.mp hexit
      simp [pickState, hretire] at hpick

end Scheduler

namespace Smp

/-! ## The processors -/

/-- The bits of the LAPIC id register that `current_lapic_id` keeps. -/
abbrev LapicId := Fin 256

/-- How far the boot processor is: it waits for the others, it has read their number, or
it has made the run queues. -/
inductive Phase where
  | waiting
  | counted (online : Nat)
  | configured (online : Nat)
deriving DecidableEq

/-- The variables of `kernel/smp.rs`, the application processors that have checked in, and
the scheduler. -/
structure Machine where
  bsp : LapicId
  discovered : Nat
  online : Nat
  lapicIds : Nat → Nat
  apStartSignal : Bool
  aps : List LapicId
  phase : Phase
  sched : Scheduler

namespace Machine

/-- The state in which `smp::init` is called, after `set_discovered_cpus` and
`set_bsp_lapic_id`; what the latter gets need not be the boot processor's id. -/
def boot (bsp : LapicId) (total recorded : Nat) : Machine where
  bsp := bsp
  discovered := min (max total 1) maxCpus
  online := 1
  lapicIds := Function.update (fun _ => u32Max) 0 recorded
  apStartSignal := false
  aps := []
  phase := .waiting
  sched := Scheduler.new

def logicalCpuId (x : Machine) (lapic : Nat) : Option Nat :=
  (List.range (min x.discovered maxCpus)).find? fun idx => x.lapicIds idx = lapic

def currentCpu (x : Machine) (lapic : LapicId) : Nat :=
  (x.logicalCpuId lapic).getD 0

def currentCpuId (x : Machine) (lapic : LapicId) : Nat :=
  min (x.currentCpu lapic) (maxCpus - 1)

/-- `ap_main`.  A processor beyond the last entry is not set up and takes no interrupts. -/
def apMain (x : Machine) (lapic : LapicId) : Machine :=
  if x.online < maxCpus then
    { x with
      online := x.online + 1
      lapicIds := Function.update x.lapicIds x.online lapic
      aps := lapic :: x.aps }
  else { x with online := x.online + 1 }

end Machine

/-- The calls that are made with `current_cpu_id`. -/
inductive CpuCall where
  | timerTick (currentRsp : Nat)
  | requestYield
  | blockCurrent
  | exitCurrent
deriving DecidableEq

namespace CpuCall

def on (cpu : Nat) : CpuCall → Scheduler.Call
  | .timerTick currentRsp => .timerTick cpu currentRsp
  | .requestYield => .requestYield cpu
  | .blockCurrent => .blockCurrent cpu
  | .exitCurrent => .exitCurrent cpu

def isTick : CpuCall → Bool
  | .timerTick _ => true
  | _ => false

end CpuCall

/-- Before `start` no task runs: a processor that has checked in takes ticks, and the boot
processor may yield or block while it sets up the kernel. -/
def MayCall (x : Machine) (lapic : LapicId) (call : CpuCall) : Prop :=
  (lapic = x.bsp ∨ lapic ∈ x.aps) ∧
    (x.sched.started = true ∨ call.isTick = true ∨ lapic = x.bsp ∧ call ≠ .exitCurrent)

instance (x : Machine) (lapic : LapicId) (call : CpuCall) : Decidable (MayCall x lapic call) :=
  inferInstanceAs (Decidable (_ ∧ _))

inductive Event where
  | release
  | checkIn (lapic : LapicId)
  | readOnline
  | configureTopology
  | addTask (id threadId savedRsp : Nat) (params : SchedParams)
  | start
  | wakeTask (id : Nat)
  | cpuCall (lapic : LapicId) (call : CpuCall)

/-- A call of the scheduler. -/
def Machine.call (x : Machine) (call : Scheduler.Call) : Option Machine :=
  (x.sched.step call).map fun sched => { x with sched := sched }

/-- One event; `none` if it cannot happen in this state, or panics. -/
def step (x : Machine) : Event → Option Machine
  | .release =>
    if 1 < x.discovered then some { x with apStartSignal := true } else none
  | .checkIn lapic =>
    if x.apStartSignal ∧ lapic ≠ x.bsp ∧ lapic ∉ x.aps then some (x.apMain lapic) else none
  | .readOnline =>
    if x.phase = .waiting then some { x with phase := .counted x.online } else none
  | .configureTopology =>
    match x.phase with
    | .counted online =>
      some { x with
        sched := x.sched.configureTopology online
        phase := .configured online }
    | _ => none
  | .addTask id threadId savedRsp params =>
    match x.phase with
    | .configured _ => x.call (.addTask id threadId savedRsp params)
    | _ => none
  | .start =>
    match x.phase with
    | .configured _ => x.call .start
    | _ => none
  | .wakeTask id => x.call (.wakeTask id)
  | .cpuCall lapic call =>
    if MayCall x lapic call then x.call (call.on (x.currentCpuId lapic)) else none

/-- The call indexes the run queues: a tick does so once the scheduler is started. -/
def Indexes (x : Machine) : CpuCall → Prop
  | .timerTick _ => x.sched.started = true
  | _ => True

/-- What has to hold before an event: a processor checks in before the boot processor has
read the number of processors, or after as many have checked in as were discovered. -/
def InTime (x : Machine) : Event → Prop
  | .checkIn _ => x.phase = .waiting ∨ x.discovered ≤ x.online
  | _ => True

/-! ## Where a processor finds its number -/

/-- The number of run queues that the boot processor will have made, as far as it is
known. -/
def Phase.bound (online : Nat) : Phase → Nat
  | .waiting => online
  | .counted online | .configured online => online

/-- The scheduler before and after the run queues are made. -/
def Phase.Prepared (sched : Scheduler) : Phase → Prop
  | .configured online => sched.cpus.length = max online 1
  | _ => sched.cpus.length = 1 ∧ sched.taskCount = 0 ∧ sched.AtRest

/-- The entries that a processor can find belong to processors counted for the run queues,
and those after the first one to application processors. -/
structure Sound (x : Machine) : Prop where
  online_pos : 0 < x.online
  entry_lt : ∀ idx, idx < x.discovered → x.lapicIds idx ≠ u32Max → idx = 0 ∨
    idx < x.phase.bound x.online
  entry_ap : ∀ idx, idx ≠ 0 → x.lapicIds idx ≠ u32Max → ∃ lapic ∈ x.aps, x.lapicIds idx = lapic
  bsp_not_ap : x.bsp ∉ x.aps
  prepared : x.phase.Prepared x.sched

/-- A processor uses the index 0, or the entry that holds its id. -/
theorem currentCpuId_cases
    (x : Machine) (lapic : LapicId) :
    x.currentCpuId lapic = 0 ∨
      ∃ idx, idx ≠ 0 ∧ x.currentCpuId lapic ≤ idx ∧ idx < x.discovered ∧
        x.lapicIds idx = lapic := by
  cases hfound : x.logicalCpuId lapic with
  | none =>
    left
    simp [Machine.currentCpuId, Machine.currentCpu, hfound]
  | some idx =>
    by_cases hzero : idx = 0
    · left
      simp [Machine.currentCpuId, Machine.currentCpu, hfound, hzero]
    · right
      have hrange := List.mem_range.mp (List.mem_of_find?_eq_some hfound)
      have hentry := List.find?_some hfound
      refine ⟨idx, hzero, ?_, by omega, by simpa using hentry⟩
      simp [Machine.currentCpuId, Machine.currentCpu, hfound]

theorem lapicId_ne_max
    (lapic : LapicId) :
    (lapic : Nat) ≠ u32Max := by
  have := lapic.isLt
  simp only [u32Max]
  omega

namespace Sound

variable {x x' : Machine}

/-- Every index is in range. -/
theorem currentCpuId_lt (h : Sound x) {lapic : LapicId} {call : CpuCall}
    (hmay : MayCall x lapic call)
    (hindexes : Indexes x call) :
    x.currentCpuId lapic < x.sched.cpus.length := by
  have hprepared := h.prepared
  have hpos : 0 < x.sched.cpus.length := by
    cases hphase : x.phase with
    | waiting | counted online =>
      rw [hphase] at hprepared
      exact hprepared.1 ▸ Nat.one_pos
    | configured online =>
      rw [hphase] at hprepared
      simp only [Phase.Prepared] at hprepared
      omega
  rcases currentCpuId_cases x lapic with hzero | ⟨idx, hidx, hle, hlt, hentry⟩
  · rw [hzero]
    exact hpos
  · have hset : x.lapicIds idx ≠ u32Max := hentry ▸ lapicId_ne_max lapic
    have hap : lapic ≠ x.bsp := by
      rintro rfl
      obtain ⟨ap, hap, heq⟩ := h.entry_ap idx hidx hset
      have : x.bsp = ap := Fin.ext (hentry.symm.trans heq)
      exact h.bsp_not_ap (this ▸ hap)
    have hstarted : x.sched.started = true := by
      rcases hmay.2 with hstarted | htick | ⟨hbsp, -⟩
      · exact hstarted
      · cases call with
        | timerTick currentRsp =>
          exact hindexes
        | _ =>
          cases htick
      · exact absurd hbsp hap
    have hbound := (h.entry_lt idx hlt hset).resolve_left hidx
    cases hphase : x.phase with
    | waiting | counted online =>
      rw [hphase] at hprepared
      have hrest : x.sched.started = false := hprepared.2.2.1
      rw [hrest] at hstarted
      cases hstarted
    | configured online =>
      rw [hphase] at hprepared hbound
      simp only [Phase.Prepared, Phase.bound] at hprepared hbound
      omega

theorem boot
    (bsp : LapicId) (total recorded : Nat) :
    Sound (Machine.boot bsp total recorded) := by
  have hentry : ∀ idx, idx ≠ 0 → (Machine.boot bsp total recorded).lapicIds idx = u32Max :=
    fun idx hidx => by simp [Machine.boot, hidx]
  refine ⟨Nat.one_pos, ?_, ?_, List.not_mem_nil, rfl, rfl, rfl, rfl⟩
  · intro idx _ hset
    left
    by_contra hidx
    exact hset (hentry idx hidx)
  · intro idx hidx hset
    exact absurd (hentry idx hidx) hset

theorem apMain {lapic : LapicId} (h : Sound x)
    (htime : x.phase = .waiting ∨ x.discovered ≤ x.online)
    (hbsp : lapic ≠ x.bsp) :
    Sound (x.apMain lapic) := by
  have hbound : x.phase.bound x.online ≤ x.phase.bound (x.online + 1) := by
    cases x.phase with
    | waiting =>
      exact Nat.le_succ _
    | counted online | configured online =>
      exact Nat.le_refl _
  rw [Machine.apMain]
  split
  · refine ⟨Nat.succ_pos _, ?_, ?_, ?_, h.prepared⟩
    · intro idx hlt hset
      by_cases hidx : idx = x.online
      · right
        rcases htime with hphase | hmany
        · simp only [hphase, Phase.bound, hidx]
          exact Nat.lt_succ_self _
        · exact absurd hlt (by simp only; omega)
      · simp only [Function.update_of_ne hidx] at hset
        exact (h.entry_lt idx hlt hset).imp_right fun hlt => Nat.lt_of_lt_of_le hlt hbound
    · intro idx hzero hset
      by_cases hidx : idx = x.online
      · exact ⟨lapic, List.mem_cons_self, by simp [hidx]⟩
      · simp only [Function.update_of_ne hidx] at hset ⊢
        obtain ⟨ap, hap, heq⟩ := h.entry_ap idx hzero hset
        exact ⟨ap, List.mem_cons_of_mem _ hap, heq⟩
    · exact fun hmem => (List.mem_cons.mp hmem).elim (fun heq => hbsp heq.symm) h.bsp_not_ap
  · exact ⟨Nat.succ_pos _,
      fun idx hlt hset => (h.entry_lt idx hlt hset).imp_right fun hlt =>
        Nat.lt_of_lt_of_le hlt hbound,
      h.entry_ap, h.bsp_not_ap, h.prepared⟩

theorem of_call {call : Scheduler.Call} (h : Sound x)
    (hprepared : ∀ sched, x.sched.step call = some sched → x.phase.Prepared sched)
    (hcall : x.call call = some x') :
    Sound x' := by
  obtain ⟨sched, hs, rfl⟩ := Option.map_eq_some_iff.mp hcall
  exact ⟨h.online_pos, h.entry_lt, h.entry_ap, h.bsp_not_ap, hprepared sched hs⟩

/-- Once the run queues are made, no call changes their number. -/
theorem of_call_configured {online : Nat} {call : Scheduler.Call} (h : Sound x)
    (hphase : x.phase = .configured online) (hconfigure : ∀ n, call ≠ .configureTopology n)
    (hcall : x.call call = some x') :
    Sound x' := by
  refine h.of_call (fun sched hs => ?_) hcall
  have hprepared := h.prepared
  rw [hphase] at hprepared ⊢
  simp only [Phase.Prepared] at hprepared ⊢
  rw [← hprepared]
  cases call with
  | addTask id threadId savedRsp params =>
    exact Scheduler.length_cpus_addTask hs
  | configureTopology n =>
    exact absurd rfl (hconfigure n)
  | _ =>
    exact (Scheduler.step_counts (by simp) (by simp) hs).1

/-- A call that can come at any time: before `start` it finds no task. -/
theorem of_call_plain {call : Scheduler.Call} (h : Sound x)
    (hconfigure : ∀ n, call ≠ .configureTopology n)
    (hadd : ∀ id threadId savedRsp params, call ≠ .addTask id threadId savedRsp params)
    (hstart : call ≠ .start) (hexit : x.sched.started = false → call ≠ .exitCurrent 0)
    (hcall : x.call call = some x') :
    Sound x' := by
  cases hphase : x.phase with
  | configured online =>
    exact h.of_call_configured hphase hconfigure hcall
  | waiting | counted online =>
    refine h.of_call (fun sched hs => ?_) hcall
    have hprepared := h.prepared
    rw [hphase] at hprepared ⊢
    obtain ⟨hlength, hcount, hrest⟩ := hprepared
    obtain ⟨hlength', hcount'⟩ := Scheduler.step_counts hconfigure hadd hs
    exact ⟨hlength'.trans hlength, hcount'.trans hcount,
      hrest.step hstart (hexit hrest.1) hs⟩

theorem configureTopology {online : Nat} (h : Sound x)
    (hphase : x.phase = .counted online) :
    Sound { x with sched := x.sched.configureTopology online, phase := .configured online } := by
  have hprepared := h.prepared
  rw [hphase] at hprepared
  obtain ⟨-, hcount, hstarted, -⟩ := hprepared
  refine ⟨h.online_pos, ?_, h.entry_ap, h.bsp_not_ap, ?_⟩
  · intro idx hlt hset
    have hentry := h.entry_lt idx hlt hset
    rw [hphase] at hentry
    exact hentry
  · simp [Phase.Prepared, Scheduler.configureTopology, hcount, hstarted]

/-- One event. -/
theorem step {event : Event} (h : Sound x) (htime : InTime x event)
    (hs : Smp.step x event = some x') :
    Sound x' := by
  cases event with
  | release =>
    obtain ⟨-, hs⟩ := Option.ite_none_right_eq_some.mp hs
    cases hs
    exact ⟨h.online_pos, h.entry_lt, h.entry_ap, h.bsp_not_ap, h.prepared⟩
  | checkIn lapic =>
    obtain ⟨⟨-, hbsp, -⟩, hs⟩ := Option.ite_none_right_eq_some.mp hs
    cases hs
    exact h.apMain htime hbsp
  | readOnline =>
    obtain ⟨hphase, hs⟩ := Option.ite_none_right_eq_some.mp hs
    cases hs
    have hlt := h.entry_lt
    have hprepared := h.prepared
    rw [hphase] at hlt hprepared
    exact ⟨h.online_pos, hlt, h.entry_ap, h.bsp_not_ap, hprepared⟩
  | configureTopology =>
    simp only [Smp.step] at hs
    split at hs
    next online hphase =>
      cases hs
      exact h.configureTopology hphase
    next =>
      cases hs
  | addTask id threadId savedRsp params =>
    simp only [Smp.step] at hs
    split at hs
    next online hphase =>
      exact h.of_call_configured hphase (by simp) hs
    next =>
      cases hs
  | start =>
    simp only [Smp.step] at hs
    split at hs
    next online hphase =>
      exact h.of_call_configured hphase (by simp) hs
    next =>
      cases hs
  | wakeTask id =>
    exact h.of_call_plain (by simp) (by simp) (by simp) (by simp) hs
  | cpuCall lapic call =>
    obtain ⟨hmay, hs⟩ := Option.ite_none_right_eq_some.mp hs
    refine h.of_call_plain ?_ ?_ ?_ ?_ hs
    · cases call <;> simp [CpuCall.on]
    · cases call <;> simp [CpuCall.on]
    · cases call <;> simp [CpuCall.on]
    · intro hrest
      cases call with
      | exitCurrent =>
        simp [MayCall, hrest, CpuCall.isTick] at hmay
      | _ =>
        simp [CpuCall.on]

end Sound

/-! ## Every run -/

/-- For every number of processors and every order of events: if no discovered processor
checks in after the boot processor has read their number, every index into the run queues
is in range. -/
theorem cpu_index_in_range
    {bsp : LapicId} {total recorded : Nat} {events : List Event} {x : Machine}
    (hrun : Run (fun x event x' => InTime x event ∧ step x event = some x')
      (.boot bsp total recorded) events x)
    {lapic : LapicId} {call : CpuCall}
    (hmay : MayCall x lapic call)
    (hindexes : Indexes x call) :
    x.currentCpuId lapic < x.sched.cpus.length := by
  have hsound : Sound x := hrun.invariant (fun _ _ _ h hs => h.step hs.1 hs.2) (.boot ..)
  exact hsound.currentCpuId_lt hmay hindexes

instance (x : Machine) : ∀ event, Decidable (InTime x event)
  | .checkIn _ => inferInstanceAs (Decidable (_ ∨ _))
  | .release | .readOnline | .configureTopology | .addTask .. | .start | .wakeTask _
  | .cpuCall .. => .isTrue trivial

/-- A second processor checks in before the count is read, and takes a tick after
`start`. -/
theorem cpu_index_in_range_two_cpus :
    ∃ x, Run (fun x event x' => InTime x event ∧ step x event = some x') (.boot 0 2 0)
        [.release, .checkIn 1, .readOnline, .configureTopology,
          .addTask 3 0 0 ⟨none, 0, none, 1⟩, .start] x ∧
      x.currentCpuId 1 = 1 ∧ x.currentCpuId 1 < x.sched.cpus.length := by
  have hview :
      (runAll (guarded InTime step) (.boot 0 2 0)
        [.release, .checkIn 1, .readOnline, .configureTopology,
          .addTask 3 0 0 ⟨none, 0, none, 1⟩, .start]).map
        (fun x => (x.currentCpuId 1, decide (MayCall x 1 .requestYield))) =
        some (1, true) := by
    decide +kernel
  obtain ⟨x, hx, hfinal⟩ := Option.map_eq_some_iff.mp hview
  simp only [Prod.mk.injEq, decide_eq_true_eq] at hfinal
  have hrun := run_of_guarded hx
  exact ⟨x, hrun, hfinal.1, cpu_index_in_range hrun hfinal.2 trivial⟩

/-- The second processor is late: there is one run queue, and its tick after `start` uses
the index 1. -/
theorem late_cpu_out_of_range :
    ∃ x, Run (Det step) (.boot 0 2 0)
        [.release, .readOnline, .configureTopology, .checkIn 1,
          .addTask 3 0 0 ⟨none, 0, none, 1⟩, .start] x ∧
      MayCall x 1 (.timerTick 0) ∧ Indexes x (.timerTick 0) ∧
      x.currentCpuId 1 = 1 ∧ x.sched.cpus.length = 1 ∧
      step x (.cpuCall 1 (.timerTick 0)) = none := by
  have hview :
      (runAll step (.boot 0 2 0)
        [.release, .readOnline, .configureTopology, .checkIn 1,
          .addTask 3 0 0 ⟨none, 0, none, 1⟩, .start]).map
        (fun x => (decide (MayCall x 1 (.timerTick 0)), x.sched.started, x.currentCpuId 1,
          x.sched.cpus.length, (step x (.cpuCall 1 (.timerTick 0))).isNone)) =
        some (true, true, 1, 1, true) := by
    decide +kernel
  obtain ⟨x, hx, hfinal⟩ := Option.map_eq_some_iff.mp hview
  simp only [Prod.mk.injEq, decide_eq_true_eq, Option.isNone_iff_eq_none] at hfinal
  exact ⟨x, (runAll_eq_some_iff _ _ _ _).mp hx, hfinal⟩

end Smp
end Kernel
end Theos
