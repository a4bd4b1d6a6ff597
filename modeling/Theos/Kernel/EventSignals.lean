import Theos.Kernel.WaitingWakeups
import Mathlib.Algebra.BigOperators.Group.Finset.Basic

/-!
# The signals of an auto-reset event

`set_event` wakes every task that waits, and all of them check again.  Still no more
waits succeed than the event was set: the check and the reset are one access under the
lock of the object table, so each signal is handed to one wait.

The count is carried by credits.  A `set_event` that has not written yet has one, the
event has one while it is signaled, and so has a wait whose check found the signal until
it returns.  A step moves credits and makes none but for a call of `set_event`.
-/

namespace Theos
namespace Kernel
namespace Waiting

open Base
open Nt

/-! ## Waits that return -/

/-- What a wait returns after a check; a failed one is the end only without a timeout. -/
def statusOf : Except NtStatus Bool → NtStatus
  | .ok true => .success
  | .ok false => .timeout
  | .error status => status

/-- The machine, with what the calls on one event have come to: how often `set_event`
was called, and how many waits have returned with `STATUS_SUCCESS`.  For a task that has
left the loop of a wait, `status` is what the wait will return. -/
structure Watch where
  world : World
  status : Nat → NtStatus
  sets : Nat
  successes : Nat

namespace Watch

def start (world : World) : Watch :=
  ⟨world, fun _ => .pending, 0, 0⟩

/-- The status that a wait for `o` returns in a step. -/
def returned (o : Nat) (h : Watch) : Event → Option NtStatus
  | .run cpu =>
    (h.world.executing cpu).bind fun t =>
      match h.world.pc t with
      | .waitFirst o' =>
        if o' = o ∧ (consumeWaitableSignal h.world.objects o').1 ≠ .ok false then
          some (statusOf (consumeWaitableSignal h.world.objects o').1)
        else none
      | .waitPoll o' =>
        if o' = o then some (statusOf (consumeWaitableSignal h.world.objects o').1) else none
      | .waitRegister o' =>
        if o' = o ∧ h.world.sched.currentTaskIds cpu = 0 then some .pending else none
      | .waitDone o' _ => if o' = o then some (h.status t) else none
      | _ => none
  | _ => none

/-- The check in the loop decides on the status. -/
def statusAfter (h : Watch) : Event → Nat → NtStatus
  | .run cpu =>
    match h.world.executing cpu with
    | none => h.status
    | some t =>
      match h.world.pc t with
      | .waitCheck o _ =>
        Function.update h.status t (statusOf (consumeWaitableSignal h.world.objects o).1)
      | _ => h.status
  | _ => h.status

def isSet (o : Nat) : Event → Bool
  | .call _ (.setEvent o') => o' = o
  | _ => false

def step (o : Nat) (h : Watch) (event : Event) : Option Watch :=
  (Waiting.step h.world event).map fun world =>
    { world := world
      status := h.statusAfter event
      sets := h.sets + (isSet o event).toNat
      successes := h.successes + if h.returned o event = some .success then 1 else 0 }

end Watch

/-! ## The event in the object table -/

/-- If there is the object, it is an auto-reset event. -/
def AutoReset (m : ObjectManager) (o : Nat) : Prop :=
  ∀ record, m.objects o = some record →
    ∃ event, record.data = .event event ∧ event.manualReset = false

def signaledOf : ObjectData → Bool
  | .event event => event.signaled
  | _ => false

/-- The signal that the event holds. -/
def signal (m : ObjectManager) (o : Nat) : Nat :=
  ((m.objects o).any fun record => signaledOf record.data).toNat

section Table

variable {m : ObjectManager} {o : Nat}

theorem AutoReset.of_objects {m' : ObjectManager} (h : AutoReset m o)
    (hsame : m'.objects o = m.objects o) :
    AutoReset m' o ∧ signal m' o = signal m o := by
  refine ⟨?_, by rw [signal, signal, hsame]⟩
  intro record hrecord
  exact h record (hsame ▸ hrecord)

/-- The event is there, or it is gone. -/
theorem AutoReset.cases
    (h : AutoReset m o) :
    m.objects o = none ∨
      ∃ record signaled, m.objects o = some record ∧ record.data = .event ⟨signaled, false⟩ := by
  cases hrecord : m.objects o with
  | none =>
    exact .inl rfl
  | some record =>
    obtain ⟨⟨signaled, manual⟩, hdata, hmanual⟩ := h record hrecord
    cases hmanual
    exact .inr ⟨record, signaled, rfl, hdata⟩

theorem autoReset_setRecord
    {record : ObjectRecord} {signaled : Bool} :
    AutoReset (m.setRecord o { record with data := .event ⟨signaled, false⟩ }) o ∧
      signal (m.setRecord o { record with data := .event ⟨signaled, false⟩ }) o =
        signaled.toNat := by
  constructor
  · intro record' hrecord'
    simp only [ObjectManager.setRecord, Function.update_self, Option.some.injEq] at hrecord'
    subst hrecord'
    exact ⟨_, rfl, rfl⟩
  · simp [signal, ObjectManager.setRecord, signaledOf]

/-- An access to another object, or to one that is not an event, leaves the event. -/
theorem withEventMut_objects {α : Type} (f : EventObject → α × EventObject) {o' : Nat}
    (hne : o' ≠ o) :
    (m.withEventMut o' f).2.objects o = m.objects o := by
  rw [ObjectManager.withEventMut]
  split
  · rfl
  · split
    · exact Function.update_of_ne hne.symm _ _
    · rfl

theorem withEventMut_of_event
    {α : Type} (f : EventObject → α × EventObject) {record : ObjectRecord} {event : EventObject}
    (hrecord : m.objects o = some record)
    (hdata : record.data = .event event) :
    m.withEventMut o f =
      (.ok (f event).1, m.setRecord o { record with data := .event (f event).2 }) := by
  simp only [ObjectManager.withEventMut, hrecord, hdata]

/-- What the check does to the table is what its access to an event does. -/
theorem consumeWaitableSignal_snd
    (o' : Nat) :
    (consumeWaitableSignal m o').2.objects o = m.objects o ∨ o' = o := by
  by_cases hne : o' = o
  · exact .inr hne
  · left
    have hsame {α : Type} (f : EventObject → α × EventObject) {result : Except NtStatus α}
        {m' : ObjectManager} (h : m.withEventMut o' f = (result, m')) :
        m'.objects o = m.objects o := by
      have hobjects := withEventMut_objects (m := m) f hne
      rw [h] at hobjects
      exact hobjects
    rw [consumeWaitableSignal]
    split
    next heq =>
      exact hsame _ heq
    next heq =>
      have hsame := hsame _ heq
      split
      · exact hsame
      · exact hsame
      · exact hsame

/-- A check takes the signal if it finds it. -/
theorem AutoReset.consume (h : AutoReset m o)
    (o' : Nat) :
    AutoReset (consumeWaitableSignal m o').2 o ∧
      signal (consumeWaitableSignal m o').2 o +
          (if o' = o ∧ statusOf (consumeWaitableSignal m o').1 = .success then 1 else 0) ≤
        signal m o := by
  by_cases ho : o' = o
  · subst ho
    rcases h.cases with hnone | ⟨record, signaled, hrecord, hdata⟩
    · have hresult : consumeWaitableSignal m o' = (.error .notSupported, m) := by
        simp [consumeWaitableSignal, ObjectManager.withEventMut, ObjectManager.process,
          ObjectManager.thread, hnone]
      rw [hresult]
      exact ⟨h, by simp [statusOf]⟩
    · have hsignal : signal m o' = signaled.toNat := by
        simp [signal, hrecord, hdata, signaledOf]
      cases signaled with
      | true =>
        have hresult : consumeWaitableSignal m o' =
            (.ok true, m.setRecord o' { record with data := .event ⟨false, false⟩ }) := by
          simp [consumeWaitableSignal, withEventMut_of_event _ hrecord hdata]
        rw [hresult, autoReset_setRecord.2, hsignal]
        exact ⟨autoReset_setRecord.1, by simp [statusOf]⟩
      | false =>
        have hresult : consumeWaitableSignal m o' =
            (.ok false, m.setRecord o' { record with data := .event ⟨false, false⟩ }) := by
          simp [consumeWaitableSignal, withEventMut_of_event _ hrecord hdata]
        rw [hresult, autoReset_setRecord.2, hsignal]
        exact ⟨autoReset_setRecord.1, by simp [statusOf]⟩
  · obtain ⟨hauto, hsignal⟩ := h.of_objects ((consumeWaitableSignal_snd o').resolve_right ho)
    exact ⟨hauto, by simp [ho, hsignal]⟩

theorem AutoReset.write (h : AutoReset m o)
    (o' : Nat) (signaled : Bool) :
    AutoReset (writeEvent m o' signaled).2 o ∧
      signal (writeEvent m o' signaled).2 o ≤
        signal m o + if o' = o ∧ signaled = true then 1 else 0 := by
  by_cases ho : o' = o
  · subst ho
    rcases h.cases with hnone | ⟨record, before, hrecord, hdata⟩
    · have hresult : writeEvent m o' signaled = (.error .invalidHandle, m) := by
        simp [writeEvent, ObjectManager.withEventMut, hnone]
      rw [hresult]
      exact ⟨h, Nat.le_add_right _ _⟩
    · rw [writeEvent, withEventMut_of_event _ hrecord hdata, autoReset_setRecord.2]
      refine ⟨autoReset_setRecord.1, ?_⟩
      cases signaled with
      | true => simp
      | false => simp
  · obtain ⟨hauto, hsignal⟩ := h.of_objects (withEventMut_objects _ ho)
    exact ⟨hauto, hsignal.le.trans (Nat.le_add_right _ _)⟩

theorem AutoReset.release (h : AutoReset m o)
    (id : Nat) :
    AutoReset (m.release id).2 o ∧ signal (m.release id).2 o ≤ signal m o := by
  by_cases hid : id = o
  · subst hid
    rcases h.cases with hnone | ⟨record, signaled, hrecord, hdata⟩
    · rw [ObjectManager.release, hnone]
      exact ⟨h, le_refl _⟩
    · rw [ObjectManager.release, hrecord]
      dsimp only
      split
      · have hsame : ({ record with refs := record.refs - 1 } : ObjectRecord) =
            { ({ record with refs := record.refs - 1 } : ObjectRecord) with
              data := .event ⟨signaled, false⟩ } := by
          rw [← hdata]
        rw [hsame, autoReset_setRecord.2]
        exact ⟨autoReset_setRecord.1, by simp [signal, hrecord, hdata, signaledOf]⟩
      · constructor
        · intro record' hrecord'
          simp at hrecord'
        · simp [signal]
  · have hsame : (m.release id).2.objects o = m.objects o := by
      rw [ObjectManager.release]
      split
      · rfl
      · split
        · exact Function.update_of_ne (Ne.symm hid) _ _
        · exact Function.update_of_ne (Ne.symm hid) _ _
    obtain ⟨hauto, hsignal⟩ := h.of_objects hsame
    exact ⟨hauto, hsignal.le⟩

theorem AutoReset.signalExited (h : AutoReset m o) {type : ObjectType} (htype : type ≠ .event)
    (id : Nat) (status : NtStatus) :
    AutoReset (m.signalExited type id status) o ∧
      signal (m.signalExited type id status) o = signal m o := by
  apply h.of_objects
  rw [ObjectManager.signalExited]
  split
  · rfl
  next record hrecord =>
    split
    next hsame =>
      by_cases hid : id = o
      · subst hid
        obtain ⟨event, hdata, -⟩ := h record hrecord
        rw [hdata] at hsame
        exact absurd hsame.symm htype
      · exact Function.update_of_ne (Ne.symm hid) _ _
    next =>
      rfl

end Table

/-! ## Credits -/

/-- What a task in a call has of the signals of an event. -/
def credit (o : Nat) (status : NtStatus) : Pc → Nat
  | .setEvent o' => if o' = o then 1 else 0
  | .waitDone o' _ => if o' = o ∧ status = .success then 1 else 0
  | _ => 0

theorem exists_sum_update {T : Finset Nat} {f g : Nat → Nat} (hf : ∀ t ∉ T, f t = 0) (t : Nat)
    (hother : ∀ u, u ≠ t → g u = f u) :
    ∃ T' : Finset Nat, (∀ u ∉ T', g u = 0) ∧
      ∑ u ∈ T', g u + f t = ∑ u ∈ T, f u + g t := by
  refine ⟨insert t T, ?_, ?_⟩
  · intro u hu
    obtain ⟨hne, hT⟩ := not_or.mp (mt Finset.mem_insert.mpr hu)
    rw [hother u hne, hf u hT]
  · have hsame : ∑ u ∈ T.erase t, g u = ∑ u ∈ T.erase t, f u :=
      Finset.sum_congr rfl fun u hu => hother u (Finset.ne_of_mem_erase hu)
    have hsum : ∑ u ∈ T, f u = ∑ u ∈ T.erase t, f u + f t := by
      by_cases ht : t ∈ T
      · exact (Finset.sum_erase_add T f ht).symm
      · rw [Finset.erase_eq_of_notMem ht, hf t ht, Nat.add_zero]
    have hinsert := Finset.sum_erase_add (insert t T) g (Finset.mem_insert_self t T)
    rw [Finset.erase_insert_eq_erase, hsame] at hinsert
    omega

/-- The waits that succeeded and the credits there are come from the sets. -/
structure Bounded (o initial : Nat) (h : Watch) : Prop where
  autoReset : AutoReset h.world.objects o
  credits : ∃ T : Finset Nat, (∀ t ∉ T, credit o (h.status t) (h.world.pc t) = 0) ∧
    h.successes + ∑ t ∈ T, credit o (h.status t) (h.world.pc t) + signal h.world.objects o ≤
      initial + h.sets

namespace Bounded

variable {o initial : Nat} {h h' : Watch}

/-- A step of one task that gives out no more than it takes. -/
theorem move (hb : Bounded o initial h) (t : Nat) (hpc : ∀ u, u ≠ t → h'.world.pc u = h.world.pc u)
    (hstatus : ∀ u, u ≠ t → h'.status u = h.status u) (hauto : AutoReset h'.world.objects o)
    (hle : h'.successes + credit o (h'.status t) (h'.world.pc t) + signal h'.world.objects o +
        h.sets ≤
      h.successes + credit o (h.status t) (h.world.pc t) + signal h.world.objects o + h'.sets) :
    Bounded o initial h' := by
  obtain ⟨T, hT, hcount⟩ := hb.credits
  obtain ⟨T', hT', hsum⟩ := exists_sum_update hT t
    (fun u hu => by rw [hpc u hu, hstatus u hu] :
      ∀ u, u ≠ t → credit o (h'.status u) (h'.world.pc u) = credit o (h.status u) (h.world.pc u))
  exact ⟨hauto, T', hT', by omega⟩

/-- A step that leaves the calls and the objects alone. -/
theorem of_eq (hb : Bounded o initial h) (hpc : h'.world.pc = h.world.pc)
    (hstatus : h'.status = h.status) (hobjects : h'.world.objects = h.world.objects)
    (hsets : h'.sets = h.sets)
    (hsuccesses : h'.successes = h.successes) :
    Bounded o initial h' := by
  obtain ⟨hauto, T, hT, hcount⟩ := hb
  refine ⟨hobjects ▸ hauto, T, ?_, ?_⟩
  · rw [hpc, hstatus]
    exact hT
  · rw [hpc, hstatus, hobjects, hsets, hsuccesses]
    exact hcount

/-- The watch after a piece of the task on a CPU. -/
def after (o : Nat) (h : Watch) (cpu : Nat) (world : World) : Watch :=
  { world := world
    status := h.statusAfter (.run cpu)
    sets := h.sets
    successes := h.successes + if h.returned o (.run cpu) = some .success then 1 else 0 }

/-- A piece of a call from which no wait returns with success. -/
theorem quiet (hb : Bounded o initial h) {cpu t : Nat} {world : World} {pc : Pc}
    (hpc : world.pc = Function.update h.world.pc t pc)
    (hobjects : AutoReset world.objects o ∧ signal world.objects o ≤ signal h.world.objects o)
    (hcredit : ∀ status, credit o status pc = 0)
    (hreturned : h.returned o (.run cpu) ≠ some .success)
    (hstatus : h.statusAfter (.run cpu) = h.status) :
    Bounded o initial (after o h cpu world) := by
  apply hb.move t
  · intro u hu
    rw [after, hpc, Function.update_of_ne hu]
  · intro u _
    rw [after, hstatus]
  · exact hobjects.1
  · simp only [after, hpc, Function.update_self, hcredit, if_neg hreturned]
    have := hobjects.2
    omega

/-- The pieces of a call from which no wait returns and that decide on no status. -/
def plain : Pc → Bool
  | .waitFirst _ | .waitPoll _ | .waitRegister _ | .waitCheck _ _ | .waitDone _ _ => false
  | _ => true

theorem quiet_of_plain (hb : Bounded o initial h) {cpu t : Nat} {world : World} {pc : Pc}
    (hexecuting : h.world.executing cpu = some t) (hplain : plain (h.world.pc t) = true)
    (hpc : world.pc = Function.update h.world.pc t pc)
    (hobjects : AutoReset world.objects o ∧ signal world.objects o ≤ signal h.world.objects o)
    (hcredit : ∀ status, credit o status pc = 0) :
    Bounded o initial (after o h cpu world) := by
  apply hb.quiet hpc hobjects hcredit
  · rw [Watch.returned, hexecuting, Option.bind_some]
    cases hbefore : h.world.pc t <;> simp_all [plain]
  · rw [Watch.statusAfter, hexecuting]
    cases hbefore : h.world.pc t <;> simp_all [plain]

/-- A check that is the end of the wait, and one that is not. -/
theorem consume_first (hb : Bounded o initial h) {cpu t o' : Nat} {pc : Pc}
    (hcredit : ∀ status, credit o status pc = 0)
    (hreturned : h.returned o (.run cpu) = some .success →
      o' = o ∧ statusOf (consumeWaitableSignal h.world.objects o').1 = .success)
    (hstatus : h.statusAfter (.run cpu) = h.status) :
    Bounded o initial (after o h cpu
      ({ h.world with objects := (consumeWaitableSignal h.world.objects o').2 }.setPc t pc)) := by
  obtain ⟨hauto, hsignal⟩ := hb.autoReset.consume o'
  apply hb.move t
  · intro u hu
    exact Function.update_of_ne hu _ _
  · intro u _
    rw [after, hstatus]
  · exact hauto
  · simp only [after, World.setPc, Function.update_self, hcredit]
    by_cases hsuccess : h.returned o (.run cpu) = some .success
    · rw [if_pos (hreturned hsuccess)] at hsignal
      rw [if_pos hsuccess]
      omega
    · rw [if_neg hsuccess]
      omega

theorem run (hb : Bounded o initial h) {cpu t : Nat} {world : World}
    (hexecuting : h.world.executing cpu = some t)
    (hrun : h.world.runTask cpu t = some world) :
    Bounded o initial (after o h cpu world) := by
  have hsame : AutoReset h.world.objects o ∧ signal h.world.objects o ≤ signal h.world.objects o :=
    ⟨hb.autoReset, le_refl _⟩
  cases hpc : h.world.pc t with
  | user | exited =>
    simp [World.runTask, hpc] at hrun
  | waitFirst o' =>
    have hstatus : h.statusAfter (.run cpu) = h.status := by
      simp [Watch.statusAfter, hexecuting, hpc]
    have hreturned : h.returned o (.run cpu) = some .success →
        o' = o ∧ statusOf (consumeWaitableSignal h.world.objects o').1 = .success := by
      simp only [Watch.returned, hexecuting, hpc, Option.bind_some]
      split
      next hdone =>
        exact fun heq => ⟨hdone.1, Option.some.inj heq⟩
      next =>
        simp
    have hfirst {pc : Pc} := @consume_first o initial h hb cpu t o' pc
    simp only [World.runTask, hpc] at hrun
    split at hrun
    next heq =>
      cases hrun
      rw [heq] at hfirst hreturned
      exact hfirst (fun _ => rfl) hreturned hstatus
    next heq =>
      cases hrun
      rw [heq] at hfirst hreturned
      exact hfirst (fun _ => rfl) hreturned hstatus
  | waitPoll o' =>
    simp only [World.runTask, hpc, Option.some.injEq] at hrun
    subst hrun
    apply hb.consume_first (fun _ => rfl)
    · simp only [Watch.returned, hexecuting, hpc, Option.bind_some]
      split
      next ho =>
        exact fun heq => ⟨ho, Option.some.inj heq⟩
      next =>
        simp
    · simp [Watch.statusAfter, hexecuting, hpc]
  | waitRegister o' =>
    have hstatus : h.statusAfter (.run cpu) = h.status := by
      simp [Watch.statusAfter, hexecuting, hpc]
    have hreturned : h.returned o (.run cpu) ≠ some .success := by
      simp only [Watch.returned, hexecuting, hpc, Option.bind_some]
      split <;> simp
    simp only [World.runTask, hpc] at hrun
    split at hrun
    next =>
      cases hrun
      exact hb.quiet rfl hsame (fun _ => rfl) hreturned hstatus
    next =>
      cases hrun
      rw [World.registerWaiter]
      split
      · exact hb.quiet rfl hsame (fun _ => rfl) hreturned hstatus
      · exact hb.quiet rfl hsame (fun _ => rfl) hreturned hstatus
  | waitCheck o' tid =>
    simp only [World.runTask, hpc, Option.some.injEq] at hrun
    subst hrun
    obtain ⟨hauto, hsignal⟩ := hb.autoReset.consume o'
    have hstatus : h.statusAfter (.run cpu) = Function.update h.status t
        (statusOf (consumeWaitableSignal h.world.objects o').1) := by
      simp [Watch.statusAfter, hexecuting, hpc]
    have hreturned : h.returned o (.run cpu) = none := by
      simp [Watch.returned, hexecuting, hpc]
    obtain ⟨pc, hcheck, hcredit⟩ : ∃ pc, h.world.check t o' tid =
        { h.world with objects := (consumeWaitableSignal h.world.objects o').2 }.setPc t pc ∧
        credit o (statusOf (consumeWaitableSignal h.world.objects o').1) pc ≤
          if o' = o ∧ statusOf (consumeWaitableSignal h.world.objects o').1 = .success then 1
          else 0 := by
      rw [World.check]
      split
      next heq =>
        exact ⟨_, by rw [heq], Nat.zero_le _⟩
      next heq =>
        exact ⟨_, by rw [heq], by rw [heq]; exact le_refl _⟩
    rw [hcheck]
    apply hb.move t
    · intro u hu
      exact Function.update_of_ne hu _ _
    · intro u hu
      simp only [after, hstatus, Function.update_of_ne hu]
    · exact hauto
    · simp only [after, World.setPc, Function.update_self, hstatus, hreturned, reduceCtorEq,
        if_false]
      omega
  | waitDone o' tid =>
    simp only [World.runTask, hpc, Option.some.injEq] at hrun
    subst hrun
    apply hb.move t
    · intro u hu
      exact Function.update_of_ne hu _ _
    · intro u _
      simp [after, Watch.statusAfter, hexecuting, hpc]
    · exact hb.autoReset
    · -- the credit of the wait is what it returns
      simp only [after, World.setPc, World.unregisterWaiter, Function.update_self, hpc,
        Watch.returned, hexecuting, Option.bind_some, credit]
      by_cases ho : o' = o
      · simp [ho]
      · simp [ho]
  | setEvent o' =>
    obtain ⟨hauto, hsignal⟩ := hb.autoReset.write o' true
    obtain ⟨pc, hworld, hcredit⟩ : ∃ pc, world =
        { h.world with objects := (writeEvent h.world.objects o' true).2 }.setPc t pc ∧
        ∀ status, credit o status pc = 0 := by
      simp only [World.runTask, hpc] at hrun
      split at hrun
      next heq =>
        cases hrun
        exact ⟨_, by rw [heq], fun _ => rfl⟩
      next heq =>
        cases hrun
        exact ⟨_, by rw [heq], fun _ => rfl⟩
    rw [hworld]
    apply hb.move t
    · intro u hu
      exact Function.update_of_ne hu _ _
    · intro u _
      simp [after, Watch.statusAfter, hexecuting, hpc]
    · exact hauto
    · have hreturned : h.returned o (.run cpu) = none := by
        simp [Watch.returned, hexecuting, hpc]
      simp only [and_true] at hsignal
      simp only [after, World.setPc, Function.update_self, hcredit, hpc, hreturned, reduceCtorEq,
        if_false]
      simp only [credit]
      omega
  | clearEvent o' =>
    simp only [World.runTask, hpc, Option.some.injEq] at hrun
    subst hrun
    have hwrite := hb.autoReset.write o' false
    simp only [Bool.false_eq_true, and_false, if_false, Nat.add_zero] at hwrite
    exact hb.quiet_of_plain hexecuting (by rw [hpc]; rfl) rfl hwrite (fun _ => rfl)
  | exitRelease ids threadObject processObject status =>
    cases ids with
    | nil =>
      simp only [World.runTask, hpc, Option.some.injEq] at hrun
      subst hrun
      exact hb.quiet_of_plain hexecuting (by rw [hpc]; rfl) rfl hsame (fun _ => rfl)
    | cons id ids =>
      simp only [World.runTask, hpc, Option.some.injEq] at hrun
      subst hrun
      exact hb.quiet_of_plain hexecuting (by rw [hpc]; rfl) rfl (hb.autoReset.release id)
        (fun _ => rfl)
  | exitThread threadObject processObject status =>
    simp only [World.runTask, hpc, Option.some.injEq] at hrun
    subst hrun
    exact hb.quiet_of_plain hexecuting (by rw [hpc]; rfl) rfl
      ((hb.autoReset.signalExited (by simp) _ _).imp_right le_of_eq) (fun _ => rfl)
  | exitProcess threadObject processObject status =>
    simp only [World.runTask, hpc, Option.some.injEq] at hrun
    subst hrun
    exact hb.quiet_of_plain hexecuting (by rw [hpc]; rfl) rfl
      ((hb.autoReset.signalExited (by simp) _ _).imp_right le_of_eq) (fun _ => rfl)
  | waitBlock o' tid =>
    simp only [World.runTask, hpc, Option.map_eq_some_iff] at hrun
    obtain ⟨sched, -, rfl⟩ := hrun
    exact hb.quiet_of_plain hexecuting (by rw [hpc]; rfl) rfl hsame (fun _ => rfl)
  | waitHalt o' tid =>
    simp only [World.runTask, hpc, Option.some.injEq] at hrun
    subst hrun
    exact hb.quiet_of_plain hexecuting (by rw [hpc]; rfl) rfl hsame (fun _ => rfl)
  | wake objects exits =>
    cases objects with
    | nil =>
      cases exits with
      | false =>
        simp only [World.runTask, hpc, Option.some.injEq] at hrun
        subst hrun
        exact hb.quiet_of_plain hexecuting (by rw [hpc]; rfl) rfl hsame (fun _ => rfl)
      | true =>
        simp only [World.runTask, hpc, Option.map_eq_some_iff] at hrun
        obtain ⟨⟨sched, picked⟩, -, rfl⟩ := hrun
        exact hb.quiet_of_plain hexecuting (by rw [hpc]; rfl) rfl hsame (fun _ => rfl)
    | cons o' objects =>
      simp only [World.runTask, hpc, Option.some.injEq] at hrun
      subst hrun
      exact hb.quiet_of_plain hexecuting (by rw [hpc]; rfl) rfl hsame (fun _ => rfl)
  | waking o' rest objects exits =>
    cases rest with
    | nil =>
      simp only [World.runTask, hpc, Option.some.injEq] at hrun
      subst hrun
      exact hb.quiet_of_plain hexecuting (by rw [hpc]; rfl) rfl hsame (fun _ => rfl)
    | cons v rest =>
      simp only [World.runTask, hpc, Option.map_eq_some_iff] at hrun
      obtain ⟨sched, -, rfl⟩ := hrun
      exact hb.quiet_of_plain hexecuting (by rw [hpc]; rfl) rfl hsame (fun _ => rfl)

/-- A call of `set_event` brings the credit it has. -/
theorem call (hb : Bounded o initial h) {t : Nat} {c : Call} (hpc : h.world.pc t = .user)
    (cpu : Nat) :
    Bounded o initial
      { h with
        world := h.world.setPc t c.entry
        sets := h.sets + (Watch.isSet o (.call cpu c)).toNat } := by
  apply hb.move t
  · intro u hu
    exact Function.update_of_ne hu _ _
  · exact fun _ _ => rfl
  · exact hb.autoReset
  · have hcredit : credit o (h.status t) c.entry = (Watch.isSet o (.call cpu c)).toNat := by
      cases c with
      | setEvent o' =>
        by_cases ho : o' = o
        · simp [Call.entry, credit, Watch.isSet, ho]
        · simp [Call.entry, credit, Watch.isSet, ho]
      | _ => rfl
    simp only [World.setPc, Function.update_self, hpc, hcredit]
    simp only [credit]
    omega

theorem step (hb : Bounded o initial h) {event : Event}
    (hs : h.step o event = some h') :
    Bounded o initial h' := by
  obtain ⟨world, hworld, rfl⟩ := Option.map_eq_some_iff.mp hs
  cases event with
  | configureTopology cpuCount =>
    cases hworld
    exact hb.of_eq rfl rfl rfl rfl (by simp [Watch.returned])
  | addTask id threadId savedRsp params =>
    obtain ⟨sched, -, rfl⟩ := Option.map_eq_some_iff.mp hworld
    exact hb.of_eq rfl rfl rfl rfl (by simp [Watch.returned])
  | start =>
    obtain ⟨⟨sched, picked⟩, -, rfl⟩ := Option.map_eq_some_iff.mp hworld
    exact hb.of_eq rfl rfl rfl rfl (by simp [Watch.returned])
  | tick cpu currentRsp =>
    simp only [Waiting.step, World.tick] at hworld
    split at hworld
    · obtain ⟨⟨sched, previous⟩, -, hworld⟩ := Option.bind_eq_some_iff.mp hworld
      obtain ⟨⟨sched', picked⟩, -, hworld⟩ := Option.bind_eq_some_iff.mp hworld
      cases hworld
      exact hb.of_eq rfl rfl rfl rfl (by simp [Watch.returned])
    · cases hworld
      exact hb.of_eq rfl rfl rfl rfl (by simp [Watch.returned])
  | call cpu c =>
    obtain ⟨t, -, hworld⟩ := Option.bind_eq_some_iff.mp hworld
    split at hworld
    next hpc =>
      cases hworld
      exact (hb.call hpc cpu).of_eq rfl rfl rfl rfl (by simp [Watch.returned])
    next =>
      cases hworld
  | run cpu =>
    obtain ⟨t, hexecuting, hrun⟩ := Option.bind_eq_some_iff.mp hworld
    exact hb.run hexecuting hrun

end Bounded

/-- The object that a call is about. -/
def Pc.object : Pc → Option Nat
  | .waitFirst o | .waitPoll o | .waitRegister o => some o
  | .waitCheck o _ | .waitBlock o _ | .waitHalt o _ | .waitDone o _ => some o
  | .setEvent o | .clearEvent o => some o
  | _ => none

/-- From a state with an auto-reset event that no call is about yet, at any time no more
waits for it have succeeded than `set_event` was called, and one more if the event was
signaled. -/
theorem waits_succeed_once_per_set {o : Nat} {w : World} {record : ObjectRecord} {signaled : Bool}
    (hrecord : w.objects.objects o = some record) (hevent : record.data = .event ⟨signaled, false⟩)
    (hfresh : ∀ t, (w.pc t).object ≠ some o) {events : List Event} {h : Watch}
    (hrun : Run (Det (Watch.step o)) (Watch.start w) events h) :
    h.successes ≤ signaled.toNat + h.sets := by
  have hstart : Bounded o signaled.toNat (Watch.start w) := by
    refine ⟨?_, ∅, ?_, ?_⟩
    · intro record' hrecord'
      cases hrecord.symm.trans hrecord'
      exact ⟨_, hevent, rfl⟩
    · intro t _
      have hnot := hfresh t
      cases hpc : w.pc t with
      | setEvent o' => simp_all [Pc.object, Watch.start, credit]
      | waitDone o' tid => simp_all [Pc.object, Watch.start, credit]
      | _ => simp [Watch.start, hpc, credit]
    · simp [Watch.start, signal, hrecord, hevent, signaledOf]
  have hbounded := hrun.invariant (fun _ _ _ hb hs => hb.step hs) hstart
  obtain ⟨T, -, hcount⟩ := hbounded.credits
  omega

/-- The second task sets the event, and both wait for it; one of them succeeds. -/
def setThenWaits : List Event :=
  twoTasks ++
    [.call 1 (.setEvent 1), .run 1, .run 1, .run 1, .run 1,
      .call 0 (.waitForSingleObject 1), .run 0, .call 1 (.pollSingleObject 1), .run 1]

theorem waits_succeed_once_per_set_setThenWaits :
    ∃ h, Run (Det (Watch.step 1)) (Watch.start (World.new oneEvent)) setThenWaits h ∧
      (h.successes, h.sets) = (1, 1) ∧ h.successes ≤ false.toNat + h.sets := by
  have hcounts : (runAll (Watch.step 1) (Watch.start (World.new oneEvent)) setThenWaits).map
      (fun h => (h.successes, h.sets)) = some (1, 1) := by
    decide +kernel
  obtain ⟨h, hh, hfinal⟩ := Option.map_eq_some_iff.mp hcounts
  have hrun := (runAll_eq_some_iff _ _ _ _).mp hh
  have hfresh : ∀ t, ((World.new oneEvent).pc t).object ≠ some 1 := by
    intro t
    simp [World.new, Pc.object]
  exact ⟨h, hrun, hfinal, waits_succeed_once_per_set (by rfl) (by rfl) hfresh hrun⟩

end Waiting
end Kernel
end Theos
