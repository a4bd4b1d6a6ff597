import Mathlib.Data.Finmap
import Theos.Kernel.Scheduler

/-!
# The active process of a CPU

`switch_active_process` of `kernel/user.rs`.  The record of a process is in the map
`by_pid` or, while the process is active on a CPU, in that CPU's slot; a switch
moves the old record back into the map and the next one out of it.

The result is that no sequence of switches loses, copies or changes a record,
whatever is asked for: no process, one that is active elsewhere, or an unknown one.
The records themselves are opaque here.  The writes of `CR3` and of the segment
bases that follow a switch do not touch them and are left out.
-/

namespace Theos
namespace Kernel
namespace Processes

universe u

variable {P : Type u}

/-- `current_cpu`: the index is clamped to the last slot. -/
def currentCpu (cpu : Nat) : Fin maxCpus :=
  ⟨min cpu (maxCpus - 1), Nat.lt_of_le_of_lt (Nat.min_le_right _ _) (by decide)⟩

/-- The parts of `UserRegistry` that a switch touches, with the slots `CURRENTS`.
An entry 0 of `active_pids` stands for no process. -/
structure Registry (P : Type u) where
  byPid : Finmap (fun _ : Nat => P)
  activePids : Fin maxCpus → Nat
  slots : Fin maxCpus → P

namespace Registry

/-- The process that is active on a CPU. -/
def active (r : Registry P) (cpu : Fin maxCpus) : Option Nat :=
  if r.activePids cpu = 0 then none else some (r.activePids cpu)

/-- The old process goes back into the map. -/
def putBack [Inhabited P] (r : Registry P) (cpu : Fin maxCpus) : Registry P :=
  match r.active cpu with
  | none => r
  | some old =>
    { r with
      byPid := r.byPid.insert old (r.slots cpu)
      slots := Function.update r.slots cpu default }

/-- No process is active on the CPU. -/
def idle [Inhabited P] (r : Registry P) (cpu : Fin maxCpus) : Registry P :=
  { r with
    activePids := Function.update r.activePids cpu 0
    slots := Function.update r.slots cpu default }

/-- The record of the next process moves into the slot. -/
def adopt (r : Registry P) (cpu : Fin maxCpus) (next : Nat) (proc : P) : Registry P where
  byPid := r.byPid.erase next
  activePids := Function.update r.activePids cpu next
  slots := Function.update r.slots cpu proc

def switchActiveProcess [Inhabited P] (r : Registry P) (cpu : Fin maxCpus) (pid : Option Nat) :
    Registry P :=
  if r.active cpu = pid then r
  else
    let r := r.putBack cpu
    match pid with
    | none => r.idle cpu
    | some next =>
      match r.byPid.lookup next with
      | none => r.idle cpu
      | some proc => r.adopt cpu next proc

/-! ## Where a record is -/

/-- The places a record can be in. -/
inductive Place where
  | map
  | slot (cpu : Fin maxCpus)

/-- The record of a process is at a place. -/
def At (r : Registry P) (pid : Nat) : Place → P → Prop
  | .map, proc => r.byPid.lookup pid = some proc
  | .slot cpu, proc => pid ≠ 0 ∧ r.activePids cpu = pid ∧ r.slots cpu = proc

/-- The registry holds the record of a process. -/
def Holds (r : Registry P) (pid : Nat) (proc : P) : Prop :=
  ∃ place, r.At pid place proc

/-- Every record is in one place, and no process has the number 0. -/
structure Unique (r : Registry P) : Prop where
  once : ∀ pid place place' proc proc', r.At pid place proc → r.At pid place' proc' →
    place = place'
  zero : r.byPid.lookup 0 = none

/-- Moreover, the slot of a CPU without a process is the default one. -/
structure Placed [Inhabited P] (r : Registry P) : Prop extends Unique r where
  idle : ∀ cpu, r.activePids cpu = 0 → r.slots cpu = default

/-- The record in the slot of a CPU on which a process is active. -/
theorem at_slot (r : Registry P) {cpu : Fin maxCpus}
    (h : r.activePids cpu ≠ 0) :
    r.At (r.activePids cpu) (.slot cpu) (r.slots cpu) :=
  ⟨h, rfl, rfl⟩

section Switch

variable [Inhabited P] {r : Registry P} {cpu : Fin maxCpus}

/-- The state between the two moves of a switch. -/
def vacate (r : Registry P) (cpu : Fin maxCpus) : Registry P :=
  (r.putBack cpu).idle cpu

theorem vacate_eq
    (r : Registry P) (cpu : Fin maxCpus) :
    r.vacate cpu =
      { byPid :=
          if r.activePids cpu = 0 then r.byPid
          else r.byPid.insert (r.activePids cpu) (r.slots cpu)
        activePids := Function.update r.activePids cpu 0
        slots := Function.update r.slots cpu default } := by
  by_cases hidle : r.activePids cpu = 0 <;>
    simp [vacate, putBack, active, hidle, Registry.idle]

/-- A switch vacates the CPU and then takes the next process, if it is in the map. -/
theorem switchActiveProcess_eq
    (r : Registry P) (cpu : Fin maxCpus) (pid : Option Nat) :
    r.switchActiveProcess cpu pid =
      if r.active cpu = pid then r
      else
        match pid.bind fun next => (r.vacate cpu).byPid.lookup next with
        | none => r.vacate cpu
        | some proc => (r.vacate cpu).adopt cpu (pid.getD 0) proc := by
  simp only [switchActiveProcess]
  split
  · rfl
  · cases pid with
    | none =>
      rfl
    | some next =>
      have hmap : (r.vacate cpu).byPid = (r.putBack cpu).byPid := rfl
      simp only [Option.bind_some, hmap]
      cases (r.putBack cpu).byPid.lookup next with
      | none =>
        rfl
      | some proc =>
        simp [adopt, vacate, Registry.idle]

/-- Where a record is once the CPU is vacated: what was in its slot is in the map. -/
theorem at_vacate_iff (h : Unique r)
    {pid : Nat} {proc : P} (place : Place) :
    (r.vacate cpu).At pid place proc ↔
      (r.At pid place proc ∧ place ≠ .slot cpu) ∨
        (place = .map ∧ r.At pid (.slot cpu) proc) := by
  rw [vacate_eq]
  cases place with
  | map =>
    by_cases hidle : r.activePids cpu = 0
    · have hnone : ¬ r.At pid (.slot cpu) proc := fun hat =>
        hat.1 (hat.2.1.symm.trans hidle)
      simp only [hidle, if_true, hnone, and_false, or_false, ne_eq, reduceCtorEq,
        not_false_eq_true, and_true]
      rfl
    · by_cases hpid : pid = r.activePids cpu
      · subst hpid
        have hnone : ∀ proc, ¬ r.At (r.activePids cpu) .map proc := by
          intro proc hmap
          cases h.once _ _ _ _ _ hmap (at_slot r hidle)
        simp only [At] at hnone
        simp [At, hnone, hidle]
      · have hslot : ¬ r.activePids cpu = pid := fun he => hpid he.symm
        simp [At, hidle, Finmap.lookup_insert_of_ne _ hpid, hslot]
  | slot k =>
    by_cases hk : k = cpu
    · subst hk
      simp only [At, Function.update_self, ne_eq, not_true_eq_false, and_false, reduceCtorEq,
        false_and, or_false, iff_false]
      exact fun hat => hat.1 hat.2.1.symm
    · simp [At, hk]

theorem unique_vacate (h : Unique r)
    (cpu : Fin maxCpus) :
    Unique (r.vacate cpu) ∧
      ∀ pid proc, (r.vacate cpu).Holds pid proc ↔ r.Holds pid proc := by
  refine ⟨⟨?_, ?_⟩, fun pid proc => ⟨?_, ?_⟩⟩
  · intro pid place place' proc proc' hat hat'
    rcases (at_vacate_iff h place).mp hat with ⟨hold, hne⟩ | ⟨rfl, hold⟩ <;>
      rcases (at_vacate_iff h place').mp hat' with ⟨hold', hne'⟩ | ⟨rfl, hold'⟩
    · exact h.once _ _ _ _ _ hold hold'
    · exact absurd (h.once _ _ _ _ _ hold hold') hne
    · exact absurd (h.once _ _ _ _ _ hold' hold) hne'
    · rfl
  · rw [vacate_eq]
    dsimp only
    split
    next =>
      exact h.zero
    next hactive =>
      exact (Finmap.lookup_insert_of_ne _ (Ne.symm hactive)).trans h.zero
  · rintro ⟨place, hat⟩
    rcases (at_vacate_iff h place).mp hat with ⟨hat, -⟩ | ⟨-, hat⟩
    · exact ⟨place, hat⟩
    · exact ⟨.slot cpu, hat⟩
  · rintro ⟨place, hat⟩
    by_cases hplace : place = .slot cpu
    · subst hplace
      exact ⟨.map, (at_vacate_iff h .map).mpr (Or.inr ⟨rfl, hat⟩)⟩
    · exact ⟨place, (at_vacate_iff h place).mpr (Or.inl ⟨hat, hplace⟩)⟩

omit [Inhabited P] in
/-- Where a record is once the next process is taken from the map. -/
theorem at_adopt_iff {next : Nat} {proc : P} (hidle : r.activePids cpu = 0) (hnext : next ≠ 0)
    (hproc : r.byPid.lookup next = some proc)
    (pid : Nat) (proc' : P) (place : Place) :
    (r.adopt cpu next proc).At pid place proc' ↔
      (r.At pid place proc' ∧ ¬ (place = .map ∧ pid = next)) ∨
        (place = .slot cpu ∧ pid = next ∧ r.At pid .map proc') := by
  cases place with
  | map =>
    by_cases hpid : pid = next
    · subst hpid
      simp [At, adopt]
    · simp [At, adopt, hpid]
  | slot k =>
    by_cases hk : k = cpu
    · subst hk
      by_cases hpid : pid = next
      · subst hpid
        have hslot : ¬ r.activePids k = pid := fun he => hnext (he.symm.trans hidle)
        simp [At, adopt, hproc, hnext, hslot]
      · have hslot : ¬ (pid ≠ 0 ∧ r.activePids k = pid ∧ r.slots k = proc') :=
          fun hat => hat.1 (hat.2.1.symm.trans hidle)
        have hne : ¬ next = pid := fun he => hpid he.symm
        simp [At, adopt, hpid, hne, hslot]
    · simp [At, adopt, hk]

omit [Inhabited P] in
/-- Taking a process from the map into the slot of an idle CPU moves its record. -/
theorem unique_adopt (h : Unique r) {next : Nat} {proc : P} (hidle : r.activePids cpu = 0)
    (hnext : next ≠ 0)
    (hproc : r.byPid.lookup next = some proc) :
    Unique (r.adopt cpu next proc) ∧
      ∀ pid proc', (r.adopt cpu next proc).Holds pid proc' ↔ r.Holds pid proc' := by
  have hat := at_adopt_iff hidle hnext hproc
  refine ⟨⟨?_, ?_⟩, fun pid proc' => ⟨?_, ?_⟩⟩
  · intro pid place place' proc₁ proc₂ h₁ h₂
    rcases (hat _ _ place).mp h₁ with ⟨hold, hne⟩ | ⟨rfl, rfl, hold⟩ <;>
      rcases (hat _ _ place').mp h₂ with ⟨hold', hne'⟩ | ⟨rfl, hpid, hold'⟩
    · exact h.once _ _ _ _ _ hold hold'
    · exact absurd ⟨h.once _ _ _ _ _ hold hold', hpid⟩ hne
    · exact absurd ⟨h.once _ _ _ _ _ hold' hold, rfl⟩ hne'
    · rfl
  · simp only [adopt]
    rw [Finmap.lookup_erase_ne (Ne.symm hnext)]
    exact h.zero
  · rintro ⟨place, hplace⟩
    rcases (hat _ _ place).mp hplace with ⟨hold, -⟩ | ⟨-, -, hold⟩
    · exact ⟨place, hold⟩
    · exact ⟨.map, hold⟩
  · rintro ⟨place, hplace⟩
    by_cases hmoved : place = .map ∧ pid = next
    · obtain ⟨rfl, rfl⟩ := hmoved
      exact ⟨.slot cpu, (hat _ _ (.slot cpu)).mpr (Or.inr ⟨rfl, rfl, hplace⟩)⟩
    · exact ⟨place, (hat _ _ place).mpr (Or.inl ⟨hplace, hmoved⟩)⟩

/-- A switch does nothing, only vacates the CPU, or then takes a process from the map. -/
theorem switchActiveProcess_cases (h : Unique r)
    (cpu : Fin maxCpus) (pid : Option Nat) :
    r.switchActiveProcess cpu pid = r ∨ r.switchActiveProcess cpu pid = r.vacate cpu ∨
      ∃ next proc, next ≠ 0 ∧ (r.vacate cpu).byPid.lookup next = some proc ∧
        r.switchActiveProcess cpu pid = (r.vacate cpu).adopt cpu next proc := by
  rw [switchActiveProcess_eq]
  split
  next =>
    exact Or.inl rfl
  next =>
    right
    cases pid with
    | none =>
      exact Or.inl rfl
    | some next =>
      simp only [Option.bind_some, Option.getD_some]
      split
      next =>
        exact Or.inl rfl
      next proc hproc =>
        refine Or.inr ⟨next, proc, ?_, hproc, rfl⟩
        rintro rfl
        rw [(unique_vacate h cpu).1.zero] at hproc
        cases hproc

/-- One switch. -/
theorem unique_switchActiveProcess (h : Unique r)
    (cpu : Fin maxCpus) (pid : Option Nat) :
    Unique (r.switchActiveProcess cpu pid) ∧
      ∀ p proc, (r.switchActiveProcess cpu pid).Holds p proc ↔ r.Holds p proc := by
  obtain ⟨hvacated, hholds⟩ := unique_vacate h cpu
  rcases switchActiveProcess_cases h cpu pid with hsame | hvacate | ⟨next, proc, hnext, hproc, heq⟩
  · rw [hsame]
    exact ⟨h, fun _ _ => Iff.rfl⟩
  · rw [hvacate]
    exact ⟨hvacated, hholds⟩
  · rw [heq]
    have hidle : (r.vacate cpu).activePids cpu = 0 := by simp [vacate_eq]
    obtain ⟨hadopted, hholds'⟩ := unique_adopt hvacated hidle hnext hproc
    exact ⟨hadopted, fun p proc' => (hholds' p proc').trans (hholds p proc')⟩

/-- The slots of the CPUs without a process stay the default ones. -/
theorem placed_switchActiveProcess (h : Placed r)
    (cpu : Fin maxCpus) (pid : Option Nat) :
    Placed (r.switchActiveProcess cpu pid) := by
  refine ⟨(unique_switchActiveProcess h.toUnique cpu pid).1, ?_⟩
  have hvacated : ∀ k, (r.vacate cpu).activePids k = 0 → (r.vacate cpu).slots k = default := by
    intro k hk
    rw [vacate_eq] at hk ⊢
    by_cases hcpu : k = cpu
    · subst hcpu
      simp
    · simp only [Function.update_of_ne hcpu] at hk ⊢
      exact h.idle k hk
  rcases switchActiveProcess_cases h.toUnique cpu pid with
    hsame | hvacate | ⟨next, proc, hnext, -, heq⟩
  · rw [hsame]
    exact h.idle
  · rw [hvacate]
    exact hvacated
  · rw [heq]
    intro k hk
    by_cases hcpu : k = cpu
    · subst hcpu
      simp [adopt, hnext] at hk
    · simp only [adopt, Function.update_of_ne hcpu] at hk ⊢
      exact hvacated k hk

end Switch

/-! ## Runs -/

/-- A sequence of switches, each on some CPU. -/
def switches [Inhabited P] (r : Registry P) (calls : List (Nat × Option Nat)) : Registry P :=
  calls.foldl (fun r call => r.switchActiveProcess (currentCpu call.1) call.2) r

/-- No sequence of switches loses, copies or changes a process. -/
theorem switches_keep_processes [Inhabited P] (r : Registry P) (h : Placed r)
    (calls : List (Nat × Option Nat)) :
    (∀ pid proc, (r.switches calls).Holds pid proc ↔ r.Holds pid proc) ∧
      (∀ pid proc, (r.switches calls).Holds pid proc →
        ∃! place, ∃ proc, (r.switches calls).At pid place proc) ∧
      ∀ cpu, (r.switches calls).activePids cpu = 0 → (r.switches calls).slots cpu = default := by
  have hrun : Placed (r.switches calls) ∧
      ∀ pid proc, (r.switches calls).Holds pid proc ↔ r.Holds pid proc := by
    induction calls generalizing r with
    | nil =>
      exact ⟨h, fun _ _ => Iff.rfl⟩
    | cons call calls ih =>
      have hholds := (unique_switchActiveProcess h.toUnique (currentCpu call.1) call.2).2
      obtain ⟨hlast, hsame⟩ := ih _ (placed_switchActiveProcess h (currentCpu call.1) call.2)
      exact ⟨hlast, fun pid proc => (hsame pid proc).trans (hholds pid proc)⟩
  obtain ⟨hplaced, hholds⟩ := hrun
  refine ⟨hholds, ?_, hplaced.idle⟩
  rintro pid proc ⟨place, hat⟩
  refine ⟨place, ⟨proc, hat⟩, ?_⟩
  rintro place' ⟨proc', hat'⟩
  exact hplaced.once pid place' place proc' proc hat' hat

/-- Process 1 is active on CPU 0, process 2 is in the map. -/
def oneActive : Registry Nat where
  byPid := Finmap.singleton 2 20
  activePids := fun cpu => if cpu = currentCpu 0 then 1 else 0
  slots := fun cpu => if cpu = currentCpu 0 then 10 else default

theorem oneActive_placed :
    Placed oneActive := by
  have hactive : ∀ cpu pid, pid ≠ 0 → oneActive.activePids cpu = pid →
      cpu = currentCpu 0 ∧ pid = 1 := by
    intro cpu pid hzero hpid
    by_cases hcpu : cpu = currentCpu 0
    · exact ⟨hcpu, by simpa [oneActive, hcpu] using hpid.symm⟩
    · exact absurd hpid.symm (by simpa [oneActive, hcpu] using hzero)
  have hmap : ∀ proc, oneActive.byPid.lookup 1 ≠ some proc := by
    intro proc
    have hnone : oneActive.byPid.lookup 1 = none := by decide
    simp [hnone]
  refine ⟨⟨?_, by decide⟩, ?_⟩
  · rintro pid (_ | cpu) (_ | cpu') proc proc' hat hat'
    · rfl
    · obtain ⟨-, rfl⟩ := hactive cpu' pid hat'.1 hat'.2.1
      exact absurd hat (hmap proc)
    · obtain ⟨-, rfl⟩ := hactive cpu pid hat.1 hat.2.1
      exact absurd hat' (hmap proc')
    · rw [(hactive cpu pid hat.1 hat.2.1).1, (hactive cpu' pid hat'.1 hat'.2.1).1]
  · intro cpu hcpu
    by_cases h : cpu = currentCpu 0
    · simp [oneActive, h] at hcpu
    · simp [oneActive, h]

/-- CPU 1 asks for the process of CPU 0, CPU 0 switches, CPU 1 asks again and for an
unknown process. -/
theorem switches_keep_processes_oneActive :
    (oneActive.switches [(1, some 1), (0, some 2), (1, some 1), (1, some 9)]).Holds 1 10 ∧
      (oneActive.switches [(1, some 1), (0, some 2), (1, some 1), (1, some 9)]).Holds 2 20 := by
  have hkeep := (switches_keep_processes oneActive oneActive_placed
    [(1, some 1), (0, some 2), (1, some 1), (1, some 9)]).1
  refine ⟨(hkeep 1 10).mpr ⟨.slot (currentCpu 0), ?_⟩, (hkeep 2 20).mpr ⟨.map, ?_⟩⟩
  · exact ⟨by decide, by decide, by decide⟩
  · change oneActive.byPid.lookup 2 = some 20
    decide

end Registry

end Processes
end Kernel
end Theos
