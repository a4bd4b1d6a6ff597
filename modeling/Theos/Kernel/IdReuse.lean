import Theos.Base.IdCounter
import Theos.Kernel.ActiveProcess
import Theos.Kernel.ObjectTable
import Theos.Kernel.Pipes

/-!
# When an id is handed out twice

Objects, processes, address spaces and pipes are known by 32-bit ids, which the kernel takes from a
counter for each kind.  The counters of objects, processes and address spaces stay at
the last number, that of pipes starts again at 1, and none of the four functions
looks whether the id it hands out is in use.

`Tables` are the tables behind the ids, and a run is a sequence of creations and releases in any
order.  The calls that create a process are cut where they let go of the registry, so
that several of them may be under way at once.  The first ids of each kind, as many as there are
numbers, are always new (`not_live_of_lt`).  From then on a new object, process or space gets the
last number, and a new pipe the number of the pipe that was made a whole round before.

## Main result

* `handed_out_fresh_iff`: no id in use is handed out in a run exactly if the ids that come again
  are not in use when they do.
-/

namespace Theos
namespace Kernel
namespace Ids

open Base
open Nt
open Processes

/-! ## Objects -/

/-- What is done to the object table, each under its lock. -/
inductive ObjectOp where
  | createNamed (name : Path) (data : ObjectData)
  | insertUnnamed (data : ObjectData)
  | retain (id : Nat)
  | release (id : Nat)

namespace ObjectOp

def after (m : ObjectManager) : ObjectOp → ObjectManager
  | .createNamed name data => (m.createNamed name data).2
  | .insertUnnamed data => (m.insertUnnamed data).2
  | .retain id => (m.retain id).2
  | .release id => (m.release id).2

/-- The id that is handed out. -/
def handed (m : ObjectManager) : ObjectOp → Option Nat
  | .createNamed name data => (m.createNamed name data).1.toOption
  | .insertUnnamed data => some (m.insertUnnamed data).1
  | _ => none

end ObjectOp

/-- The ids in an object table. -/
def objectIds (m : ObjectManager) : Set Nat :=
  {id | ∃ record, m.objects id = some record}

/-! ## Processes and address spaces -/

/-- The registry of processes, with the ids that calls of `create_user_process` have allocated and
not yet registered. -/
structure Spawns (P A : Type) where
  registry : Registry P
  spaces : Nat → Option A
  nextPid : Nat
  nextAddressSpaceId : Nat
  pending : List (Nat × Nat)

inductive ProcessOp (P A : Type) where
  /-- The registration in `create_init_task`. -/
  | init (proc : P) (space : A)
  | allocate
  /-- The registration in `create_user_process`, by one of the calls under way. -/
  | register (pid asid : Nat) (proc : P) (space : A)
  /-- `cleanup_failed_spawn`, by one of the calls under way. -/
  | cleanup (pid asid : Nat)
  /-- The image could not be loaded. -/
  | remove (pid asid : Nat)
  | switch (cpu : Fin maxCpus) (pid : Option Nat)

namespace Spawns

variable {P A : Type}

/-- `allocate_pid`: the id, and the counter after it. -/
def allocatePid (s : Spawns P A) : Nat × Nat :=
  (max s.nextPid 1, min (max s.nextPid 1 + 1) u32Max)

def allocateAddressSpaceId (s : Spawns P A) : Nat × Nat :=
  (max s.nextAddressSpaceId 1, min (max s.nextAddressSpaceId 1 + 1) u32Max)

def insert (s : Spawns P A) (pid asid : Nat) (proc : P) (space : A) : Spawns P A :=
  { s with
    registry := { s.registry with byPid := s.registry.byPid.insert pid proc }
    spaces := Function.update s.spaces asid (some space) }

def remove (s : Spawns P A) (pid asid : Nat) : Spawns P A :=
  { s with
    registry := { s.registry with byPid := s.registry.byPid.erase pid }
    spaces := Function.update s.spaces asid none }

def after [Inhabited P] (s : Spawns P A) : ProcessOp P A → Spawns P A
  | .init proc space => s.insert 1 1 proc space
  | .allocate =>
    { s with
      nextPid := s.allocatePid.2
      nextAddressSpaceId := s.allocateAddressSpaceId.2
      pending := (s.allocatePid.1, s.allocateAddressSpaceId.1) :: s.pending }
  | .register pid asid proc space =>
    if (pid, asid) ∈ s.pending then
      { s.insert pid asid proc space with pending := s.pending.erase (pid, asid) }
    else s
  | .cleanup pid asid =>
    if (pid, asid) ∈ s.pending then
      { s.remove pid asid with pending := s.pending.erase (pid, asid) }
    else s
  | .remove pid asid => s.remove pid asid
  | .switch cpu pid => { s with registry := s.registry.switchActiveProcess cpu pid }

/-- The processes that are in the registry, active on a CPU, or being created. -/
def livePids (s : Spawns P A) : Set Nat :=
  {pid | (∃ proc, s.registry.Holds pid proc) ∨ ∃ asid, (pid, asid) ∈ s.pending}

def liveSpaces (s : Spawns P A) : Set Nat :=
  {asid | (∃ space, s.spaces asid = some space) ∨ ∃ pid, (pid, asid) ∈ s.pending}

end Spawns

/-! ## Pipes -/

/-- A descriptor is for an end of a pipe. -/
def IsEnd (id : Nat) (file : OpenFile) : Prop :=
  file.special = some (.pipeRead id) ∨ file.special = some (.pipeWrite id)

/-- The pipes that are there, or that a descriptor is for. -/
def livePipes (s : PipeTables) : Set Nat :=
  {id | (∃ pipe, s.vfs.pipes id = some pipe) ∨
    ∃ (slot : Nat) (file : OpenFile), s.vfs.files[slot]? = some (some file) ∧ IsEnd id file}

/-- The pipe that a call creates. -/
def createdPipe (s : PipeTables) : PipeTables.Call → Option Nat
  | .create => s.createPipe.1.toOption.map fun _ => s.nextPipeId
  | _ => none

/-! ## All tables -/

inductive Kind where
  | object
  | pid
  | space
  | pipe
deriving DecidableEq, Repr

structure Tables (P A : Type) where
  objects : ObjectManager
  spawns : Spawns P A
  pipes : PipeTables

inductive Op (P A : Type) where
  | object (op : ObjectOp)
  | process (op : ProcessOp P A)
  | pipe (call : PipeTables.Call)

namespace Tables

variable {P A : Type} [Inhabited P]

/-- The tables before anything is created. -/
def boot : Tables P A where
  objects := .new
  spawns := ⟨⟨∅, fun _ => 0, fun _ => default⟩, fun _ => none, 2, 2, []⟩
  pipes := .mount

def after (s : Tables P A) : Op P A → Tables P A
  | .object op => { s with objects := op.after s.objects }
  | .process op => { s with spawns := s.spawns.after op }
  | .pipe call => { s with pipes := s.pipes.after call }

/-- The tables after a run. -/
def run (s : Tables P A) (ops : List (Op P A)) : Tables P A :=
  ops.foldl after s

/-- The id of a kind that an operation hands out. -/
def handed (s : Tables P A) : Kind → Op P A → Option Nat
  | .object, .object op => op.handed s.objects
  | .pid, .process .allocate => some s.spawns.allocatePid.1
  | .space, .process .allocate => some s.spawns.allocateAddressSpaceId.1
  | .pipe, .pipe call => createdPipe s.pipes call
  | _, _ => none

/-- The ids of a kind that are in use. -/
def live (s : Tables P A) : Kind → Set Nat
  | .object => objectIds s.objects
  | .pid => s.spawns.livePids
  | .space => s.spawns.liveSpaces
  | .pipe => livePipes s.pipes

/-- The number of ids of a kind that a run hands out. -/
def made (s : Tables P A) (kind : Kind) : List (Op P A) → Nat
  | [] => 0
  | op :: ops => (s.handed kind op).toList.length + (s.after op).made kind ops

end Tables

/-- The first id that is handed out. -/
def Kind.start : Kind → Nat
  | .object => 1
  | .pid => 2
  | .space => 2
  | .pipe => 1

def Kind.next : Kind → Nat → Nat
  | .pipe => wrappingSucc u32Max
  | _ => saturatingSucc u32Max

/-- The number of ids before one comes again. -/
def Kind.range (kind : Kind) : Nat :=
  u32Max + 1 - kind.start

/-- The id that comes again, once a number of ids have been handed out. -/
def Kind.reissued (n : Nat) : Kind → Nat
  | .pipe => n % u32Max + 1
  | _ => u32Max

/-- The ids of the first process. -/
def Kind.reserved : Kind → Set Nat
  | .pid => {1}
  | .space => {1}
  | _ => ∅

/-! ## One step -/

/-- The counter of a kind. -/
def Tables.counter {P A : Type} (s : Tables P A) : Kind → Nat
  | .object => s.objects.nextId
  | .pid => s.spawns.allocatePid.1
  | .space => s.spawns.allocateAddressSpaceId.1
  | .pipe => s.pipes.nextPipeId

/-- The table of a kind. -/
def Tables.table {P A : Type} (s : Tables P A) (kind : Kind) : IdTable :=
  ⟨s.counter kind, s.live kind⟩

theorem objectIds_update {m : ObjectManager} {id : Nat} {record : Option ObjectRecord}
    {m' : ObjectManager} (h : m'.objects = Function.update m.objects id record) :
    objectIds m' ⊆ insert id (objectIds m) := by
  rintro x ⟨r, hr⟩
  rw [h] at hr
  by_cases hx : x = id
  · exact .inl hx
  · rw [Function.update_of_ne hx] at hr
    exact .inr ⟨r, hr⟩

theorem objectIds_update_of_mem {m : ObjectManager} {id : Nat} {record : Option ObjectRecord}
    {m' : ObjectManager} (h : m'.objects = Function.update m.objects id record)
    (hid : id ∈ objectIds m) :
    objectIds m' ⊆ objectIds m :=
  (objectIds_update h).trans (Set.insert_subset hid subset_rfl)

theorem step_object (m : ObjectManager) (op : ObjectOp) :
    IdTable.Step (saturatingSucc u32Max) ∅ ⟨m.nextId, objectIds m⟩ (op.handed m)
      ⟨(op.after m).nextId, objectIds (op.after m)⟩ := by
  cases op with
  | createNamed name data =>
    simp only [ObjectOp.handed, ObjectOp.after, ObjectManager.createNamed]
    cases m.named.lookup (canonicalizeNtPath name) with
    | some id => exact .other Set.subset_union_left
    | none => exact .hand (objectIds_update rfl)
  | insertUnnamed data =>
    exact .hand (objectIds_update rfl)
  | retain id =>
    simp only [ObjectOp.handed, ObjectOp.after, ObjectManager.retain]
    cases hid : m.objects id with
    | none => exact .other Set.subset_union_left
    | some record =>
      exact .other ((objectIds_update_of_mem rfl ⟨record, hid⟩).trans Set.subset_union_left)
  | release id =>
    simp only [ObjectOp.handed, ObjectOp.after, ObjectManager.release]
    cases hid : m.objects id with
    | none => exact .other Set.subset_union_left
    | some record =>
      dsimp only
      split
      · exact .other ((objectIds_update_of_mem rfl ⟨record, hid⟩).trans Set.subset_union_left)
      · exact .other ((objectIds_update_of_mem rfl ⟨record, hid⟩).trans Set.subset_union_left)

section Processes

variable {P A : Type} {s : Spawns P A}

theorem holds_insert {r : Registry P} {pid x : Nat} {proc proc' : P}
    (h : ({ r with byPid := r.byPid.insert pid proc } : Registry P).Holds x proc') :
    x = pid ∨ ∃ proc', r.Holds x proc' := by
  obtain ⟨place, hat⟩ := h
  cases place with
  | map =>
    by_cases hx : x = pid
    · exact .inl hx
    · exact .inr ⟨proc', .map, (Finmap.lookup_insert_of_ne _ hx).symm.trans hat⟩
  | slot cpu => exact .inr ⟨proc', .slot cpu, hat⟩

theorem holds_erase {r : Registry P} {pid x : Nat} {proc' : P}
    (h : ({ r with byPid := r.byPid.erase pid } : Registry P).Holds x proc') :
    ∃ proc', r.Holds x proc' := by
  obtain ⟨place, hat⟩ := h
  cases place with
  | map =>
    by_cases hx : x = pid
    · subst hx
      simp [Registry.At] at hat
    · exact ⟨proc', .map, (Finmap.lookup_erase_ne hx).symm.trans hat⟩
  | slot cpu => exact ⟨proc', .slot cpu, hat⟩

theorem holds_vacate [Inhabited P] {r : Registry P} {cpu : Fin maxCpus} {x : Nat} {proc : P}
    (h : (r.vacate cpu).Holds x proc) :
    ∃ proc', r.Holds x proc' := by
  rw [Registry.vacate_eq] at h
  obtain ⟨place, hat⟩ := h
  cases place with
  | map =>
    by_cases hidle : r.activePids cpu = 0
    · simp only [Registry.At, hidle, if_true] at hat
      exact ⟨proc, .map, hat⟩
    · simp only [Registry.At, hidle, if_false] at hat
      by_cases hx : x = r.activePids cpu
      · exact ⟨_, .slot cpu, by rw [hx]; exact r.at_slot hidle⟩
      · exact ⟨proc, .map, (Finmap.lookup_insert_of_ne _ hx).symm.trans hat⟩
  | slot k =>
    obtain ⟨hne, hactive, hslot⟩ := hat
    dsimp only at hactive hslot
    by_cases hk : k = cpu
    · rw [hk, Function.update_self] at hactive
      exact absurd hactive.symm hne
    · rw [Function.update_of_ne hk] at hactive hslot
      exact ⟨proc, .slot k, hne, hactive, hslot⟩

theorem holds_adopt {r : Registry P} {cpu : Fin maxCpus} {next x : Nat} {proc proc' : P}
    (hproc : r.byPid.lookup next = some proc) (h : (r.adopt cpu next proc).Holds x proc') :
    ∃ proc', r.Holds x proc' := by
  obtain ⟨place, hat⟩ := h
  cases place with
  | map => exact holds_erase ⟨.map, hat⟩
  | slot k =>
    obtain ⟨hne, hactive, hslot⟩ := hat
    simp only [Registry.adopt] at hactive hslot
    by_cases hk : k = cpu
    · rw [hk, Function.update_self] at hactive
      exact ⟨proc, .map, hactive ▸ hproc⟩
    · rw [Function.update_of_ne hk] at hactive hslot
      exact ⟨proc', .slot k, hne, hactive, hslot⟩

/-- A switch brings no process into the registry. -/
theorem holds_switch [Inhabited P] {r : Registry P} {cpu : Fin maxCpus} {pid : Option Nat}
    {x : Nat} {proc : P} (h : (r.switchActiveProcess cpu pid).Holds x proc) :
    ∃ proc', r.Holds x proc' := by
  rw [Registry.switchActiveProcess_eq] at h
  split at h
  · exact ⟨proc, h⟩
  · split at h
    next => exact holds_vacate h
    next next hnext =>
      obtain ⟨target, rfl, hlookup⟩ := Option.bind_eq_some_iff.mp hnext
      obtain ⟨proc', hholds⟩ := holds_adopt hlookup h
      exact holds_vacate hholds

/-- The ids of one of the two kinds in the registry, where `pick` takes them from the pair that a
call has allocated. -/
structure Tracks (live : Spawns P A → Set Nat) (pick : Nat × Nat → Nat) : Prop where
  pending : ∀ (s : Spawns P A), ∀ p ∈ s.pending, pick p ∈ live s
  allocated : ∀ (s : Spawns P A) (p : Nat × Nat) (nextPid nextAddressSpaceId : Nat),
    live { s with
      nextPid := nextPid
      nextAddressSpaceId := nextAddressSpaceId
      pending := p :: s.pending } ⊆ insert (pick p) (live s)
  inserted : ∀ (s : Spawns P A) (pid asid : Nat) (proc : P) (space : A)
      (pending : List (Nat × Nat)), (∀ p ∈ pending, p ∈ s.pending) →
      live { s.insert pid asid proc space with pending := pending } ⊆
        insert (pick (pid, asid)) (live s)
  removed : ∀ (s : Spawns P A) (pid asid : Nat) (pending : List (Nat × Nat)),
    (∀ p ∈ pending, p ∈ s.pending) →
      live { s.remove pid asid with pending := pending } ⊆ live s
  switched : ∀ [Inhabited P] (s : Spawns P A) (cpu : Fin maxCpus) (pid : Option Nat),
    live { s with registry := s.registry.switchActiveProcess cpu pid } ⊆ live s

theorem tracks_livePids : Tracks (Spawns.livePids (P := P) (A := A)) Prod.fst where
  pending s p hp := .inr ⟨p.2, hp⟩
  allocated s p nextPid nextAddressSpaceId := by
    rintro x (hholds | ⟨y, hy⟩)
    · exact .inr (.inl hholds)
    · rcases List.mem_cons.mp hy with heq | hold
      · exact .inl (congrArg Prod.fst heq)
      · exact .inr (.inr ⟨y, hold⟩)
  inserted s pid asid proc space pending hpending := by
    rintro x (⟨proc', hholds⟩ | ⟨y, hy⟩)
    · rcases holds_insert hholds with hx | hold
      · exact .inl hx
      · exact .inr (.inl hold)
    · exact .inr (.inr ⟨y, hpending _ hy⟩)
  removed s pid asid pending hpending := by
    rintro x (⟨proc', hholds⟩ | ⟨y, hy⟩)
    · exact .inl (holds_erase hholds)
    · exact .inr ⟨y, hpending _ hy⟩
  switched s cpu pid := by
    rintro x (⟨proc, hholds⟩ | hpending)
    · exact .inl (holds_switch hholds)
    · exact .inr hpending

theorem tracks_liveSpaces : Tracks (Spawns.liveSpaces (P := P) (A := A)) Prod.snd where
  pending s p hp := .inr ⟨p.1, hp⟩
  allocated s p nextPid nextAddressSpaceId := by
    rintro x (hspace | ⟨y, hy⟩)
    · exact .inr (.inl hspace)
    · rcases List.mem_cons.mp hy with heq | hold
      · exact .inl (congrArg Prod.snd heq)
      · exact .inr (.inr ⟨y, hold⟩)
  inserted s pid asid proc space pending hpending := by
    rintro x (⟨space', hspace⟩ | ⟨y, hy⟩)
    · by_cases hx : x = asid
      · exact .inl hx
      · exact .inr (.inl ⟨space', (Function.update_of_ne hx _ _).symm.trans hspace⟩)
    · exact .inr (.inr ⟨y, hpending _ hy⟩)
  removed s pid asid pending hpending := by
    rintro x (⟨space', hspace⟩ | ⟨y, hy⟩)
    · by_cases hx : x = asid
      · simp only [Spawns.remove, hx, Function.update_self, reduceCtorEq] at hspace
      · exact .inl ⟨space', (Function.update_of_ne hx _ _).symm.trans hspace⟩
    · exact .inr ⟨y, hpending _ hy⟩
  switched s cpu pid := subset_rfl

/-- The counter after an allocation, as the next one uses it. -/
theorem max_saturating (n : Nat) :
    max (min (max n 1 + 1) u32Max) 1 = saturatingSucc u32Max (max n 1) := by
  have hlast : 1 ≤ u32Max := by decide
  rw [saturatingSucc]
  omega

/-- The other operations keep the counters. -/
theorem counters_after [Inhabited P] (s : Spawns P A) {op : ProcessOp P A} (h : op ≠ .allocate) :
    (s.after op).nextPid = s.nextPid ∧
      (s.after op).nextAddressSpaceId = s.nextAddressSpaceId := by
  cases op with
  | allocate => exact absurd rfl h
  | register pid asid proc space =>
    simp only [Spawns.after]
    split <;> exact ⟨rfl, rfl⟩
  | cleanup pid asid =>
    simp only [Spawns.after]
    split <;> exact ⟨rfl, rfl⟩
  | _ => exact ⟨rfl, rfl⟩

/-- Ids come into use by an allocation, or are those of the first process. -/
theorem Tracks.live_after [Inhabited P] {live : Spawns P A → Set Nat} {pick : Nat × Nat → Nat}
    (h : Tracks live pick) (s : Spawns P A) {op : ProcessOp P A} (hop : op ≠ .allocate) :
    live (s.after op) ⊆ live s ∪ {pick (1, 1)} := by
  cases op with
  | allocate => exact absurd rfl hop
  | init proc space =>
    refine (h.inserted s 1 1 proc space s.pending fun _ => id).trans ?_
    exact Set.insert_subset (.inr rfl) Set.subset_union_left
  | register pid asid proc space =>
    simp only [Spawns.after]
    split
    next hmem =>
      refine ((h.inserted s pid asid proc space _ fun _ => List.mem_of_mem_erase).trans ?_).trans
        Set.subset_union_left
      exact Set.insert_subset (h.pending s _ hmem) subset_rfl
    next => exact Set.subset_union_left
  | cleanup pid asid =>
    simp only [Spawns.after]
    split
    next =>
      exact (h.removed s pid asid _ fun _ => List.mem_of_mem_erase).trans Set.subset_union_left
    next => exact Set.subset_union_left
  | remove pid asid =>
    exact (h.removed s pid asid s.pending fun _ => id).trans Set.subset_union_left
  | switch cpu pid => exact (h.switched s cpu pid).trans Set.subset_union_left

end Processes

section Pipes

variable {s : PipeTables}

/-- A file put into a slot is an end of a pipe in use. -/
theorem livePipes_setFile {slot : Nat} {file : OpenFile}
    (h : ∀ id, IsEnd id file → id ∈ livePipes s) :
    livePipes (s.setFile slot file) ⊆ livePipes s := by
  rintro id (⟨pipe, hpipe⟩ | ⟨k, other, hk, hend⟩)
  · exact .inl ⟨pipe, hpipe⟩
  · simp only [PipeTables.setFile, List.getElem?_set] at hk
    split at hk
    · split at hk
      · cases hk
        exact h id hend
      · cases hk
    · exact .inr ⟨k, other, hk, hend⟩

theorem livePipes_setPipe {id : Nat} {pipe pipe' : Pipe} (h : s.vfs.pipes id = some pipe) :
    livePipes (s.setPipe id pipe') ⊆ livePipes s := by
  rintro x (⟨p, hp⟩ | hfile)
  · by_cases hx : x = id
    · exact .inl ⟨pipe, hx ▸ h⟩
    · exact .inl ⟨p, (Function.update_of_ne hx _ _).symm.trans hp⟩
  · exact .inr hfile

/-- The ends that a descriptor is for are in use. -/
theorem mem_livePipes_of_file {fd : Int} {file : OpenFile} (h : s.file fd = some file) {id : Nat}
    (hend : IsEnd id file) :
    id ∈ livePipes s := by
  obtain ⟨slot, -, hslot⟩ := PipeTables.file_eq_some_iff.mp h
  exact .inr ⟨slot, file, hslot, hend⟩

/-- The descriptors that are left were there before, for the same ends. -/
theorem special_close {fd : Int} {k : Nat} {file : OpenFile}
    (h : (s.close fd).2.vfs.files[k]? = some (some file)) :
    ∃ old, s.vfs.files[k]? = some (some old) ∧ old.special = file.special := by
  simp only [PipeTables.close, Vfs.close] at h
  split at h
  next => exact ⟨file, h, rfl⟩
  next slot _ =>
    split at h
    next => exact ⟨file, h, rfl⟩
    next => exact ⟨file, h, rfl⟩
    next old hold =>
      split at h
      next =>
        dsimp only at h
        rw [List.getElem?_set] at h
        split at h
        next heq =>
          subst heq
          split at h
          · cases h
            exact ⟨old, hold, rfl⟩
          · cases h
        next => exact ⟨file, h, rfl⟩
      next =>
        rw [Vfs.files_releaseSpecial] at h
        dsimp only at h
        rw [List.getElem?_set] at h
        split at h
        · split at h <;> cases h
        · exact ⟨file, h, rfl⟩

theorem livePipes_close (fd : Int) : livePipes (s.close fd).2 ⊆ livePipes s := by
  rintro id (⟨pipe', hpipe'⟩ | ⟨k, file, hk, hend⟩)
  · obtain ⟨pipe, hpipe, -⟩ := s.close_pipes fd id pipe' hpipe'
    exact .inl ⟨pipe, hpipe⟩
  · obtain ⟨old, hold, hspecial⟩ := special_close hk
    exact .inr ⟨k, old, hold, by rwa [IsEnd, hspecial]⟩

theorem livePipes_create : livePipes s.createPipe.2 ⊆ insert s.nextPipeId (livePipes s) := by
  rw [PipeTables.createPipe]
  split
  · exact Set.subset_insert _ _
  · split
    · exact Set.subset_insert _ _
    next =>
      dsimp only
      -- the pipe is there before its two descriptors
      have hpipe : livePipes (({ s with
          nextPipeId := max ((s.nextPipeId + 1) % 2 ^ 32) 1 } : PipeTables).setPipe s.nextPipeId
            ⟨[], 1, 1⟩) ⊆ insert s.nextPipeId (livePipes s) := by
        rintro id (⟨pipe, hpipe⟩ | hfile)
        · by_cases hid : id = s.nextPipeId
          · exact .inl hid
          · exact .inr (.inl ⟨pipe, (Function.update_of_ne hid _ _).symm.trans hpipe⟩)
        · exact .inr (.inr hfile)
      refine (livePipes_setFile fun id hend => ?_).trans
        ((livePipes_setFile fun id hend => ?_).trans hpipe)
      · rcases hend with hend | hend <;> cases hend
        exact .inl ⟨_, Function.update_self _ _ _⟩
      · rcases hend with hend | hend <;> cases hend
        exact .inl ⟨_, Function.update_self _ _ _⟩

/-- The calls on pipes that are there. -/
theorem readPipe_after (s : PipeTables) (id len : Nat) :
    (s.readPipe id len).2.nextPipeId = s.nextPipeId ∧
      livePipes (s.readPipe id len).2 ⊆ livePipes s := by
  rw [PipeTables.readPipe]
  split
  · exact ⟨rfl, subset_rfl⟩
  · split
    · exact ⟨rfl, subset_rfl⟩
    next pipe hpipe =>
      split
      · exact ⟨rfl, subset_rfl⟩
      · exact ⟨rfl, livePipes_setPipe hpipe⟩

theorem writePipe_after (s : PipeTables) (id : Nat) (data : Bytes) :
    (s.writePipe id data).2.nextPipeId = s.nextPipeId ∧
      livePipes (s.writePipe id data).2 ⊆ livePipes s := by
  rw [PipeTables.writePipe]
  split
  · exact ⟨rfl, subset_rfl⟩
  · split
    · exact ⟨rfl, subset_rfl⟩
    next pipe hpipe =>
      split
      · exact ⟨rfl, subset_rfl⟩
      · split
        · exact ⟨rfl, subset_rfl⟩
        · exact ⟨rfl, livePipes_setPipe hpipe⟩

/-- A call that creates no pipe leaves the counter alone and brings no pipe into use. -/
theorem pipes_after (s : PipeTables) {call : PipeTables.Call} (h : call ≠ .create) :
    (s.after call).nextPipeId = s.nextPipeId ∧ livePipes (s.after call) ⊆ livePipes s := by
  cases call with
  | create => exact absurd rfl h
  | «open» lookup path flags =>
    rw [PipeTables.after]
    rcases s.vfs.open_cases lookup path flags with
      ⟨e, hopen⟩ | ⟨fd, v', hopen, slot, file, -, rfl, -, hfile⟩
    · rw [hopen]
      exact ⟨rfl, subset_rfl⟩
    · rw [hopen]
      refine ⟨rfl, livePipes_setFile fun id hend => ?_⟩
      exact (hend.elim (hfile id).1 (hfile id).2).elim
  | read fd len =>
    simp only [PipeTables.after, PipeTables.read]
    split
    next => exact ⟨rfl, subset_rfl⟩
    next =>
      split
      · exact readPipe_after s _ len
      · exact ⟨rfl, subset_rfl⟩
      · exact ⟨rfl, subset_rfl⟩
  | write fd data =>
    simp only [PipeTables.after, PipeTables.write]
    split
    next => exact ⟨rfl, subset_rfl⟩
    next =>
      split
      · exact writePipe_after s _ data
      · exact ⟨rfl, subset_rfl⟩
      · exact ⟨rfl, subset_rfl⟩
      · exact ⟨rfl, subset_rfl⟩
      · exact ⟨rfl, subset_rfl⟩
  | close fd => exact ⟨rfl, livePipes_close fd⟩
  | dup fd minFd cloexec =>
    simp only [PipeTables.after, PipeTables.dupFd]
    split
    next => exact ⟨rfl, subset_rfl⟩
    next src hsrc =>
      split
      · exact ⟨rfl, subset_rfl⟩
      · exact ⟨rfl, livePipes_setFile fun id hend => mem_livePipes_of_file hsrc hend⟩
  | dup2 oldfd newfd cloexec =>
    simp only [PipeTables.after, PipeTables.dup2Fd]
    split
    next src slot hsrc _ =>
      split
      · exact ⟨rfl, livePipes_setFile fun id hend => mem_livePipes_of_file hsrc hend⟩
      · exact ⟨rfl, subset_rfl⟩
    next => exact ⟨rfl, subset_rfl⟩
  | clone fd =>
    simp only [PipeTables.after, PipeTables.cloneHandle]
    split
    next slot file _ hfile =>
      exact ⟨rfl, livePipes_setFile fun id hend => mem_livePipes_of_file hfile hend⟩
    next => exact ⟨rfl, subset_rfl⟩

theorem step_pipe (s : PipeTables) (call : PipeTables.Call) :
    IdTable.Step (wrappingSucc u32Max) ∅ ⟨s.nextPipeId, livePipes s⟩ (createdPipe s call)
      ⟨(s.after call).nextPipeId, livePipes (s.after call)⟩ := by
  by_cases hcall : call = .create
  · subst hcall
    have hlive := livePipes_create (s := s)
    rcases s.createPipe_cases with ⟨e, hcreate⟩ | ⟨rslot, wslot, -, -, -, hcreate⟩
    · simp only [createdPipe, PipeTables.after, hcreate]
      exact .other Set.subset_union_left
    · simp only [createdPipe, PipeTables.after]
      rw [hcreate] at hlive ⊢
      exact .hand hlive
  · obtain ⟨hnext, hlive⟩ := pipes_after s hcall
    have hnone : createdPipe s call = none := by
      cases call with
      | create => exact absurd rfl hcall
      | _ => rfl
    rw [hnone, hnext]
    exact .other (hlive.trans Set.subset_union_left)

end Pipes

/-! ## Runs -/

section Runs

variable {P A : Type} [Inhabited P]

omit [Inhabited P] in
theorem handed_of_ne_allocate (s : Tables P A) (kind : Kind) {op : ProcessOp P A}
    (h : op ≠ .allocate) :
    s.handed kind (.process op) = none := by
  cases kind with
  | object => rfl
  | pipe => rfl
  | pid =>
    cases op with
    | allocate => exact absurd rfl h
    | _ => rfl
  | space =>
    cases op with
    | allocate => exact absurd rfl h
    | _ => rfl

/-- The step of the registry, for one of its two kinds of ids. -/
theorem step_process {live : Spawns P A → Set Nat} {pick : Nat × Nat → Nat}
    (h : Tracks live pick) (hone : pick (1, 1) = 1) (counter : Spawns P A → Nat)
    (hpick : ∀ s : Spawns P A, pick (s.allocatePid.1, s.allocateAddressSpaceId.1) = counter s)
    (hnext : ∀ s : Spawns P A, counter (s.after .allocate) = saturatingSucc u32Max (counter s))
    (hkept : ∀ (s : Spawns P A) (op : ProcessOp P A), op ≠ .allocate →
      counter (s.after op) = counter s)
    (s : Spawns P A) (op : ProcessOp P A) {handed : Option Nat}
    (hallocate : op = .allocate → handed = some (counter s))
    (hother : op ≠ .allocate → handed = none) :
    IdTable.Step (saturatingSucc u32Max) {1} ⟨counter s, live s⟩ handed
      ⟨counter (s.after op), live (s.after op)⟩ := by
  by_cases hop : op = .allocate
  · subst hop
    rw [hallocate rfl, hnext]
    refine .hand ?_
    have hlive := h.allocated s (s.allocatePid.1, s.allocateAddressSpaceId.1) s.allocatePid.2
      s.allocateAddressSpaceId.2
    rwa [hpick] at hlive
  · have hlive := h.live_after s hop
    rw [hone] at hlive
    rw [hother hop, hkept s op hop]
    exact .other hlive

/-- An operation is a step of the table of every kind. -/
theorem step_table (s : Tables P A) (op : Op P A) (kind : Kind) :
    IdTable.Step kind.next kind.reserved (s.table kind) (s.handed kind op)
      ((s.after op).table kind) := by
  have hkept : ∀ t : IdTable, IdTable.Step kind.next kind.reserved t none t :=
    fun t => .other Set.subset_union_left
  cases op with
  | object op =>
    cases kind with
    | object => exact step_object s.objects op
    | _ => exact hkept _
  | pipe call =>
    cases kind with
    | pipe => exact step_pipe s.pipes call
    | _ => exact hkept _
  | process op =>
    cases kind with
    | object => exact hkept _
    | pipe => exact hkept _
    | pid =>
      refine step_process tracks_livePids rfl (fun s => s.allocatePid.1) (fun _ => rfl)
        (fun s => max_saturating s.nextPid) (fun s op hop => ?_) s.spawns op (fun hop => ?_)
        (handed_of_ne_allocate s .pid)
      · exact congrArg (max · 1) (counters_after s hop).1
      · subst hop
        rfl
    | space =>
      refine step_process tracks_liveSpaces rfl (fun s => s.allocateAddressSpaceId.1)
        (fun _ => rfl) (fun s => max_saturating s.nextAddressSpaceId) (fun s op hop => ?_) s.spawns
        op (fun hop => ?_) (handed_of_ne_allocate s .space)
      · exact congrArg (max · 1) (counters_after s hop).2
      · subst hop
        rfl

theorem handed_eq_counter (s : Tables P A) {op : Op P A} {kind : Kind} {id : Nat}
    (h : s.handed kind op = some id) :
    id = s.counter kind :=
  IdTable.Step.handed_eq (h ▸ step_table s op kind)

/-- The tables after a run, by the number of ids it has handed out. -/
theorem handed_run {s : Tables P A} {kind : Kind} {start n : Nat} (ops : List (Op P A))
    (h : IdTable.Handed kind.next kind.reserved start n (s.table kind)) :
    IdTable.Handed kind.next kind.reserved start (n + s.made kind ops)
      ((s.run ops).table kind) := by
  induction ops generalizing s n with
  | nil =>
    exact h
  | cons op ops ih =>
    have hrest := ih (h.step (step_table s op kind))
    rwa [Nat.add_assoc] at hrest

theorem live_boot (kind : Kind) : (Tables.boot : Tables P A).live kind = ∅ := by
  refine Set.eq_empty_iff_forall_notMem.mpr fun id hid => ?_
  cases kind with
  | object =>
    obtain ⟨record, hrecord⟩ := hid
    cases hrecord
  | pid =>
    rcases hid with ⟨proc, place, hat⟩ | ⟨asid, hpending⟩
    · cases place with
      | map => simp [Registry.At, Tables.boot] at hat
      | slot cpu => exact hat.1 hat.2.1.symm
    · cases hpending
  | space =>
    rcases hid with ⟨space, hspace⟩ | ⟨pid, hpending⟩
    · cases hspace
    · cases hpending
  | pipe =>
    rcases hid with ⟨pipe, hpipe⟩ | ⟨slot, file, hslot, hend⟩
    · cases hpipe
    · -- the three streams are no pipes
      have hmem := List.mem_of_getElem? hslot
      simp only [Tables.boot, PipeTables.mount, Vfs.mount, List.mem_append, List.mem_cons,
        Option.some.injEq, List.not_mem_nil, or_false, List.mem_replicate, reduceCtorEq,
        and_false] at hmem
      rcases hmem with rfl | rfl | rfl <;> rcases hend with hend | hend <;> cases hend

theorem handed_of_boot (kind : Kind) (ops : List (Op P A)) :
    IdTable.Handed kind.next kind.reserved kind.start (Tables.boot.made kind ops)
      ((Tables.boot.run ops).table kind) := by
  have hboot : IdTable.Handed kind.next kind.reserved kind.start 0
      ((Tables.boot : Tables P A).table kind) := by
    refine ⟨by cases kind <;> rfl, fun id hid => ?_⟩
    rw [Tables.table, live_boot] at hid
    exact absurd hid (Set.notMem_empty id)
  have hrun := handed_run ops hboot
  rwa [Nat.zero_add] at hrun

/-! ## The counters -/

/-- The ids of the first round, in order. -/
theorem iterate_next_of_lt (kind : Kind) {n : Nat} (h : n < kind.range) :
    kind.next^[n] kind.start = kind.start + n := by
  cases kind with
  | pipe =>
    have hn : n < u32Max := h
    rw [Kind.next, Kind.start, iterate_wrappingSucc (by decide), Nat.mod_eq_of_lt hn, Nat.add_comm]
  | _ =>
    rw [Kind.range] at h
    refine (iterate_saturatingSucc (by decide) n).trans (Nat.min_eq_left ?_)
    omega

theorem iterate_next_of_le (kind : Kind) {n : Nat} (h : kind.range ≤ n) :
    kind.next^[n] kind.start = kind.reissued n := by
  cases kind with
  | pipe => exact iterate_wrappingSucc (by decide) n
  | _ =>
    rw [Kind.range] at h
    refine (iterate_saturatingSucc (by decide) n).trans (Nat.min_eq_right ?_)
    omega

theorem start_add_notMem_reserved (kind : Kind) (n : Nat) : kind.start + n ∉ kind.reserved := by
  cases kind with
  | object => exact Set.notMem_empty _
  | pipe => exact Set.notMem_empty _
  | pid =>
    intro h
    have heq : 2 + n = 1 := h
    omega
  | space =>
    intro h
    have heq : 2 + n = 1 := h
    omega

/-- As long as there are numbers left, the id that comes next is not in use. -/
theorem not_live_of_lt {kind : Kind} {ops : List (Op P A)}
    (h : Tables.boot.made kind ops < kind.range) :
    (Tables.boot.run ops).counter kind ∉ (Tables.boot.run ops).live kind := by
  refine (handed_of_boot kind ops).not_live ?_ fun m hm heq => ?_
  · rw [iterate_next_of_lt kind h]
    exact start_add_notMem_reserved kind _
  · rw [iterate_next_of_lt kind h, iterate_next_of_lt kind (hm.trans h)] at heq
    omega

/-- From then on ids come again. -/
theorem counter_of_le {kind : Kind} {ops : List (Op P A)}
    (h : kind.range ≤ Tables.boot.made kind ops) :
    (Tables.boot.run ops).counter kind = kind.reissued (Tables.boot.made kind ops) :=
  (handed_of_boot kind ops).next_eq.trans (iterate_next_of_le kind h)

/-- No id that is in use is handed out in a run, of any kind, exactly if the ids that come again
are not in use when they do.  These are `u32::MAX` for objects, processes and address spaces. -/
theorem handed_out_fresh_iff (ops : List (Op P A)) :
    (∀ before op rest, ops = before ++ op :: rest → ∀ kind id,
        (Tables.boot.run before).handed kind op = some id →
          id ∉ (Tables.boot.run before).live kind) ↔
      ∀ before op rest, ops = before ++ op :: rest → ∀ kind,
        ((Tables.boot.run before).handed kind op).isSome →
          kind.range ≤ Tables.boot.made kind before →
            kind.reissued (Tables.boot.made kind before) ∉ (Tables.boot.run before).live kind := by
  constructor
  · intro h before op rest hops kind hsome hle
    obtain ⟨id, hid⟩ := Option.isSome_iff_exists.mp hsome
    have hfresh := h before op rest hops kind id hid
    rwa [handed_eq_counter _ hid, counter_of_le hle] at hfresh
  · intro h before op rest hops kind id hid
    rw [handed_eq_counter _ hid]
    by_cases hlt : Tables.boot.made kind before < kind.range
    · exact not_live_of_lt hlt
    · rw [counter_of_le (Nat.le_of_not_lt hlt)]
      exact h before op rest hops kind (hid ▸ rfl) (Nat.le_of_not_lt hlt)

/-! ## A run that hands out an id in use -/

theorem run_append (s : Tables P A) (ops ops' : List (Op P A)) :
    s.run (ops ++ ops') = (s.run ops).run ops' :=
  List.foldl_append

/-- An event that is created. -/
def createEvent : Op P A :=
  .object (.insertUnnamed (.event ⟨false, false⟩))

/-- Events that are created and released, one after the other. -/
def eventRounds : Nat → List (Op P A)
  | 0 => []
  | n + 1 => eventRounds n ++ [createEvent, .object (.release (n + 1))]

theorem run_eventRounds {n : Nat} (h : n < u32Max) :
    (Tables.boot : Tables P A).run (eventRounds n) =
      { Tables.boot with objects := { ObjectManager.new with nextId := n + 1 } } := by
  induction n with
  | zero => rfl
  | succ n ih =>
    have hnext : min (n + 1 + 1) u32Max = n + 2 := by omega
    rw [eventRounds, run_append, ih (by omega)]
    simp [Tables.run, createEvent, Tables.after, ObjectOp.after, ObjectManager.insertUnnamed,
      ObjectManager.release, ObjectManager.idAfter, ObjectManager.new, hnext]

theorem mem_live_createEvent (s : Tables P A) :
    s.objects.nextId ∈ (s.run [createEvent]).live .object :=
  ⟨_, Function.update_self _ _ _⟩

/-- All ids but one have been used, and the last one is in use: the next event gets it too. -/
theorem last_object_id_reused :
    let s : Tables Unit Unit := Tables.boot.run (eventRounds (u32Max - 1) ++ [createEvent])
    s.handed .object createEvent = some u32Max ∧ u32Max ∈ s.live .object := by
  intro s
  have hrounds := run_eventRounds (P := Unit) (A := Unit) (show u32Max - 1 < u32Max by decide)
  have hs : s = (Tables.boot.run (eventRounds (u32Max - 1))).run [createEvent] :=
    run_append _ _ _
  rw [hs, hrounds]
  exact ⟨rfl, mem_live_createEvent _⟩

end Runs

end Ids
end Kernel
end Theos
