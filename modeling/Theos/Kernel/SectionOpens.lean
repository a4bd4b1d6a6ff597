import Mathlib.Data.Fintype.Basic
import Theos.Base.Run
import Theos.Kernel.NamespaceShadowing
import Theos.Kernel.NtPaths

/-!
# Opening known DLLs at the same time

`nt::open_section` takes the lock of the object manager several times: to look the name up,
to resolve the path of the file, to create the section and to retain it.  Between the lookup
and the creation another call may look the same name up and miss it as well; the second of
the two creations then collides, and its caller gets an error.

`Opens` holds the object table and how far each call has come, and `step` lets one call do
its next critical section.  As long as no call misses a name that another call is about to
create (`StepOk`), every call succeeds, calls for one name get one object, and the object has
one reference for each of them.
-/

namespace Theos
namespace Kernel
namespace Handles

open Base Nt

/-! ## The calls -/

/-- Below `\KnownDlls`. -/
def Known (canonical : Path) : Prop :=
  "\\KnownDlls\\".toList.isPrefixOf canonical

instance (canonical : Path) : Decidable (Known canonical) :=
  inferInstanceAs (Decidable (_ = true))

/-- The last component of the name. -/
def dllName (canonical : Path) : Path :=
  (canonical.reverse.takeWhile fun c => c ≠ '\\').reverse

/-- The file of the section. -/
def systemPath (canonical : Path) : Path :=
  canonicalizeNtPath ("\\SystemRoot\\System32\\".toList ++ dllName canonical)

/-- How far a call of `open_section` has come. -/
inductive Progress where
  | called
  | entered
  | missed
  | resolved (path : Path)
  | created (id : Nat)
  | returned (result : Except NtStatus Nat)

/-- The name is looked up, and the object retained if it is there. -/
def lookUp (canonical : Path) (m : ObjectManager) : Progress × ObjectManager :=
  match m.named.lookup canonical with
  | some id =>
    match m.objects id with
    | none => (.returned (.error .objectNameNotFound), m)
    | some record =>
      if record.objectType ≠ .section then (.returned (.error .objectTypeMismatch), m)
      else
        (.returned (.ok id),
          m.setRecord id { record with refs := min (record.refs + 1) usizeMax })
  | none =>
    if Known canonical then
      if (dllName canonical).isEmpty then (.returned (.error .objectNameNotFound), m)
      else (.missed, m)
    else (.returned (.error .objectNameNotFound), m)

/-- `resolve_nt_path`. -/
def resolve (canonical : Path) (m : ObjectManager) : Progress × ObjectManager :=
  match m.initNamespace.resolveNtPath (systemPath canonical) with
  | .error status => (.returned (.error status), m.initNamespace)
  | .ok path => (.resolved path, m.initNamespace)

/-- `create_named_section`. -/
def create (canonical path : Path) (m : ObjectManager) : Progress × ObjectManager :=
  match m.createNamed canonical (knownDllSection (systemPath canonical) path) with
  | (.error status, m) => (.returned (.error status), m)
  | (.ok id, m) => (.created id, m)

/-- The caller's reference. -/
def keep (id : Nat) (m : ObjectManager) : Progress × ObjectManager :=
  match m.retain id with
  | (.error status, m) => (.returned (.error status), m)
  | (.ok (), m) => (.returned (.ok id), m)

/-- The next critical section of a call for a name. -/
def advance (canonical : Path) : Progress × ObjectManager → Progress × ObjectManager
  | (.called, m) => (.entered, m.initNamespace)
  | (.entered, m) => lookUp canonical m
  | (.missed, m) => resolve canonical m
  | (.resolved path, m) => create canonical path m
  | (.created id, m) => keep id m
  | (.returned result, m) => (.returned result, m)

section Alone

variable {H : Type} (s : System H)

/-- The end of `open_section`, from the creation on. -/
def createAndKeep (canonical path : Path) : Except NtStatus Nat × System H :=
  match createNamed s canonical (knownDllSection (systemPath canonical) path) with
  | (.error status, s) => (.error status, s)
  | (.ok id, s) =>
    match retain s id with
    | (.error status, s) => (.error status, s)
    | (.ok (), s) => (.ok id, s)

theorem advance_create (canonical path : Path) :
    advance canonical (create canonical path s.objects) =
      (.returned (createAndKeep s canonical path).1, (createAndKeep s canonical path).2.objects) := by
  unfold create createAndKeep createNamed
  rcases s.objects.createNamed canonical (knownDllSection (systemPath canonical) path) with
    ⟨status | id, m⟩
  · rfl
  · change keep id m = _
    unfold keep retain
    dsimp only
    rcases m.retain id with ⟨status | ⟨⟩, m'⟩ <;> rfl

theorem cacheKnownDll_eq (canonical : Path) :
    cacheKnownDll s canonical =
      if Known canonical then
        if (dllName canonical).isEmpty then (.error .objectNameNotFound, s)
        else
          match (initNamespace s).objects.resolveNtPath (systemPath canonical) with
          | .error status => (.error status, initNamespace s)
          | .ok path => createAndKeep (initNamespace s) canonical path
      else (.error .objectNameNotFound, s) := by
  unfold cacheKnownDll Known dllName createAndKeep systemPath
  rfl

/-- A call that runs alone is `open_section`. -/
theorem advance_alone (name : Path) :
    (advance (canonicalizeNtPath name))^[5] (.called, s.objects) =
      (.returned (openSectionObject s name).1, (openSectionObject s name).2.objects) := by
  generalize hc : canonicalizeNtPath name = c
  change (advance c)^[3] (lookUp c (initNamespace s).objects) = _
  unfold lookUp openSectionObject
  simp only [hc]
  cases hlookup : (initNamespace s).objects.named.lookup c with
  | some id =>
    cases hid : (initNamespace s).objects.objects id with
    | none => simp only [hid]; rfl
    | some record =>
      simp only [hid]
      split_ifs <;> rfl
  | none =>
    simp only [cacheKnownDll_eq]
    split_ifs
    · rfl
    · have hmissed : advance c (.missed, (initNamespace s).objects) =
          resolve c (initNamespace s).objects := rfl
      rw [Function.iterate_succ_apply, hmissed]
      unfold resolve
      have hinit : (initNamespace s).objects.initNamespace =
          (initNamespace (initNamespace s)).objects := rfl
      rw [hinit]
      cases (initNamespace (initNamespace s)).objects.resolveNtPath (systemPath c) with
      | error status => rfl
      | ok path => exact advance_create (initNamespace (initNamespace s)) c path
    · rfl

end Alone

/-! ## Interleavings -/

/-- How far the call has come; at 5 it has returned. -/
def Progress.stage : Progress → Nat
  | .called => 0
  | .entered => 1
  | .missed => 2
  | .resolved _ => 3
  | .created _ => 4
  | .returned _ => 5

/-- A critical section brings a call to a later stage. -/
theorem stage_advance (canonical : Path) (p : Progress) (m : ObjectManager) :
    min (p.stage + 1) 5 ≤ (advance canonical (p, m)).1.stage := by
  cases p with
  | called =>
    exact Nat.le_refl 1
  | entered =>
    simp only [advance, lookUp]
    split
    · split
      · simp [Progress.stage]
      · split <;> simp [Progress.stage]
    · split
      · split <;> simp [Progress.stage]
      · simp [Progress.stage]
  | missed =>
    simp only [advance, resolve]
    split <;> simp [Progress.stage]
  | resolved path =>
    simp only [advance, create]
    split <;> simp [Progress.stage]
  | created id =>
    simp only [advance, keep]
    split <;> simp [Progress.stage]
  | returned result =>
    exact Nat.le_refl 5

theorem exists_returned_of_stage {p : Progress} (h : 5 ≤ p.stage) :
    ∃ result, p = .returned result := by
  cases p with
  | returned result =>
    exact ⟨result, rfl⟩
  | _ =>
    simp [Progress.stage] at h

/-- The call has missed the name and not created the section yet. -/
def Progress.Pending : Progress → Prop
  | .missed => True
  | .resolved _ => True
  | _ => False

instance Progress.decidablePending : (p : Progress) → Decidable p.Pending
  | .missed | .resolved _ => .isTrue trivial
  | .called | .entered | .created _ | .returned _ => .isFalse id

def Progress.succeeded : Progress → Bool
  | .returned (.ok _) => true
  | _ => false

@[simp]
theorem Progress.succeeded_ok (id : Nat) : (Progress.returned (.ok id)).succeeded = true :=
  rfl

/-- The object that the call has found or created. -/
def Progress.Has (id : Nat) : Progress → Prop
  | .created x => x = id
  | .returned (.ok x) => x = id
  | _ => False

/-- The object table and the calls. -/
structure Opens (n : Nat) where
  objects : ObjectManager
  progress : Fin n → Progress

namespace Opens

variable {n : Nat} {names : Fin n → Path} {m₀ : ObjectManager} {s : Opens n} {i : Fin n}

/-- The canonical name that a call opens. -/
abbrev canonical (names : Fin n → Path) (i : Fin n) : Path :=
  canonicalizeNtPath (names i)

/-- Call `i` does its next critical section. -/
def step (names : Fin n → Path) (s : Opens n) (i : Fin n) : Opens n :=
  let r := advance (canonical names i) (s.progress i, s.objects)
  ⟨r.2, Function.update s.progress i r.1⟩

/-- The calls for a name that have succeeded. -/
def count (names : Fin n → Path) (progress : Fin n → Progress) (c : Path) : Nat :=
  (Finset.univ.filter fun i => canonical names i = c ∧ (progress i).succeeded).card

/-- The references that are not from the calls: those from before, or the one of the cache. -/
def base (m₀ : ObjectManager) (c : Path) : Nat :=
  ((m₀.named.lookup c).bind m₀.refs).getD 1

/-- The condition on a step: a call does not miss a name that another call is about to
create, the path of the file is resolved, and neither the ids nor the reference counts are
used up. -/
def StepOk (names : Fin n → Path) (s : Opens n) (i : Fin n) : Prop :=
  match s.progress i with
  | .called => s.objects.nextId + namespaceCreations s.objects ≤ u32Max
  | .entered =>
    (s.objects.named.lookup (canonical names i) = none →
      ∀ j, canonical names j = canonical names i → ¬ (s.progress j).Pending) ∧
    ∀ id record, s.objects.named.lookup (canonical names i) = some id →
      s.objects.objects id = some record → record.refs < usizeMax
  | .missed =>
    s.objects.nextId + namespaceCreations s.objects ≤ u32Max ∧
      ∃ path, s.objects.initNamespace.resolveNtPath (systemPath (canonical names i)) = .ok path
  | .resolved _ => s.objects.nextId < u32Max
  | .created id => ∀ record, s.objects.objects id = some record → record.refs < usizeMax
  | .returned _ => True

instance decidableStepOk (names : Fin n → Path) (s : Opens n) (i : Fin n) :
    Decidable (StepOk names s i) :=
  match h : s.progress i with
  | .called =>
    decidable_of_iff (s.objects.nextId + namespaceCreations s.objects ≤ u32Max)
      (by simp only [StepOk, h])
  | .entered =>
    decidable_of_iff
      ((s.objects.named.lookup (canonical names i) = none →
        ∀ j, canonical names j = canonical names i → ¬ (s.progress j).Pending) ∧
      ∀ id ∈ s.objects.named.lookup (canonical names i),
        ∀ record ∈ s.objects.objects id, record.refs < usizeMax)
      (by
        simp only [StepOk, h]
        exact and_congr_right fun _ =>
          ⟨fun hrefs id record hid hrecord => hrefs id hid record hrecord,
            fun hrefs id hid record hrecord => hrefs id record hid hrecord⟩)
  | .missed =>
    decidable_of_iff
      (s.objects.nextId + namespaceCreations s.objects ≤ u32Max ∧
        (s.objects.initNamespace.resolveNtPath (systemPath (canonical names i))).isOk = true)
      (by
        simp only [StepOk, h]
        refine and_congr_right fun _ => ?_
        cases s.objects.initNamespace.resolveNtPath (systemPath (canonical names i)) <;>
          simp [Except.isOk, Except.toBool])
  | .resolved _ =>
    decidable_of_iff (s.objects.nextId < u32Max) (by simp only [StepOk, h])
  | .created id =>
    decidable_of_iff (∀ record ∈ s.objects.objects id, record.refs < usizeMax)
      (by simp only [StepOk, h, Option.mem_def])
  | .returned _ =>
    .isTrue (by simp only [StepOk, h])

/-- Calls for known DLLs that have not begun.  What is named below `\KnownDlls` is a section. -/
structure Start (names : Fin n → Path) (s : Opens n) : Prop where
  known : ∀ i, Known (canonical names i)
  named : ∀ i, dllName (canonical names i) ≠ []
  called : ∀ i, s.progress i = .called
  consistent : Consistent s.objects
  sections : ∀ id record c, s.objects.objects id = some record → record.name = some c →
    Known c → record.objectType = .section

/-- What the calls come to. -/
structure Agreed (names : Fin n → Path) (m₀ : ObjectManager) (s : Opens n) : Prop where
  ok : ∀ i result, s.progress i = .returned result → ∃ id, result = .ok id
  same : ∀ i j id id', canonical names i = canonical names j →
    s.progress i = .returned (.ok id) → s.progress j = .returned (.ok id') → id = id'
  refs : ∀ i id, s.progress i = .returned (.ok id) →
    s.objects.refs id =
      some (base m₀ (canonical names i) + count names s.progress (canonical names i))

/-- How the calls stand to the names: at most one call is about to create a name, and a call
that has an object has that of its name. -/
structure Calls (names : Fin n → Path) (named : List (Path × Nat))
    (progress : Fin n → Progress) : Prop where
  pending : ∀ i, (progress i).Pending → named.lookup (canonical names i) = none
  alone : ∀ i j, (progress i).Pending → (progress j).Pending →
    canonical names i = canonical names j → i = j
  has : ∀ i id, (progress i).Has id → named.lookup (canonical names i) = some id
  ok : ∀ i result, progress i = .returned result → ∃ id, result = .ok id

/-- What a step keeps. -/
structure Inv (names : Fin n → Path) (m₀ : ObjectManager) (s : Opens n) : Prop where
  consistent : Consistent s.objects
  records : ∀ id record c, s.objects.objects id = some record → record.name = some c →
    Known c → record.objectType = .section ∧ record.refs = base m₀ c + count names s.progress c
  remain : ∀ c, s.objects.named.lookup c = none → m₀.named.lookup c = none
  calls : Calls names s.objects.named s.progress

theorem count_update_of_eq {progress : Fin n → Progress} {p : Progress}
    (h : p.succeeded = (progress i).succeeded) (c : Path) :
    count names (Function.update progress i p) c = count names progress c := by
  have hsame (j : Fin n) :
      (Function.update progress i p j).succeeded = (progress j).succeeded := by
    by_cases hj : j = i
    · rw [hj, Function.update_self, h]
    · rw [Function.update_of_ne hj]
  simp only [count, hsame]

theorem count_update_succeeded {progress : Fin n → Progress} {id : Nat}
    (h : (progress i).succeeded = false) (c : Path) :
    count names (Function.update progress i (.returned (.ok id))) c =
      count names progress c + if canonical names i = c then 1 else 0 := by
  by_cases hc : canonical names i = c
  · have hinsert : (Finset.univ.filter fun j => canonical names j = c ∧
        (Function.update progress i (.returned (.ok id)) j).succeeded) =
        insert i (Finset.univ.filter fun j => canonical names j = c ∧ (progress j).succeeded) := by
      ext j
      by_cases hj : j = i
      · subst hj
        simp [hc]
      · simp [hj]
    rw [count, hinsert, Finset.card_insert_of_notMem (by simp [h]), if_pos hc, count]
  · rw [if_neg hc, count, count]
    refine congrArg _ (Finset.filter_congr fun j _ => and_congr_right fun hj => ?_)
    have hne : j ≠ i := by
      rintro rfl
      exact hc hj
    rw [Function.update_of_ne hne]

theorem Inv.start (h : Start names s) : Inv names s.objects s where
  consistent := h.consistent
  records id record c hid hname hknown := by
    have hlookup := (h.consistent.wellFormed.named_iff c id).mpr ⟨record, hid, hname⟩
    refine ⟨h.sections id record c hid hname hknown, ?_⟩
    have hcount : count names s.progress c = 0 := by
      simp [count, h.called, Progress.succeeded]
    rw [hcount, base, hlookup, Option.bind_some, ObjectManager.refs_of_some hid]
    rfl
  remain _ hc := hc
  calls := by
    constructor
    all_goals
      intro i
      simp [h.called i, Progress.Pending, Progress.Has]

theorem Inv.agreed (h : Inv names m₀ s) (hknown : ∀ i, Known (canonical names i)) :
    Agreed names m₀ s where
  ok := h.calls.ok
  same i j id id' hname hi hj := by
    have hid := h.calls.has i id (by rw [hi]; rfl)
    have hid' := h.calls.has j id' (by rw [hj]; rfl)
    rw [hname, hid'] at hid
    exact (Option.some.inj hid).symm
  refs i id hi := by
    obtain ⟨record, hrecord, hname⟩ :=
      (h.consistent.wellFormed.named_iff _ id).mp (h.calls.has i id (by rw [hi]; rfl))
    rw [ObjectManager.refs_of_some hrecord,
      (h.records id record _ hrecord hname (hknown i)).2]

/-! ## Steps -/

/-- A call comes further, and the names stay. -/
theorem Calls.update {named : List (Path × Nat)} {progress : Fin n → Progress}
    (h : Calls names named progress) {p : Progress}
    (hpending : p.Pending → named.lookup (canonical names i) = none ∧
      ∀ j ≠ i, canonical names j = canonical names i → ¬ (progress j).Pending)
    (hhas : ∀ id, p.Has id → named.lookup (canonical names i) = some id)
    (hok : ∀ result, p = .returned result → ∃ id, result = .ok id) :
    Calls names named (Function.update progress i p) := by
  refine ⟨fun j hj => ?_, fun j k hj hk hname => ?_, fun j id hj => ?_, fun j result hj => ?_⟩
  · rw [Function.update_apply] at hj
    split_ifs at hj with hji
    · exact hji ▸ (hpending hj).1
    · exact h.pending j hj
  · rw [Function.update_apply] at hj hk
    split_ifs at hj hk with hji hki hki
    · rw [hji, hki]
    · exact absurd hk ((hpending hj).2 k hki (by rw [← hname, hji]))
    · exact absurd hj ((hpending hk).2 j hji (by rw [hname, hki]))
    · exact h.alone j k hj hk hname
  · rw [Function.update_apply] at hj
    split_ifs at hj with hji
    · exact hji ▸ hhas id hj
    · exact h.has j id hj
  · rw [Function.update_apply] at hj
    split_ifs at hj with hji
    · exact hok result hj
    · exact h.ok j result hj

/-- A name that nobody is about to create gets an object. -/
theorem Calls.extend {named : List (Path × Nat)} {progress : Fin n → Progress} {c : Path}
    (h : Calls names named progress) (hfree : named.lookup c = none)
    (hnone : ∀ j, canonical names j = c → ¬ (progress j).Pending) (id : Nat) :
    Calls names ((c, id) :: named) progress := by
  refine ⟨fun j hj => ?_, h.alone, fun j x hj => ?_, h.ok⟩
  · rw [ObjectManager.lookup_cons_ite, if_neg fun hname => hnone j hname hj]
    exact h.pending j hj
  · have hx := h.has j x hj
    rw [ObjectManager.lookup_cons_ite, if_neg, hx]
    intro hname
    rw [hname, hfree] at hx
    cases hx

/-- A call comes further, and the table stays. -/
theorem Inv.move (h : Inv names m₀ s) {p : Progress}
    (hcount : p.succeeded = (s.progress i).succeeded)
    (hcalls : Calls names s.objects.named (Function.update s.progress i p)) :
    Inv names m₀ ⟨s.objects, Function.update s.progress i p⟩ where
  consistent := h.consistent
  records id record c hid hname hknown := by
    rw [count_update_of_eq hcount]
    exact h.records id record c hid hname hknown
  remain := h.remain
  calls := hcalls

/-- `init_namespace` does nothing, or it finds a table without names, and then it names
nothing below `\KnownDlls`. -/
theorem initNamespace_cases {m : ObjectManager} (h : Consistent m) :
    m.initNamespace = m ∨ m.named = [] ∧
      ∀ id record c, m.initNamespace.objects id = some record → record.name = some c →
        ¬ Known c := by
  cases hnamed : m.named with
  | cons entry rest =>
    left
    simp [ObjectManager.initNamespace, hnamed]
  | nil =>
    refine Or.inr ⟨rfl, ?_⟩
    have hinit : m.initNamespace = ObjectManager.namespaceEntries.foldl
        (fun m entry => (m.createNamed entry.1 entry.2).2) m := by
      simp [ObjectManager.initNamespace, hnamed]
    have hentries : ∀ entry ∈ ObjectManager.namespaceEntries,
        ¬ Known (canonicalizeNtPath entry.1) := by
      decide +kernel
    intro id record c hid
    rw [hinit] at hid
    refine record_createAll (P := fun record => record.name = some c → ¬ Known c)
      ObjectManager.namespaceEntries (fun entry hentry hname => ?_)
      (fun x r hr hname => ?_) id record hid
    · rw [← Option.some.inj hname]
      exact hentries entry hentry
    -- no object had a name before
    · have hlookup := (h.wellFormed.named_iff c x).mpr ⟨r, hr, hname⟩
      rw [hnamed] at hlookup
      cases hlookup

theorem Inv.init (h : Inv names m₀ s) (hknown : ∀ i, Known (canonical names i))
    (hroom : s.objects.nextId + namespaceCreations s.objects ≤ u32Max) :
    Inv names m₀ ⟨s.objects.initNamespace, s.progress⟩ := by
  have hconsistent := (h.consistent.initNamespace hroom).1
  rcases initNamespace_cases h.consistent with hsame | ⟨hnamed, hnew⟩
  · rw [hsame]
    exact h
  · have hnone (i : Fin n) : s.objects.initNamespace.named.lookup (canonical names i) = none := by
      by_contra hsome
      obtain ⟨id, hid⟩ := Option.ne_none_iff_exists'.mp hsome
      obtain ⟨record, hrecord, hname⟩ := (hconsistent.wellFormed.named_iff _ id).mp hid
      exact hnew id record _ hrecord hname (hknown i)
    exact
      { consistent := hconsistent
        records := fun id record c hid hname hc => absurd hc (hnew id record c hid hname)
        remain := fun c _ => h.remain c (by rw [hnamed]; rfl)
        calls := by
          refine ⟨fun i _ => hnone i, h.calls.alone, fun i id hi => ?_, h.calls.ok⟩
          have hlookup := h.calls.has i id hi
          rw [hnamed] at hlookup
          cases hlookup }

/-- A call gets one more reference to the object of its name. -/
theorem Inv.grant (h : Inv names m₀ s) {id : Nat} {record : ObjectRecord}
    (hid : s.objects.objects id = some record)
    (hlookup : s.objects.named.lookup (canonical names i) = some id)
    (hrefs : record.refs < usizeMax) (hnot : (s.progress i).succeeded = false) :
    Inv names m₀
      ⟨s.objects.setRecord id { record with refs := min (record.refs + 1) usizeMax },
        Function.update s.progress i (.returned (.ok id))⟩ := by
  have hname : record.name = some (canonical names i) := by
    obtain ⟨r, hr, hname⟩ := (h.consistent.wellFormed.named_iff _ id).mp hlookup
    rw [hid] at hr
    cases hr
    exact hname
  have hmin : min (record.refs + 1) usizeMax = record.refs + 1 := Nat.min_eq_left hrefs
  refine ⟨?_, fun x r c hx hc hknown => ?_, h.remain, ?_⟩
  · exact h.consistent.setRecord hid rfl (h.consistent.wellFormed.typed id record hid)
      (by simp only [hmin]; omega)
  · rw [count_update_succeeded hnot]
    by_cases hxid : x = id
    · subst hxid
      rw [ObjectManager.objects_setRecord_self, Option.some.injEq] at hx
      subst hx
      obtain rfl : canonical names i = c := Option.some.inj (hname.symm.trans hc)
      obtain ⟨htype, hcount⟩ := h.records x record _ hid hname hknown
      refine ⟨htype, hmin.trans ?_⟩
      rw [hcount, if_pos rfl, Nat.add_assoc]
    · rw [ObjectManager.objects_setRecord_of_ne _ _ hxid] at hx
      have hne : canonical names i ≠ c := by
        rintro rfl
        have hlookup' := (h.consistent.wellFormed.named_iff _ x).mpr ⟨r, hx, hc⟩
        rw [hlookup] at hlookup'
        exact hxid (Option.some.inj hlookup').symm
      rw [if_neg hne]
      exact h.records x r c hx hc hknown
  · refine h.calls.update (fun hp => hp.elim) (fun x hx => ?_) (fun result hresult => ?_)
    · exact hx ▸ hlookup
    · cases hresult
      exact ⟨id, rfl⟩

/-- The call that is about to create its name does so. -/
theorem Inv.create (h : Inv names m₀ s) (hpending : (s.progress i).Pending)
    (hroom : s.objects.nextId < u32Max) (sec : SectionObject) :
    ∃ m', s.objects.createNamed (canonical names i) (.section sec) =
        (.ok s.objects.nextId, m') ∧
      Inv names m₀ ⟨m', Function.update s.progress i (.created s.objects.nextId)⟩ := by
  have hfree := h.calls.pending i hpending
  have hconsistent := (h.consistent.createNamed hroom (canonical names i) (.section sec)).1
  simp only [ObjectManager.createNamed, canonicalizeNtPath_idem, hfree] at hconsistent ⊢
  refine ⟨_, rfl, hconsistent, fun x r c hx hc hknown => ?_, fun c hc => ?_, ?_⟩
  · have hcount : (Progress.created s.objects.nextId).succeeded = (s.progress i).succeeded := by
      cases hp : s.progress i with
      | missed | resolved => rfl
      | _ => rw [hp] at hpending; exact hpending.elim
    rw [count_update_of_eq hcount]
    by_cases hxid : x = s.objects.nextId
    · subst hxid
      simp only [Function.update_self, Option.some.injEq] at hx
      subst hx
      obtain rfl : canonical names i = c := Option.some.inj hc
      refine ⟨rfl, ?_⟩
      -- nobody has the object yet
      have hzero : count names s.progress (canonical names i) = 0 := by
        rw [count, Finset.card_eq_zero, Finset.filter_eq_empty_iff]
        rintro j - ⟨hname, hdone⟩
        obtain ⟨id, hid⟩ : ∃ id, s.progress j = .returned (.ok id) := by
          revert hdone
          rcases s.progress j with _ | _ | _ | _ | _ | (_ | id) <;> simp [Progress.succeeded]
        have hlookup := h.calls.has j id (by rw [hid]; rfl)
        rw [hname, hfree] at hlookup
        cases hlookup
      rw [hzero, base, h.remain _ hfree]
      rfl
    · simp only [Function.update_of_ne hxid] at hx
      exact h.records x r c hx hc hknown
  · rw [ObjectManager.lookup_cons_ite] at hc
    split_ifs at hc
    exact h.remain c hc
  · have hinert : Calls names s.objects.named (Function.update s.progress i .entered) :=
      h.calls.update (fun hp => hp.elim) (fun _ hp => hp.elim) (fun _ hp => by cases hp)
    have hnone : ∀ j, canonical names j = canonical names i →
        ¬ (Function.update s.progress i .entered j).Pending := by
      intro j hname hj
      rw [Function.update_apply] at hj
      split_ifs at hj with hji
      · exact hj
      · exact hji (h.calls.alone j i hj hpending hname)
    have hdone := (hinert.extend hfree hnone s.objects.nextId).update (i := i)
      (p := .created s.objects.nextId) (fun hp => hp.elim)
      (fun x hx => by rw [List.lookup_cons_self]; exact congrArg _ hx)
      (fun _ hp => by cases hp)
    rwa [Function.update_idem] at hdone

theorem Inv.step (h : Inv names m₀ s) (hknown : ∀ i, Known (canonical names i))
    (hnamed : ∀ i, dllName (canonical names i) ≠ []) (hok : StepOk names s i) :
    Inv names m₀ (step names s i) := by
  rw [StepOk] at hok
  rw [Opens.step]
  cases hp : s.progress i with
  | called =>
    simp only [hp] at hok
    refine (h.init hknown hok).move (by rw [hp]; rfl) ?_
    exact (h.init hknown hok).calls.update (fun hp => hp.elim) (fun _ hp => hp.elim)
      (fun _ hp => by cases hp)
  | entered =>
    simp only [hp] at hok
    cases hlookup : s.objects.named.lookup (canonical names i) with
    | some id =>
      obtain ⟨record, hid, hname⟩ := (h.consistent.wellFormed.named_iff _ id).mp hlookup
      have htype := (h.records id record _ hid hname (hknown i)).1
      simp only [advance, lookUp, hlookup, hid]
      rw [if_neg (not_not.mpr htype)]
      exact h.grant hid hlookup (hok.2 id record hlookup hid) (by rw [hp]; rfl)
    | none =>
      have hempty : (dllName (canonical names i)).isEmpty = false :=
        List.isEmpty_eq_false_iff.mpr (hnamed i)
      simp only [advance, lookUp, hlookup, hknown i, hempty, if_true, Bool.false_eq_true, if_false]
      refine h.move (by rw [hp]; rfl) ?_
      refine h.calls.update (fun _ => ⟨hlookup, fun j _ hname => hok.1 hlookup j hname⟩)
        (fun _ hp => hp.elim) (fun _ hp => by cases hp)
  | missed =>
    simp only [hp] at hok
    obtain ⟨hroom, path, hpath⟩ := hok
    have hnext : advance (canonical names i) (.missed, s.objects) =
        (.resolved path, s.objects.initNamespace) := by
      change resolve (canonical names i) s.objects = _
      unfold resolve
      rw [hpath]
    rw [hnext]
    have hinit := h.init hknown hroom
    have hi : (s.progress i).Pending := by rw [hp]; trivial
    refine hinit.move (by rw [hp]; rfl) (hinit.calls.update (fun _ => ⟨?_, ?_⟩)
      (fun _ hp => hp.elim) (fun _ hp => by cases hp))
    · exact hinit.calls.pending i hi
    · exact fun j hji hname hj => hji (h.calls.alone j i hj hi hname)
  | resolved path =>
    simp only [hp] at hok
    obtain ⟨m', hcreate, hinv⟩ := h.create (i := i) (by rw [hp]; trivial) hok
      ⟨some (systemPath (canonical names i)), some path, pageExecuteRead, secImage, 0⟩
    have hnext : advance (canonical names i) (.resolved path, s.objects) =
        (.created s.objects.nextId, m') := by
      rw [advance, Handles.create, knownDllSection, hcreate]
    rw [hnext]
    exact hinv
  | created id =>
    simp only [hp] at hok
    have hlookup := h.calls.has i id (by rw [hp]; rfl)
    obtain ⟨record, hid, -⟩ := (h.consistent.wellFormed.named_iff _ id).mp hlookup
    simp only [advance, keep, retain_of_some hid]
    exact h.grant hid hlookup (hok record hid) (by rw [hp]; rfl)
  | returned result =>
    simp only [advance]
    rw [← hp, Function.update_eq_self]
    exact h

/-! ## Runs -/

/-- A call that has been given its turn five times has returned. -/
theorem stage_run {s₀ : Opens n} {schedule : List (Fin n)} (i : Fin n)
    (hrun : Run (fun s j s' => StepOk names s j ∧ s' = step names s j) s₀ schedule s) :
    min ((s₀.progress i).stage + schedule.count i) 5 ≤ (s.progress i).stage := by
  induction hrun with
  | nil s =>
    simp
  | @cons s t r j schedule hstep _ ih =>
    obtain ⟨-, rfl⟩ := hstep
    have hnext : min ((s.progress i).stage + if j = i then 1 else 0) 5 ≤
        ((step names s j).progress i).stage := by
      by_cases hj : j = i
      · subst hj
        have hstage := stage_advance (canonical names j) (s.progress j) s.objects
        simpa only [if_pos, step, Function.update_self] using hstage
      · simp only [hj, if_false, step, Function.update_of_ne (Ne.symm hj)]
        omega
    rw [List.count_cons]
    simp only [beq_iff_eq]
    omega

/-- In a run in which no call misses a name that another call is about to create, every call
that returns succeeds, and one that gets its five turns returns; the calls for one name get one
object, and it has one reference for each of them besides those from before. -/
theorem opens_agree {s₀ : Opens n} {schedule : List (Fin n)} (hstart : Start names s₀)
    (hrun : Run (fun s i s' => StepOk names s i ∧ s' = step names s i) s₀ schedule s) :
    Agreed names s₀.objects s ∧
      ∀ i, 5 ≤ schedule.count i → ∃ id, s.progress i = .returned (.ok id) := by
  have hagreed : Agreed names s₀.objects s := by
    refine (Run.invariant (P := Inv names s₀.objects) ?_ hrun (Inv.start hstart)).agreed
      hstart.known
    rintro s i s' hs ⟨hok, rfl⟩
    exact hs.step hstart.known hstart.named hok
  refine ⟨hagreed, fun i hturns => ?_⟩
  obtain ⟨result, hresult⟩ := exists_returned_of_stage
    (Nat.le_trans (by omega) (stage_run i hrun))
  obtain ⟨id, rfl⟩ := hagreed.ok i result hresult
  exact ⟨id, hresult⟩

/-- Nothing has been opened yet. -/
def fresh (n : Nat) : Opens n :=
  ⟨.new, fun _ => .called⟩

def ntdll : Path :=
  "\\KnownDlls\\ntdll.dll".toList

theorem start_fresh (n : Nat) : Start (fun _ => ntdll) (fresh n) where
  known _ := show Known (canonicalizeNtPath ntdll) by decide +kernel
  named _ := show dllName (canonicalizeNtPath ntdll) ≠ [] by decide +kernel
  called _ := rfl
  consistent := ⟨ObjectManager.wellFormed_new, fun _ _ h => (by cases h), fun _ _ h => (by cases h)⟩
  sections _ _ _ h := by cases h

/-- Call 1 looks the name up after call 0 has created it and before call 0 has its own reference:
both return the object, which has three references, one of them the cache's. -/
theorem opens_agree_interleaved :
    ∃ s id, Run (fun s i s' => StepOk (fun _ => ntdll) s i ∧ s' = step (fun _ => ntdll) s i)
        (fresh 2) [0, 1, 0, 0, 0, 1, 0, 1, 1, 1] s ∧
      s.progress 0 = .returned (.ok id) ∧ s.progress 1 = .returned (.ok id) ∧
      s.objects.refs id = some 3 := by
  have hsome : (runAll (guarded (StepOk fun _ => ntdll) fun s i => some (step (fun _ => ntdll) s i))
      (fresh 2) [0, 1, 0, 0, 0, 1, 0, 1, 1, 1]).isSome = true := by
    decide +kernel
  obtain ⟨s, hs⟩ := Option.isSome_iff_exists.mp hsome
  have hrun : Run (fun s i s' => StepOk (fun _ => ntdll) s i ∧ s' = step (fun _ => ntdll) s i)
      (fresh 2) [0, 1, 0, 0, 0, 1, 0, 1, 1, 1] s :=
    (run_of_guarded hs).mono fun _ _ _ h => ⟨h.1, (Option.some.inj h.2).symm⟩
  obtain ⟨hagreed, hreturned⟩ := opens_agree (start_fresh 2) hrun
  obtain ⟨id, hid⟩ := hreturned 0 (by decide)
  obtain ⟨id', hid'⟩ := hreturned 1 (by decide)
  obtain rfl := hagreed.same 0 1 id id' rfl hid hid'
  refine ⟨s, id, hrun, hid, hid', ?_⟩
  rw [hagreed.refs 0 id hid]
  have hcount : count (fun _ => ntdll) s.progress (canonical (fun _ => ntdll) (0 : Fin 2)) = 2 := by
    simp [count, Finset.filter_true_of_mem, Fin.forall_fin_two, hid, hid']
  rw [hcount]
  rfl

/-- Two calls miss the name one after the other; the second creation collides. -/
theorem second_open_collides :
    ([0, 1, 0, 1, 0, 1, 0, 1].foldl (step fun _ => ntdll) (fresh 2)).progress 1 =
      .returned (.error .objectNameCollision) := by
  rfl

end Opens
end Handles
end Kernel
end Theos
