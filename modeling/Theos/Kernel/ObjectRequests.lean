import Theos.Kernel.Handles
import Theos.Kernel.ObjectTable

/-!
# Requests to the object manager

The functions of `kernel/nt.rs` that change the object table, as requests that
may come in any order.  `Effect` says once what a request can do to the table;
the invariants of the table are proved by cases on it and then hold after every
sequence of requests.
-/

namespace Theos
namespace Kernel
namespace Handles

open Nt

variable {H : Type}

/-! ## Requests -/

/-- The body that `open_directory` and `open_symbolic_link` share. -/
def openNamed (s : System H) (type : ObjectType) (name : Path) :
    Except NtStatus Nat × System H :=
  let s := initNamespace s
  match s.objects.named.lookup (canonicalizeNtPath name) with
  | none => (.error .objectNameNotFound, s)
  | some id =>
    match s.objects.objects id with
    | none => (.error .objectNameNotFound, s)
    | some record =>
      if record.objectType ≠ type then (.error .objectTypeMismatch, s)
      else
        (.ok id, { s with
          objects := s.objects.setRecord id
            { record with refs := min (record.refs + 1) usizeMax } })

def openDirectory (s : System H) (name : Path) : Except NtStatus Nat × System H :=
  openNamed s .directory name

def openSymbolicLink (s : System H) (name : Path) : Except NtStatus Nat × System H :=
  openNamed s .symbolicLink name

/-- A call of the object manager. -/
inductive Request where
  | initNamespace
  | createNamed (name : Path) (data : ObjectData)
  | insertUnnamed (data : ObjectData)
  | openSection (name : Path)
  | openDirectory (name : Path)
  | openSymbolicLink (name : Path)
  | openKey (lookup : Vfs.Lookup) (reads : Vfs.Reads) (path : Path)
  | retain (id : Nat)
  | release (id : Nat)
  | updateEvent (id : Nat) (f : EventObject → EventObject)
  | signalExited (type : ObjectType) (id : Nat) (status : NtStatus)

/-- A call that opens an object, and so begins with `init_namespace`. -/
def Request.Opens : Request → Prop
  | .openSection _ => True
  | .openDirectory _ => True
  | .openSymbolicLink _ => True
  | .openKey _ _ _ => True
  | _ => False

/-- A call that changes the data of an object. -/
def Request.Updates : Request → Prop
  | .updateEvent _ _ => True
  | .signalExited _ _ _ => True
  | _ => False

/-- Carry out a request: the object of which the caller now holds one more
reference, if there is one, and the state after it. -/
def perform [Hive H] (s : System H) : Request → Option Nat × System H
  | .initNamespace => (none, initNamespace s)
  | .createNamed name data => (createNamed s name data).map Except.toOption id
  | .insertUnnamed data => (insertUnnamed s data).map some id
  | .openSection name => (openSectionObject s name).map Except.toOption id
  | .openDirectory name => (openDirectory s name).map Except.toOption id
  | .openSymbolicLink name => (openSymbolicLink s name).map Except.toOption id
  | .openKey lookup reads path => (openKeyObject lookup reads s path).map Except.toOption id
  | .retain o => ((retain s o).1.toOption.map fun _ => o, (retain s o).2)
  | .release o => (none, (release s o).2)
  | .updateEvent o f =>
    (none, { s with objects := (s.objects.withEventMut o fun event => ((), f event)).2 })
  | .signalExited type o status =>
    (none, { s with objects := s.objects.signalExited type o status })

/-- The objects that `init_namespace` creates: all of them or none. -/
def namespaceCreations (m : ObjectManager) : Nat :=
  if m.named.isEmpty then ObjectManager.namespaceEntries.length else 0

/-- The objects that a request creates. -/
def creations [Hive H] (s : System H) : Request → Nat
  | .initNamespace => namespaceCreations s.objects
  | .createNamed name data => (createNamed s name data).1.toOption.toList.length
  | .insertUnnamed _ => 1
  | .openSection name =>
    namespaceCreations s.objects +
      if ((initNamespace s).objects.named.lookup (canonicalizeNtPath name)).isSome then 0
      else (openSectionObject s name).1.toOption.toList.length
  | .openDirectory _ => namespaceCreations s.objects
  | .openSymbolicLink _ => namespaceCreations s.objects
  | .openKey lookup reads path =>
    namespaceCreations s.objects +
      (openKeyObject lookup reads s path).1.toOption.toList.length
  | _ => 0

/-- The state after a sequence of requests. -/
def performAll [Hive H] (s : System H) (requests : List Request) : System H :=
  requests.foldl (fun s request => (perform s request).2) s

/-- The objects that a sequence of requests creates. -/
def creationsAll [Hive H] : System H → List Request → Nat
  | _, [] => 0
  | s, request :: requests =>
    creations s request + creationsAll (perform s request).2 requests

/-! ## What a request does to the table -/

/-- How a request changes the table: the number of objects it creates, the object
it gives a reference to, and the table after it. -/
inductive Effect (m : ObjectManager) : Request → Nat → Option Nat → ObjectManager → Prop
  | initNamespace :
      Effect m .initNamespace (namespaceCreations m) none m.initNamespace
  | createNamed {name : Path} (data : ObjectData)
      (hnew : m.named.lookup (canonicalizeNtPath name) = none) :
      Effect m (.createNamed name data) 1 (some m.nextId) (m.createNamed name data).2
  | collision (name : Path) (data : ObjectData) :
      Effect m (.createNamed name data) 0 none m
  | insertUnnamed (data : ObjectData) :
      Effect m (.insertUnnamed data) 1 (some m.nextId) (m.insertUnnamed data).2
  | failed {request : Request} (h : request.Opens) :
      Effect m request (namespaceCreations m) none m.initNamespace
  | opened {request : Request} {id : Nat} {record : ObjectRecord}
      (h : request.Opens)
      (hid : m.initNamespace.objects id = some record) :
      Effect m request (namespaceCreations m) (some id) (m.initNamespace.retain id).2
  | cached {name : Path} (sec : SectionObject)
      (hbelow : "\\KnownDlls\\".toList.isPrefixOf (canonicalizeNtPath name))
      (hnew : m.initNamespace.named.lookup
        (canonicalizeNtPath (canonicalizeNtPath name)) = none) :
      Effect m (.openSection name) (namespaceCreations m + 1) (some m.initNamespace.nextId)
        ((m.initNamespace.createNamed (canonicalizeNtPath name) (.section sec)).2.retain
          m.initNamespace.nextId).2
  | key {lookup : Vfs.Lookup} {reads : Vfs.Reads} {path : Path} (key : KeyObject) :
      Effect m (.openKey lookup reads path) (namespaceCreations m + 1)
        (some m.initNamespace.nextId) (m.initNamespace.insertUnnamed (.key key)).2
  | retain {id : Nat} {record : ObjectRecord} (hid : m.objects id = some record) :
      Effect m (.retain id) 0 (some id) (m.retain id).2
  | refused (id : Nat) :
      Effect m (.retain id) 0 none m
  | release (id : Nat) :
      Effect m (.release id) 0 none (m.release id).2
  | updated {request : Request} {id : Nat} {record : ObjectRecord} {data : ObjectData}
      (h : request.Updates)
      (hid : m.objects id = some record)
      (htype : objectTypeOf data = objectTypeOf record.data)
      (hlink : ∀ target, data = .symbolicLink target ↔ record.data = .symbolicLink target) :
      Effect m request 0 none (m.setRecord id { record with data := data })
  | kept {request : Request} (h : request.Updates) :
      Effect m request 0 none m

theorem named_createNamed_ne_nil
    (m : ObjectManager) (name : Path) (data : ObjectData) :
    (m.createNamed name data).2.named ≠ [] := by
  rw [ObjectManager.createNamed]
  split
  next hlookup =>
    intro hnil
    dsimp only at hnil
    rw [hnil] at hlookup
    cases hlookup
  next => exact List.cons_ne_nil _ _

theorem namespace_initNamespace
    (m : ObjectManager) :
    m.initNamespace.initNamespace = m.initNamespace := by
  by_cases hempty : m.named.isEmpty
  · -- an entry has been created, so that the second call finds a name
    have hnamed : m.initNamespace.named ≠ [] := by
      rw [ObjectManager.initNamespace, if_pos hempty, ObjectManager.namespaceEntries]
      simp only [List.foldl_cons, List.foldl_nil]
      exact named_createNamed_ne_nil _ _ _
    exact if_neg fun h => hnamed (List.isEmpty_iff.mp h)
  · simp only [ObjectManager.initNamespace, hempty, Bool.false_eq_true, if_false]

theorem retain_of_some {m : ObjectManager} {id : Nat} {record : ObjectRecord}
    (hid : m.objects id = some record) :
    m.retain id =
      (.ok (), m.setRecord id { record with refs := min (record.refs + 1) usizeMax }) := by
  simp only [ObjectManager.retain, hid]

theorem effect_openNamed (request : Request) (hopens : request.Opens)
    (s : System H) (type : ObjectType) (name : Path) :
    Effect s.objects request (namespaceCreations s.objects)
      (openNamed s type name).1.toOption (openNamed s type name).2.objects := by
  simp only [openNamed, initNamespace]
  cases s.objects.initNamespace.named.lookup (canonicalizeNtPath name) with
  | none =>
    exact .failed hopens
  | some id =>
    cases hid : s.objects.initNamespace.objects id with
    | none =>
      simp only [hid]
      exact .failed hopens
    | some record =>
      simp only [hid]
      by_cases htype : record.objectType ≠ type
      · rw [if_pos htype]
        exact .failed hopens
      · have hopened := Effect.opened hopens hid
        rw [retain_of_some hid] at hopened
        rw [if_neg htype]
        exact hopened

/-- A section that is not in the table yet. -/
theorem effect_cacheKnownDll
    (s : System H) (name : Path) :
    Effect s.objects (.openSection name)
      (namespaceCreations s.objects +
        (cacheKnownDll (initNamespace s) (canonicalizeNtPath name)).1.toOption.toList.length)
      (cacheKnownDll (initNamespace s) (canonicalizeNtPath name)).1.toOption
      (cacheKnownDll (initNamespace s) (canonicalizeNtPath name)).2.objects := by
  have hfailed : Effect s.objects (.openSection name) (namespaceCreations s.objects) none
      s.objects.initNamespace := .failed trivial
  simp only [cacheKnownDll, initNamespace, namespace_initNamespace]
  split
  next hbelow =>
    split
    · exact hfailed
    · generalize canonicalizeNtPath (_ ++ _) = ntPath
      cases s.objects.initNamespace.resolveNtPath ntPath with
      | error status =>
        exact hfailed
      | ok path =>
        cases hnew : s.objects.initNamespace.named.lookup
            (canonicalizeNtPath (canonicalizeNtPath name)) with
        | some id =>
          simp only [createNamed, ObjectManager.createNamed, hnew]
          exact hfailed
        | none =>
          have hcached := Effect.cached
            ⟨some ntPath, some path, pageExecuteRead, secImage, 0⟩ hbelow hnew
          simp only [createNamed, retain, knownDllSection]
          simp only [ObjectManager.createNamed, hnew] at hcached ⊢
          simp only [ObjectManager.retain, Function.update_self] at hcached ⊢
          exact hcached
  next =>
    exact hfailed

theorem effect_openSection [Hive H]
    (s : System H) (name : Path) :
    Effect s.objects (.openSection name) (creations s (.openSection name))
      (openSectionObject s name).1.toOption (openSectionObject s name).2.objects := by
  rw [creations]
  cases hlookup : (initNamespace s).objects.named.lookup (canonicalizeNtPath name) with
  | none =>
    have heq : openSectionObject s name =
        cacheKnownDll (initNamespace s) (canonicalizeNtPath name) := by
      simp only [openSectionObject, hlookup]
    rw [heq]
    exact effect_cacheKnownDll s name
  | some id =>
    -- an object of that name is opened as `open_directory` does it
    have heq : openSectionObject s name = openNamed s .section name := by
      cases hrecord : (initNamespace s).objects.objects id <;>
        simp only [openSectionObject, openNamed, hlookup, hrecord]
    rw [heq]
    exact effect_openNamed (.openSection name) trivial s .section name

@[simp]
theorem objects_readFileAll
    (lookup : Vfs.Lookup) (reads : Vfs.Reads) (s : System H) (path : Path) :
    (readFileAll lookup reads s path).2.objects = s.objects := by
  have hopen := objects_vfsOpen lookup s path
  rw [readFileAll]
  split
  next heq =>
    rw [heq] at hopen
    exact hopen
  next heq =>
    rw [heq] at hopen
    split
    · exact hopen
    · split
      · exact hopen
      · exact (objects_vfsClose _ _).trans hopen

@[simp]
theorem objects_ensureSystemHiveLoaded [Hive H]
    (lookup : Vfs.Lookup) (reads : Vfs.Reads) (s : System H) :
    (ensureSystemHiveLoaded lookup reads s).2.objects = s.objects := by
  have hread := objects_readFileAll lookup reads s "/Windows/System32/config/SYSTEM".toList
  rw [ensureSystemHiveLoaded]
  split
  · rfl
  · split
    next heq =>
      rw [heq] at hread
      exact hread
    next heq =>
      rw [heq] at hread
      split
      · exact hread
      · exact hread

theorem effect_openKey [Hive H]
    (lookup : Vfs.Lookup) (reads : Vfs.Reads) (s : System H) (path : Path) :
    Effect s.objects (.openKey lookup reads path) (creations s (.openKey lookup reads path))
      (openKeyObject lookup reads s path).1.toOption
      (openKeyObject lookup reads s path).2.objects := by
  have hfailed : Effect s.objects (.openKey lookup reads path) (namespaceCreations s.objects)
      none s.objects.initNamespace := .failed trivial
  have hloaded := objects_ensureSystemHiveLoaded lookup reads (initNamespace s)
  simp only [creations, openKeyObject]
  revert hloaded
  cases ensureSystemHiveLoaded lookup reads (initNamespace s) with
  | mk result t =>
    intro hloaded
    replace hloaded : t.objects = s.objects.initNamespace := hloaded
    cases result with
    | error status =>
      exact hloaded ▸ hfailed
    | ok _ =>
      dsimp only
      split
      · exact hloaded ▸ hfailed
      · exact hloaded ▸ hfailed
      · split
        · simp only [insertUnnamed, hloaded]
          exact .key _
        · exact hloaded ▸ hfailed

/-- Every request has one of the listed effects. -/
theorem effect_perform [Hive H]
    (s : System H) (request : Request) :
    Effect s.objects request (creations s request) (perform s request).1
      (perform s request).2.objects := by
  cases request with
  | initNamespace =>
    exact .initNamespace
  | createNamed name data =>
    cases hnew : s.objects.named.lookup (canonicalizeNtPath name) with
    | some id =>
      simp only [perform, creations, createNamed, ObjectManager.createNamed, hnew]
      exact .collision name data
    | none =>
      have hcreated := Effect.createNamed data hnew
      simp only [perform, creations, createNamed]
      simp only [ObjectManager.createNamed, hnew] at hcreated ⊢
      exact hcreated
  | insertUnnamed data =>
    exact .insertUnnamed data
  | openSection name =>
    exact effect_openSection s name
  | openDirectory name =>
    exact effect_openNamed (.openDirectory name) trivial s .directory name
  | openSymbolicLink name =>
    exact effect_openNamed (.openSymbolicLink name) trivial s .symbolicLink name
  | openKey lookup reads path =>
    exact effect_openKey lookup reads s path
  | retain id =>
    cases hid : s.objects.objects id with
    | none =>
      simp only [perform, retain, ObjectManager.retain, hid]
      exact .refused id
    | some record =>
      have hretained := Effect.retain hid
      simp only [perform, retain]
      simp only [ObjectManager.retain, hid] at hretained ⊢
      exact hretained
  | release id =>
    simp only [perform, objects_release]
    exact .release id
  | updateEvent id f =>
    simp only [perform, ObjectManager.withEventMut]
    cases hid : s.objects.objects id with
    | none =>
      exact .kept trivial
    | some record =>
      dsimp only
      split
      next event hdata =>
        exact .updated trivial hid (by rw [hdata]; rfl) (by simp [hdata])
      next =>
        exact .kept trivial
  | signalExited type id status =>
    simp only [perform, ObjectManager.signalExited]
    cases hid : s.objects.objects id with
    | none =>
      exact .kept trivial
    | some record =>
      dsimp only
      split
      · refine .updated trivial hid ?_ fun target => ?_
        · cases record.data <;> rfl
        · cases record.data <;> simp [ObjectManager.markExited]
      · exact .kept trivial

/-! ## Consistency -/

/-- The two maps of the table agree, every object is referred to and is what its
type says, and no number is in use that is still to be given out. -/
structure Consistent (m : ObjectManager) : Prop where
  wellFormed : m.WellFormed
  referred : ∀ id record, m.objects id = some record → 1 ≤ record.refs
  below : ∀ id record, m.objects id = some record → id < m.nextId

namespace Consistent

variable {m m' : ObjectManager} {n : Nat}

theorem fresh
    (h : Consistent m) :
    m.objects m.nextId = none := by
  cases hid : m.objects m.nextId with
  | none =>
    rfl
  | some record =>
    exact absurd (h.below m.nextId record hid) (Nat.lt_irrefl _)

/-- A new object takes the next number. -/
theorem created (h : Consistent m) {record : ObjectRecord} (hwf : m'.WellFormed)
    (hobjects : m'.objects = Function.update m.objects m.nextId (some record))
    (hrefs : record.refs = 1)
    (hnext : m'.nextId = m.nextId + 1) :
    Consistent m' := by
  refine ⟨hwf, fun id r hr => ?_, fun id r hr => ?_⟩
  · by_cases hid : id = m.nextId
    · subst hid
      rw [hobjects, Function.update_self, Option.some_inj] at hr
      rw [← hr, hrefs]
    · rw [hobjects, Function.update_of_ne hid] at hr
      exact h.referred id r hr
  · by_cases hid : id = m.nextId
    · omega
    · rw [hobjects, Function.update_of_ne hid] at hr
      have hlt := h.below id r hr
      omega

/-- A record is replaced by one with the same name and a fitting type. -/
theorem setRecord (h : Consistent m) {id : Nat} {record record' : ObjectRecord}
    (hid : m.objects id = some record) (hname : record'.name = record.name)
    (htype : record'.objectType = objectTypeOf record'.data)
    (hrefs : 1 ≤ record'.refs) :
    Consistent (m.setRecord id record') := by
  refine ⟨h.wellFormed.setRecord hid hname htype, fun x r hr => ?_, fun x r hr => ?_⟩
  · by_cases hx : x = id
    · subst hx
      rw [ObjectManager.objects_setRecord_self, Option.some_inj] at hr
      exact hr ▸ hrefs
    · rw [ObjectManager.objects_setRecord_of_ne _ _ hx] at hr
      exact h.referred x r hr
  · by_cases hx : x = id
    · subst hx
      exact h.below x record hid
    · rw [ObjectManager.objects_setRecord_of_ne _ _ hx] at hr
      exact h.below x r hr

theorem insertUnnamed (h : Consistent m) (hroom : m.nextId < u32Max)
    (data : ObjectData) :
    Consistent (m.insertUnnamed data).2 ∧ (m.insertUnnamed data).2.nextId = m.nextId + 1 := by
  have hnext : (m.insertUnnamed data).2.nextId = m.nextId + 1 := Nat.min_eq_left hroom
  exact ⟨h.created (h.wellFormed.insertUnnamed h.fresh data) rfl rfl hnext, hnext⟩

theorem createNamed (h : Consistent m) (hroom : m.nextId < u32Max)
    (name : Path) (data : ObjectData) :
    Consistent (m.createNamed name data).2 ∧
      (m.createNamed name data).2.nextId ≤ m.nextId + 1 := by
  have hwf := h.wellFormed.createNamed h.fresh name data
  rw [ObjectManager.createNamed] at hwf ⊢
  cases hnew : m.named.lookup (canonicalizeNtPath name) with
  | some id =>
    exact ⟨h, Nat.le_succ _⟩
  | none =>
    rw [hnew] at hwf
    have hnext : ObjectManager.idAfter m.nextId = m.nextId + 1 := Nat.min_eq_left hroom
    exact ⟨h.created hwf rfl rfl hnext, hnext.le⟩

/-- The entries of the namespace are created one after the other. -/
theorem createAll (entries : List (Path × ObjectData)) (h : Consistent m)
    (hroom : m.nextId + entries.length ≤ u32Max) :
    Consistent (entries.foldl (fun m entry => (m.createNamed entry.1 entry.2).2) m) ∧
      (entries.foldl (fun m entry => (m.createNamed entry.1 entry.2).2) m).nextId ≤
        m.nextId + entries.length := by
  induction entries generalizing m with
  | nil =>
    exact ⟨h, Nat.le_refl _⟩
  | cons entry entries ih =>
    simp only [List.length_cons, List.foldl_cons] at hroom ⊢
    obtain ⟨hcreated, hnext⟩ := h.createNamed (by omega) entry.1 entry.2
    obtain ⟨hall, hlast⟩ := ih hcreated (by omega)
    exact ⟨hall, by omega⟩

theorem initNamespace (h : Consistent m)
    (hroom : m.nextId + namespaceCreations m ≤ u32Max) :
    Consistent m.initNamespace ∧
      m.initNamespace.nextId ≤ m.nextId + namespaceCreations m := by
  rw [namespaceCreations] at hroom ⊢
  rw [ObjectManager.initNamespace]
  by_cases hempty : m.named.isEmpty
  · rw [if_pos hempty] at hroom ⊢
    rw [if_pos hempty]
    exact h.createAll ObjectManager.namespaceEntries hroom
  · rw [if_neg hempty, if_neg hempty]
    exact ⟨h, Nat.le_refl _⟩

theorem retain (h : Consistent m)
    (id : Nat) :
    Consistent (m.retain id).2 ∧ (m.retain id).2.nextId = m.nextId := by
  cases hid : m.objects id with
  | none =>
    simp only [ObjectManager.retain, hid]
    exact ⟨h, trivial⟩
  | some record =>
    rw [retain_of_some hid]
    refine ⟨h.setRecord hid rfl (h.wellFormed.typed id record hid) ?_, rfl⟩
    have hrefs := h.referred id record hid
    have hmax : 1 ≤ usizeMax := by decide
    exact le_min (by omega) hmax

theorem release (h : Consistent m)
    (id : Nat) :
    Consistent (m.release id).2 := by
  refine ⟨h.wellFormed.release id, fun x r hr => ?_, fun x r hr => ?_⟩
  · by_cases hx : x = id
    · subst hx
      cases hid : m.objects x with
      | none =>
        simp [ObjectManager.release, hid] at hr
      | some record =>
        by_cases hrefs : 1 < record.refs
        · rw [ObjectManager.objects_release_of_lt hid hrefs, Option.some_inj] at hr
          rw [← hr]
          exact Nat.le_sub_one_of_lt hrefs
        · simp [ObjectManager.release, hid, hrefs] at hr
    · rw [ObjectManager.objects_release_of_ne m hx] at hr
      exact h.referred x r hr
  · rw [ObjectManager.nextId_release]
    by_cases hx : x = id
    · subst hx
      cases hid : m.objects x with
      | none =>
        simp [ObjectManager.release, hid] at hr
      | some record =>
        exact h.below x record hid
    · rw [ObjectManager.objects_release_of_ne m hx] at hr
      exact h.below x r hr

/-- A request keeps the table consistent as long as there are numbers for the
objects it creates. -/
theorem effect {request : Request} {granted : Option Nat} (h : Consistent m)
    (heffect : Effect m request n granted m')
    (hroom : m.nextId + n ≤ u32Max) :
    Consistent m' ∧ m'.nextId ≤ m.nextId + n := by
  cases heffect with
  | initNamespace =>
    exact h.initNamespace hroom
  | createNamed data hnew =>
    exact h.createNamed (by omega) _ data
  | collision name data =>
    exact ⟨h, Nat.le_refl _⟩
  | insertUnnamed data =>
    obtain ⟨hcreated, hnext⟩ := h.insertUnnamed (by omega) data
    exact ⟨hcreated, hnext.le⟩
  | failed hopens =>
    exact h.initNamespace hroom
  | opened hopens hid =>
    obtain ⟨hinit, hle⟩ := h.initNamespace hroom
    obtain ⟨hretained, hnext⟩ := hinit.retain _
    exact ⟨hretained, hnext.trans_le hle⟩
  | cached sec hbelow hnew =>
    obtain ⟨hinit, hle⟩ := h.initNamespace (by omega)
    obtain ⟨hcreated, hstep⟩ := hinit.createNamed (by omega) _ (.section sec)
    obtain ⟨hretained, hnext⟩ := hcreated.retain _
    exact ⟨hretained, by omega⟩
  | key key =>
    obtain ⟨hinit, hle⟩ := h.initNamespace (by omega)
    obtain ⟨hcreated, hnext⟩ := hinit.insertUnnamed (by omega) (.key key)
    exact ⟨hcreated, by omega⟩
  | retain hid =>
    obtain ⟨hretained, hnext⟩ := h.retain _
    exact ⟨hretained, hnext.le⟩
  | refused id =>
    exact ⟨h, Nat.le_refl _⟩
  | release id =>
    exact ⟨h.release id, (ObjectManager.nextId_release m id).le⟩
  | @updated request id record data hupdates hid htype hlink =>
    refine ⟨h.setRecord hid rfl ?_ (h.referred id record hid), Nat.le_refl _⟩
    exact (h.wellFormed.typed id record hid).trans htype.symm
  | kept hupdates =>
    exact ⟨h, Nat.le_refl _⟩

/-- The release of the last reference takes the object out of both maps. -/
theorem release_last (h : Consistent m) {id : Nat} {record : ObjectRecord}
    (hid : m.objects id = some record)
    (hlast : record.refs = 1) :
    (m.release id).2.objects id = none ∧
      ∀ name, (m.release id).2.named.lookup name ≠ some id ∧
        (record.name = some name → (m.release id).2.named.lookup name = none) := by
  have hnone : (m.release id).2.objects id = none := by
    simp [ObjectManager.release, hid, hlast]
  refine ⟨hnone, fun name => ⟨fun hname => ?_, fun hname => ?_⟩⟩
  · obtain ⟨r, hr, -⟩ := ((h.release id).wellFormed.named_iff name id).mp hname
    rw [hnone] at hr
    cases hr
  · have hrefs : ¬ 1 < record.refs := by omega
    simp only [ObjectManager.release, hid, hrefs, if_false, hname]
    rw [ObjectManager.lookup_filter_ne, if_pos rfl]

end Consistent

theorem consistent_new : Consistent ObjectManager.new := by
  refine ⟨ObjectManager.wellFormed_new, fun id record h => ?_, fun id record h => ?_⟩
  · cases h
  · cases h

/-- Every sequence of requests keeps the table consistent. -/
theorem consistent_performAll [Hive H]
    {s : System H}
    (requests : List Request)
    (h : Consistent s.objects)
    (hroom : s.objects.nextId + creationsAll s requests ≤ u32Max) :
    Consistent (performAll s requests).objects := by
  induction requests generalizing s with
  | nil =>
    exact h
  | cons request requests ih =>
    rw [creationsAll] at hroom
    obtain ⟨hnext, hid⟩ := h.effect (effect_perform s request) (by omega)
    have hrest : (perform s request).2.objects.nextId +
        creationsAll (perform s request).2 requests ≤ u32Max := by omega
    exact ih hnext hrest

/-- **The object table stays consistent.**  After any sequence of requests to a new
table with fewer than `2 ^ 32 - 1` creations, names and objects agree, every object
has a reference and the type of its data, all numbers in use are below the next one,
and releasing an object's last reference removes it from both maps. -/
theorem object_table_consistent [Hive H]
    {s : System H}
    (hnew : s.objects = ObjectManager.new)
    {requests : List Request}
    (hcreations : creationsAll s requests < 2 ^ 32 - 1) :
    let m := (performAll s requests).objects
    (∀ name id, m.named.lookup name = some id ↔
        ∃ record, m.objects id = some record ∧ record.name = some name) ∧
      (∀ id record, m.objects id = some record →
        1 ≤ record.refs ∧ record.objectType = objectTypeOf record.data ∧ id < m.nextId) ∧
      ∀ id record, m.objects id = some record → record.refs = 1 →
        (m.release id).2.objects id = none ∧
          ∀ name, (m.release id).2.named.lookup name ≠ some id ∧
            (record.name = some name → (m.release id).2.named.lookup name = none) := by
  have hroom : s.objects.nextId + creationsAll s requests ≤ u32Max := by
    rw [hnew]
    simp only [ObjectManager.new, u32Max]
    omega
  have hconsistent := consistent_performAll requests (hnew ▸ consistent_new) hroom
  refine ⟨hconsistent.wellFormed.named_iff, fun id record hid => ?_, fun id record hid hlast => ?_⟩
  · exact ⟨hconsistent.referred id record hid, hconsistent.wellFormed.typed id record hid,
      hconsistent.below id record hid⟩
  · exact hconsistent.release_last hid hlast

/-- No hive can be loaded. -/
instance noHives : Hive Empty where
  parse _ := none
  hasKey hive _ := nomatch hive

/-- Nothing is created yet. -/
def unstarted : System Empty where
  objects := ObjectManager.new
  systemHive := none
  vfs := some Vfs.mount

/-- A known DLL is opened twice, a directory is opened, and a section is created and
closed. -/
def sectionRequests : List Request :=
  [.openSection "\\KnownDlls\\ntdll.dll".toList, .openSection "\\KnownDlls\\ntdll.dll".toList,
    .openDirectory "\\KnownDlls".toList,
    .createNamed "\\Shared".toList (.section ⟨none, none, 0, 0, 4096⟩), .release 11]

theorem object_table_consistent_sections :
    creationsAll unstarted sectionRequests = 11 ∧
      ∃ record, (performAll unstarted sectionRequests).objects.objects 10 = some record ∧
        record.refs = 3 ∧ record.objectType = objectTypeOf record.data := by
  have hcount : creationsAll unstarted sectionRequests = 11 := by decide +kernel
  have hfew : creationsAll unstarted sectionRequests < 2 ^ 32 - 1 := by omega
  have hrefs : ((performAll unstarted sectionRequests).objects.objects 10).map (·.refs) =
      some 3 := by decide +kernel
  obtain ⟨-, hobjects, -⟩ := object_table_consistent
    (rfl : unstarted.objects = ObjectManager.new) hfew
  obtain ⟨record, hrecord, hthree⟩ := Option.map_eq_some_iff.mp hrefs
  exact ⟨hcount, record, hrecord, hthree, (hobjects 10 record hrecord).2.1⟩

end Handles
end Kernel
end Theos
