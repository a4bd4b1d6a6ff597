import Theos.Base.Run
import Theos.Kernel.ObjectRequests

/-!
# Section names and file paths

`resolve_nt_path` looks for the longest name of the namespace that ends where a
component of the path ends, and follows it if it is a symbolic link.  A section
that a process creates below a link is such a name, and it is not a link: the
paths below it are no longer followed.

As long as nothing is named below a link, resolution is the substitution of
links (`followLinks`) and nothing else.  Requests whose section names are not
below a link keep this, and keep the links themselves, so that every path
resolves as it did at boot.
-/

namespace Theos
namespace Kernel
namespace Handles

open Base
open Nt

variable {H : Type}

/-! ## The longest name above a path -/

/-- A path has `name` as its first components, and others after it. -/
def Above (name path : Path) : Prop :=
  name ++ ['\\'] <+: path

instance (name path : Path) : Decidable (Above name path) :=
  inferInstanceAs (Decidable (_ <+: _))

theorem above_iff
    (name path : Path) :
    Above name path ↔
      ¬ (path = name ∨ ¬ name.isPrefixOf path ∨ path[name.length]? ≠ some '\\') := by
  constructor
  · rintro ⟨rest, rfl⟩
    simp
  · intro h
    push Not at h
    obtain ⟨-, hpre, hnext⟩ := h
    obtain ⟨rest, rfl⟩ := List.isPrefixOf_iff_prefix.mp hpre
    rw [List.getElem?_append_right (Nat.le_refl _), Nat.sub_self] at hnext
    cases rest with
    | nil =>
      cases hnext
    | cons c rest =>
      obtain rfl : c = '\\' := by simpa using hnext
      exact ⟨rest, by simp⟩

theorem Above.of_length_lt {name name' path : Path} (h : Above name path) (h' : Above name' path)
    (hlt : name.length < name'.length) :
    Above name name' := by
  refine List.prefix_of_prefix_length_le h ((List.prefix_append _ _).trans h') ?_
  simp only [List.length_append, List.length_singleton]
  omega

theorem Above.eq_of_length {name name' path : Path} (h : Above name path) (h' : Above name' path)
    (hlength : name.length = name'.length) :
    name = name' :=
  (List.prefix_of_prefix_length_le ((List.prefix_append _ _).trans h)
    ((List.prefix_append _ _).trans h') hlength.le).eq_of_length hlength

/-- The found name is above the path, and no name above the path is longer. -/
structure Longest (path : Path) (names : List Path) (pre : Path) : Prop where
  mem : pre ∈ names
  above : Above pre path
  longest : ∀ name ∈ names, Above name path → name.length ≤ pre.length

/-- What the search returns when it has seen some names already. -/
theorem bestPrefix_cases
    (path : Path) (named : List (Path × Nat)) (seen : List Path) (best : Option Path)
    (hnone : best = none → ∀ name ∈ seen, ¬ Above name path)
    (hsome : ∀ pre, best = some pre → Longest path seen pre) :
    match ObjectManager.bestPrefix path named best with
    | none => ∀ name ∈ seen ++ named.map Prod.fst, ¬ Above name path
    | some pre => Longest path (seen ++ named.map Prod.fst) pre := by
  induction named generalizing seen best with
  | nil =>
    rw [ObjectManager.bestPrefix, List.map_nil, List.append_nil]
    cases best with
    | none =>
      exact hnone rfl
    | some pre =>
      exact hsome pre rfl
  | cons entry named ih =>
    obtain ⟨name, id⟩ := entry
    have hseen : seen ++ List.map Prod.fst ((name, id) :: named) =
        (seen ++ [name]) ++ named.map Prod.fst := by simp
    rw [hseen, ObjectManager.bestPrefix.eq_def]
    dsimp only
    by_cases habove : Above name path
    · rw [if_neg ((above_iff name path).mp habove)]
      cases best with
      | none =>
        refine ih (seen ++ [name]) (some name) (by simp) fun pre hpre => ?_
        obtain rfl : name = pre := Option.some.inj hpre
        refine ⟨by simp, habove, fun other hother hab => ?_⟩
        rcases List.mem_append.mp hother with hold | hnew
        · exact absurd hab (hnone rfl other hold)
        · rw [List.mem_singleton.mp hnew]
      | some existing =>
        have hbest := hsome existing rfl
        dsimp only
        by_cases hlonger : existing.length < name.length
        · rw [if_pos hlonger]
          refine ih (seen ++ [name]) (some name) (by simp) fun pre hpre => ?_
          obtain rfl : name = pre := Option.some.inj hpre
          refine ⟨by simp, habove, fun other hother hab => ?_⟩
          rcases List.mem_append.mp hother with hold | hnew
          · exact (hbest.longest other hold hab).trans hlonger.le
          · rw [List.mem_singleton.mp hnew]
        · rw [if_neg hlonger]
          refine ih (seen ++ [name]) (some existing) (by simp) fun pre hpre => ?_
          obtain rfl : existing = pre := Option.some.inj hpre
          refine ⟨List.mem_append_left _ hbest.mem, hbest.above, fun other hother hab => ?_⟩
          rcases List.mem_append.mp hother with hold | hnew
          · exact hbest.longest other hold hab
          · rw [List.mem_singleton.mp hnew]
            exact Nat.le_of_not_lt hlonger
    · rw [if_pos (not_not.mp (mt (above_iff name path).mpr habove))]
      refine ih (seen ++ [name]) best (fun hbest other hother => ?_) fun pre hpre => ?_
      · rcases List.mem_append.mp hother with hold | hnew
        · exact hnone hbest other hold
        · rw [List.mem_singleton.mp hnew]
          exact habove
      · have hbest := hsome pre hpre
        refine ⟨List.mem_append_left _ hbest.mem, hbest.above, fun other hother hab => ?_⟩
        rcases List.mem_append.mp hother with hold | hnew
        · exact hbest.longest other hold hab
        · rw [List.mem_singleton.mp hnew] at hab
          exact absurd hab habove

theorem lookup_isSome_iff_mem
    (named : List (Path × Nat)) (name : Path) :
    (named.lookup name).isSome ↔ name ∈ named.map Prod.fst := by
  induction named with
  | nil =>
    simp
  | cons entry named ih =>
    rw [ObjectManager.lookup_cons_ite, List.map_cons, List.mem_cons, ← ih]
    by_cases h : name = entry.1
    · simp [h]
    · simp [h]

/-- The longest name above a path. -/
theorem bestPrefix_spec
    (m : ObjectManager) (path : Path) :
    match ObjectManager.bestPrefix path m.named none with
    | none => ∀ name, (m.named.lookup name).isSome → ¬ Above name path
    | some pre => (m.named.lookup pre).isSome ∧ Above pre path ∧
        ∀ name, (m.named.lookup name).isSome → Above name path → name.length ≤ pre.length := by
  have h := bestPrefix_cases path m.named [] none (by simp) (by simp)
  simp only [List.nil_append] at h
  revert h
  cases ObjectManager.bestPrefix path m.named none with
  | none =>
    intro h name hname
    exact h name ((lookup_isSome_iff_mem _ _).mp hname)
  | some pre =>
    intro h
    exact ⟨(lookup_isSome_iff_mem _ _).mpr h.mem, h.above, fun name hname =>
      h.longest name ((lookup_isSome_iff_mem _ _).mp hname)⟩

/-! ## Substituting links -/

/-- The links of the namespace, with their targets. -/
def namespaceLinks : List (Path × Path) :=
  [("\\??\\C:".toList, "\\Device\\Crabfs0".toList),
    ("\\SystemRoot".toList, "\\??\\C:\\Windows".toList)]

/-- What a path means when only links count: the link that is the path or is above
it is replaced by its target, as long as there is one. -/
def followLinks : Nat → Path → Except NtStatus Path
  | 0, _ => .error .objectPathNotFound
  | levels + 1, path =>
    match namespaceLinks.lookup path with
    | some target => followLinks levels target
    | none =>
      match namespaceLinks.find? fun link => Above link.1 path with
      | some (name, target) => followLinks levels (target ++ path.drop name.length)
      | none => .ok path

/-- The target of the link that a name stands for. -/
def linkTarget (m : ObjectManager) (name : Path) : Option Path :=
  ((m.named.lookup name).bind m.objects).bind fun record =>
    match record.data with
    | .symbolicLink target => some target
    | _ => none

/-- The links are those of the namespace, and nothing is named below one. -/
structure Clear (m : ObjectManager) : Prop where
  links : ∀ name, linkTarget m name = namespaceLinks.lookup name
  clear : ∀ name, (m.named.lookup name).isSome → ∀ link ∈ namespaceLinks, ¬ Above link.1 name

theorem lookup_of_mem_namespaceLinks :
    ∀ link ∈ namespaceLinks, namespaceLinks.lookup link.1 = some link.2 := by
  decide

theorem named_of_linkTarget {m : ObjectManager} {name target : Path}
    (h : linkTarget m name = some target) :
    (m.named.lookup name).isSome := by
  cases hname : m.named.lookup name with
  | none =>
    simp [linkTarget, hname] at h
  | some id =>
    rfl

namespace Clear

variable {m : ObjectManager}

theorem named (h : Clear m) {link : Path × Path}
    (hlink : link ∈ namespaceLinks) :
    (m.named.lookup link.1).isSome :=
  named_of_linkTarget ((h.links link.1).trans (lookup_of_mem_namespaceLinks link hlink))

/-- The longest name above a path is the only one that can be a link. -/
theorem find_eq (h : Clear m) {path pre : Path} (hpre : (m.named.lookup pre).isSome)
    (habove : Above pre path)
    (hlongest : ∀ name, (m.named.lookup name).isSome → Above name path →
      name.length ≤ pre.length) :
    (namespaceLinks.find? fun link => Above link.1 path) =
      (namespaceLinks.lookup pre).map fun target => (pre, target) := by
  have honly : ∀ link ∈ namespaceLinks, Above link.1 path → link.1 = pre := by
    intro link hlink hab
    refine hab.eq_of_length habove ((hlongest link.1 (h.named hlink) hab).antisymm ?_)
    by_contra hlt
    exact h.clear pre hpre link hlink (hab.of_length_lt habove (Nat.lt_of_not_le hlt))
  cases hfind : namespaceLinks.find? fun link => Above link.1 path with
  | some link =>
    have hmem := List.mem_of_find?_eq_some hfind
    have hab : Above link.1 path := by simpa using List.find?_some hfind
    have heq := honly link hmem hab
    rw [← heq, lookup_of_mem_namespaceLinks link hmem]
    rfl
  | none =>
    cases hlookup : namespaceLinks.lookup pre with
    | none =>
      rfl
    | some target =>
      have hmem : (pre, target) ∈ namespaceLinks := by
        obtain ⟨before, after, heq, -⟩ := List.lookup_eq_some_iff.mp hlookup
        rw [heq]
        exact List.mem_append_right _ (List.mem_cons_self ..)
      have hnot := List.find?_eq_none.mp hfind (pre, target) hmem
      simp [habove] at hnot

/-- When nothing is named below a link, resolution substitutes links. -/
theorem resolveNamedPath_eq (h : Clear m) (hwf : m.WellFormed)
    (levels : Nat) (path : Path) :
    m.resolveNamedPath levels path = followLinks levels path := by
  have hexists : ∀ name, (m.named.lookup name).isSome →
      ∃ record, (m.named.lookup name).bind m.objects = some record := by
    intro name hname
    obtain ⟨id, hid⟩ := Option.isSome_iff_exists.mp hname
    obtain ⟨record, hrecord, -⟩ := (hwf.named_iff name id).mp hid
    exact ⟨record, by rw [hid]; exact hrecord⟩
  induction levels generalizing path with
  | zero =>
    rfl
  | succ levels ih =>
    have hlink := h.links path
    rw [ObjectManager.resolveNamedPath, followLinks, ← hlink, linkTarget]
    cases hrecord : (m.named.lookup path).bind m.objects with
    | some record =>
      have hnamed : (m.named.lookup path).isSome := by
        cases hname : m.named.lookup path with
        | none =>
          simp [hname] at hrecord
        | some id =>
          rfl
      -- a name of the table is below no link
      have hfind : (namespaceLinks.find? fun link => Above link.1 path) = none := by
        rw [List.find?_eq_none]
        intro link hlink
        simpa using h.clear path hnamed link hlink
      dsimp only [Option.bind_some]
      cases record.data with
      | symbolicLink target =>
        exact ih target
      | _ =>
        simp only [hfind]
    | none =>
      have hspec := bestPrefix_spec m path
      dsimp only [Option.bind_none]
      revert hspec
      cases ObjectManager.bestPrefix path m.named none with
      | none =>
        intro hnone
        have hfind : (namespaceLinks.find? fun link => Above link.1 path) = none := by
          rw [List.find?_eq_none]
          intro link hlink
          simpa using hnone link.1 (h.named hlink)
        simp only [hfind]
      | some pre =>
        rintro ⟨hpre, habove, hlongest⟩
        rw [h.find_eq hpre habove hlongest, ← h.links pre, linkTarget]
        obtain ⟨record, hrecord⟩ := hexists pre hpre
        simp only [hrecord, Option.bind_some]
        cases record.data with
        | symbolicLink target =>
          exact ih _
        | _ =>
          rfl

end Clear

/-! ## Callers of the object manager -/

/-- The object manager and the references that its callers hold, each of them to be
given back once. -/
structure Clients (H : Type) where
  system : System H
  held : List Nat

/-- What callers do: the objects they name are sections, and they release what they
hold. -/
def Permitted (held : List Nat) : Request → Prop
  | .createNamed _ data => objectTypeOf data = .section
  | .release id => id ∈ held
  | _ => True

instance (held : List Nat) (request : Request) : Decidable (Permitted held request) :=
  match request with
  | .createNamed _ _ => inferInstanceAs (Decidable (_ = _))
  | .release _ => inferInstanceAs (Decidable (_ ∈ _))
  | .initNamespace => .isTrue trivial
  | .insertUnnamed _ => .isTrue trivial
  | .openSection _ => .isTrue trivial
  | .openDirectory _ => .isTrue trivial
  | .openSymbolicLink _ => .isTrue trivial
  | .openKey _ _ _ => .isTrue trivial
  | .retain _ => .isTrue trivial
  | .updateEvent _ _ => .isTrue trivial
  | .signalExited _ _ _ => .isTrue trivial

/-- The references that are held after a request. -/
def heldAfter (held : List Nat) (granted : Option Nat) : Request → List Nat
  | .release id => held.erase id
  | _ => granted.toList ++ held

def clientStep [Hive H] (c : Clients H) (request : Request) : Option (Clients H) :=
  if Permitted c.held request then
    some ⟨(perform c.system request).2,
      heldAfter c.held (perform c.system request).1 request⟩
  else none

/-- A name lies below a symbolic link of the table. -/
def BelowLink (m : ObjectManager) (name : Path) : Prop :=
  ∃ entry ∈ m.named, (linkTarget m entry.1).isSome ∧ Above entry.1 name

instance (m : ObjectManager) (name : Path) : Decidable (BelowLink m name) :=
  inferInstanceAs (Decidable (∃ entry ∈ m.named, (linkTarget m entry.1).isSome ∧ Above entry.1 name))

/-- The name a request creates. -/
def createdName : Request → Option Path
  | .createNamed name _ => some name
  | _ => none

/-- The name of a new section is not below a link, and there are numbers for one more
object and one more reference. -/
def Harmless (c : Clients H) (request : Request) : Prop :=
  (∀ name ∈ createdName request, ¬ BelowLink c.system.objects (canonicalizeNtPath name)) ∧
    c.system.objects.nextId < u32Max ∧ c.held.length + 1 < usizeMax

/-! ## What the callers keep -/

/-- A record stands for a link of some name. -/
def Linked (record : Option ObjectRecord) (name target : Path) : Prop :=
  ∃ r, record = some r ∧ r.name = some name ∧ r.data = .symbolicLink target

/-- The links of the namespace are in place, each with the reference of the namespace
besides those that are held, and nothing is named below one. -/
structure Anchored (held : List Nat) (m : ObjectManager) : Prop where
  consistent : Consistent m
  links : ∀ name target, (∃ id, Linked (m.objects id) name target) ↔
    namespaceLinks.lookup name = some target
  clear : ∀ id record name, m.objects id = some record → record.name = some name →
    ∀ link ∈ namespaceLinks, ¬ Above link.1 name
  counted : ∀ id record name target, m.objects id = some record → record.name = some name →
    record.data = .symbolicLink target → record.refs = held.count id + 1

theorem linkTarget_eq_some_iff {m : ObjectManager} (hwf : m.WellFormed)
    (name target : Path) :
    linkTarget m name = some target ↔ ∃ id, Linked (m.objects id) name target := by
  constructor
  · intro h
    obtain ⟨record, hrecord, htarget⟩ := Option.bind_eq_some_iff.mp h
    obtain ⟨id, hid, hobject⟩ := Option.bind_eq_some_iff.mp hrecord
    obtain ⟨r, hr, hname⟩ := (hwf.named_iff name id).mp hid
    obtain rfl : record = r := Option.some.inj (hobject.symm.trans hr)
    refine ⟨id, record, hr, hname, ?_⟩
    cases hdata : record.data with
    | symbolicLink other =>
      rw [hdata] at htarget
      rw [Option.some.inj htarget]
    | _ =>
      rw [hdata] at htarget
      cases htarget
  · rintro ⟨id, r, hr, hname, hdata⟩
    have hid := (hwf.named_iff name id).mpr ⟨r, hr, hname⟩
    simp [linkTarget, hid, hr, hdata]

namespace Anchored

variable {held held' : List Nat} {m m' : ObjectManager} {id : Nat}

theorem clearLinks
    (h : Anchored held m) :
    Clear m := by
  have hwf := h.consistent.wellFormed
  refine ⟨fun name => ?_, fun name hname => ?_⟩
  · apply Option.ext
    intro target
    exact (linkTarget_eq_some_iff hwf name target).trans (h.links name target)
  · obtain ⟨id, hid⟩ := Option.isSome_iff_exists.mp hname
    obtain ⟨record, hrecord, hcarries⟩ := (hwf.named_iff name id).mp hid
    exact h.clear id record name hrecord hcarries

theorem initNamespace_eq
    (h : Anchored held m) :
    m.initNamespace = m := by
  have hmem : ("\\SystemRoot".toList, "\\??\\C:\\Windows".toList) ∈ namespaceLinks := by decide
  obtain ⟨id, hid⟩ := Option.isSome_iff_exists.mp (h.clearLinks.named hmem)
  exact ObjectManager.initNamespace_of_named hid

/-- One record changes; it stands for a link before and after, or neither. -/
theorem update (h : Anchored held m) {record : Option ObjectRecord} (hconsistent : Consistent m')
    (hobjects : m'.objects = Function.update m.objects id record)
    (hlinks : ∀ name target, Linked record name target ↔ Linked (m.objects id) name target)
    (hclear : ∀ r name, record = some r → r.name = some name →
      ∀ link ∈ namespaceLinks, ¬ Above link.1 name)
    (hcounted : ∀ r name target, record = some r → r.name = some name →
      r.data = .symbolicLink target → r.refs = held'.count id + 1)
    (hheld : ∀ x, x ≠ id → held'.count x = held.count x) :
    Anchored held' m' := by
  refine ⟨hconsistent, fun name target => ?_, fun x r name hr hname => ?_,
    fun x r name target hr hname hdata => ?_⟩
  · rw [← h.links name target]
    refine exists_congr fun x => ?_
    by_cases hx : x = id
    · subst hx
      rw [hobjects, Function.update_self]
      exact hlinks name target
    · rw [hobjects, Function.update_of_ne hx]
  · by_cases hx : x = id
    · subst hx
      rw [hobjects, Function.update_self] at hr
      exact hclear r name hr hname
    · rw [hobjects, Function.update_of_ne hx] at hr
      exact h.clear x r name hr hname
  · by_cases hx : x = id
    · subst hx
      rw [hobjects, Function.update_self] at hr
      exact hcounted r name target hr hname hdata
    · rw [hobjects, Function.update_of_ne hx] at hr
      rw [hheld x hx]
      exact h.counted x r name target hr hname hdata

/-- A new object that is not a link, with a name that is not below one. -/
theorem create (h : Anchored held m) {record : ObjectRecord} (hconsistent : Consistent m')
    (hobjects : m'.objects = Function.update m.objects m.nextId (some record))
    (hdata : ∀ name target, record.name = some name → record.data ≠ .symbolicLink target)
    (hname : ∀ name, record.name = some name → ∀ link ∈ namespaceLinks, ¬ Above link.1 name) :
    Anchored (m.nextId :: held) m' := by
  have hnot : ∀ name target, ¬ Linked (some record) name target := by
    rintro name target ⟨r, hr, hcarries, hlink⟩
    obtain rfl := Option.some.inj hr
    exact hdata name target hcarries hlink
  have hold : ∀ name target, ¬ Linked (m.objects m.nextId) name target := by
    rintro name target ⟨r, hr, -⟩
    rw [h.consistent.fresh] at hr
    cases hr
  refine h.update hconsistent hobjects (fun name target => ?_) ?_ ?_ ?_
  · exact iff_of_false (hnot name target) (hold name target)
  · intro r name hr
    obtain rfl := Option.some.inj hr
    exact hname name
  · intro r name target hr hcarries hlink
    exact absurd ⟨r, hr, hcarries, hlink⟩ (hnot name target)
  · intro x hx
    exact List.count_cons_of_ne (Ne.symm hx)

theorem insertUnnamed (h : Anchored held m) (hroom : m.nextId < u32Max)
    (data : ObjectData) :
    Anchored (m.nextId :: held) (m.insertUnnamed data).2 :=
  h.create (h.consistent.insertUnnamed hroom data).1 rfl (by simp) (by simp)

theorem createNamed (h : Anchored held m) (hroom : m.nextId < u32Max) {name : Path}
    (hnew : m.named.lookup (canonicalizeNtPath name) = none) (data : ObjectData)
    (hdata : objectTypeOf data = .section)
    (hclear : ∀ link ∈ namespaceLinks, ¬ Above link.1 (canonicalizeNtPath name)) :
    Anchored (m.nextId :: held) (m.createNamed name data).2 := by
  have hconsistent := (h.consistent.createNamed hroom name data).1
  simp only [ObjectManager.createNamed, hnew] at hconsistent ⊢
  refine h.create hconsistent rfl ?_ ?_
  · rintro name' target - hlink
    dsimp only at hlink
    rw [hlink] at hdata
    cases hdata
  · intro name' hname'
    obtain rfl := Option.some.inj hname'
    exact hclear

/-- A record changes its count, or data other than the target of a link. -/
theorem setRecord (h : Anchored held m) {record record' : ObjectRecord}
    (hid : m.objects id = some record) (hconsistent : Consistent (m.setRecord id record'))
    (hname : record'.name = record.name)
    (hdata : ∀ target, record'.data = .symbolicLink target ↔ record.data = .symbolicLink target)
    (hcounted : ∀ name target, record.name = some name → record.data = .symbolicLink target →
      record'.refs = held'.count id + 1)
    (hheld : ∀ x, x ≠ id → held'.count x = held.count x) :
    Anchored held' (m.setRecord id record') := by
  refine h.update hconsistent rfl (fun name target => ?_) ?_ ?_ hheld
  · rw [hid]
    simp only [Linked, Option.some_inj, exists_eq_left', hname, hdata]
  · intro r name hr hcarries
    obtain rfl := Option.some.inj hr
    exact h.clear id record name hid (hname ▸ hcarries)
  · intro r name target hr hcarries hlink
    obtain rfl := Option.some.inj hr
    exact hcounted name target (hname ▸ hcarries) ((hdata target).mp hlink)

theorem retain (h : Anchored held m) {record : ObjectRecord} (hid : m.objects id = some record)
    (hroom : held.length + 1 < usizeMax) :
    Anchored (id :: held) (m.retain id).2 := by
  have hconsistent := (h.consistent.retain id).1
  rw [retain_of_some hid] at hconsistent ⊢
  refine h.setRecord hid hconsistent rfl (fun _ => Iff.rfl) ?_ ?_
  · intro name target hcarries hlink
    have hcounted := h.counted id record name target hid hcarries hlink
    have hcount := List.count_le_length (a := id) (l := held)
    simp only [List.count_cons_self, hcounted]
    exact Nat.min_eq_left (by omega)
  · intro x hx
    exact List.count_cons_of_ne (Ne.symm hx)

/-- A reference that is held can be released: that of the namespace remains. -/
theorem release (h : Anchored held m)
    (hmem : id ∈ held) :
    Anchored (held.erase id) (m.release id).2 := by
  have hconsistent := h.consistent.release id
  have hheld : ∀ x, x ≠ id → (held.erase id).count x = held.count x :=
    fun x hx => List.count_erase_of_ne hx
  cases hid : m.objects id with
  | none =>
    have hsame : (m.release id).2 = m := by
      simp only [ObjectManager.release, hid]
    rw [hsame]
    refine h.update h.consistent (Function.update_eq_self id m.objects).symm (fun _ _ => Iff.rfl) ?_ ?_
      hheld
    · intro r name hr
      rw [hid] at hr
      cases hr
    · intro r name target hr
      rw [hid] at hr
      cases hr
  | some record =>
    have hcount : 1 ≤ held.count id := List.one_le_count_iff.mpr hmem
    have herase := List.count_erase_self (a := id) (l := held)
    by_cases hrefs : 1 < record.refs
    · simp only [ObjectManager.release, hid, hrefs, if_true] at hconsistent ⊢
      refine h.setRecord hid hconsistent rfl (fun _ => Iff.rfl) ?_ hheld
      intro name target hcarries hlink
      have hcounted := h.counted id record name target hid hcarries hlink
      dsimp only
      omega
    · have hnot : ∀ name target, ¬ Linked (m.objects id) name target := by
        rintro name target ⟨r, hr, hcarries, hlink⟩
        obtain rfl := Option.some.inj (hid.symm.trans hr)
        have hcounted := h.counted id record name target hid hcarries hlink
        omega
      simp only [ObjectManager.release, hid, hrefs, if_false] at hconsistent ⊢
      refine h.update hconsistent rfl (fun name target => ?_) (by simp) (by simp) hheld
      exact iff_of_false (by simp [Linked]) (hnot name target)

end Anchored

/-! ## The name of a known DLL -/

theorem mergeLoop_knownDll
    (fuel : Nat) (rest : Path) :
    ∃ rest', mergeLoop fuel ('\\' :: 'K' :: rest) = '\\' :: 'K' :: rest' := by
  induction fuel generalizing rest with
  | zero =>
    exact ⟨rest, rfl⟩
  | succ fuel ih =>
    rw [mergeLoop]
    split
    · exact ih (mergeBackslashes rest)
    · exact ⟨rest, rfl⟩

/-- The name of a known DLL stays below `\KnownDlls`, or at least outside the links. -/
theorem canonicalizeNtPath_knownDll {path : Path}
    (h : "\\KnownDlls\\".toList.isPrefixOf path) :
    ∀ link ∈ namespaceLinks, ¬ Above link.1 (canonicalizeNtPath path) := by
  obtain ⟨rest, rfl⟩ := List.isPrefixOf_iff_prefix.mp h
  have hsecond : ∃ rest', canonicalizeNtPath ("\\KnownDlls\\".toList ++ rest) =
      '\\' :: 'K' :: rest' := by
    obtain ⟨merged, hmerged⟩ := mergeLoop_knownDll
      ("\\KnownDlls\\".toList ++ rest.map fun c => if c = '/' then '\\' else c).length
      ("nownDlls\\".toList ++ rest.map fun c => if c = '/' then '\\' else c)
    have hcanonical : canonicalizeNtPath ("\\KnownDlls\\".toList ++ rest) =
        if 1 < ('\\' :: 'K' :: merged).length ∧ ('\\' :: 'K' :: merged).getLast? = some '\\' then
          ('\\' :: 'K' :: merged).dropLast
        else '\\' :: 'K' :: merged := by
      rw [← hmerged]
      rfl
    rw [hcanonical]
    split
    next hlast =>
      cases merged with
      | nil =>
        exact absurd hlast.2 (by decide)
      | cons c merged =>
        exact ⟨(c :: merged).dropLast, rfl⟩
    next =>
      exact ⟨merged, rfl⟩
  obtain ⟨rest', hrest⟩ := hsecond
  rw [hrest]
  simp [namespaceLinks, Above]

/-! ## Runs -/

theorem not_belowLink_iff {held : List Nat} {m : ObjectManager} (h : Anchored held m)
    (name : Path) :
    ¬ BelowLink m name ↔ ∀ link ∈ namespaceLinks, ¬ Above link.1 name := by
  constructor
  · intro hnot link hlink habove
    obtain ⟨⟨name', id⟩, hmem, rfl⟩ := List.mem_map.mp
      ((lookup_isSome_iff_mem _ _).mp (h.clearLinks.named hlink))
    refine hnot ⟨(link.1, id), hmem, ?_, habove⟩
    rw [h.clearLinks.links, lookup_of_mem_namespaceLinks link hlink]
    rfl
  · rintro hclear ⟨entry, -, hlink, habove⟩
    rw [h.clearLinks.links] at hlink
    obtain ⟨target, htarget⟩ := Option.isSome_iff_exists.mp hlink
    obtain ⟨before, after, heq, -⟩ := List.lookup_eq_some_iff.mp htarget
    exact hclear (entry.1, target) (heq ▸ List.mem_append_right _ (List.mem_cons_self ..)) habove

/-- A request keeps the links in place. -/
theorem Anchored.effect {held : List Nat} {m m' : ObjectManager} {request : Request} {n : Nat}
    {granted : Option Nat} (h : Anchored held m) (heffect : Effect m request n granted m')
    (hpermitted : Permitted held request)
    (hclear : ∀ name ∈ createdName request, ¬ BelowLink m (canonicalizeNtPath name))
    (hids : m.nextId < u32Max)
    (hroom : held.length + 1 < usizeMax) :
    Anchored (heldAfter held granted request) m' := by
  cases heffect with
  | initNamespace =>
    exact h.initNamespace_eq.symm ▸ h
  | createNamed data hnew =>
    exact h.createNamed hids hnew data hpermitted ((not_belowLink_iff h _).mp (hclear _ rfl))
  | collision name data =>
    exact h
  | insertUnnamed data =>
    exact h.insertUnnamed hids data
  | failed hopens =>
    rw [h.initNamespace_eq]
    cases request <;> first | exact h | cases hopens
  | opened hopens hid =>
    rw [h.initNamespace_eq] at hid ⊢
    cases request <;> first | exact h.retain hid hroom | cases hopens
  | cached sec hbelow hnew =>
    rw [h.initNamespace_eq] at hnew ⊢
    -- the cache keeps the reference that came with the new section
    have hcreated := h.createNamed hids hnew (.section sec) rfl
      (canonicalizeNtPath_knownDll hbelow)
    have hretained := (hcreated.consistent.retain m.nextId).1
    simp only [ObjectManager.createNamed, hnew] at hcreated hretained ⊢
    rw [retain_of_some (Function.update_self ..)] at hretained ⊢
    exact hcreated.setRecord (Function.update_self ..) hretained rfl (fun _ => Iff.rfl)
      (by simp) (fun _ _ => rfl)
  | key key =>
    rw [h.initNamespace_eq]
    exact h.insertUnnamed hids (.key key)
  | retain hid =>
    exact h.retain hid hroom
  | refused id =>
    exact h
  | release id =>
    exact h.release hpermitted
  | @updated request id record data hupdates hid htype hlink =>
    have hheld : heldAfter held none request = held := by
      cases request <;> first | rfl | cases hupdates
    have hconsistent := (h.consistent.effect (.updated hupdates hid htype hlink) hids.le).1
    rw [hheld]
    exact h.setRecord hid hconsistent rfl hlink
      (fun name target => h.counted id record name target hid) (fun _ _ => rfl)
  | kept hupdates =>
    cases request <;> first | exact h | cases hupdates

/-- The objects that are created under the names of a list. -/
theorem record_createAll {P : ObjectRecord → Prop} (entries : List (Path × ObjectData))
    (hnew : ∀ entry ∈ entries,
      P ⟨objectTypeOf entry.2, some (canonicalizeNtPath entry.1), 1, entry.2⟩)
    {m : ObjectManager}
    (hold : ∀ id record, m.objects id = some record → P record) :
    ∀ id record, (entries.foldl (fun m entry => (m.createNamed entry.1 entry.2).2) m).objects id =
      some record → P record := by
  induction entries generalizing m with
  | nil =>
    exact hold
  | cons entry entries ih =>
    refine ih (fun other hother => hnew other (List.mem_cons_of_mem _ hother)) ?_
    intro id record hid
    simp only [ObjectManager.createNamed] at hid
    split at hid
    · exact hold id record hid
    · by_cases hnext : id = m.nextId
      · subst hnext
        simp only [Function.update_self, Option.some_inj] at hid
        rw [← hid]
        exact hnew entry (List.mem_cons_self ..)
      · simp only [Function.update_of_ne hnext] at hid
        exact hold id record hid

/-- The objects of the namespace at boot. -/
theorem record_initNamespace {id : Nat} {record : ObjectRecord}
    (h : ObjectManager.new.initNamespace.objects id = some record) :
    ∃ entry ∈ ObjectManager.namespaceEntries,
      record.name = some entry.1 ∧ record.refs = 1 ∧ record.data = entry.2 := by
  have hcanonical : ∀ entry ∈ ObjectManager.namespaceEntries,
      canonicalizeNtPath entry.1 = entry.1 := by decide
  have hempty : ObjectManager.new.named.isEmpty = true := rfl
  rw [ObjectManager.initNamespace, if_pos hempty] at h
  refine record_createAll
    (P := fun record => ∃ entry ∈ ObjectManager.namespaceEntries,
      record.name = some entry.1 ∧ record.refs = 1 ∧ record.data = entry.2)
    ObjectManager.namespaceEntries (fun entry hentry => ?_) ?_ id record h
  · exact ⟨entry, hentry, congrArg some (hcanonical entry hentry), rfl, rfl⟩
  · intro id record hnone
    cases hnone

/-- The links are in place at boot. -/
theorem anchored_initNamespace : Anchored [] ObjectManager.new.initNamespace := by
  have hroom : ObjectManager.new.nextId + namespaceCreations ObjectManager.new ≤ u32Max := by
    decide
  have hlinks : ∀ entry ∈ ObjectManager.namespaceEntries, ∀ target,
      entry.2 = .symbolicLink target → namespaceLinks.lookup entry.1 = some target := by
    intro entry hentry target hdata
    simp only [ObjectManager.namespaceEntries, List.mem_cons, List.not_mem_nil, or_false] at hentry
    rcases hentry with rfl | rfl | rfl | rfl | rfl | rfl | rfl | rfl | rfl <;> cases hdata <;> rfl
  have hclear : ∀ entry ∈ ObjectManager.namespaceEntries, ∀ link ∈ namespaceLinks,
      ¬ Above link.1 entry.1 := by decide
  refine ⟨(consistent_new.initNamespace hroom).1, fun name target => ⟨?_, ?_⟩, ?_, ?_⟩
  · rintro ⟨id, record, hid, hname, hdata⟩
    obtain ⟨entry, hentry, hcarries, -, hsame⟩ := record_initNamespace hid
    obtain rfl : entry.1 = name := Option.some.inj (hcarries.symm.trans hname)
    exact hlinks entry hentry target (hsame.symm.trans hdata)
  · intro hlookup
    obtain ⟨before, after, heq, -⟩ := List.lookup_eq_some_iff.mp hlookup
    have hmem : (name, target) ∈ namespaceLinks :=
      heq ▸ List.mem_append_right _ (List.mem_cons_self ..)
    simp only [namespaceLinks, List.mem_cons, List.not_mem_nil, or_false, Prod.mk.injEq] at hmem
    rcases hmem with ⟨rfl, rfl⟩ | ⟨rfl, rfl⟩
    · exact ⟨8, _, rfl, by decide, rfl⟩
    · exact ⟨9, _, rfl, by decide, rfl⟩
  · intro id record name hid hname
    obtain ⟨entry, hentry, hcarries, -⟩ := record_initNamespace hid
    obtain rfl : entry.1 = name := Option.some.inj (hcarries.symm.trans hname)
    exact hclear entry hentry
  · intro id record name target hid _ _
    obtain ⟨entry, -, -, hrefs, -⟩ := record_initNamespace hid
    rw [hrefs]
    rfl

/-- A request that a caller makes under the conditions above. -/
def HarmlessStep [Hive H] (c : Clients H) (request : Request) (c' : Clients H) : Prop :=
  Harmless c request ∧ clientStep c request = some c'

theorem anchored_of_run [Hive H]
    {c c' : Clients H} {requests : List Request}
    (h : Anchored c.held c.system.objects)
    (hrun : Run HarmlessStep c requests c') :
    Anchored c'.held c'.system.objects := by
  refine hrun.invariant (P := fun c : Clients H => Anchored c.held c.system.objects) ?_ h
  rintro c request c' hc ⟨⟨hclear, hids, hroom⟩, hstep⟩
  rw [clientStep] at hstep
  split at hstep
  next hpermitted =>
    cases hstep
    exact hc.effect (effect_perform c.system request) hpermitted hclear hids hroom
  next =>
    cases hstep

/-- Tables without names below links resolve every path alike. -/
theorem resolveNtPath_congr {held held' : List Nat} {m m' : ObjectManager} (h : Anchored held m)
    (h' : Anchored held' m')
    (path : Path) :
    m.resolveNtPath path = m'.resolveNtPath path := by
  simp only [ObjectManager.resolveNtPath,
    h.clearLinks.resolveNamedPath_eq h.consistent.wellFormed,
    h'.clearLinks.resolveNamedPath_eq h'.consistent.wellFormed]

theorem followLinks_device
    (levels : Nat) (rest : Path) :
    followLinks (levels + 1) ("\\Device\\Crabfs0".toList ++ rest) =
      .ok ("\\Device\\Crabfs0".toList ++ rest) := by
  have hlookup : namespaceLinks.lookup ("\\Device\\Crabfs0".toList ++ rest) = none := by
    simp [namespaceLinks, List.lookup_cons]
  have hfind : (namespaceLinks.find? fun link =>
      Above link.1 ("\\Device\\Crabfs0".toList ++ rest)) = none := by
    simp [namespaceLinks, Above]
  rw [followLinks, hlookup, hfind]

theorem followLinks_drive
    (levels : Nat) (rest : Path) :
    followLinks (levels + 2) ("\\??\\C:\\".toList ++ rest) =
      .ok ("\\Device\\Crabfs0".toList ++ '\\' :: rest) := by
  have hlookup : namespaceLinks.lookup ("\\??\\C:\\".toList ++ rest) = none := by
    simp [namespaceLinks, List.lookup_cons]
  have hfind : (namespaceLinks.find? fun link => Above link.1 ("\\??\\C:\\".toList ++ rest)) =
      some ("\\??\\C:".toList, "\\Device\\Crabfs0".toList) := by
    simp [namespaceLinks, Above]
  rw [followLinks, hlookup, hfind]
  exact followLinks_device levels ('\\' :: rest)

theorem followLinks_systemRoot
    (levels : Nat) (rest : Path) :
    followLinks (levels + 3) ("\\SystemRoot\\".toList ++ rest) =
      .ok ("\\Device\\Crabfs0".toList ++ '\\' :: ("Windows\\".toList ++ rest)) := by
  have hlookup : namespaceLinks.lookup ("\\SystemRoot\\".toList ++ rest) = none := by
    simp [namespaceLinks, List.lookup_cons]
  have hfind : (namespaceLinks.find? fun link => Above link.1 ("\\SystemRoot\\".toList ++ rest)) =
      some ("\\SystemRoot".toList, "\\??\\C:\\Windows".toList) := by
    simp [namespaceLinks, Above]
  rw [followLinks, hlookup, hfind]
  exact followLinks_drive levels ("Windows\\".toList ++ rest)

/-- A path below a link leads into the file system, and is not itself such a path. -/
theorem followLinks_below {path : Path}
    (h : ∃ link ∈ namespaceLinks, Above link.1 path) :
    (∃ rest, followLinks 17 path = .ok ("\\Device\\Crabfs0".toList ++ rest)) ∧
      ¬ "\\Device\\Crabfs0".toList <+: path ∧ path ≠ [] := by
  obtain ⟨link, hlink, rest, rfl⟩ := h
  simp only [namespaceLinks, List.mem_cons, List.not_mem_nil, or_false] at hlink
  rcases hlink with rfl | rfl
  · exact ⟨⟨_, followLinks_drive 15 rest⟩, by simp, by simp⟩
  · exact ⟨⟨_, followLinks_systemRoot 14 rest⟩, by simp, by simp⟩

/-- A new section below a link hides the file system from its own name. -/
theorem resolveNtPath_createNamed_ne {held : List Nat} {m : ObjectManager} (h : Anchored held m)
    {name : Path} (hbelow : BelowLink m (canonicalizeNtPath name))
    (sec : SectionObject) :
    (m.createNamed name (.section sec)).2.resolveNtPath name ≠ m.resolveNtPath name := by
  have hlink : ∃ link ∈ namespaceLinks, Above link.1 (canonicalizeNtPath name) := by
    by_contra hnone
    push Not at hnone
    exact (not_belowLink_iff h _).mpr hnone hbelow
  have hnew : m.named.lookup (canonicalizeNtPath name) = none := by
    obtain ⟨link, hmem, habove⟩ := hlink
    by_contra hnamed
    exact h.clearLinks.clear _ (Option.isSome_iff_ne_none.mpr hnamed) link hmem habove
  obtain ⟨⟨rest, hfollow⟩, hdevice, hne⟩ := followLinks_below hlink
  have hempty : (canonicalizeNtPath name).isEmpty = false := by
    simpa using hne
  -- before, the path leads into the file system
  have hbefore : ∃ path, m.resolveNtPath name = .ok path := by
    simp only [ObjectManager.resolveNtPath, hempty, Bool.false_eq_true, if_false,
      h.clearLinks.resolveNamedPath_eq h.consistent.wellFormed, hfollow, stripPrefix]
    simp only [List.isPrefixOf_iff_prefix.mpr (List.prefix_append _ rest), if_true]
    split <;> exact ⟨_, rfl⟩
  -- afterwards, the section is found under the path itself
  have hafter : (m.createNamed name (.section sec)).2.resolveNtPath name =
      .error .objectPathNotFound := by
    have hnot : "\\Device\\Crabfs0".toList.isPrefixOf (canonicalizeNtPath name) = false := by
      rw [Bool.eq_false_iff, ne_eq, List.isPrefixOf_iff_prefix]
      exact hdevice
    simp only [ObjectManager.resolveNtPath, hempty, Bool.false_eq_true, if_false,
      ObjectManager.createNamed, hnew, ObjectManager.resolveNamedPath,
      List.lookup_cons_self, Option.bind_some, Function.update_self, stripPrefix, hnot]
  obtain ⟨path, hpath⟩ := hbefore
  rw [hafter, hpath]
  simp

/-- **File paths resolve as at boot.**  In every state that callers reach by requests
that name no section below a symbolic link (and do not run out of numbers), every path
resolves as it did at boot; and the name of one more section changes the resolution of
no path exactly if it is not below a link. -/
theorem file_paths_keep_their_meaning [Hive H]
    {c c' : Clients H} {requests : List Request}
    (hobjects : c.system.objects = ObjectManager.new.initNamespace)
    (hheld : c.held = [])
    (hrun : Run HarmlessStep c requests c') :
    (∀ path, c'.system.objects.resolveNtPath path =
        ObjectManager.new.initNamespace.resolveNtPath path) ∧
      ∀ name sec, c'.system.objects.nextId < u32Max →
        ((∀ path, (c'.system.objects.createNamed name (.section sec)).2.resolveNtPath path =
            c'.system.objects.resolveNtPath path) ↔
          ¬ BelowLink c'.system.objects (canonicalizeNtPath name)) := by
  have hstart : Anchored c.held c.system.objects := by
    rw [hobjects, hheld]
    exact anchored_initNamespace
  have hanchored := anchored_of_run hstart hrun
  refine ⟨fun path => resolveNtPath_congr hanchored anchored_initNamespace path,
    fun name sec hids => ⟨fun hsame hbelow => ?_, fun hclear path => ?_⟩⟩
  · exact resolveNtPath_createNamed_ne hanchored hbelow sec (hsame name)
  · cases hnew : c'.system.objects.named.lookup (canonicalizeNtPath name) with
    | some id =>
      simp only [ObjectManager.createNamed, hnew]
    | none =>
      have hcreated := hanchored.createNamed hids hnew (.section sec) rfl
        ((not_belowLink_iff hanchored _).mp hclear)
      exact resolveNtPath_congr hcreated hanchored path

instance (c : Clients H) (request : Request) : Decidable (Harmless c request) :=
  inferInstanceAs (Decidable (_ ∧ _ ∧ _))

/-- The namespace at boot, before any caller. -/
def bootClients : Clients Empty where
  system := { unstarted with objects := ObjectManager.new.initNamespace }
  held := []

/-- A section is created, a directory and a known DLL are opened, and all are closed. -/
def harmlessRequests : List Request :=
  [.createNamed "\\Shared".toList (.section ⟨none, none, pageReadwrite, 0, 4096⟩),
    .openDirectory "\\KnownDlls".toList, .openSection "\\KnownDlls\\ntdll.dll".toList,
    .release 10, .release 6, .release 11]

theorem file_paths_keep_their_meaning_shared :
    ∃ c, Run HarmlessStep bootClients harmlessRequests c ∧ c.held = [] ∧
      ∀ path, c.system.objects.resolveNtPath path =
        ObjectManager.new.initNamespace.resolveNtPath path := by
  have hheld : (runAll (guarded Harmless clientStep) bootClients harmlessRequests).map (·.held) =
      some [] := by decide +kernel
  obtain ⟨c, hrun, hempty⟩ := Option.map_eq_some_iff.mp hheld
  have hsteps := run_of_guarded hrun
  exact ⟨c, hsteps, hempty, (file_paths_keep_their_meaning rfl rfl hsteps).1⟩

/-- A section that takes the place of a directory of the file system. -/
def hidesSystem32 : Request :=
  .createNamed "\\SystemRoot\\System32".toList (.section ⟨none, none, pageReadwrite, 0, 4096⟩)

/-- **A section name redirects file paths.**  After a process has created a section
named `\SystemRoot\System32`, the paths of the system DLLs no longer resolve. -/
theorem section_hides_system32 :
    ∃ c, clientStep bootClients hidesSystem32 = some c ∧
      bootClients.system.objects.resolveNtPath "\\SystemRoot\\System32\\ntdll.dll".toList =
        .ok "/Windows/System32/ntdll.dll".toList ∧
      c.system.objects.resolveNtPath "\\SystemRoot\\System32\\ntdll.dll".toList =
        .error .objectPathNotFound := by
  have hpermitted : Permitted bootClients.held hidesSystem32 := rfl
  refine ⟨_, if_pos hpermitted, ?_, ?_⟩
  · decide +kernel
  · decide +kernel

end Handles
end Kernel
end Theos
