import Mathlib.Data.Char
import Mathlib.Data.List.Dedup
import Mathlib.Data.List.Lex
import Mathlib.Data.List.Sort
import Theos.Kernel.PathPrefixes

/-!
# Listing an object directory

`query_directory_entries` goes over all names of the namespace in their order.
It cuts each name below the directory to the component behind it, and enters
that with the type of the object that has the whole name.  So a component is
entered once for each name at or below it, and the type of the last one stays.
-/

namespace Theos
namespace Kernel
namespace Nt

/-! ## The code -/

def objectTypeName : ObjectType → String
  | .directory => "Directory"
  | .symbolicLink => "SymbolicLink"
  | .file => "File"
  | .key => "Key"
  | .section => "Section"
  | .process => "Process"
  | .thread => "Thread"
  | .event => "Event"

namespace ObjectManager

/-- The characters that the names of what is in a directory start with. -/
def belowDirectory (dirPath : Path) : Path :=
  if dirPath = ['\\'] then ['\\'] else dirPath ++ ['\\']

/-- The object that a name stands for. -/
def objectNamed (m : ObjectManager) (name : Path) : Option ObjectRecord :=
  (m.named.lookup name).bind m.objects

/-- The body of the loop: what a name is entered as. -/
def directoryEntry (m : ObjectManager) (dirPath name : Path) : Option (Path × String) :=
  if (belowDirectory dirPath).isPrefixOf name then
    let child := (name.drop (belowDirectory dirPath).length).takeWhile (· ≠ '\\')
    if child = [] then none
    else (m.objectNamed name).map fun record => (child, objectTypeName record.objectType)
  else none

/-- `BTreeMap::insert`, for a map whose order is made at the end. -/
def insertEntry (entries : List (Path × String)) (entry : Path × String) : List (Path × String) :=
  entries.filter (fun other => other.1 ≠ entry.1) ++ [entry]

/-- The names of the map `named`, in their order. -/
def sortedNames (m : ObjectManager) : List Path :=
  (m.named.map Prod.fst).dedup.insertionSort (· ≤ ·)

def directoryEntries (m : ObjectManager) (dirPath : Path) : List (Path × String) :=
  ((m.sortedNames.filterMap (m.directoryEntry dirPath)).foldl insertEntry []).insertionSort
    fun a b => a.1 ≤ b.1

def queryDirectoryEntries (m : ObjectManager) (objectId : Nat) :
    Except NtStatus (List (Path × String)) :=
  match m.objects objectId with
  | none => .error .invalidHandle
  | some record =>
    if record.objectType ≠ .directory then .error .objectTypeMismatch
    else
      match record.name with
      | none => .error .objectNameNotFound
      | some dirPath => .ok (m.directoryEntries dirPath)

end ObjectManager

end Nt

namespace Handles

open Nt ObjectManager

/-! ## The map of the entries -/

/-- Of the entries for a component, the last one stays. -/
theorem filter_foldl_insertEntry
    (hits : List (Path × String)) (c : Path) :
    (hits.foldl insertEntry []).filter (fun entry => entry.1 = c) =
      ((hits.filter fun entry => entry.1 = c).getLast?).toList := by
  induction hits using List.reverseRecOn with
  | nil =>
    rfl
  | append_singleton hits entry ih =>
    rw [List.foldl_append, List.foldl_cons, List.foldl_nil, insertEntry, List.filter_append,
      List.filter_append, List.filter_filter]
    by_cases hc : entry.1 = c
    · have hnone : (hits.foldl insertEntry []).filter
          (fun other => decide (other.1 = c) && decide (other.1 ≠ entry.1)) = [] := by
        simp [hc]
      rw [hnone, List.filter_cons_of_pos (by simpa using hc), List.filter_nil, List.nil_append,
        List.getLast?_concat]
      rfl
    · have hsame : (hits.foldl insertEntry []).filter
          (fun other => decide (other.1 = c) && decide (other.1 ≠ entry.1)) =
          (hits.foldl insertEntry []).filter fun other => decide (other.1 = c) := by
        refine List.filter_congr fun other _ => ?_
        by_cases hother : other.1 = c
        · simp [hother, Ne.symm hc]
        · simp [hother]
      rw [hsame, ih, List.filter_cons_of_neg (by simpa using hc), List.filter_nil,
        List.append_nil, List.append_nil]

theorem filter_directoryEntries
    (m : ObjectManager) (dirPath c : Path) :
    (m.directoryEntries dirPath).filter (fun entry => entry.1 = c) =
      (((m.sortedNames.filterMap (m.directoryEntry dirPath)).filter
        fun entry => entry.1 = c).getLast?).toList := by
  have hperm := ((List.perm_insertionSort (fun a b : Path × String => a.1 ≤ b.1)
    ((m.sortedNames.filterMap (m.directoryEntry dirPath)).foldl insertEntry [])).filter
      fun entry => entry.1 = c)
  rw [filter_foldl_insertEntry] at hperm
  rcases hlast : ((m.sortedNames.filterMap (m.directoryEntry dirPath)).filter
    fun entry => decide (entry.1 = c)).getLast? with _ | entry
  · rw [hlast] at hperm ⊢
    exact hperm.eq_nil
  · rw [hlast] at hperm ⊢
    exact hperm.eq_singleton

/-- The last hit in a sorted list is that of its greatest element with a hit. -/
theorem getLast?_hits {α β : Type} [Preorder α] {names : List α} (hsorted : names.Pairwise (· ≤ ·))
    (f : α → Option β) (p : β → Bool) (b : β)
    (h : ((names.filterMap f).filter p).getLast? = some b) :
    ∃ name ∈ names, f name = some b ∧ p b = true ∧
      ∀ name' ∈ names, ∀ b', f name' = some b' → p b' = true → name' ≤ name := by
  induction names using List.reverseRecOn with
  | nil =>
    cases h
  | append_singleton names last ih =>
    rw [List.pairwise_append] at hsorted
    obtain ⟨hbefore, -, hbelow⟩ := hsorted
    rw [List.filterMap_append, List.filter_append] at h
    by_cases hlast : ∃ b', f last = some b' ∧ p b' = true
    · obtain ⟨b', hf, hp⟩ := hlast
      rw [List.filterMap_cons_some hf, List.filterMap_nil, List.filter_cons_of_pos hp,
        List.filter_nil, List.getLast?_concat, Option.some.injEq] at h
      subst h
      refine ⟨last, List.mem_append_right _ (List.mem_singleton_self last), hf, hp,
        fun name' hname' _ _ _ => ?_⟩
      rcases List.mem_append.mp hname' with hmem | hmem
      · exact hbelow name' hmem last (List.mem_singleton_self last)
      · exact (List.mem_singleton.mp hmem).le
    · have hnone : ([last].filterMap f).filter p = [] := by
        rcases hf : f last with _ | b'
        · rw [List.filterMap_cons_none hf]
          rfl
        · rw [List.filterMap_cons_some hf, List.filterMap_nil, List.filter_cons_of_neg]
          · rfl
          · exact fun hp => hlast ⟨b', hf, hp⟩
      rw [hnone, List.append_nil] at h
      obtain ⟨name, hmem, hf, hp, hgreatest⟩ := ih hbefore h
      refine ⟨name, List.mem_append_left _ hmem, hf, hp, fun name' hname' b' hf' hp' => ?_⟩
      rcases List.mem_append.mp hname' with hmem' | hmem'
      · exact hgreatest name' hmem' b' hf' hp'
      · rw [List.mem_singleton.mp hmem'] at hf'
        exact absurd ⟨b', hf', hp'⟩ hlast

/-! ## Names below a directory -/

/-- A name of one component. -/
def IsComponent (c : Path) : Prop :=
  c ≠ [] ∧ '\\' ∉ c

/-- The name of what is called `c` in a directory. -/
def childName (dirPath c : Path) : Path :=
  belowDirectory dirPath ++ c

theorem takeWhile_eq_iff {rest c : Path} (hc : '\\' ∉ c) :
    rest.takeWhile (· ≠ '\\') = c ↔ rest = c ∨ ∃ deeper, rest = c ++ '\\' :: deeper := by
  constructor
  · intro h
    have hsplit := List.takeWhile_append_dropWhile (p := (· ≠ '\\')) (l := rest)
    rw [h] at hsplit
    rcases hdrop : rest.dropWhile (· ≠ '\\') with _ | ⟨b, deeper⟩
    · rw [hdrop, List.append_nil] at hsplit
      exact Or.inl hsplit.symm
    · have hne : rest.dropWhile (· ≠ '\\') ≠ [] := by
        rw [hdrop]
        exact List.cons_ne_nil _ _
      have hb := List.head_dropWhile_not (· ≠ '\\') hne
      simp only [hdrop, List.head_cons] at hb
      obtain rfl : b = '\\' := by simpa using hb
      rw [hdrop] at hsplit
      exact Or.inr ⟨deeper, hsplit.symm⟩
  · have hall : ∀ b ∈ c, decide (b ≠ '\\') = true := by
      intro b hb
      exact decide_eq_true fun h => hc (h ▸ hb)
    rintro (rfl | ⟨deeper, rfl⟩)
    · exact List.takeWhile_eq_self_iff.mpr hall
    · rw [List.takeWhile_append_of_pos hall, List.takeWhile_cons_of_neg (by simp),
        List.append_nil]

theorem not_mem_takeWhile
    (rest : Path) :
    '\\' ∉ rest.takeWhile (· ≠ '\\') := by
  intro h
  exact absurd (List.all_eq_true.mp List.all_takeWhile _ h) (by decide)

/-- A name is entered under the component behind the directory, at or below which it is. -/
theorem directoryEntry_eq_some_iff
    (m : ObjectManager) (dirPath name c : Path) (type : String) :
    m.directoryEntry dirPath name = some (c, type) ↔
      IsComponent c ∧ AtOrBelow (childName dirPath c) name ∧
        ∃ record, m.objectNamed name = some record ∧ objectTypeName record.objectType = type := by
  have hat : ∀ c rest, '\\' ∉ c → (rest.takeWhile (· ≠ '\\') = c ↔
      AtOrBelow (childName dirPath c) (belowDirectory dirPath ++ rest)) := by
    intro c rest hc
    rw [takeWhile_eq_iff hc, AtOrBelow, childName, List.append_cancel_left_eq, Above,
      List.append_assoc, List.prefix_append_right_inj]
    refine or_congr Iff.rfl ⟨?_, ?_⟩
    · rintro ⟨deeper, rfl⟩
      exact ⟨deeper, by simp⟩
    · rintro ⟨deeper, rfl⟩
      exact ⟨deeper, by simp⟩
  unfold directoryEntry
  by_cases hbelow : belowDirectory dirPath <+: name
  · rw [if_pos (List.isPrefixOf_iff_prefix.mpr hbelow)]
    obtain ⟨rest, rfl⟩ := hbelow
    rw [List.drop_left]
    dsimp only
    constructor
    · intro h
      split at h
      · cases h
      · rename_i hne
        rw [Option.map_eq_some_iff] at h
        obtain ⟨record, hrecord, heq⟩ := h
        cases heq
        have hc := not_mem_takeWhile rest
        exact ⟨⟨hne, hc⟩, (hat _ rest hc).mp rfl, record, hrecord, rfl⟩
    · rintro ⟨⟨hne, hc⟩, hatName, record, hrecord, rfl⟩
      rw [(hat _ rest hc).mpr hatName, if_neg hne, hrecord]
      rfl
  · rw [if_neg (mt List.isPrefixOf_iff_prefix.mp hbelow)]
    refine iff_of_false (by simp) ?_
    rintro ⟨-, hatName, -⟩
    refine hbelow ?_
    rcases hatName with rfl | habove
    · exact List.prefix_append _ _
    · exact (List.prefix_append _ _).trans ((List.prefix_append _ _).trans habove)

/-! ## What is listed -/

theorem objectTypeName_inj {a b : ObjectType} (h : objectTypeName a = objectTypeName b) :
    a = b := by
  revert h
  cases a <;> cases b <;> decide

theorem mem_sortedNames {m : ObjectManager} {name : Path} {record : ObjectRecord}
    (h : m.objectNamed name = some record) :
    name ∈ m.sortedNames := by
  rw [sortedNames, List.mem_insertionSort, List.mem_dedup, ← lookup_isSome_iff_mem]
  rw [objectNamed, Option.bind_eq_some_iff] at h
  obtain ⟨id, hid, -⟩ := h
  rw [hid]
  rfl

/-- Among the objects at or below a name, the one whose name comes last. -/
structure LastBelow (m : ObjectManager) (name last : Path) (record : ObjectRecord) : Prop where
  below : AtOrBelow name last
  object : m.objectNamed last = some record
  greatest : ∀ other, AtOrBelow name other → (m.objectNamed other).isSome → other ≤ last

/-- A component of which there is an object is listed once, with the type of the last object at
or below it. -/
theorem filter_directoryEntries_eq {m : ObjectManager} {dirPath c : Path}
    (hc : IsComponent c) {name : Path} {record : ObjectRecord}
    (hat : AtOrBelow (childName dirPath c) name) (h : m.objectNamed name = some record) :
    ∃ last lastRecord, LastBelow m (childName dirPath c) last lastRecord ∧
      (m.directoryEntries dirPath).filter (fun entry => entry.1 = c) =
        [(c, objectTypeName lastRecord.objectType)] := by
  have hsorted : m.sortedNames.Pairwise (· ≤ ·) := List.pairwise_insertionSort _ _
  have hentry : ∀ other record', AtOrBelow (childName dirPath c) other →
      m.objectNamed other = some record' →
      m.directoryEntry dirPath other = some (c, objectTypeName record'.objectType) :=
    fun other record' hother hrecord' =>
      (directoryEntry_eq_some_iff m dirPath other c _).mpr ⟨hc, hother, record', hrecord', rfl⟩
  have hhit : (c, objectTypeName record.objectType) ∈
      (m.sortedNames.filterMap (m.directoryEntry dirPath)).filter fun entry => entry.1 = c :=
    List.mem_filter.mpr ⟨List.mem_filterMap.mpr ⟨name, mem_sortedNames h, hentry name record hat h⟩,
      decide_eq_true rfl⟩
  rw [filter_directoryEntries]
  rcases hlast : ((m.sortedNames.filterMap (m.directoryEntry dirPath)).filter
    fun entry => decide (entry.1 = c)).getLast? with _ | ⟨c', type⟩
  · rw [List.getLast?_eq_none_iff.mp hlast] at hhit
    exact absurd hhit (List.not_mem_nil)
  · obtain ⟨last, -, hf, hp, hgreatest⟩ := getLast?_hits hsorted (m.directoryEntry dirPath)
      (fun entry => decide (entry.1 = c)) (c', type) hlast
    obtain rfl : c' = c := of_decide_eq_true hp
    obtain ⟨-, hbelow, lastRecord, hrecord, rfl⟩ :=
      (directoryEntry_eq_some_iff m dirPath last c' type).mp hf
    refine ⟨last, lastRecord, ⟨hbelow, hrecord, fun other hother hsome => ?_⟩, by rw [hlast]; rfl⟩
    obtain ⟨record', hrecord'⟩ := Option.isSome_iff_exists.mp hsome
    exact hgreatest other (mem_sortedNames hrecord') _ (hentry other record' hother hrecord')
      (decide_eq_true rfl)

theorem LastBelow.unique {m : ObjectManager} {name last last' : Path}
    {record record' : ObjectRecord} (h : LastBelow m name last record)
    (h' : LastBelow m name last' record') :
    record = record' := by
  have hle := h'.greatest last h.below (by rw [h.object]; rfl)
  have hge := h.greatest last' h'.below (by rw [h'.object]; rfl)
  obtain rfl := le_antisymm hle hge
  exact Option.some.inj (h.object.symm.trans h'.object)

/-- Every listed component is that of an object. -/
theorem exists_of_mem_directoryEntries {m : ObjectManager} {dirPath : Path} {entry : Path × String}
    (h : entry ∈ m.directoryEntries dirPath) :
    IsComponent entry.1 ∧ ∃ name record, AtOrBelow (childName dirPath entry.1) name ∧
      m.objectNamed name = some record := by
  have hfilter : entry ∈ (m.directoryEntries dirPath).filter fun other => other.1 = entry.1 :=
    List.mem_filter.mpr ⟨h, decide_eq_true rfl⟩
  rw [filter_directoryEntries, Option.mem_toList] at hfilter
  have hhit := (List.mem_filter.mp (List.mem_of_getLast? hfilter)).1
  obtain ⟨name, -, hf⟩ := List.mem_filterMap.mp hhit
  obtain ⟨hc, hat, record, hrecord, -⟩ :=
    (directoryEntry_eq_some_iff m dirPath name entry.1 entry.2).mp hf
  exact ⟨hc, name, record, hat, hrecord⟩

/-- Listing a directory.  Each object directly in it is listed once and with its type exactly if
the last object at or below each has its type; nothing else is listed exactly if nothing is named
below a missing object. -/
theorem directory_listing_iff {m : ObjectManager} {objectId : Nat} {directory : ObjectRecord}
    {dirPath : Path} (hobject : m.objects objectId = some directory)
    (htype : directory.objectType = .directory) (hname : directory.name = some dirPath) :
    ∃ entries, m.queryDirectoryEntries objectId = .ok entries ∧
      ((∀ c record, IsComponent c → m.objectNamed (childName dirPath c) = some record →
          entries.filter (fun entry => entry.1 = c) =
            [(c, objectTypeName record.objectType)]) ↔
        ∀ c record last lastRecord, IsComponent c →
          m.objectNamed (childName dirPath c) = some record →
          LastBelow m (childName dirPath c) last lastRecord →
          lastRecord.objectType = record.objectType) ∧
      ((∀ entry ∈ entries, (m.objectNamed (childName dirPath entry.1)).isSome) ↔
        ∀ c name, IsComponent c → AtOrBelow (childName dirPath c) name →
          (m.objectNamed name).isSome → (m.objectNamed (childName dirPath c)).isSome) := by
  refine ⟨m.directoryEntries dirPath, ?_, ⟨?_, ?_⟩, ⟨?_, ?_⟩⟩
  · rw [queryDirectoryEntries, hobject]
    simp only [htype, ne_eq, not_true_eq_false, if_false, hname]
  · intro h c record last lastRecord hc hrecord hlast
    obtain ⟨last', lastRecord', hlast', hlisted⟩ :=
      filter_directoryEntries_eq hc (Or.inl rfl) hrecord
    rw [h c record hc hrecord] at hlisted
    rw [hlast.unique hlast']
    exact objectTypeName_inj (Prod.mk.inj (List.cons.inj hlisted.symm).1).2
  · intro h c record hc hrecord
    obtain ⟨last, lastRecord, hlast, hlisted⟩ := filter_directoryEntries_eq hc (Or.inl rfl) hrecord
    rw [hlisted, h c record last lastRecord hc hrecord hlast]
  · intro h c name hc hat hsome
    obtain ⟨record, hrecord⟩ := Option.isSome_iff_exists.mp hsome
    obtain ⟨last, lastRecord, -, hlisted⟩ := filter_directoryEntries_eq hc hat hrecord
    have hmem : (c, objectTypeName lastRecord.objectType) ∈
        (m.directoryEntries dirPath).filter fun entry => entry.1 = c := by
      rw [hlisted]
      exact List.mem_singleton_self _
    exact h _ (List.mem_filter.mp hmem).1
  · intro h entry hentry
    obtain ⟨hc, name, record, hat, hrecord⟩ := exists_of_mem_directoryEntries hentry
    exact h entry.1 name hc hat (by rw [hrecord]; rfl)

/-- The devices at boot: `Crabfs0` is listed, and it and what is named below it have one type. -/
theorem directory_listing_device :
    ObjectManager.new.initNamespace.queryDirectoryEntries 2 =
        .ok [("Crabfs0".toList, "Directory")] ∧
      (∀ c record last lastRecord, IsComponent c →
        ObjectManager.new.initNamespace.objectNamed (childName "\\Device".toList c) = some record →
        LastBelow ObjectManager.new.initNamespace (childName "\\Device".toList c) last lastRecord →
        lastRecord.objectType = record.objectType) ∧
      ∀ c name, IsComponent c → AtOrBelow (childName "\\Device".toList c) name →
        (ObjectManager.new.initNamespace.objectNamed name).isSome →
        (ObjectManager.new.initNamespace.objectNamed
          (childName "\\Device".toList c)).isSome := by
  have hrecord : (ObjectManager.new.initNamespace.objects 2).map
      (fun record => (record.objectType, record.name)) =
      some (.directory, some "\\Device".toList) := by
    decide +kernel
  obtain ⟨directory, hobject, hfields⟩ := Option.map_eq_some_iff.mp hrecord
  obtain ⟨htype, hname⟩ := Prod.mk.inj hfields
  have hlisted : ObjectManager.new.initNamespace.directoryEntries "\\Device".toList =
      [("Crabfs0".toList, "Directory")] := by
    decide +kernel
  have hdevice : (ObjectManager.new.initNamespace.objectNamed "\\Device\\Crabfs0".toList).map
      (·.objectType) = some .directory := by
    decide +kernel
  obtain ⟨entries, hentries, htypes, hnamed⟩ := directory_listing_iff hobject htype hname
  obtain rfl : entries = [("Crabfs0".toList, "Directory")] := by
    rw [queryDirectoryEntries, hobject] at hentries
    simp only [htype, ne_eq, not_true_eq_false, if_false, hname, hlisted] at hentries
    exact (Except.ok.inj hentries).symm
  refine ⟨hentries, htypes.mp fun c record hc hrecord => ?_, hnamed.mp fun entry hentry => ?_⟩
  · -- only `Crabfs0` is an object
    obtain ⟨last, lastRecord, -, hfilter⟩ := filter_directoryEntries_eq hc (Or.inl rfl) hrecord
    have hmem : (c, objectTypeName lastRecord.objectType) ∈
        [("Crabfs0".toList, "Directory")].filter fun entry => entry.1 = c := by
      rw [← hlisted, hfilter]
      exact List.mem_singleton_self _
    obtain ⟨rfl, -⟩ := Prod.mk.inj (List.mem_singleton.mp (List.mem_filter.mp hmem).1)
    change ObjectManager.new.initNamespace.objectNamed "\\Device\\Crabfs0".toList = _ at hrecord
    rw [hrecord] at hdevice
    have htype : record.objectType = .directory := Option.some.inj hdevice
    rw [htype]
    decide +kernel
  · rw [List.mem_singleton.mp hentry]
    decide +kernel

/-- At boot the root lists `??` as a symbolic link: the last name below it is that of the drive. -/
theorem drive_directory_listed_as_link :
    (ObjectManager.new.initNamespace.objectNamed "\\??".toList).map (·.objectType) =
        some .directory ∧
      ∃ entries, ObjectManager.new.initNamespace.queryDirectoryEntries 1 = .ok entries ∧
        ("??".toList, "SymbolicLink") ∈ entries := by
  refine ⟨by decide +kernel, _, rfl, by decide +kernel⟩

end Handles
end Kernel
end Theos
