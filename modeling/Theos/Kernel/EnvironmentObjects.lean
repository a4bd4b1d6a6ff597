import Theos.Kernel.ProcessEnvironment

/-!
# Objects in the environment of a process

What is in memory after `build_process_environment`.  The areas do not overlap, so every object
that is stored into one of them is there at the end, and the links of the loader data and of
the entries of the modules make three rings.

The version fields of the PEB are stored at fixed offsets behind its end.  That is inside the
area of the lock, which is stored after them.
-/

namespace Theos
namespace Kernel
namespace Environment

open Base Loader

/-- The memory after `build_process_environment`. -/
def environment (start : Start) (m : Nat → UInt8) : Nat → UInt8 :=
  storeAll m (environmentStores start)

/-! ## Objects -/

/-- The two stores do not meet. -/
def Separate (w w' : Write UInt8) : Prop :=
  w'.Misses w.off w.data.length

theorem Separate.symm {w w' : Write UInt8}
    (h : Separate w w') :
    Separate w' w :=
  Or.symm h

theorem pairwise_stores
    (start : Start) :
    (firstStores start ++ lastStores start).Pairwise Separate :=
  (perm_sortedStores start).symm.pairwise (ascending_sortedStores start).pairwise
    fun h => h.symm

/-- The version fields lie in the area of the lock. -/
theorem versionStores_misses {start : Start} {w w' : Write UInt8}
    (hw : Separate w ⟨(areas start).lock, lockBytes⟩)
    (hw' : w' ∈ versionStores (areas start).peb) :
    w'.Misses w.off w.data.length := by
  obtain ⟨-, hlock, -⟩ := areas_behind_peb start
  have hlength : lockBytes.length = 40 := rfl
  simp only [Separate, Write.Misses, Write.stop, hlength, hlock] at hw
  simp only [versionStores, List.mem_cons, List.not_mem_nil, or_false] at hw'
  rcases hw' with rfl | rfl | rfl | rfl <;>
    simp only [Write.Misses, Write.stop, length_toLE] <;> omega

theorem has_object {start : Start} {w : Write UInt8}
    (m : Nat → UInt8)
    (hw : w ∈ firstStores start ++ lastStores start) :
    Storage.memory.Has (environment start m) w := by
  have hpairwise := pairwise_stores start
  obtain ⟨hfirst, hlast, hcross⟩ := List.pairwise_append.mp hpairwise
  have hlock : (⟨(areas start).lock, lockBytes⟩ : Write UInt8) ∈ lastStores start := by
    simp [lastStores]
  rw [environment, environmentStores]
  rcases List.mem_append.mp hw with hw | hw
  · obtain ⟨before, after, hsplit⟩ := List.append_of_mem hw
    rw [hsplit, List.append_assoc, List.append_assoc, List.cons_append]
    refine has_storeAll m fun w' hw' => ?_
    rcases List.mem_append.mp hw' with hw' | hw'
    · rw [hsplit] at hfirst
      exact (List.pairwise_cons.mp (List.pairwise_append.mp hfirst).2.1).1 w' hw'
    · rcases List.mem_append.mp hw' with hw' | hw'
      · exact versionStores_misses (hcross w hw _ hlock) hw'
      · exact hcross w hw w' hw'
  · obtain ⟨before, after, hsplit⟩ := List.append_of_mem hw
    rw [hsplit, ← List.append_assoc]
    refine has_storeAll m fun w' hw' => ?_
    rw [hsplit] at hlast
    exact (List.pairwise_cons.mp (List.pairwise_append.mp hlast).2.1).1 w' hw'

/-- Where the version fields are, the last sixteen bytes of the lock are read. -/
theorem fetch_version {start : Start} {off len : Nat}
    (m : Nat → UInt8)
    (hlen : off + len ≤ 16) :
    fetch (environment start m) ((areas start).peb + 0x118 + off) len =
      slice lockBytes (0x18 + off) len := by
  obtain ⟨-, hlock, -⟩ := areas_behind_peb start
  have hhas : Storage.memory.Has (environment start m) ⟨(areas start).lock, lockBytes⟩ :=
    has_object m (List.mem_append_right _ (by simp [lastStores]))
  have hlength : lockBytes.length = 40 := rfl
  have hpart := fetch_part_of_has hhas (show 0x18 + off + len ≤ lockBytes.length by omega)
  dsimp only at hpart
  rw [← hpart, hlock]
  congr 1
  omega

theorem fetch_majorVersion
    (start : Start) (m : Nat → UInt8) :
    fetch (environment start m) ((areas start).peb + 0x118) 4 = toLE 4 0 := by
  have hfetch : fetch (environment start m) ((areas start).peb + 0x118 + 0) 4 = _ :=
    fetch_version m (by decide)
  exact hfetch.trans (by decide)

/-- **Objects in the environment.**  Every object that `build_process_environment` stores is read
back as it was stored, apart from the version fields of the PEB: they are overwritten by the
lock, for every path and every list of modules. -/
theorem environment_objects_read_back (start : Start) (m : Nat → UInt8) :
    (∀ w ∈ firstStores start ++ lastStores start,
      fetch (environment start m) w.off w.data.length = w.data) ∧
    fetch (environment start m) ((areas start).peb + 0x118) 16 = List.replicate 16 0 ∧
    ¬ ∀ w ∈ versionStores (areas start).peb,
      fetch (environment start m) w.off w.data.length = w.data := by
  refine ⟨fun w hw => fetch_of_has (has_object m hw), ?_, fun hall => ?_⟩
  · have hfetch : fetch (environment start m) ((areas start).peb + 0x118 + 0) 16 = _ :=
      fetch_version m (by decide)
    exact hfetch.trans (by decide)
  · have hmajor := hall ⟨(areas start).peb + 0x118, toLE 4 10⟩ (by simp [versionStores])
    have hzero : toLE 4 0 = toLE 4 10 := (fetch_majorVersion start m).symm.trans hmajor
    exact absurd hzero (by decide)

/-- A process that is started with `\smss.exe`, with the given modules. -/
def plainStart (modules : List LoadedModule) : Start where
  ntPath := "\\smss.exe".toList
  modules := modules
  standardInput := 0
  standardOutput := 0
  standardError := 0
  imageBase := 0
  pid := 1
  taskId := 1
  stackTop := 0x7fffff000000

/-- The major version is stored as 10 and read as 0. -/
theorem version_fields_overwritten :
    (⟨(areas (plainStart [])).peb + 0x118, toLE 4 10⟩ : Write UInt8) ∈
        environmentStores (plainStart []) ∧
      fetch (environment (plainStart []) fun _ => 0) ((areas (plainStart [])).peb + 0x118) 4 =
        toLE 4 0 :=
  ⟨List.mem_append_left _ (List.mem_append_right _ (List.mem_cons_self ..)),
    fetch_majorVersion _ _⟩

/-! ## The loader lists -/

/-- The pointer at an address. -/
def pointer (m : Nat → UInt8) (address : Nat) : Nat :=
  ofLE (fetch m address 8)

/-- `flink` of the list entry at an address. -/
def flink (m : Nat → UInt8) (address : Nat) : Nat :=
  pointer m address

/-- `blink` of the list entry at an address. -/
def blink (m : Nat → UInt8) (address : Nat) : Nat :=
  pointer m (address + 8)

theorem links_of_has {m : Nat → UInt8} {address next prev : Nat}
    (h : Storage.memory.Has m ⟨address, listEntry next prev⟩)
    (hnext : next < 2 ^ 64)
    (hprev : prev < 2 ^ 64) :
    flink m address = next ∧ blink m address = prev := by
  have hlength := length_listEntry next prev
  have hfirst := fetch_part_of_has h (show 0 + 8 ≤ (listEntry next prev).length by omega)
  have hsecond := fetch_part_of_has h (show 8 + 8 ≤ (listEntry next prev).length by omega)
  have hleft : slice (listEntry next prev) 0 8 = toLE 8 next := by
    rw [listEntry, slice_append_left (by simp), slice, List.drop_zero,
      List.take_of_length_le (length_toLE 8 next).le]
  have hright : slice (listEntry next prev) 8 8 = toLE 8 prev := by
    have hskip := slice_append_right (toLE 8 next) (toLE 8 prev) 0 8
    rw [length_toLE] at hskip
    rw [listEntry, hskip, slice, List.drop_zero, List.take_of_length_le (length_toLE 8 prev).le]
  rw [hleft] at hfirst
  rw [hright] at hsecond
  exact ⟨(congrArg ofLE hfirst).trans ((ofLE_toLE 8 next).trans (Nat.mod_eq_of_lt hnext)),
    (congrArg ofLE hsecond).trans ((ofLE_toLE 8 prev).trans (Nat.mod_eq_of_lt hprev))⟩

/-- The links in the three lists, one list entry behind the other. -/
theorem slice_listEntries {k : Nat}
    (hk : k < 3)
    (links : Nat → Nat × Nat) (front back : Bytes) :
    slice (front ++ (listEntry (links 0).1 (links 0).2 ++ listEntry (links 1).1 (links 1).2 ++
      listEntry (links 2).1 (links 2).2) ++ back) (front.length + 16 * k) 16 =
        listEntry (links k).1 (links k).2 := by
  have hwhole : ∀ next prev, slice (listEntry next prev) 0 16 = listEntry next prev := by
    intro next prev
    rw [slice, List.drop_zero, List.take_of_length_le (length_listEntry next prev).le]
  rw [List.append_assoc, slice_append_right]
  obtain rfl | rfl | rfl : k = 0 ∨ k = 1 ∨ k = 2 := by omega
  · rw [slice_append_left (by simp [length_listEntry]), List.append_assoc,
      slice_append_left (by simp [length_listEntry]), hwhole]
  · have hskip := slice_append_right (listEntry (links 0).1 (links 0).2)
      (listEntry (links 1).1 (links 1).2 ++ listEntry (links 2).1 (links 2).2) 0 16
    rw [length_listEntry] at hskip
    rw [slice_append_left (by simp [length_listEntry]), List.append_assoc, hskip,
      slice_append_left (by simp [length_listEntry]), hwhole]
  · have hskip := slice_append_right
      (listEntry (links 0).1 (links 0).2 ++ listEntry (links 1).1 (links 1).2)
      (listEntry (links 2).1 (links 2).2) 0 16
    rw [List.length_append, length_listEntry, length_listEntry] at hskip
    rw [slice_append_left (by simp [length_listEntry]), hskip, hwhole]

theorem mem_entryStores {a : Areas} {n k : Nat} {modules : List LoadedModule} {m : LoadedModule}
    (h : modules[k]? = some m)
    (i cursor : Nat) :
    ∃ cursor', entryStore a n (i + k) cursor' m ∈ entryStores a n i cursor modules := by
  induction modules generalizing i k cursor with
  | nil =>
    simp at h
  | cons first rest ih =>
    cases k with
    | zero =>
      cases h
      exact ⟨cursor, List.mem_cons_self ..⟩
    | succ k =>
      obtain ⟨cursor', hmem⟩ := ih (List.getElem?_cons_succ ▸ h) (i + 1) (nameBuffers cursor first).2.2
      exact ⟨cursor', List.mem_cons_of_mem _ (by rwa [Nat.add_right_comm, Nat.add_assoc] at hmem)⟩

section Lists

variable {start : Start} {m : Nat → UInt8}

theorem has_sorted {w : Write UInt8}
    (hw : w ∈ sortedStores start) :
    Storage.memory.Has (environment start m) w :=
  has_object m ((perm_sortedStores start).mem_iff.mpr hw)

theorem ldrStore_mem (start : Start) :
    ⟨(areas start).ldr, ldrBytes ((areas start).headLinks start.ordered.length)⟩ ∈
      sortedStores start := by
  simp [sortedStores]

theorem entryStore_mem {i : Nat} {module : LoadedModule}
    (h : start.ordered[i]? = some module) :
    ∃ cursor, entryStore (areas start) start.ordered.length i cursor module ∈
      sortedStores start := by
  obtain ⟨cursor, hmem⟩ := mem_entryStores (a := areas start) (n := start.ordered.length) h 0
    (areas start).strings
  rw [Nat.zero_add] at hmem
  exact ⟨cursor, List.mem_append_left _ (List.mem_append_left _ (List.mem_append_right _ hmem))⟩

theorem has_headLinks {k : Nat}
    (hk : k < 3) :
    Storage.memory.Has (environment start m) ⟨(areas start).head k,
      listEntry ((areas start).headLinks start.ordered.length k).1
        ((areas start).headLinks start.ordered.length k).2⟩ := by
  have hhas : Storage.memory.Has (environment start m) _ := has_sorted (ldrStore_mem start)
  have hlength := length_ldrBytes ((areas start).headLinks start.ordered.length)
  have hpart := hhas.part (show 16 + 16 * k + 16 ≤ _ by rw [hlength]; omega)
  have hslice := slice_listEntries hk ((areas start).headLinks start.ordered.length)
    (toLE 4 64 ++ toLE 1 1 ++ List.replicate 3 0 ++ toLE 8 0) []
  simp only [List.append_nil, List.append_assoc, List.length_append, length_toLE,
    List.length_replicate] at hslice
  simp only [ldrBytes, List.append_assoc] at hpart
  rw [hslice, ← Nat.add_assoc] at hpart
  exact hpart

theorem has_moduleLinks {k i : Nat}
    (hk : k < 3)
    (hi : i < start.ordered.length) :
    Storage.memory.Has (environment start m) ⟨(areas start).link k i,
      listEntry ((areas start).moduleLinks start.ordered.length i k).1
        ((areas start).moduleLinks start.ordered.length i k).2⟩ := by
  obtain ⟨cursor, hmem⟩ := entryStore_mem (List.getElem?_eq_getElem hi)
  have hhas : Storage.memory.Has (environment start m) _ := has_sorted hmem
  have hpart := hhas.part (show 16 * k + 16 ≤ _ by rw [entryStore, length_entryBytes]; omega)
  have hslice := slice_listEntries hk ((areas start).moduleLinks start.ordered.length i) []
  simp only [List.nil_append, List.length_nil, Nat.zero_add] at hslice
  simp only [entryStore, entryBytes, List.append_assoc] at hpart hslice
  rw [hslice] at hpart
  exact hpart

/-- The entry of a module has its base address behind the links. -/
theorem fetch_dllBase {i : Nat} {module : LoadedModule}
    (h : start.ordered[i]? = some module) :
    fetch (environment start m) ((areas start).entries + i * 104 + 0x30) 8 =
      toLE 8 module.imageBase := by
  obtain ⟨cursor, hmem⟩ := entryStore_mem h
  have hhas : Storage.memory.Has (environment start m) _ := has_sorted hmem
  refine (fetch_part_of_has hhas (by rw [entryStore, length_entryBytes]; omega)).trans ?_
  have hskip : ∀ front back : Bytes, front.length = 0x30 →
      slice (front ++ (toLE 8 module.imageBase ++ back)) 0x30 8 = toLE 8 module.imageBase := by
    intro front back hfront
    have hright := slice_append_right front (toLE 8 module.imageBase ++ back) 0 8
    rw [hfront] at hright
    rw [hright, slice_append_left (by simp), slice, List.drop_zero,
      List.take_of_length_le (length_toLE 8 _).le]
  simp only [entryStore, entryBytes, List.append_assoc]
  rw [← List.append_assoc (listEntry _ _) (listEntry _ _), ← List.append_assoc (_ ++ _) (listEntry _ _)]
  exact hskip _ _ (by simp [length_listEntry])

/-- The addresses of the links are those of pointers. -/
theorem links_lt
    (h : environmentStop start ≤ userBootstrapBase)
    {k : Nat}
    (hk : k < 3) :
    (areas start).head k < 2 ^ 64 ∧
      ∀ i < start.ordered.length, (areas start).link k i < 2 ^ 64 := by
  have hend : userBootstrapBase < 2 ^ 64 := by decide
  refine ⟨?_, fun i hi => ?_⟩
  · have hbound := ((ascending_sortedStores start).bounds (ldrStore_mem start)).2
    rw [Write.stop, length_ldrBytes] at hbound
    dsimp only at hbound
    rw [Areas.head]
    omega
  · obtain ⟨cursor, hmem⟩ := entryStore_mem (List.getElem?_eq_getElem hi)
    have hbound := ((ascending_sortedStores start).bounds hmem).2
    rw [Write.stop, entryStore, length_entryBytes] at hbound
    dsimp only at hbound
    rw [Areas.link]
    omega

/-- The entries lie behind the loader data. -/
theorem head_lt_link
    (start : Start) (k i : Nat) :
    (areas start).head k < (areas start).link k i := by
  have hle : (areas start).ldr + 64 ≤ (areas start).entries := le_alignTo (by decide) _
  rw [Areas.head, Areas.link]
  omega

/-- The nodes of a list, with its head as the first one. -/
def Areas.node (a : Areas) (k : Nat) : Nat → Nat
  | 0 => a.head k
  | i + 1 => a.link k i

theorem headLinks_eq
    (a : Areas) (n k : Nat) :
    a.headLinks n k = (if n = 0 then a.node k 0 else a.node k 1, a.node k n) := by
  cases n <;> rfl

theorem moduleLinks_eq
    (a : Areas) (n i k : Nat) :
    a.moduleLinks n i k = (if i + 1 = n then a.node k 0 else a.node k (i + 2), a.node k i) := by
  cases i <;> rfl

theorem node_injective
    (start : Start) (k : Nat) {i j : Nat}
    (h : (areas start).node k i = (areas start).node k j) :
    i = j := by
  cases i with
  | zero =>
    cases j with
    | zero =>
      rfl
    | succ j =>
      exact absurd h (head_lt_link start k j).ne
  | succ i =>
    cases j with
    | zero =>
      exact absurd h (head_lt_link start k i).ne'
    | succ j =>
      simp only [Areas.node, Areas.link] at h
      omega

theorem ring_of_environment
    (h : environmentStop start ≤ userBootstrapBase)
    {k : Nat}
    (hk : k < 3) :
    Ring (flink (environment start m)) (blink (environment start m)) ((areas start).head k)
      ((List.range start.ordered.length).map ((areas start).link k)) := by
  obtain ⟨hhead, hlink⟩ := links_lt h hk
  have hnode : ∀ i ≤ start.ordered.length, (areas start).node k i < 2 ^ 64 := by
    rintro (_ | i) hi
    · exact hhead
    · exact hlink i hi
  have hheadLinks : Storage.memory.Has (environment start m) _ := has_headLinks hk
  rw [headLinks_eq] at hheadLinks
  have hfirst := links_of_has hheadLinks (by dsimp only; split <;> exact hnode _ (by omega))
    (hnode _ (Nat.le_refl _))
  have hlinks : ∀ i < start.ordered.length, _ := fun i hi => by
    have hmoduleLinks := has_moduleLinks (m := m) hk hi
    rw [moduleLinks_eq] at hmoduleLinks
    exact links_of_has hmoduleLinks (by dsimp only; split <;> exact hnode _ (by omega))
      (hnode _ hi.le)
  change Ring _ _ ((areas start).node k 0)
    ((List.range start.ordered.length).map fun i => (areas start).node k (i + 1))
  refine ring_of_links (fun i _ j _ heq => node_injective start k heq) (fun i hi => ?_) ?_
    (fun i hi => (hlinks i hi).2) hfirst.2
  · cases i with
    | zero =>
      exact hfirst.1.trans (if_neg (by omega))
    | succ i =>
      exact (hlinks i (by omega)).1.trans (if_neg (by omega))
  · generalize start.ordered.length = n at *
    cases n with
    | zero =>
      exact hfirst.1
    | succ n =>
      exact (hlinks n (by omega)).1.trans (if_pos rfl)

end Lists

theorem perm_ordered
    (start : Start) :
    start.ordered.Perm start.modules := by
  rw [Start.ordered]
  split
  next main hmain =>
    obtain ⟨hsame, before, after, hsplit, hbefore⟩ := List.find?_eq_some_iff_append.mp hmain
    rw [hsplit, List.eraseP_append_right _ (by simpa using hbefore), List.eraseP_cons, hsame]
    exact List.perm_middle.symm
  next =>
    exact List.Perm.refl _

/-- **The loader lists.**  If the environment fits into its pages, each of the three lists is a
ring through the links of the entries in the order of the modules, the main one first, and the
entries are those of the modules. -/
theorem loader_lists_are_rings (start : Start) (m : Nat → UInt8)
    (h : environmentStop start ≤ userBootstrapBase) :
    (∀ k < 3, Ring (flink (environment start m)) (blink (environment start m))
      ((areas start).head k) ((List.range start.ordered.length).map ((areas start).link k))) ∧
    (∀ i module, start.ordered[i]? = some module →
      fetch (environment start m) ((areas start).entries + i * 104 + 0x30) 8 =
        toLE 8 module.imageBase) ∧
    start.ordered.Perm start.modules ∧
    ∀ main, start.modules.find? (fun module => sameText module.ntPath start.ntPath) = some main →
      start.ordered.head? = some main := by
  refine ⟨fun k hk => ring_of_environment h hk, fun i module hi => fetch_dllBase hi,
    perm_ordered start, fun main hmain => ?_⟩
  rw [Start.ordered, hmain]
  rfl

/-- A process of two modules, the main one loaded as the second one. -/
def twoModules : Start :=
  plainStart [⟨⟨0x180001000, 0x180000000, 0x2000, [], [], []⟩, "\\ntdll.dll".toList⟩,
    ⟨⟨0x140001000, 0x140000000, 0x3000, [], [], []⟩, "\\smss.exe".toList⟩]

theorem loader_lists_are_rings_of_two :
    environmentStop twoModules ≤ userBootstrapBase ∧
      Ring (flink (environment twoModules fun _ => 0)) (blink (environment twoModules fun _ => 0))
        ((areas twoModules).head 1)
        [(areas twoModules).link 1 0, (areas twoModules).link 1 1] ∧
      twoModules.ordered.map (·.imageBase) = [0x140000000, 0x180000000] :=
  have hfits : environmentStop twoModules ≤ userBootstrapBase := by decide +kernel
  ⟨hfits, (loader_lists_are_rings twoModules (fun _ => 0) hfits).1 1 (by decide), by decide +kernel⟩

end Environment
end Kernel
end Theos
