import Mathlib.Data.List.TakeWhile
import Theos.Base.Run
import Theos.Kernel.SyscallStores
import Theos.Kernel.UserMemory

/-!
# Walking the address space with `query_virtual_memory`

A basic-information query at an address answers with a region that begins at its page:
a run of recorded pages of one protection, or the free pages up to the next recorded
one.  `Describes` says that the region is not empty, that its pages are all alike and that
it cannot be extended, so that a walk from region to region meets every recorded page.

The record is changed page by page (`Round`), by the loops of the calls that map, free and
protect a region; they record a page under its own, canonical address (`PageMappings`).

The free case without a page above subtracts the address from `USER_STACK_TOP`, and the
other case adds a page to the last page of the run.  `Answerable` is the condition under
which neither overflows; at the stack top itself the region is empty.
-/

namespace Theos
namespace Kernel
namespace Syscall

open Base

/-- Pages are recorded under their own, canonical addresses. -/
structure PageMappings (space : AddressSpace) : Prop where
  start_eq : ∀ {virt m}, space.mappings.lookup virt = some m → m.start = virt
  canonical : User.RecordedCanonical space

/-- The page of an address. -/
def pageOf (address : Nat) : Nat :=
  address / pageSize * pageSize

/-- The page is recorded with this protection. -/
def Committed (space : AddressSpace) (prot virt : Nat) : Prop :=
  ∃ m, space.mappings.lookup virt = some m ∧ m.prot = prot

/-! ## The sorted mappings -/

section Sorted

variable {space : AddressSpace} (h : PageMappings space)
include h

theorem PageMappings.mod {virt : Nat} {m : UserMapping}
    (hm : space.mappings.lookup virt = some m) : virt % pageSize = 0 ∧ virt < 2 ^ 64 := by
  obtain ⟨hmod, hcanonical⟩ := h.canonical virt (Option.isSome_of_mem hm)
  refine ⟨hmod, ?_⟩
  rcases hcanonical with hlow | hhigh
  · exact hlow.trans (by decide)
  · exact hhigh.2

theorem mem_sortedMappings {m : UserMapping} :
    m ∈ sortedMappings space ↔ space.mappings.lookup m.start = some m := by
  simp only [sortedMappings, List.mem_filterMap, Finset.mem_sort, Finmap.mem_keys]
  constructor
  · rintro ⟨virt, -, hm⟩
    rwa [h.start_eq hm]
  · intro hm
    exact ⟨m.start, Finmap.mem_of_lookup_eq_some hm, hm⟩

theorem sortedMappings_sorted :
    (sortedMappings space).Pairwise fun m m' => m.start < m'.start := by
  refine List.Pairwise.filterMap _ ?_ (Finset.sortedLT_sort space.mappings.keys).pairwise
  intro virt virt' hlt m hm m' hm'
  rw [h.start_eq hm, h.start_eq hm']
  exact hlt

end Sorted

/-! ## A run of pages -/

/-- The end of a run in the sorted pages above its beginning. -/
theorem runEnd_spec (prot : Nat) {start : Nat} {after : List UserMapping}
    (hstart : start % pageSize = 0)
    (hpages : ∀ m ∈ after, m.start % pageSize = 0 ∧ m.start < 2 ^ 64 ∧ start < m.start)
    (hsorted : after.Pairwise fun m m' => m.start < m'.start) :
    ∃ n, runEnd prot start after = some (start + n * pageSize) ∧
      (∀ i, 0 < i → i ≤ n → ∃ m ∈ after, m.start = start + i * pageSize ∧ m.prot = prot) ∧
      ¬ ∃ m ∈ after, m.start = start + (n + 1) * pageSize ∧ m.prot = prot := by
  induction after generalizing start with
  | nil => exact ⟨0, by simp [runEnd], by omega, by simp⟩
  | cons m rest ih =>
    obtain ⟨hmod, hlt, hgt⟩ := hpages m List.mem_cons_self
    obtain ⟨hfirst, hrest⟩ := List.pairwise_cons.mp hsorted
    have hnext : addU 64 start pageSize = some (start + pageSize) := by
      refine (addU_eq_some_iff _ _ _ _).mpr ⟨?_, rfl⟩
      simp only [pageSize] at *
      omega
    simp only [runEnd, hnext, Option.bind_eq_bind, Option.bind_some]
    by_cases hrun : m.start = start + pageSize ∧ m.prot = prot
    · rw [if_pos hrun]
      obtain ⟨n, hend, hin, hout⟩ := ih hmod
        (fun m' hm' => ⟨(hpages m' (List.mem_cons_of_mem _ hm')).1,
          (hpages m' (List.mem_cons_of_mem _ hm')).2.1, hfirst m' hm'⟩) hrest
      have hshift (i : Nat) : m.start + i * pageSize = start + (i + 1) * pageSize := by
        rw [hrun.1, Nat.succ_mul]
        omega
      refine ⟨n + 1, by rw [hend, hshift], fun i hpos hle => ?_, ?_⟩
      · rcases Nat.lt_or_ge 1 i with hi | hi
        · obtain ⟨m', hm', hstart', hprot⟩ := hin (i - 1) (by omega) (by omega)
          rw [hshift, Nat.sub_add_cancel hpos] at hstart'
          exact ⟨m', List.mem_cons_of_mem _ hm', hstart', hprot⟩
        · obtain rfl : i = 1 := by omega
          exact ⟨m, List.mem_cons_self, by rw [hrun.1, Nat.one_mul], hrun.2⟩
      · rintro ⟨m', hm', hstart', hprot⟩
        rcases List.mem_cons.mp hm' with rfl | hm'
        · rw [hrun.1] at hstart'
          simp only [pageSize] at hstart'
          omega
        · exact hout ⟨m', hm', by rw [hshift, hstart'], hprot⟩
    · rw [if_neg hrun]
      refine ⟨0, by simp, by omega, ?_⟩
      rintro ⟨m', hm', hstart', hprot⟩
      rw [Nat.zero_add, Nat.one_mul] at hstart'
      rcases List.mem_cons.mp hm' with rfl | hm'
      · exact hrun ⟨hstart', hprot⟩
      · have hlater := hfirst m' hm'
        simp only [pageSize] at *
        omega

/-! ## One query -/

/-- What an answer has to say: the region begins at the page and is not empty; its pages are
recorded with one protection and the next page is not, or they are free and the next
page, if it is below the stack top, is not. -/
structure Describes (space : AddressSpace) (address : Nat) (info : MemoryBasicInformation) :
    Prop where
  base : info.baseAddress = pageOf address
  size_pos : 0 < info.regionSize
  size_mod : info.regionSize % pageSize = 0
  uniform :
    info.state = 0x1000 ∧
      (∀ i, i * pageSize < info.regionSize →
        Committed space info.protect (pageOf address + i * pageSize)) ∧
      ¬ Committed space info.protect (pageOf address + info.regionSize) ∨
    info.state = 0x10000 ∧
      (∀ i, i * pageSize < info.regionSize →
        space.mappings.lookup (pageOf address + i * pageSize) = none) ∧
      (pageOf address + info.regionSize < userStackTop →
        space.mappings.lookup (pageOf address + info.regionSize) ≠ none)

/-- The run of the page ends before the last page of the 64-bit space; a free page has a
recorded page above it or is below the stack top. -/
def Answerable (space : AddressSpace) (address : Nat) : Prop :=
  match space.mappings.lookup (pageOf address) with
  | some m => ∃ i, pageOf address + i * pageSize < 2 ^ 64 ∧
      ¬ Committed space m.prot (pageOf address + i * pageSize)
  | none => pageOf address < userStackTop ∨
      ∃ virt m, space.mappings.lookup virt = some m ∧ pageOf address < virt

section Query

variable {space : AddressSpace} (h : PageMappings space)
include h

/-- The sorted mappings from a recorded page on. -/
theorem dropWhile_of_recorded {virt : Nat} {m : UserMapping}
    (hm : space.mappings.lookup virt = some m) :
    ∃ after, (sortedMappings space).dropWhile (fun m => m.start ≠ virt) = m :: after ∧
      after.Pairwise (fun m m' => m.start < m'.start) ∧
      ∀ m', m' ∈ after ↔ space.mappings.lookup m'.start = some m' ∧ virt < m'.start := by
  have hsorted := sortedMappings_sorted h
  have hmem : m ∈ sortedMappings space := (mem_sortedMappings h).mpr (by rwa [h.start_eq hm])
  obtain ⟨before, after, hsplit⟩ := List.append_of_mem hmem
  rw [hsplit, List.pairwise_append] at hsorted
  obtain ⟨-, hrest, hcross⟩ := hsorted
  have hbefore : ∀ m' ∈ before, m'.start < virt := fun m' hm' =>
    h.start_eq hm ▸ hcross m' hm' m List.mem_cons_self
  obtain ⟨hfirst, hafter⟩ := List.pairwise_cons.mp hrest
  have hdrop : (sortedMappings space).dropWhile (fun m => m.start ≠ virt) = m :: after := by
    rw [hsplit, List.dropWhile_append_of_pos]
    · simp [h.start_eq hm]
    · intro m' hm'
      simpa using (hbefore m' hm').ne
  refine ⟨after, hdrop, hafter, fun m' => ⟨fun hm' => ⟨?_, ?_⟩, fun ⟨hm', hgt⟩ => ?_⟩⟩
  · rw [← mem_sortedMappings h, hsplit]
    exact List.mem_append_right _ (List.mem_cons_of_mem _ hm')
  · rw [← h.start_eq hm]
    exact hfirst m' hm'
  · rw [← mem_sortedMappings h, hsplit, List.mem_append, List.mem_cons] at hm'
    rcases hm' with hm' | rfl | hm'
    · exact absurd (hbefore m' hm') (by omega)
    · exact absurd (h.start_eq hm) (by omega)
    · exact hm'

/-- A query at a recorded page. -/
theorem query_of_recorded {address : Nat} {m : UserMapping}
    (hm : space.mappings.lookup (pageOf address) = some m) :
    ∃ n base, (∀ i ≤ n, Committed space m.prot (pageOf address + i * pageSize)) ∧
      ¬ Committed space m.prot (pageOf address + (n + 1) * pageSize) ∧
      memoryBasicInformation (sortedMappings space) address =
        if pageOf address + (n + 1) * pageSize < 2 ^ 64 then
          some ⟨pageOf address, base, m.prot, (n + 1) * pageSize, 0x1000, m.prot, 0x20000⟩
        else none := by
  obtain ⟨after, hdrop, hsorted, hafter⟩ := dropWhile_of_recorded h hm
  obtain ⟨n, hend, hin, hout⟩ := runEnd_spec m.prot (h.mod hm).1
    (fun m' hm' => ⟨(h.mod ((hafter m').mp hm').1).1, (h.mod ((hafter m').mp hm').1).2,
      ((hafter m').mp hm').2⟩) hsorted
  have hcommitted {virt : Nat} (hvirt : pageOf address < virt) :
      (∃ m' ∈ after, m'.start = virt ∧ m'.prot = m.prot) ↔ Committed space m.prot virt := by
    constructor
    · rintro ⟨m', hm', rfl, hprot⟩
      exact ⟨m', ((hafter m').mp hm').1, hprot⟩
    · rintro ⟨m', hm', hprot⟩
      have hstart := h.start_eq hm'
      exact ⟨m', (hafter m').mpr ⟨hstart ▸ hm', hstart ▸ hvirt⟩, hstart, hprot⟩
  refine ⟨n, runStart m.prot m.start
      ((sortedMappings space).takeWhile fun m => m.start ≠ pageOf address).reverse, ?_, ?_, ?_⟩
  · intro i hi
    rcases Nat.eq_zero_or_pos i with rfl | hpos
    · exact ⟨m, by rwa [Nat.zero_mul, Nat.add_zero], rfl⟩
    · rw [← hcommitted (by simp only [pageSize]; omega)]
      exact hin i hpos hi
  · rwa [← hcommitted (by simp only [pageSize]; omega)]
  · have hsum : pageOf address + n * pageSize + pageSize = pageOf address + (n + 1) * pageSize := by
      rw [Nat.succ_mul, Nat.add_assoc]
    have hsize : pageOf address + (n + 1) * pageSize - pageOf address = (n + 1) * pageSize := by
      omega
    simp only [memoryBasicInformation]
    split
    next mapping rest hmatch =>
      obtain ⟨rfl, rfl⟩ := List.cons.inj (hmatch.symm.trans hdrop)
      change (runEnd mapping.prot mapping.start rest >>= _) = _
      rw [h.start_eq hm, hend]
      by_cases hfits : pageOf address + (n + 1) * pageSize < 2 ^ 64
      · have hend := (addU_eq_some_iff 64 (pageOf address + n * pageSize) pageSize _).mpr
          ⟨by rwa [hsum], hsum⟩
        have hsub := (subU_eq_some_iff (pageOf address + (n + 1) * pageSize) (pageOf address) _).mpr
          ⟨by omega, hsize⟩
        simp only [Option.bind_eq_bind, Option.bind_some, hend, if_pos hfits]
        change (subU _ (pageOf address) >>= _) = _
        rw [hsub]
        rfl
      · have hend : addU 64 (pageOf address + n * pageSize) pageSize = none := by
          rw [addU, hsum, if_neg hfits]
        simp only [Option.bind_eq_bind, Option.bind_some, hend, if_neg hfits, Option.bind_none]
    next hmatch => cases hmatch.symm.trans hdrop

/-- A query at a free page. -/
theorem query_of_free {address : Nat} (hfree : space.mappings.lookup (pageOf address) = none) :
    ∃ top, (∀ virt, pageOf address ≤ virt → virt < top → space.mappings.lookup virt = none) ∧
      ((∃ m, space.mappings.lookup top = some m) ∧ pageOf address < top ∨
        top = userStackTop ∧ ∀ virt m, space.mappings.lookup virt = some m →
          virt ≤ pageOf address) ∧
      memoryBasicInformation (sortedMappings space) address =
        (subU top (pageOf address)).map fun size =>
          ⟨pageOf address, 0, 0, size, 0x10000, 0x01, 0⟩ := by
  have hsorted := sortedMappings_sorted h
  have hnil : (sortedMappings space).dropWhile (fun m => m.start ≠ pageOf address) = [] := by
    rw [List.dropWhile_eq_nil_iff]
    intro m hm
    rw [mem_sortedMappings h] at hm
    simp only [ne_eq, decide_not, Bool.not_eq_eq_eq_not, Bool.not_true, decide_eq_false_iff_not]
    rintro heq
    rw [heq, hfree] at hm
    cases hm
  have hquery : memoryBasicInformation (sortedMappings space) address =
      (subU (((sortedMappings space).find? fun m => pageOf address < m.start).map
        UserMapping.start |>.getD userStackTop) (pageOf address)).map fun size =>
          ⟨pageOf address, 0, 0, size, 0x10000, 0x01, 0⟩ := by
    simp only [memoryBasicInformation]
    split
    next hmatch => cases hmatch.symm.trans hnil
    next => exact Option.map_eq_bind.symm
  rw [hquery]
  cases hfind : (sortedMappings space).find? fun m => pageOf address < m.start with
  | none =>
    have hbelow : ∀ virt m, space.mappings.lookup virt = some m → virt ≤ pageOf address := by
      intro virt m hm
      have hmem := (mem_sortedMappings h).mpr (by rwa [h.start_eq hm] : _ = some m)
      have hnot := List.find?_eq_none.mp hfind m hmem
      simpa [h.start_eq hm] using hnot
    refine ⟨userStackTop, fun virt hle hlt => ?_, Or.inr ⟨rfl, hbelow⟩, rfl⟩
    cases hm : space.mappings.lookup virt with
    | none => rfl
    | some m =>
      have hvirt : virt = pageOf address := le_antisymm (hbelow virt m hm) hle
      rw [hvirt, hfree] at hm
      cases hm
  | some next =>
    obtain ⟨hgt, before, after, hsplit, hbefore⟩ := List.find?_eq_some_iff_append.mp hfind
    have hmem := (mem_sortedMappings h).mp (List.mem_of_find?_eq_some hfind)
    refine ⟨next.start, fun virt hle hlt => ?_, Or.inl ⟨⟨next, hmem⟩, by simpa using hgt⟩, rfl⟩
    cases hm : space.mappings.lookup virt with
    | none => rfl
    | some m =>
      exfalso
      have hstart := h.start_eq hm
      have hin := (mem_sortedMappings h).mpr (by rwa [hstart] : _ = some m)
      rw [hsplit, List.mem_append, List.mem_cons] at hin
      rw [hsplit, List.pairwise_append] at hsorted
      rcases hin with hin | rfl | hin
      · have hnot := hbefore m hin
        simp only [Bool.not_eq_eq_eq_not, Bool.not_true, decide_eq_false_iff_not, not_lt,
          hstart] at hnot
        rw [le_antisymm hnot hle, hfree] at hm
        cases hm
      · omega
      · have hlater := (List.pairwise_cons.mp hsorted.2.1).1 m hin
        omega

/-- A query describes its region exactly when the region ends inside the address space. -/
theorem describes_iff (address : Nat) :
    (∃ info, memoryBasicInformation (sortedMappings space) address = some info ∧
      Describes space address info) ↔ Answerable space address := by
  cases hm : space.mappings.lookup (pageOf address) with
  | some m =>
    obtain ⟨n, base, hin, hout, hquery⟩ := query_of_recorded h hm
    simp only [Answerable, hm, hquery]
    by_cases hfits : pageOf address + (n + 1) * pageSize < 2 ^ 64
    · rw [if_pos hfits]
      refine iff_of_true ⟨_, rfl, rfl, ?_, ?_, Or.inl ⟨rfl, fun i hi => hin i ?_, hout⟩⟩
        ⟨n + 1, hfits, hout⟩
      · simp [pageSize]
      · simp [pageSize]
      · have := Nat.lt_of_mul_lt_mul_right hi
        omega
    · rw [if_neg hfits]
      refine iff_of_false (by simp) ?_
      rintro ⟨i, hi, hnot⟩
      refine hnot (hin i ?_)
      by_contra hlt
      have := Nat.mul_le_mul_right pageSize (by omega : n + 1 ≤ i)
      omega
  | none =>
    obtain ⟨top, hfree, htop, hquery⟩ := query_of_free h hm
    simp only [Answerable, hm, hquery]
    have hmod : pageOf address % pageSize = 0 := Nat.mul_mod_left _ _
    rcases htop with ⟨⟨m, hrecorded⟩, hlt⟩ | ⟨rfl, hbelow⟩
    · have hsub : subU top (pageOf address) = some (top - pageOf address) := by
        rw [subU, if_pos hlt.le]
      have hsum : pageOf address + (top - pageOf address) = top := by omega
      rw [hsub]
      refine iff_of_true ⟨_, rfl, rfl, ?_, ?_, Or.inr ⟨rfl, fun i hi => hfree _ ?_ ?_, ?_⟩⟩
        (Or.inr ⟨top, m, hrecorded, hlt⟩)
      · exact Nat.sub_pos_of_lt hlt
      · have htop := (h.mod hrecorded).1
        simp only [pageSize] at *
        omega
      · exact Nat.le_add_right _ _
      · have hi : i * pageSize < top - pageOf address := hi
        omega
      · intro _
        rw [hsum, hrecorded]
        exact Option.some_ne_none m
    · have hnone : ¬ ∃ virt m, space.mappings.lookup virt = some m ∧ pageOf address < virt := by
        rintro ⟨virt, m, hm, hgt⟩
        exact absurd (hbelow virt m hm) (by omega)
      by_cases hlt : pageOf address < userStackTop
      · have hsub : subU userStackTop (pageOf address) = some (userStackTop - pageOf address) := by
          rw [subU, if_pos hlt.le]
        rw [hsub]
        refine iff_of_true ⟨_, rfl, rfl, ?_, ?_, Or.inr ⟨rfl, fun i hi => hfree _ ?_ ?_, ?_⟩⟩
          (Or.inl hlt)
        · exact Nat.sub_pos_of_lt hlt
        · simp only [pageSize, userStackTop] at *
          omega
        · exact Nat.le_add_right _ _
        · have hi : i * pageSize < userStackTop - pageOf address := hi
          omega
        · intro habove
          have habove : pageOf address + (userStackTop - pageOf address) < userStackTop := habove
          omega
      · refine iff_of_false ?_ (not_or.mpr ⟨hlt, hnone⟩)
        rintro ⟨info, hinfo, hdescribes⟩
        obtain ⟨size, hsize, rfl⟩ := Option.map_eq_some_iff.mp hinfo
        obtain ⟨hle, rfl⟩ := (subU_eq_some_iff _ _ _).mp hsize
        have hpos : 0 < userStackTop - pageOf address := hdescribes.size_pos
        omega

end Query

/-! ## The walk -/

/-- The queries at an address and then at the end of each region come to a region that has
the page. -/
inductive Meets (space : AddressSpace) : Nat → Nat → Prop where
  | here {address virt : Nat} {info : MemoryBasicInformation} :
      memoryBasicInformation (sortedMappings space) address = some info →
      info.baseAddress ≤ virt → virt < info.baseAddress + info.regionSize →
      Meets space address virt
  | next {address virt : Nat} {info : MemoryBasicInformation} :
      memoryBasicInformation (sortedMappings space) address = some info →
      Meets space (info.baseAddress + info.regionSize) virt → Meets space address virt

theorem pageOf_of_mod {address : Nat} (h : address % pageSize = 0) : pageOf address = address :=
  Nat.div_mul_cancel (Nat.dvd_of_mod_eq_zero h)

section Walk

variable {space : AddressSpace} (h : PageMappings space)
include h

/-- A run that begins in the lower half ends there: its pages have canonical addresses. -/
theorem run_below {prot page n : Nat} (hmod : page % pageSize = 0) (hlow : page < 2 ^ 47)
    (hrun : ∀ i ≤ n, Committed space prot (page + i * pageSize)) :
    page + (n + 1) * pageSize ≤ 2 ^ 47 := by
  by_contra hgt
  obtain ⟨i, hi⟩ : ∃ i, 2 ^ 47 = page + i * pageSize := by
    refine ⟨(2 ^ 47 - page) / pageSize, ?_⟩
    simp only [pageSize] at *
    omega
  have hle : i ≤ n := by
    simp only [pageSize] at *
    omega
  obtain ⟨m, hm, -⟩ := hrun i hle
  rw [← hi] at hm
  have hcanonical := (h.canonical _ (Option.isSome_of_mem hm)).2
  exact absurd hcanonical (by decide)

theorem meets_of_recorded {virt : Nat} {m : UserMapping}
    (hm : space.mappings.lookup virt = some m) (htop : virt < userStackTop) {address : Nat}
    (hle : pageOf address ≤ virt) : Meets space address virt := by
  -- The queries come nearer to the page: each region begins where the one before ended.
  induction hk : virt - pageOf address using Nat.strong_induction_on generalizing address with
  | _ k ih =>
    have hmod : pageOf address % pageSize = 0 := Nat.mul_mod_left _ _
    cases hfirst : space.mappings.lookup (pageOf address) with
    | some first =>
      obtain ⟨n, base, hin, -, hquery⟩ := query_of_recorded h hfirst
      have hend := run_below h hmod (by simp only [userStackTop] at htop; omega) hin
      rw [if_pos (by omega)] at hquery
      by_cases hhere : virt < pageOf address + (n + 1) * pageSize
      · exact .here hquery hle hhere
      · have hpage : pageOf (pageOf address + (n + 1) * pageSize) =
            pageOf address + (n + 1) * pageSize := by
          refine pageOf_of_mod ?_
          rw [Nat.add_mul_mod_self_right, hmod]
        have hpos : 0 < (n + 1) * pageSize := Nat.mul_pos n.succ_pos (by decide)
        refine .next hquery ?_
        change Meets space (pageOf address + (n + 1) * pageSize) virt
        exact ih _ (by omega) (by omega) rfl
    | none =>
      obtain ⟨top, hfree, htop', hquery⟩ := query_of_free h hfirst
      rcases htop' with ⟨⟨m', hm'⟩, hlt⟩ | ⟨-, hbelow⟩
      · have hge : top ≤ virt := by
          by_contra hlt
          rw [hfree virt hle (by omega)] at hm
          cases hm
        have hsub : subU top (pageOf address) = some (top - pageOf address) := by
          rw [subU, if_pos hlt.le]
        rw [hsub] at hquery
        have hsum : pageOf address + (top - pageOf address) = top := by omega
        have hpage := pageOf_of_mod (h.mod hm').1
        refine .next hquery ?_
        change Meets space (pageOf address + (top - pageOf address)) virt
        rw [hsum]
        exact ih _ (by omega) (by omega) rfl
      · rw [le_antisymm (hbelow virt m hm) hle, hfirst] at hm
        cases hm

/-- The scan downwards subtracts a page from a mapping that has another below it. -/
theorem sortedMappings_page_above :
    (sortedMappings space).Pairwise fun _ m => (subU m.start pageSize).isSome := by
  refine List.Pairwise.imp_of_mem ?_ (sortedMappings_sorted h)
  intro m m' _ hm' hlt
  have hmod := (h.mod ((mem_sortedMappings h).mp hm')).1
  have hge : pageSize ≤ m'.start := by
    simp only [pageSize] at *
    omega
  rw [subU, if_pos hge]
  rfl

end Walk

/-- The queries tile the address space: one at an address describes its region exactly when
the region ends inside the address space, the scan downwards never underflows, and the walk
from an address meets every recorded page above it and below the stack top. -/
theorem memory_query_tiles_iff {space : AddressSpace} (h : PageMappings space) :
    (∀ address,
      (∃ info, memoryBasicInformation (sortedMappings space) address = some info ∧
        Describes space address info) ↔ Answerable space address) ∧
    ((sortedMappings space).Pairwise fun _ m => (subU m.start pageSize).isSome) ∧
    ∀ address virt m, space.mappings.lookup virt = some m → virt < userStackTop →
      pageOf address ≤ virt → Meets space address virt :=
  ⟨describes_iff h, sortedMappings_page_above h,
    fun _ _ _ hm htop hle => meets_of_recorded h hm htop hle⟩

/-! ## Rounds of the calls -/

/-- What one round of a loop over the pages of a region does to the record of an address space: in
`map_region`, in `free_virtual_memory`, and in `protect_virtual_memory` and `protect_region`.  The
regions begin at a page, so that a round is about a page by its number; `protect_region` may be at
another address, where nothing is recorded and nothing is changed.  `clear` is
`destroy_address_space_contents`. -/
inductive Round where
  | map (page prot : Nat) (frame : PhysFrame)
  | free (page : Nat)
  | protect (page prot : Nat)
  | clear

/-- The record after a round; `none` if `VirtAddr::new` panics. -/
def changeRecord (space : AddressSpace) : Round → Option AddressSpace
  | .map page prot frame =>
    if User.Canonical (page * pageSize) then
      some { space with
        mappings := space.mappings.insert (page * pageSize)
          ⟨page * pageSize, pageSize, prot, frame⟩ }
    else none
  | .free page =>
    if User.Canonical (page * pageSize) then
      some { space with mappings := space.mappings.erase (page * pageSize) }
    else none
  | .protect page prot =>
    if User.Canonical (page * pageSize) then
      match space.mappings.lookup (page * pageSize) with
      | some mapping => some { space with
          mappings := space.mappings.insert (page * pageSize) { mapping with prot := prot } }
      | none => some space
    else none
  | .clear => some AddressSpace.default

theorem pageMappings_default : PageMappings AddressSpace.default :=
  ⟨fun h => by simp [AddressSpace.default] at h, User.recordedCanonical_default⟩

theorem lookup_insert_ite (mappings : Finmap fun _ : Nat => UserMapping) (virt virt' : Nat)
    (mapping : UserMapping) :
    (mappings.insert virt mapping).lookup virt' =
      if virt' = virt then some mapping else mappings.lookup virt' := by
  by_cases h : virt' = virt
  · rw [if_pos h, h, Finmap.lookup_insert]
  · rw [if_neg h, Finmap.lookup_insert_of_ne _ h]

/-- A page is recorded under its own address. -/
theorem PageMappings.insert {space : AddressSpace} (h : PageMappings space) {page : Nat}
    {mapping : UserMapping}
    (hcanonical : User.Canonical (page * pageSize))
    (hstart : mapping.start = page * pageSize) :
    PageMappings { space with mappings := space.mappings.insert (page * pageSize) mapping } := by
  refine ⟨fun {virt m} hm => ?_, fun virt hsome => ?_⟩
  · rw [lookup_insert_ite] at hm
    split at hm
    next hvirt =>
      rw [← Option.some.inj hm, hstart, hvirt]
    next =>
      exact h.start_eq hm
  · rw [lookup_insert_ite] at hsome
    split at hsome
    next hvirt =>
      rw [hvirt]
      exact ⟨Nat.mul_mod_left _ _, hcanonical⟩
    next =>
      exact h.canonical virt hsome

theorem PageMappings.erase {space : AddressSpace} (h : PageMappings space) (page : Nat) :
    PageMappings { space with mappings := space.mappings.erase (page * pageSize) } := by
  have hkept {virt : Nat} {m : UserMapping}
      (hm : (space.mappings.erase (page * pageSize)).lookup virt = some m) :
      space.mappings.lookup virt = some m := by
    by_cases hvirt : virt = page * pageSize
    · subst hvirt
      rw [Finmap.lookup_erase] at hm
      cases hm
    · rwa [Finmap.lookup_erase_ne hvirt] at hm
  refine ⟨fun hm => h.start_eq (hkept hm), fun virt hsome => ?_⟩
  obtain ⟨m, hm⟩ := Option.isSome_iff_exists.mp hsome
  exact h.canonical virt (Option.isSome_of_mem (hkept hm))

/-- A round of a call keeps the pages under their own addresses. -/
theorem PageMappings.round {space space' : AddressSpace} {round : Round}
    (h : PageMappings space) (hround : changeRecord space round = some space') :
    PageMappings space' := by
  cases round with
  | map page prot frame =>
    obtain ⟨hcanonical, hspace⟩ := Option.ite_none_right_eq_some.mp hround
    cases hspace
    exact h.insert hcanonical rfl
  | free page =>
    obtain ⟨-, hspace⟩ := Option.ite_none_right_eq_some.mp hround
    cases hspace
    exact h.erase page
  | protect page prot =>
    obtain ⟨hcanonical, hspace⟩ := Option.ite_none_right_eq_some.mp hround
    split at hspace
    next mapping hmapping =>
      cases hspace
      have hstart : mapping.start = page * pageSize := h.start_eq hmapping
      exact h.insert hcanonical hstart
    next =>
      cases hspace
      exact h
  | clear =>
    cases hround
    exact pageMappings_default

/-- What calls make of the record of a new address space. -/
theorem pageMappings_of_run {rounds : List Round} {space : AddressSpace}
    (hrun : Run (Det changeRecord) AddressSpace.default rounds space) :
    PageMappings space :=
  Run.invariant (fun _ _ _ h hround => h.round hround) hrun pageMappings_default

/-- Two pages that can be written, one behind them that cannot, and one behind a gap. -/
def severalPages : AddressSpace where
  nextAllocBase := userAllocBase
  mappings := ((((∅ : Finmap fun _ : Nat => UserMapping).insert 0x10000 ⟨0x10000, 4096, 4, ⟨1⟩⟩).insert
    0x11000 ⟨0x11000, 4096, 4, ⟨2⟩⟩).insert 0x12000 ⟨0x12000, 4096, 2, ⟨3⟩⟩).insert
    0x14000 ⟨0x14000, 4096, 4, ⟨4⟩⟩

theorem pageMappings_severalPages : PageMappings severalPages := by
  have hmap (space : AddressSpace) (page prot : Nat) (frame : PhysFrame)
      (h : User.Canonical (page * pageSize)) :
      Det changeRecord space (.map page prot frame) _ := if_pos h
  have hrun : Run (Det changeRecord) AddressSpace.default
      [.map 0x10 4 ⟨1⟩, .map 0x11 4 ⟨2⟩, .map 0x12 2 ⟨3⟩, .map 0x14 4 ⟨4⟩] severalPages :=
    .cons (hmap _ _ _ _ (by decide)) (.cons (hmap _ _ _ _ (by decide))
      (.cons (hmap _ _ _ _ (by decide)) (.single (hmap _ _ _ _ (by decide)))))
  exact pageMappings_of_run hrun

/-- The run of two pages, the page with another protection, and the gap are each described, and
the walk from the first page meets the last one. -/
theorem memory_query_tiles_several :
    (∀ address ∈ [0x10800, 0x12000, 0x13000], ∃ info,
      memoryBasicInformation (sortedMappings severalPages) address = some info ∧
        Describes severalPages address info) ∧
      Meets severalPages 0x10800 0x14000 := by
  obtain ⟨htiles, -, hmeets⟩ := memory_query_tiles_iff pageMappings_severalPages
  refine ⟨fun address haddress => (htiles address).mpr ?_, ?_⟩
  · simp only [List.mem_cons, List.not_mem_nil, or_false] at haddress
    rcases haddress with rfl | rfl | rfl
    · simp only [Answerable, Committed, severalPages, lookup_insert_ite, pageOf, pageSize]
      exact ⟨2, by decide, by simp⟩
    · simp only [Answerable, Committed, severalPages, lookup_insert_ite, pageOf, pageSize]
      exact ⟨1, by decide, by simp⟩
    · simp only [Answerable, severalPages, lookup_insert_ite, Finmap.lookup_empty, pageOf, pageSize]
      exact .inl (by decide)
  · refine hmeets 0x10800 0x14000 ⟨0x14000, 4096, 4, ⟨4⟩⟩ ?_ (by decide) (by decide)
    rw [severalPages, lookup_insert_ite, if_pos rfl]

/-- In a fresh address space the region at the stack top is empty, and a query above it
subtracts a larger address from the stack top. -/
theorem memory_query_at_stack_top :
    (memoryBasicInformation (sortedMappings AddressSpace.default) userStackTop).map
        MemoryBasicInformation.regionSize = some 0 ∧
      memoryBasicInformation (sortedMappings AddressSpace.default) (userStackTop + 4096) =
        none := by
  have hnil : sortedMappings AddressSpace.default = [] := by
    simp [sortedMappings, AddressSpace.default]
  rw [hnil]
  exact ⟨rfl, rfl⟩

end Syscall
end Kernel
end Theos
