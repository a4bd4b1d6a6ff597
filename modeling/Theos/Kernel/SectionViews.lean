import Theos.Base.Memory
import Theos.Kernel.ModuleLoader

/-!
# Views of sections

`map_view_of_section` for a section that is not an image: `allocate_virtual_memory` maps the
pages of the view, and the file of the section is read into them.

The pages are those of the size of the view that the process asks for, but the bytes that are
stored are as many as the larger of that size and the size of the section.  A page that is
mapped already keeps what it has.  When the file cannot be opened or read, the pages stay.

`none` is a panic.
-/

namespace Theos
namespace Kernel
namespace Loader

open Base

/-! ## Pages -/

section Pages

variable (canMap : Space → Nat → Bool)

/-- The loop of `map_region`, where an address that is not canonical panics. -/
def mapChecked : Nat → Nat → Space → Option (Except LoadStatus Unit × Space)
  | 0, _, space => some (.ok (), space)
  | count + 1, virt, space =>
    if User.Canonical virt then
      match mapPage canMap space (virt / pageSize) with
      | (.ok (), space) => mapChecked count (virt + pageSize) space
      | (.error e, space) => some (.error e, space)
    else none

/-- `map_region`, with the region as the result. -/
def mapView (base len : Nat) (space : Space) : Option (Except LoadStatus (Nat × Nat) × Space) :=
  (mapChecked canMap ((len + pageSize - 1) / pageSize) base space).map fun result =>
    (result.1.map fun _ => (base, len), result.2)

def allocateVirtualMemory (processHandle : Nat) (baseAddress regionSize : Option Nat)
    (space : Space) : Option (Except LoadStatus (Nat × Nat) × Space) :=
  match baseAddress, regionSize with
  | some baseAddress, some requested =>
    if processHandle ≠ usizeMax ∨ requested = 0 then some (.error (.nt .invalidParameter), space)
    else
      match User.alignUp requested with
      | none => none
      | some len =>
        if baseAddress = 0 then
          match User.alignUp space.nextAllocBase with
          | none => none
          | some base =>
            mapView canMap base len
              { space with nextAllocBase := satAddU 64 (satAddU 64 base len) pageSize }
        else mapView canMap (User.alignDown baseAddress) len space
  | _, _ => some (.error (.nt .invalidParameter), space)

end Pages

/-! ## Regions -/

/-- Whole pages that a call is to map, and where the next region that the kernel chooses is. -/
structure Region where
  page : Nat
  count : Nat
  next : Nat

/-- The region of a call of `allocate_virtual_memory`, by the space before it: there is none if
the parameters are refused or a sum overflows. -/
def requestedRegion (processHandle : Nat) (baseAddress regionSize : Option Nat) (space : Space) :
    Option Region :=
  match baseAddress, regionSize with
  | some baseAddress, some requested =>
    if processHandle ≠ usizeMax ∨ requested = 0 then none
    else
      (User.alignUp requested).bind fun len =>
        if baseAddress = 0 then
          (User.alignUp space.nextAllocBase).map fun base =>
            ⟨base / pageSize, len / pageSize, satAddU 64 (satAddU 64 base len) pageSize⟩
        else
          some ⟨User.alignDown baseAddress / pageSize, len / pageSize, space.nextAllocBase⟩
  | _, _ => none

namespace Region

variable (canMap : Space → Nat → Bool) (r : Region) (space : Space)

def base : Nat :=
  r.page * pageSize

def len : Nat :=
  r.count * pageSize

/-- The space when the first pages of the region are mapped: those that were not mapped before
are cleared. -/
def mapFirst (k : Nat) : Space where
  nextAllocBase := r.next
  mapped p := space.mapped p || decide (r.page ≤ p ∧ p < r.page + k)
  memory addr :=
    if space.mapped (addr / pageSize) = false ∧ r.page ≤ addr / pageSize ∧
        addr / pageSize < r.page + k then 0
    else space.memory addr

/-- A page of the region can be mapped after those before it. -/
def CanMap (k : Nat) : Prop :=
  canMap (r.mapFirst space k) (r.page + k) = true

/-- A page of the region has a canonical address. -/
def CanonicalAt (k : Nat) : Prop :=
  User.Canonical (r.base + k * pageSize)

/-- Every page of the region can be mapped. -/
def Fits : Prop :=
  ∀ k < r.count, r.CanonicalAt k ∧ r.CanMap canMap space k

/-- The page is the first that cannot be mapped. -/
structure EndsAt (k : Nat) : Prop where
  lt : k < r.count
  before : ∀ j < k, r.CanonicalAt j ∧ r.CanMap canMap space j
  canonical : r.CanonicalAt k
  refused : ¬ r.CanMap canMap space k

variable {canMap r space}

@[simp]
theorem mapped_mapFirst
    {k p : Nat} :
    (r.mapFirst space k).mapped p = true ↔
      space.mapped p = true ∨ r.page ≤ p ∧ p < r.page + k := by
  rw [mapFirst, Bool.or_eq_true, decide_eq_true_eq]

theorem memory_mapFirst_of_mapped {addr : Nat}
    (h : space.mapped (addr / pageSize) = true)
    (k : Nat) :
    (r.mapFirst space k).memory addr = space.memory addr := by
  refine if_neg ?_
  simp [h]

theorem memory_mapFirst_of_new {addr k : Nat}
    (h : space.mapped (addr / pageSize) = false)
    (hpage : r.page ≤ addr / pageSize ∧ addr / pageSize < r.page + k) :
    (r.mapFirst space k).memory addr = 0 :=
  if_pos ⟨h, hpage⟩

theorem space_ext {a b : Space}
    (hnext : a.nextAllocBase = b.nextAllocBase)
    (hmapped : ∀ p, a.mapped p = true ↔ b.mapped p = true)
    (hmemory : ∀ addr, a.memory addr = b.memory addr) :
    a = b := by
  cases a
  cases b
  cases hnext
  cases funext fun p => Bool.eq_iff_iff.mpr (hmapped p)
  cases funext hmemory
  rfl

theorem mapFirst_zero : r.mapFirst space 0 = { space with nextAllocBase := r.next } := by
  refine space_ext rfl (fun p => ?_) (fun addr => if_neg (by omega))
  rw [mapped_mapFirst]
  exact or_iff_left (by omega)

/-- A page that was mapped before the call changes nothing. -/
theorem mapFirst_succ_of_mapped {k : Nat}
    (h : space.mapped (r.page + k) = true) :
    r.mapFirst space (k + 1) = r.mapFirst space k := by
  refine space_ext rfl (fun p => ?_) (fun addr => ?_)
  · rw [mapped_mapFirst, mapped_mapFirst]
    by_cases hp : p = r.page + k
    · simp [hp, h]
    · refine or_congr Iff.rfl ?_
      omega
  · by_cases hpage : addr / pageSize = r.page + k
    · rw [← hpage] at h
      rw [memory_mapFirst_of_mapped h, memory_mapFirst_of_mapped h]
    · refine if_congr (and_congr_right fun _ => ?_) rfl rfl
      omega

/-- A new page is cleared. -/
theorem mapFirst_succ_of_new {k : Nat}
    (h : space.mapped (r.page + k) = false) :
    r.mapFirst space (k + 1) =
      { r.mapFirst space k with
        mapped := fun p => if p = r.page + k then true else (r.mapFirst space k).mapped p
        memory := fun addr =>
          if addr / pageSize = r.page + k then 0 else (r.mapFirst space k).memory addr } := by
  refine space_ext rfl (fun p => ?_) (fun addr => ?_)
  · rw [mapped_mapFirst]
    dsimp only
    split
    next hp =>
      simp only [hp, iff_true]
      omega
    next hp =>
      rw [mapped_mapFirst]
      refine or_congr Iff.rfl ?_
      omega
  · dsimp only
    split
    next hpage =>
      exact memory_mapFirst_of_new (by rw [hpage, h]) (by omega)
    next hpage =>
      refine if_congr (and_congr_right fun _ => ?_) rfl rfl
      omega

/-- One round of `map_region` in a region. -/
theorem mapPage_mapFirst
    (k : Nat) :
    mapPage canMap (r.mapFirst space k) (r.page + k) =
      if canMap (r.mapFirst space k) (r.page + k) then (.ok (), r.mapFirst space (k + 1))
      else (.error (.nt .noMemory), r.mapFirst space k) := by
  have hmapped : (r.mapFirst space k).mapped (r.page + k) = true ↔
      space.mapped (r.page + k) = true :=
    mapped_mapFirst.trans (or_iff_left (by omega))
  rw [mapPage]
  cases hold : space.mapped (r.page + k) with
  | true =>
    rw [if_pos (hmapped.mpr hold), mapFirst_succ_of_mapped hold]
  | false =>
    rw [if_neg (mt hmapped.mp (by simp [hold])), mapFirst_succ_of_new hold]

theorem mapChecked_succ
    (left k : Nat) :
    mapChecked canMap (left + 1) (r.base + k * pageSize) (r.mapFirst space k) =
      if User.Canonical (r.base + k * pageSize) then
        if canMap (r.mapFirst space k) (r.page + k) then
          mapChecked canMap left (r.base + (k + 1) * pageSize) (r.mapFirst space (k + 1))
        else some (.error (.nt .noMemory), r.mapFirst space k)
      else none := by
  have hpage : (r.base + k * pageSize) / pageSize = r.page + k := by
    rw [base, ← Nat.add_mul, Nat.mul_div_cancel _ (by decide)]
  have hnext : r.base + k * pageSize + pageSize = r.base + (k + 1) * pageSize := by
    rw [Nat.succ_mul, Nat.add_assoc]
  rw [mapChecked, hpage, mapPage_mapFirst, hnext]
  split
  · by_cases hcan : canMap (r.mapFirst space k) (r.page + k) = true
    · simp only [if_pos hcan]
    · simp only [if_neg hcan]
  · rfl

/-- The loop of `map_region` in a region ends behind it, at an address that is not canonical or
at a page that cannot be mapped. -/
theorem mapChecked_cases
    (canMap : Space → Nat → Bool) (r : Region) (space : Space) (left k : Nat) :
    ∃ m ≤ left, (∀ j < m, r.CanonicalAt (k + j) ∧ r.CanMap canMap space (k + j)) ∧
      (m = left ∧ mapChecked canMap left (r.base + k * pageSize) (r.mapFirst space k) =
          some (.ok (), r.mapFirst space (k + m)) ∨
        m < left ∧ ¬ r.CanonicalAt (k + m) ∧
          mapChecked canMap left (r.base + k * pageSize) (r.mapFirst space k) = none ∨
        m < left ∧ r.CanonicalAt (k + m) ∧ ¬ r.CanMap canMap space (k + m) ∧
          mapChecked canMap left (r.base + k * pageSize) (r.mapFirst space k) =
            some (.error (.nt .noMemory), r.mapFirst space (k + m))) := by
  induction left generalizing k with
  | zero =>
    exact ⟨0, Nat.le_refl 0, fun j hj => absurd hj (Nat.not_lt_zero j), .inl ⟨rfl, rfl⟩⟩
  | succ left ih =>
    rw [mapChecked_succ]
    by_cases hcanonical : User.Canonical (r.base + k * pageSize)
    · rw [if_pos hcanonical]
      by_cases hcan : canMap (r.mapFirst space k) (r.page + k) = true
      · rw [if_pos hcan]
        obtain ⟨m, hm, hbefore, hend⟩ := ih (k + 1)
        rw [Nat.add_assoc k 1 m, Nat.add_comm 1 m] at hend
        refine ⟨m + 1, Nat.succ_le_succ hm, fun j hj => ?_, ?_⟩
        · cases j with
          | zero =>
            exact ⟨hcanonical, hcan⟩
          | succ j =>
            rw [Nat.add_comm j 1, ← Nat.add_assoc]
            exact hbefore j (by omega)
        · rcases hend with ⟨hm, h⟩ | ⟨hm, h⟩ | ⟨hm, h⟩
          · exact .inl ⟨by omega, h⟩
          · exact .inr (.inl ⟨by omega, h⟩)
          · exact .inr (.inr ⟨by omega, h⟩)
      · rw [if_neg hcan]
        exact ⟨0, Nat.zero_le _, fun j hj => absurd hj (Nat.not_lt_zero j),
          .inr (.inr ⟨by omega, hcanonical, hcan, rfl⟩)⟩
    · rw [if_neg hcanonical]
      exact ⟨0, Nat.zero_le _, fun j hj => absurd hj (Nat.not_lt_zero j),
        .inr (.inl ⟨by omega, hcanonical, rfl⟩)⟩

theorem EndsAt.not_fits {k : Nat}
    (h : r.EndsAt canMap space k) :
    ¬ r.Fits canMap space :=
  fun hfits => h.refused (hfits k h.lt).2

theorem EndsAt.unique {k k' : Nat}
    (h : r.EndsAt canMap space k)
    (h' : r.EndsAt canMap space k') :
    k' = k := by
  rcases Nat.lt_trichotomy k k' with hlt | heq | hgt
  · exact absurd (h'.before k hlt).2 h.refused
  · exact heq.symm
  · exact absurd (h.before k' hgt).2 h'.refused

/-- The three ends of `map_region`. -/
theorem mapView_cases
    (canMap : Space → Nat → Bool) (r : Region) (space : Space) :
    (r.Fits canMap space ∧ mapView canMap r.base r.len { space with nextAllocBase := r.next } =
        some (.ok (r.base, r.len), r.mapFirst space r.count)) ∨
      (¬ r.Fits canMap space ∧ (∀ k, ¬ r.EndsAt canMap space k) ∧
        mapView canMap r.base r.len { space with nextAllocBase := r.next } = none) ∨
      ∃ k, r.EndsAt canMap space k ∧
        mapView canMap r.base r.len { space with nextAllocBase := r.next } =
          some (.error (.nt .noMemory), r.mapFirst space k) := by
  have hcount : (r.len + pageSize - 1) / pageSize = r.count := by
    simp only [len, pageSize]
    omega
  rw [mapView, hcount, ← mapFirst_zero]
  obtain ⟨m, -, hbefore, hend⟩ := mapChecked_cases canMap r space r.count 0
  simp only [Nat.zero_add, Nat.zero_mul, Nat.add_zero] at hbefore hend
  rcases hend with ⟨rfl, h⟩ | ⟨hlt, hnot, h⟩ | ⟨hlt, hcanonical, hnot, h⟩
  · exact .inl ⟨hbefore, by rw [h]; rfl⟩
  · refine .inr (.inl ⟨fun hfits => hnot (hfits m hlt).1, fun k hk => ?_, by rw [h]; rfl⟩)
    rcases Nat.lt_trichotomy k m with hkm | rfl | hmk
    · exact hk.refused (hbefore k hkm).2
    · exact hnot hk.canonical
    · exact hnot (hk.before m hmk).1
  · exact .inr (.inr ⟨m, ⟨hlt, hbefore, hcanonical, hnot⟩, by rw [h]; rfl⟩)

end Region

section Mapping

variable {canMap : Space → Nat → Bool} {processHandle : Nat} {baseAddress regionSize : Option Nat}
  {space : Space}

/-- Without a region nothing is mapped. -/
theorem allocateVirtualMemory_of_none
    (canMap : Space → Nat → Bool)
    (h : requestedRegion processHandle baseAddress regionSize space = none) :
    allocateVirtualMemory canMap processHandle baseAddress regionSize space = none ∨
      ∃ e, allocateVirtualMemory canMap processHandle baseAddress regionSize space =
        some (.error e, space) := by
  unfold requestedRegion at h
  unfold allocateVirtualMemory
  split
  · dsimp only at h
    split
    next hrefused =>
      exact .inr ⟨_, rfl⟩
    next haccepted =>
      rw [if_neg haccepted] at h
      split
      · exact .inl rfl
      next len hlen =>
        rw [hlen, Option.bind_some] at h
        split
        next hzero =>
          rw [if_pos hzero, Option.map_eq_none_iff] at h
          rw [h]
          exact .inl rfl
        next hzero =>
          rw [if_neg hzero] at h
          cases h
  · exact .inr ⟨_, rfl⟩

/-- The pages of the region are mapped. -/
theorem allocateVirtualMemory_of_some {r : Region}
    (h : requestedRegion processHandle baseAddress regionSize space = some r) :
    allocateVirtualMemory canMap processHandle baseAddress regionSize space =
      mapView canMap r.base r.len { space with nextAllocBase := r.next } := by
  unfold requestedRegion at h
  unfold allocateVirtualMemory
  split at h
  · split at h
    · cases h
    next haccepted =>
      rw [if_neg haccepted]
      obtain ⟨len, hlen, hbase⟩ := Option.bind_eq_some_iff.mp h
      rw [hlen]
      have hmod : len / pageSize * pageSize = len :=
        Nat.div_mul_cancel (Nat.dvd_of_mod_eq_zero (User.alignUp_mod hlen))
      dsimp only
      split at hbase
      next hzero =>
        obtain ⟨base, hstart, rfl⟩ := Option.map_eq_some_iff.mp hbase
        rw [if_pos hzero, hstart, Region.base, Region.len, hmod,
          Nat.div_mul_cancel (Nat.dvd_of_mod_eq_zero (User.alignUp_mod hstart))]
      next hzero =>
        cases hbase
        rw [if_neg hzero, Region.base, Region.len, hmod,
          Nat.div_mul_cancel (Nat.dvd_of_mod_eq_zero (User.alignDown_mod _))]
  · cases h

/-- The space after a successful call: the pages of its region are mapped. -/
theorem allocateVirtualMemory_ok {base len : Nat} {space' : Space}
    (h : allocateVirtualMemory canMap processHandle baseAddress regionSize space =
      some (.ok (base, len), space')) :
    ∃ r, requestedRegion processHandle baseAddress regionSize space = some r ∧
      r.Fits canMap space ∧ base = r.base ∧ len = r.len ∧ space' = r.mapFirst space r.count := by
  rcases hregion : requestedRegion processHandle baseAddress regionSize space with _ | r
  · rcases allocateVirtualMemory_of_none canMap hregion with hnone | ⟨e, herror⟩
    · rw [hnone] at h
      cases h
    · rw [herror] at h
      cases h
  · rw [allocateVirtualMemory_of_some hregion] at h
    rcases Region.mapView_cases canMap r space with
      ⟨hfits, hmap⟩ | ⟨-, -, hmap⟩ | ⟨k, -, hmap⟩
    · rw [hmap] at h
      cases h
      exact ⟨r, rfl, hfits, rfl, rfl, rfl⟩
    · rw [hmap] at h
      cases h
    · rw [hmap] at h
      cases h

end Mapping

/-! ## Views -/

/-- What `vfs::open` and `vfs::pread` report for the file of a section. -/
inductive Backing where
  | missing
  | unreadable
  | content (bytes : Bytes)

/-- What `vfs::pread` reads from the start: the length is given as 32 bits. -/
def preadData (bytes : Bytes) (size : Nat) : Bytes :=
  bytes.take (size % 2 ^ 32)

/-- The stores of `map_view_of_section`: what was read, and zeros up to the size. -/
def viewStores (base size : Nat) (data : Bytes) : List (Write UInt8) :=
  ⟨base, data⟩ ::
    if data.length < size then [⟨base + data.length, List.replicate (size - data.length) 0⟩] else []

/-- A request for a view, by a process, of a section that is not an image. -/
structure ViewRequest where
  /-- The file, if the section has a path. -/
  backing : Option Backing
  sectionSize : Nat
  processHandle : Nat
  baseAddress : Option Nat
  viewSize : Option Nat

namespace ViewRequest

variable (canMap : Space → Nat → Bool) (request : ViewRequest)

def allocate (space : Space) : Option (Except LoadStatus (Nat × Nat) × Space) :=
  allocateVirtualMemory canMap request.processHandle request.baseAddress request.viewSize space

def region (space : Space) : Option Region :=
  requestedRegion request.processHandle request.baseAddress request.viewSize space

/-- The number of bytes that are stored. -/
def size : Nat :=
  max (request.viewSize.getD 0) request.sectionSize

/-- The stores of a call. -/
def stores (space : Space) : List (Write UInt8) :=
  match request.allocate canMap space, request.backing with
  | some (.ok (base, _), _), some (.content bytes) =>
    viewStores base request.size (preadData bytes request.size)
  | _, _ => []

/-- `map_view_of_section`. -/
def map (space : Space) : Option (Except LoadStatus (Nat × Nat) × Space) :=
  match request.allocate canMap space with
  | some (.ok view, space') =>
    match request.backing with
    | none => some (.ok view, space')
    | some .missing => some (.error (.nt .objectNameNotFound), space')
    | some .unreadable => some (.error (.nt .unsuccessful), space')
    | some (.content _) =>
      some (.ok view, { space' with memory := storeAll space'.memory (request.stores canMap space) })
  | failed => failed

/-- What a view should hold: the bytes of the file. -/
def expected : Bytes :=
  match request.backing with
  | some (.content bytes) => bytes.take request.size
  | _ => []

/-- The call stores into the pages that it maps, a view holds the file and then zeros, and after
an error no page is mapped that was not mapped before. -/
structure Proper (space : Space) : Prop where
  confined : ∀ w ∈ request.stores canMap space, ∀ addr, w.off ≤ addr → addr < w.stop →
    ∃ base len space', request.allocate canMap space = some (.ok (base, len), space') ∧
      base ≤ addr ∧ addr < base + len
  content : ∀ base len space', request.map canMap space = some (.ok (base, len), space') →
    ∀ i < len, space'.memory (base + i) = request.expected[i]?.getD 0
  undone : ∀ e space', request.map canMap space = some (.error e, space') →
    ∀ page, space'.mapped page = true → space.mapped page = true

/-- The bytes of a region from an offset on are zeros, as far as their pages were mapped. -/
def ClearFrom (offset : Nat) (r : Region) (space : Space) : Prop :=
  ∀ i, offset ≤ i → i < r.len → space.mapped ((r.base + i) / pageSize) = true →
    space.memory (r.base + i) = 0

/-- The file suits a region that can be mapped. -/
def FileSuits (r : Region) (space : Space) : Prop :=
  match request.backing with
  | none => ClearFrom 0 r space
  | some (.content bytes) => request.size ≤ r.len ∧ ClearFrom request.size r space ∧
      ∀ i, request.size % 2 ^ 32 ≤ i → i < request.size → bytes[i]?.getD 0 = 0
  | some _ => ∀ k < r.count, space.mapped (r.page + k) = true

/-- When a call does what it should, by the space before it: the file suits a region that can be
mapped, and of one that cannot, the pages before the first that is refused were mapped. -/
structure Suits (space : Space) : Prop where
  file : ∀ r, request.region space = some r → r.Fits canMap space → request.FileSuits r space
  refused : ∀ r k, request.region space = some r → r.EndsAt canMap space k →
    ∀ j < k, space.mapped (r.page + j) = true

variable {canMap request}

theorem length_preadData_le
    (bytes : Bytes) (size : Nat) :
    (preadData bytes size).length ≤ size := by
  rw [preadData, List.length_take]
  exact (Nat.min_le_left _ _).trans (Nat.mod_le _ _)

/-- What was read, and the zeros behind it. -/
def filled (bytes : Bytes) (size : Nat) : Bytes :=
  preadData bytes size ++ List.replicate (size - (preadData bytes size).length) 0

theorem length_filled
    (bytes : Bytes) (size : Nat) :
    (filled bytes size).length = size := by
  have hle := length_preadData_le bytes size
  rw [filled, List.length_append, List.length_replicate]
  omega

theorem storeAll_viewStores
    (m : Nat → UInt8) (base size : Nat) (bytes : Bytes) :
    storeAll m (viewStores base size (preadData bytes size)) = store m base (filled bytes size) := by
  rw [filled, ← store_append, viewStores]
  split
  · rfl
  · rw [Nat.sub_eq_zero_of_le (by omega), List.replicate_zero, store_nil]
    rfl

/-- The stores cover the size of the request, from the base on. -/
theorem exists_store_iff
    (base size addr : Nat) (bytes : Bytes) :
    (∃ w ∈ viewStores base size (preadData bytes size), w.off ≤ addr ∧ addr < w.stop) ↔
      base ≤ addr ∧ addr < base + size := by
  have hle := length_preadData_le bytes size
  rw [viewStores]
  split
  · simp only [List.exists_mem_cons_iff, List.not_mem_nil, false_and, exists_false, or_false,
      Write.stop, List.length_replicate]
    omega
  · simp only [List.exists_mem_cons_iff, List.not_mem_nil, false_and, exists_false, or_false,
      Write.stop]
    omega

theorem getElem?_filled
    {i size : Nat} (bytes : Bytes)
    (hi : i < size) :
    (filled bytes size)[i]?.getD 0 = if i < size % 2 ^ 32 then bytes[i]?.getD 0 else 0 := by
  rw [filled, List.getElem?_append]
  by_cases hread : i < (preadData bytes size).length
  · have hlt : i < size % 2 ^ 32 := by
      rw [preadData, List.length_take] at hread
      omega
    rw [if_pos hread, if_pos hlt, preadData, List.getElem?_take, if_pos hlt]
  · rw [if_neg hread, List.getElem?_replicate, if_pos (by omega)]
    split
    next hlt =>
      rw [preadData, List.length_take] at hread
      rw [List.getElem?_eq_none (by omega)]
      rfl
    next =>
      rfl

section Allocated

variable {r : Region} {space : Space}

/-- The bytes of a new view behind an offset are zeros exactly if those of mapped pages were. -/
theorem clear_iff
    (offset : Nat) :
    (∀ i, offset ≤ i → i < r.len → (r.mapFirst space r.count).memory (r.base + i) = 0) ↔
      ClearFrom offset r space := by
  constructor
  · intro hzero i hlow hhigh hmapped
    rw [← Region.memory_mapFirst_of_mapped hmapped]
    exact hzero i hlow hhigh
  · intro hclear i hlow hhigh
    cases hmapped : space.mapped ((r.base + i) / pageSize) with
    | true =>
      rw [Region.memory_mapFirst_of_mapped hmapped]
      exact hclear i hlow hhigh hmapped
    | false =>
      refine Region.memory_mapFirst_of_new hmapped ?_
      simp only [Region.base, Region.len, pageSize] at hhigh ⊢
      omega

/-- No page is new when the first pages of a region are mapped exactly if they were mapped. -/
theorem undone_iff
    (k : Nat) :
    (∀ page, (r.mapFirst space k).mapped page = true → space.mapped page = true) ↔
      ∀ j < k, space.mapped (r.page + j) = true := by
  constructor
  · intro hold j hj
    exact hold _ (Region.mapped_mapFirst.mpr (.inr (by omega)))
  · intro hall page hpage
    rcases Region.mapped_mapFirst.mp hpage with hpage | ⟨hlow, hhigh⟩
    · exact hpage
    · have hmapped := hall (page - r.page) (by omega)
      rwa [Nat.add_sub_cancel' hlow] at hmapped

/-- A file is read into the view. -/
theorem content_iff
    (bytes : Bytes)
    (hfits : request.size ≤ r.len) :
    (∀ i < r.len, store (r.mapFirst space r.count).memory r.base (filled bytes request.size)
        (r.base + i) = (bytes.take request.size)[i]?.getD 0) ↔
      ClearFrom request.size r space ∧
        ∀ i, request.size % 2 ^ 32 ≤ i → i < request.size → bytes[i]?.getD 0 = 0 := by
  have hlength := length_filled bytes request.size
  have hinside : ∀ i < request.size,
      store (r.mapFirst space r.count).memory r.base (filled bytes request.size) (r.base + i) =
        if i < request.size % 2 ^ 32 then bytes[i]?.getD 0 else 0 := by
    intro i hi
    rw [← getElem?_filled bytes hi, store_apply_inside _ (by omega),
      List.getElem?_eq_getElem (by omega)]
    rfl
  have houtside : ∀ i, request.size ≤ i →
      store (r.mapFirst space r.count).memory r.base (filled bytes request.size) (r.base + i) =
        (r.mapFirst space r.count).memory (r.base + i) :=
    fun i hi => store_apply_outside _ (.inr (by omega))
  rw [← clear_iff]
  constructor
  · intro hall
    refine ⟨fun i hlow hhigh => ?_, fun i hlow hhigh => ?_⟩
    · rw [← houtside i hlow, hall i hhigh, List.getElem?_take, if_neg (by omega)]
      rfl
    · have hi := hall i (by omega)
      rw [hinside i hhigh, if_neg (by omega), List.getElem?_take, if_pos hhigh] at hi
      exact hi.symm
  · rintro ⟨hclear, hzeros⟩ i hi
    rw [List.getElem?_take]
    by_cases hsize : i < request.size
    · rw [hinside i hsize, if_pos hsize]
      split
      · rfl
      · exact (hzeros i (by omega) hsize).symm
    · rw [houtside i (by omega), if_neg hsize, hclear i (by omega) hi]
      rfl

/-- A call that stores nothing and comes back with an error. -/
theorem proper_of_failure {e : LoadStatus} {k : Nat}
    (hmap : request.map canMap space = some (.error e, r.mapFirst space k))
    (hstores : request.stores canMap space = []) :
    request.Proper canMap space ↔ ∀ j < k, space.mapped (r.page + j) = true := by
  rw [← undone_iff]
  constructor
  · exact fun hproper => hproper.undone e _ hmap
  · intro hold
    refine ⟨by simp [hstores], by simp [hmap], fun e' space'' heq => ?_⟩
    cases hmap.symm.trans heq
    exact hold

/-- A call that stores nothing and maps nothing. -/
theorem proper_of_nothing
    (h : request.allocate canMap space = none ∨
      ∃ e, request.allocate canMap space = some (.error e, space)) :
    request.Proper canMap space := by
  have hstores : request.stores canMap space = [] := by
    rcases h with h | ⟨e, h⟩ <;> rw [stores, h]
  rcases h with h | ⟨e, h⟩
  · have hmap : request.map canMap space = none := by rw [map, h]
    exact ⟨by simp [hstores], by simp [hmap], by simp [hmap]⟩
  · have hmap : request.map canMap space = some (.error e, space) := by rw [map, h]
    refine ⟨by simp [hstores], by simp [hmap], fun e' space' heq => ?_⟩
    cases hmap.symm.trans heq
    exact fun _ hpage => hpage

/-- Without a file nothing is stored. -/
theorem proper_iff_of_memory
    (halloc : request.allocate canMap space =
      some (.ok (r.base, r.len), r.mapFirst space r.count))
    (hbacking : request.backing = none) :
    request.Proper canMap space ↔ ClearFrom 0 r space := by
  have hmap : request.map canMap space =
      some (.ok (r.base, r.len), r.mapFirst space r.count) := by
    rw [map, halloc, hbacking]
  have hstores : request.stores canMap space = [] := by rw [stores, halloc, hbacking]
  have hexpected : request.expected = [] := by rw [expected, hbacking]
  rw [← clear_iff]
  constructor
  · intro h i _ hi
    rw [h.content r.base r.len _ hmap i hi, hexpected]
    rfl
  · intro h
    refine ⟨by simp [hstores], fun base' len' space'' heq i hi => ?_, by simp [hmap]⟩
    cases hmap.symm.trans heq
    rw [h i (Nat.zero_le i) hi, hexpected]
    rfl

/-- With a file, the view has to be as long as what is stored. -/
theorem proper_iff_of_content {bytes : Bytes}
    (halloc : request.allocate canMap space =
      some (.ok (r.base, r.len), r.mapFirst space r.count))
    (hbacking : request.backing = some (.content bytes)) :
    request.Proper canMap space ↔ request.size ≤ r.len ∧ ClearFrom request.size r space ∧
      ∀ i, request.size % 2 ^ 32 ≤ i → i < request.size → bytes[i]?.getD 0 = 0 := by
  have hstores : request.stores canMap space =
      viewStores r.base request.size (preadData bytes request.size) := by
    rw [stores, halloc, hbacking]
  have hmap : request.map canMap space = some (.ok (r.base, r.len),
      { r.mapFirst space r.count with
        memory := store (r.mapFirst space r.count).memory r.base (filled bytes request.size) }) := by
    rw [map, halloc, hbacking, hstores, ← storeAll_viewStores]
  have hexpected : request.expected = bytes.take request.size := by rw [expected, hbacking]
  constructor
  · intro h
    have hfits : request.size ≤ r.len := by
      by_contra hlong
      obtain ⟨w, hw, hlow, hhigh⟩ := (exists_store_iff r.base request.size (r.base + r.len)
        bytes).mpr (by omega)
      obtain ⟨base', len', space'', heq, -, hend⟩ :=
        h.confined w (hstores ▸ hw) (r.base + r.len) hlow hhigh
      cases halloc.symm.trans heq
      omega
    refine ⟨hfits, (content_iff bytes hfits).mp fun i hi => ?_⟩
    rw [← hexpected]
    exact h.content r.base r.len _ hmap i hi
  · rintro ⟨hfits, h⟩
    refine ⟨fun w hw addr hlow hhigh => ⟨r.base, r.len, _, halloc, ?_⟩,
      fun base' len' space'' heq i hi => ?_, by simp [hmap]⟩
    · have hin := (exists_store_iff r.base request.size addr bytes).mp
        ⟨w, hstores ▸ hw, hlow, hhigh⟩
      omega
    · cases hmap.symm.trans heq
      rw [hexpected]
      exact (content_iff bytes hfits).mpr h i hi

/-- A region that is mapped. -/
theorem proper_iff_of_fits
    (halloc : request.allocate canMap space =
      some (.ok (r.base, r.len), r.mapFirst space r.count)) :
    request.Proper canMap space ↔ request.FileSuits r space := by
  rw [FileSuits]
  rcases hbacking : request.backing with _ | _ | _ | bytes
  · exact proper_iff_of_memory halloc hbacking
  · exact proper_of_failure (by rw [map, halloc, hbacking]) (by rw [stores, halloc, hbacking])
  · exact proper_of_failure (by rw [map, halloc, hbacking]) (by rw [stores, halloc, hbacking])
  · exact proper_iff_of_content halloc hbacking

end Allocated

end ViewRequest

open ViewRequest in
/-- **Views of sections.**  A request stores only into the pages that it maps, leaves the file
and zeros in the view, and undoes the mapping on an error, exactly if it suits: the section is
not larger than the pages of the view, the pages that were mapped before hold zeros where
nothing is stored, the file has no more than `u32::MAX` bytes to read, and nothing fails once a
new page is mapped. -/
theorem section_view_proper_iff (canMap : Space → Nat → Bool) (request : ViewRequest)
    (space : Space) :
    request.Proper canMap space ↔ request.Suits canMap space := by
  rcases hregion : request.region space with _ | r
  · have hsuits : request.Suits canMap space := ⟨by simp [hregion], by simp [hregion]⟩
    exact iff_of_true (proper_of_nothing (allocateVirtualMemory_of_none canMap hregion)) hsuits
  have halloc : request.allocate canMap space = _ := allocateVirtualMemory_of_some hregion
  rcases Region.mapView_cases canMap r space with
    ⟨hfits, hmap⟩ | ⟨hnot, hends, hmap⟩ | ⟨k, hend, hmap⟩
  · rw [proper_iff_of_fits (halloc.trans hmap)]
    refine ⟨fun h => ⟨fun r' hr _ => ?_, fun r' k hr hend => ?_⟩, fun h => h.file r hregion hfits⟩
    · cases hregion.symm.trans hr
      exact h
    · cases hregion.symm.trans hr
      exact absurd hfits hend.not_fits
  · refine iff_of_true (proper_of_nothing (.inl (halloc.trans hmap))) ⟨fun r' hr hfits => ?_,
      fun r' k hr hend => ?_⟩
    · cases hregion.symm.trans hr
      exact absurd hfits hnot
    · cases hregion.symm.trans hr
      exact absurd hend (hends k)
  · have halloc' := halloc.trans hmap
    rw [proper_of_failure (by rw [map, halloc']) (by rw [stores, halloc'])]
    refine ⟨fun h => ⟨fun r' hr hfits => ?_, fun r' k' hr hend' => ?_⟩,
      fun h => h.refused r k hregion hend⟩
    · cases hregion.symm.trans hr
      exact absurd hfits hend.not_fits
    · cases hregion.symm.trans hr
      rw [hend.unique hend']
      exact h

/-- A space with nothing mapped. -/
def emptySpace : Space :=
  ⟨userAllocBase, fun _ => false, fun _ => 0⟩

/-- A view of the whole of a section of one page, with a file of one byte, suits. -/
example :
    ViewRequest.Suits plenty ⟨some (.content [1]), 4096, usizeMax, some 0, some 4096⟩
      emptySpace := by
  have hlen : User.alignUp 4096 = some 4096 := by decide
  have hbase : User.alignUp emptySpace.nextAllocBase = some userAllocBase := by decide
  have hregion : ∃ next, requestedRegion usizeMax (some 0) (some 4096) emptySpace =
      some ⟨userAllocBase / pageSize, 1, next⟩ := by
    simp only [requestedRegion, hlen, hbase, ne_eq, not_true_eq_false, OfNat.ofNat_ne_zero,
      or_self, if_false, if_true, Option.bind_some, Option.map_some]
    exact ⟨_, rfl⟩
  obtain ⟨next, hregion⟩ := hregion
  refine ⟨fun r hr _ => ?_, fun r k _ hend => absurd rfl hend.refused⟩
  cases hregion.symm.trans hr
  simp only [ViewRequest.FileSuits, ViewRequest.ClearFrom, ViewRequest.size, Region.len, pageSize,
    Option.getD_some]
  refine ⟨by omega, fun i hlow hhigh => ?_, fun i hlow hhigh => ?_⟩
  · omega
  · omega

/-- A view of one page of a section of two pages, with a file of one byte. -/
def shortView : ViewRequest :=
  ⟨some (.content [1]), 8192, usizeMax, some 0, some 4096⟩

/-- Zeros are stored behind the page of the view. -/
theorem short_view_overrun :
    shortView.allocate plenty emptySpace ≠ none ∧ ¬ shortView.Proper plenty emptySpace := by
  have hlen : User.alignUp 4096 = some 4096 := by decide
  have hbase : User.alignUp emptySpace.nextAllocBase = some userAllocBase := by decide
  have hcanonical : User.Canonical userAllocBase := by decide
  have halloc : ∃ space', shortView.allocate plenty emptySpace =
      some (.ok (userAllocBase, 4096), space') := by
    simp only [ViewRequest.allocate, shortView, allocateVirtualMemory, hlen, hbase, mapView,
      ne_eq, not_true_eq_false, false_or, OfNat.ofNat_ne_zero, if_false, if_true]
    rw [show (4096 + pageSize - 1) / pageSize = 1 from rfl, mapChecked, if_pos hcanonical, mapPage,
      if_pos (by rfl), if_neg (by decide)]
    exact ⟨_, rfl⟩
  obtain ⟨space', halloc⟩ := halloc
  refine ⟨by rw [halloc]; exact Option.some_ne_none _, fun hproper => ?_⟩
  have hstores : shortView.stores plenty emptySpace =
      viewStores userAllocBase 8192 (preadData [1] 8192) := by
    rw [ViewRequest.stores, halloc]
    rfl
  obtain ⟨w, hw, hlow, hhigh⟩ := (ViewRequest.exists_store_iff userAllocBase 8192
    (userAllocBase + 4096) [1]).mpr (by omega)
  obtain ⟨base, len, space'', heq, -, hend⟩ :=
    hproper.confined w (hstores ▸ hw) (userAllocBase + 4096) hlow hhigh
  cases halloc.symm.trans heq
  omega

end Loader
end Kernel
end Theos
