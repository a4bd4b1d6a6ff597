import Theos.Base.Run
import Theos.Kernel.ImageStores
import Theos.Kernel.SectionViews

/-!
# Unmapping views

Views are not recorded.  `unmap_view_of_section` takes the length of a view to be that of the run
of mapped pages from its base on, so it removes what the call for the view mapped exactly if the
run is that of the new pages: if the first pages of the view were new, they have been there ever
since and the page behind them is not mapped.  Regions that the kernel chooses have a page between
them; regions by address need not, and can cover pages that are mapped already.

A view of an image is at the base of the image, where it can be that no page starts; then the
view is not found.
-/

namespace Theos
namespace Kernel
namespace Loader

open Base

/-! ## Runs of pages -/

/-- The number of pages of an address space. -/
def pageCount : Nat := 2 ^ 52

/-- The loop of `mapped_region_len`, in pages.  The cursor stays at the last address when it gets
to the end, which is that of no page. -/
def runLength (mapped : Nat → Bool) : Nat → Nat → Nat
  | 0, _ => 0
  | left + 1, page => if mapped page then runLength mapped left (page + 1) + 1 else 0

theorem runLength_spec
    (mapped : Nat → Bool) (left page : Nat) :
    runLength mapped left page ≤ left ∧
      (∀ k < runLength mapped left page, mapped (page + k) = true) ∧
      (runLength mapped left page < left → mapped (page + runLength mapped left page) = false) := by
  induction left generalizing page with
  | zero =>
    exact ⟨Nat.le_refl 0, fun k hk => absurd hk (Nat.not_lt_zero k),
      fun h => absurd h (Nat.lt_irrefl 0)⟩
  | succ left ih =>
    rw [runLength]
    split
    next hpage =>
      obtain ⟨hle, hrun, hend⟩ := ih (page + 1)
      refine ⟨by omega, fun k hk => ?_, fun hlt => ?_⟩
      · cases k with
        | zero =>
          exact hpage
        | succ k =>
          rw [← Nat.add_assoc, Nat.add_right_comm]
          exact hrun k (by omega)
      · rw [← Nat.add_assoc, Nat.add_right_comm]
        exact hend (by omega)
    next hpage =>
      refine ⟨Nat.zero_le _, fun k hk => absurd hk (Nat.not_lt_zero k), fun _ => ?_⟩
      simpa using hpage

/-- The page is in the address space and mapped. -/
def Occupied (space : Space) (page : Nat) : Prop :=
  page < pageCount ∧ space.mapped page = true

/-- `mapped_region_len`, in pages. -/
def mappedRegionLen (space : Space) (start : Nat) : Option Nat :=
  if start % pageSize = 0 ∧ start / pageSize < pageCount ∧
      space.mapped (start / pageSize) = true then
    some (runLength space.mapped (pageCount - start / pageSize) (start / pageSize))
  else none

/-- `free_virtual_memory` of a number of pages. -/
def freeRegion (page count : Nat) (space : Space) : Space :=
  { space with mapped := fun p => space.mapped p && !decide (page ≤ p ∧ p < page + count) }

/-- `unmap_view_of_section`. -/
def unmapViewOfSection (baseAddress : Nat) : Load Unit :=
  fun s =>
    match mappedRegionLen s.space baseAddress with
    | none => some (.error (.nt .invalidParameter), s)
    | some count =>
      some (.ok (), { s with space := freeRegion (baseAddress / pageSize) count s.space })

/-! ## Calls -/

section Calls

variable (canMap : Space → Nat → Bool) (library : Library) (depth : Nat)

/-- A step in the address space that can panic. -/
def Load.inSpaceOrPanic {α : Type} (f : Space → Option (Except LoadStatus α × Space)) : Load α :=
  fun s => (f s.space).map fun result => (result.1, { s with space := result.2 })

/-- `map_image_view`. -/
def mapImageView (ntPath : Text) : Load LoadedImage := do
  let canonicalPath := canonicalModulePath ntPath
  let template ← Load.ofExcept (moduleTemplate library canonicalPath)
  loadPeImage canMap (loadModule canMap library depth) depth canonicalPath template

/-- `map_view_of_section`, for the section that the handle leads to. -/
def mapViewOfSection (files : Text → Backing) (object : Except LoadStatus Nt.SectionObject)
    (processHandle : Nat) (baseAddress viewSize : Option Nat) : Load (Nat × Nat) :=
  match baseAddress, viewSize with
  | some base, some size =>
    if processHandle ≠ usizeMax then Load.fail (.nt .invalidParameter)
    else
      match object with
      | .error e => Load.fail e
      | .ok part =>
        if part.attributes &&& Nt.secImage ≠ 0 then
          if base ≠ 0 then Load.fail (.nt .notImplemented)
          else
            match part.ntPath with
            | none => Load.fail (.nt .objectNameNotFound)
            | some ntPath => do
              let image ← mapImageView canMap library depth ntPath
              pure (image.imageBase, image.sizeOfImage)
        else
          Load.inSpaceOrPanic (ViewRequest.map canMap
            ⟨part.path.map files, part.size, processHandle, some base, some size⟩)
  | _, _ => Load.fail (.nt .invalidParameter)

/-- A call of a process, with what it meets. -/
inductive ViewCall where
  | allocate (processHandle : Nat) (baseAddress regionSize : Option Nat)
  | mapView (files : Text → Backing) (object : Except LoadStatus Nt.SectionObject)
      (processHandle : Nat) (baseAddress viewSize : Option Nat)
  | unmapView (baseAddress : Nat)

/-- A call, with the view that it returns. -/
def ViewCall.run : ViewCall → Load (Option (Nat × Nat))
  | .allocate processHandle baseAddress regionSize => do
    let _ ← Load.inSpaceOrPanic (allocateVirtualMemory canMap processHandle baseAddress regionSize)
    pure none
  | .mapView files object processHandle baseAddress viewSize => do
    let view ← mapViewOfSection canMap library depth files object processHandle baseAddress viewSize
    pure (some view)
  | .unmapView baseAddress => do
    unmapViewOfSection baseAddress
    pure none

/-- A process and the views that were returned to it, with their bases and sizes. -/
structure ViewState where
  process : Process
  views : List (Nat × Nat)

/-- The process makes a call that comes back. -/
def ViewState.Steps (s : ViewState) (call : ViewCall) (t : ViewState) : Prop :=
  ∃ r, call.run canMap library depth s.process = some (r, t.process) ∧
    t.views = match r with
      | .ok (some view) => view :: s.views
      | _ => s.views

end Calls

/-! ## Exact removal -/

/-- The number of the page of an address. -/
def pageNumber (addr : Nat) : Nat :=
  addr / pageSize

/-- The pages that a call has mapped: they are mapped after it and were not before. -/
def MappedBetween (space space' : Space) (page : Nat) : Prop :=
  Occupied space' page ∧ ¬ Occupied space page

/-- Every one of these pages is removed, and nothing else: no other page, and nothing that was
mapped anew where one of them was. -/
def Removes (pages kept : Nat → Prop) (space space' : Space) : Prop :=
  (∀ page, pages page → Occupied space page ∧ ¬ Occupied space' page) ∧
    ∀ page, Occupied space page → ¬ Occupied space' page → pages page ∧ kept page

/-- The pages are a run from the base on, they were kept and are mapped, and the page behind them
is not.  From a base that no page starts at, there are none. -/
def StandsAlone (pages kept : Nat → Prop) (base : Nat) (space : Space) : Prop :=
  ∃ count, (∀ page, pages page ↔ pageNumber base ≤ page ∧ page < pageNumber base + count) ∧
    (∀ page, pages page → kept page ∧ Occupied space page) ∧
    if base % pageSize = 0 then ¬ Occupied space (pageNumber base + count) else count = 0

theorem removed_iff_inRun {space : Space} {page count : Nat}
    (hrun : ∀ k < count, Occupied space (page + k))
    (p : Nat) :
    Occupied space p ∧ ¬ Occupied (freeRegion page count space) p ↔
      page ≤ p ∧ p < page + count := by
  have hafter : Occupied (freeRegion page count space) p ↔
      Occupied space p ∧ ¬ (page ≤ p ∧ p < page + count) := by
    simp only [Occupied, freeRegion, Bool.and_eq_true, Bool.not_eq_true', decide_eq_false_iff_not,
      and_assoc]
  rw [hafter, not_and, not_not]
  constructor
  · rintro ⟨hoccupied, hin⟩
    exact hin hoccupied
  · intro hin
    have hoccupied := hrun (p - page) (by omega)
    rw [Nat.add_sub_cancel' hin.1] at hoccupied
    exact ⟨hoccupied, fun _ => hin⟩

theorem mappedRegionLen_eq_some {space : Space} {start count : Nat}
    (h : mappedRegionLen space start = some count) :
    start % pageSize = 0 ∧ (∀ k < count, Occupied space (pageNumber start + k)) ∧
      ¬ Occupied space (pageNumber start + count) := by
  rw [mappedRegionLen] at h
  split at h
  next hstart =>
    obtain ⟨hmod, hbelow, -⟩ := hstart
    rw [← pageNumber] at h hbelow
    obtain ⟨hle, hrun, hend⟩ := runLength_spec space.mapped (pageCount - pageNumber start)
      (pageNumber start)
    rw [Option.some.inj h] at hle hrun hend
    refine ⟨hmod, fun k hk => ⟨by omega, hrun k hk⟩, ?_⟩
    rintro ⟨hbelow', hmapped⟩
    rw [hend (by omega)] at hmapped
    cases hmapped
  next =>
    cases h

theorem mappedRegionLen_eq_none {space : Space} {start : Nat}
    (h : mappedRegionLen space start = none)
    (hstart : start % pageSize = 0) :
    ¬ Occupied space (pageNumber start) := by
  rw [mappedRegionLen] at h
  split at h
  · cases h
  next hnot =>
    exact fun hoccupied => hnot ⟨hstart, hoccupied⟩

section Removal

variable {pages kept : Nat → Prop} {space : Space} {base count : Nat}

theorem removes_iff_of_none
    (h : mappedRegionLen space base = none) :
    Removes pages kept space space ↔ StandsAlone pages kept base space := by
  have hnothing : Removes pages kept space space ↔ ∀ page, ¬ pages page :=
    ⟨fun hremoves page hpage => (hremoves.1 page hpage).2 (hremoves.1 page hpage).1,
      fun hnone => ⟨fun page hpage => absurd hpage (hnone page),
        fun page hoccupied hnot => absurd hoccupied hnot⟩⟩
  rw [hnothing]
  constructor
  · intro hnone
    refine ⟨0, fun page => iff_of_false (hnone page) (by omega),
      fun page hpage => absurd hpage (hnone page), ?_⟩
    split
    next hbase =>
      exact mappedRegionLen_eq_none h hbase
    next =>
      rfl
  · rintro ⟨count, hpages, hmapped, hend⟩ page hpage
    split at hend
    next hbase =>
      -- The first page of the run would be mapped.
      have hfirst := (hpages page).mp hpage
      exact mappedRegionLen_eq_none h hbase
        (hmapped _ ((hpages _).mpr ⟨Nat.le_refl _, by omega⟩)).2
    next =>
      have hfirst := (hpages page).mp hpage
      omega

theorem removes_iff_of_some
    (h : mappedRegionLen space base = some count) :
    Removes pages kept space (freeRegion (pageNumber base) count space) ↔
      StandsAlone pages kept base space := by
  obtain ⟨hbase, hrun, hend⟩ := mappedRegionLen_eq_some h
  have hremoved := removed_iff_inRun hrun
  constructor
  · rintro ⟨hall, honly⟩
    refine ⟨count, fun page => ⟨fun hpage => (hremoved page).mp (hall page hpage), fun hin => ?_⟩,
      fun page hpage => ?_, ?_⟩
    · obtain ⟨hoccupied, hnot⟩ := (hremoved page).mpr hin
      exact (honly page hoccupied hnot).1
    · obtain ⟨hoccupied, hnot⟩ := hall page hpage
      exact ⟨(honly page hoccupied hnot).2, hoccupied⟩
    · rwa [if_pos hbase]
  · rintro ⟨count', hpages, hmapped, hbehind⟩
    rw [if_pos hbase] at hbehind
    have hcount : count = count' := by
      rcases Nat.lt_trichotomy count count' with hlt | heq | hgt
      · exact absurd (hmapped _ ((hpages _).mpr ⟨by omega, by omega⟩)).2 hend
      · exact heq
      · exact absurd (hrun _ hgt) hbehind
    subst hcount
    refine ⟨fun page hpage => (hremoved page).mpr ((hpages page).mp hpage),
      fun page hoccupied hnot => ?_⟩
    have hpage := (hpages page).mpr ((hremoved page).mp ⟨hoccupied, hnot⟩)
    exact ⟨hpage, (hmapped page hpage).1⟩

end Removal

/-! ## Runs of calls -/

section Views

variable {canMap : Space → Nat → Bool} {library : Library} {depth : Nat}

/-- A step returns at most one view. -/
theorem ViewState.Steps.views {s t : ViewState} {call : ViewCall}
    (h : s.Steps canMap library depth call t) :
    t.views = s.views ∨ ∃ view, t.views = view :: s.views := by
  obtain ⟨r, -, hviews⟩ := h
  split at hviews
  next view =>
    exact .inr ⟨view, hviews⟩
  next =>
    exact .inl hviews

/-- The view was returned by a call of the run, between these states and before these calls. -/
def ReturnedBetween (canMap : Space → Nat → Bool) (library : Library) (depth : Nat)
    (s₀ : ViewState) (calls : List ViewCall) (s : ViewState) (view : Nat × Nat)
    (s₁ s₂ : ViewState) (after : List ViewCall) : Prop :=
  ∃ before call, calls = before ++ call :: after ∧
    Run (ViewState.Steps canMap library depth) s₀ before s₁ ∧
    s₁.Steps canMap library depth call s₂ ∧
    Run (ViewState.Steps canMap library depth) s₂ after s ∧
    s₂.views = view :: s₁.views

/-- The page is mapped after each of these calls. -/
def StaysMapped (canMap : Space → Nat → Bool) (library : Library) (depth : Nat)
    (s : ViewState) (calls : List ViewCall) (t : ViewState) (page : Nat) : Prop :=
  Run (fun s call t => s.Steps canMap library depth call t ∧ Occupied t.process.space page)
    s calls t

/-- Every view was returned in the run. -/
theorem exists_return_of_mem {s₀ s : ViewState} {calls : List ViewCall} {view : Nat × Nat}
    (hrun : Run (ViewState.Steps canMap library depth) s₀ calls s)
    (hnew : view ∉ s₀.views)
    (hview : view ∈ s.views) :
    ∃ s₁ s₂ after, ReturnedBetween canMap library depth s₀ calls s view s₁ s₂ after := by
  induction hrun with
  | nil =>
    exact absurd hview hnew
  | @cons s₀ s₁ s call calls hstep hrest ih =>
    by_cases hnow : view ∈ s₁.views
    · rcases hstep.views with hsame | ⟨returned, hviews⟩
      · exact absurd (hsame ▸ hnow) hnew
      · rw [hviews] at hnow
        rcases List.mem_cons.mp hnow with rfl | hold
        · exact ⟨s₀, s₁, calls, [], call, rfl, .nil s₀, hstep, hrest, hviews⟩
        · exact absurd hold hnew
    · obtain ⟨t₁, t₂, after, before, call', rfl, hbefore, hstep', hafter, hviews⟩ := ih hnow hview
      exact ⟨t₁, t₂, after, call :: before, call', rfl, .cons hstep hbefore, hstep', hafter,
        hviews⟩

end Views

/-! ## Two regions next to each other -/

def dataSection : Nt.SectionObject :=
  ⟨none, none, pageReadwrite, 0, 4096⟩

/-- A page at an address. -/
def pageAllocation (base : Nat) : ViewCall :=
  .allocate usizeMax (some base) (some 4096)

def pageView : ViewCall :=
  .mapView (fun _ => .missing) (.ok dataSection) usizeMax (some 0xff000) (some 4096)

/-- With memory for every page, one page is mapped at an address. -/
theorem allocate_one {base : Nat}
    (hne : base ≠ 0)
    (hbase : User.alignDown base = base)
    (hcanonical : User.Canonical base)
    (space : Space) :
    ∃ space', allocateVirtualMemory plenty usizeMax (some base) (some 4096) space =
        some (.ok (base, 4096), space') ∧
      ∀ page, space'.mapped page = true ↔ space.mapped page = true ∨ page = pageNumber base := by
  have hlen : User.alignUp 4096 = some 4096 := by decide
  have hallocate : ∃ space', allocateVirtualMemory plenty usizeMax (some base) (some 4096) space =
      some (.ok (base, 4096), space') := by
    simp only [allocateVirtualMemory, hlen, hne, hbase, mapView, ne_eq, not_true_eq_false, false_or,
      OfNat.ofNat_ne_zero, if_false]
    rw [show (4096 + pageSize - 1) / pageSize = 1 from rfl, mapChecked, if_pos hcanonical, mapPage,
      if_pos (by rfl)]
    split_ifs
    · exact ⟨_, rfl⟩
    · exact ⟨_, rfl⟩
  obtain ⟨space', hallocate⟩ := hallocate
  refine ⟨space', hallocate, fun page => ?_⟩
  obtain ⟨r, -, -, hstart, hcount, rfl⟩ := allocateVirtualMemory_ok hallocate
  rw [Region.mapped_mapFirst]
  refine or_congr Iff.rfl ?_
  simp only [Region.base, Region.len, pageNumber, pageSize] at hstart hcount ⊢
  omega

theorem steps_pageAllocation {base : Nat}
    (hne : base ≠ 0)
    (hbase : User.alignDown base = base)
    (hcanonical : User.Canonical base)
    (space : Space)
    (views : List (Nat × Nat)) :
    ∃ space', ViewState.Steps plenty [] 0 ⟨⟨[], space, []⟩, views⟩ (pageAllocation base)
        ⟨⟨[], space', []⟩, views⟩ ∧
      ∀ page, space'.mapped page = true ↔ space.mapped page = true ∨ page = pageNumber base := by
  obtain ⟨space', hallocate, hmapped⟩ := allocate_one hne hbase hcanonical space
  refine ⟨space', ⟨.ok none, ?_, rfl⟩, hmapped⟩
  rw [pageAllocation, ViewCall.run, Load.bind_apply, Load.inSpaceOrPanic]
  simp only [hallocate]
  rfl

theorem steps_pageView
    (space : Space) :
    ∃ space', ViewState.Steps plenty [] 0 ⟨⟨[], space, []⟩, []⟩ pageView
        ⟨⟨[], space', []⟩, [(0xff000, 4096)]⟩ ∧
      ∀ page, space'.mapped page = true ↔ space.mapped page = true ∨ page = 0xff := by
  obtain ⟨space', hallocate, hmapped⟩ := allocate_one (show 0xff000 ≠ 0 by decide) (by decide)
    (by decide) space
  have himage : ¬ dataSection.attributes &&& Nt.secImage ≠ 0 := by decide
  refine ⟨space', ⟨.ok (some (0xff000, 4096)), ?_, rfl⟩, hmapped⟩
  rw [pageView, ViewCall.run, Load.bind_apply]
  simp only [mapViewOfSection, if_neg himage, ne_eq, not_true_eq_false, if_false,
    Load.inSpaceOrPanic, ViewRequest.map, ViewRequest.allocate, hallocate]
  rfl

end Loader
end Kernel
end Theos
