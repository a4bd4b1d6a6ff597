import Theos.Base.Rust
import Theos.Kernel.ModuleLoads
import Theos.Kernel.SectionViews

/-!
# Stores of an image

The stores that `load_pe_image` makes for one image, in their order: the zeros, the headers and
the sections, then the relocations, then the slots of the imports.  The modules that are loaded
for the imports make stores of their own, into their own images.

`build_module_template` accepts a file only if its parts are inside the image, and the targets of
relocations and imports are compared with the size of the image, so all of the stores are between
the base and the end of the image.  The pages are those of the size of the image, rounded up,
from the start of the first page on: if the base is not at the start of a page, the image can go
on behind the last one.
-/

namespace Theos
namespace Kernel
namespace Loader

open Base

/-! ## Layouts of files -/

inductive TemplateError where
  | invalidImageFormat
  | imageMachineTypeMismatch
deriving DecidableEq, Repr

structure SectionHeader where
  virtualAddress : UInt32
  virtualSize : UInt32
  pointerToRawData : UInt32
  sizeOfRawData : UInt32
  characteristics : UInt32

/-- A block of relocations, with an offset and a kind for each word that can be read. -/
structure RelocationBlock where
  rva : UInt32
  words : List (Option (UInt16 × UInt8))

/-- A file as `PE::parse` reports it: what the layout is made of. -/
structure PeFile where
  is64 : Bool
  machine : UInt16
  /-- `size_of_image` and `size_of_headers`. -/
  optionalHeader : Option (UInt32 × UInt32)
  imageBase : UInt64
  entry : UInt32
  sections : List SectionHeader
  relocationData : Option (List (Option RelocationBlock))

/-- `COFF_MACHINE_X86_64`. -/
def machineX8664 : UInt16 := 0x8664

def buildSection (sizeOfImage : Nat) (bytes : Bytes) (header : SectionHeader) :
    Rust TemplateError TemplateSection :=
  let rawOffset := header.pointerToRawData.toNat
  let rawSize := header.sizeOfRawData.toNat
  let virtualSize := max header.virtualSize.toNat rawSize
  let stop := min (rawOffset + rawSize) bytes.length
  if sizeOfImage < header.virtualAddress.toNat + virtualSize then Rust.err .invalidImageFormat
  else .ok {
    virtualAddress := header.virtualAddress.toNat
    virtualSize := virtualSize
    characteristics := header.characteristics.toNat
    data := if rawSize = 0 ∨ stop ≤ rawOffset then [] else slice bytes rawOffset (stop - rawOffset) }

def buildSections (sizeOfImage : Nat) (bytes : Bytes) :
    List SectionHeader → Rust TemplateError (List TemplateSection)
  | [] => .ok []
  | header :: headers => do
    let part ← buildSection sizeOfImage bytes header
    let parts ← buildSections sizeOfImage bytes headers
    return part :: parts

def buildWords (rva : UInt32) :
    List (Option (UInt16 × UInt8)) → Rust TemplateError (List TemplateRelocation)
  | [] => .ok []
  | none :: _ => Rust.err .invalidImageFormat
  | some (offset, kind) :: words => do
    let target ← Rust.orPanic (addU 32 rva.toNat offset.toNat)
    let relocations ← buildWords rva words
    return ⟨target, kind.toNat⟩ :: relocations

def buildRelocations :
    List (Option RelocationBlock) → Rust TemplateError (List TemplateRelocation)
  | [] => .ok []
  | none :: _ => Rust.err .invalidImageFormat
  | some block :: blocks => do
    let relocations ← buildWords block.rva block.words
    let rest ← buildRelocations blocks
    return relocations ++ rest

/-- `build_module_template` up to the imports and exports. -/
def buildLayout (pe : PeFile) (bytes : Bytes) : Rust TemplateError Layout :=
  if pe.is64 = false then Rust.err .invalidImageFormat
  else if pe.machine ≠ machineX8664 then Rust.err .imageMachineTypeMismatch
  else
    match pe.optionalHeader with
    | none => Rust.err .invalidImageFormat
    | some (sizeOfImage, sizeOfHeaders) =>
      if sizeOfImage.toNat < sizeOfHeaders.toNat then Rust.err .invalidImageFormat
      else do
        let sections ← buildSections sizeOfImage.toNat bytes pe.sections
        let relocations ← buildRelocations (pe.relocationData.getD [])
        return {
          preferredBase := pe.imageBase.toNat
          sizeOfImage := sizeOfImage.toNat
          sizeOfHeaders := sizeOfHeaders.toNat
          entryRva := pe.entry.toNat
          hasRelocations := pe.relocationData.isSome
          headers := bytes.take (min sizeOfHeaders.toNat bytes.length)
          sections := sections
          relocations := relocations }

/-- The headers and the sections are inside the image. -/
structure Enclosed (layout : Layout) : Prop where
  headers : layout.headers.length ≤ layout.sizeOfImage
  sections : ∀ part ∈ layout.sections,
    part.virtualAddress + part.virtualSize ≤ layout.sizeOfImage ∧
      part.data.length ≤ part.virtualSize

theorem buildSection_enclosed {sizeOfImage : Nat} {bytes : Bytes} {header : SectionHeader}
    {part : TemplateSection}
    (h : buildSection sizeOfImage bytes header = .ok part) :
    part.virtualAddress + part.virtualSize ≤ sizeOfImage ∧
      part.data.length ≤ part.virtualSize := by
  unfold buildSection at h
  dsimp only at h
  split at h
  · cases h
  next hfits =>
    cases h
    refine ⟨by simpa using hfits, ?_⟩
    dsimp only
    split
    · exact Nat.zero_le _
    · simp only [slice, List.length_take, List.length_drop]
      omega

theorem buildSections_enclosed {sizeOfImage : Nat} {bytes : Bytes} {headers : List SectionHeader}
    {parts : List TemplateSection}
    (h : buildSections sizeOfImage bytes headers = .ok parts) :
    ∀ part ∈ parts, part.virtualAddress + part.virtualSize ≤ sizeOfImage ∧
      part.data.length ≤ part.virtualSize := by
  induction headers generalizing parts with
  | nil =>
    cases h
    simp
  | cons header headers ih =>
    obtain ⟨part, hpart, h⟩ := Rust.bind_eq_ok.mp h
    obtain ⟨rest, hrest, h⟩ := Rust.bind_eq_ok.mp h
    cases h
    exact List.forall_mem_cons.mpr ⟨buildSection_enclosed hpart, ih hrest⟩

theorem enclosed_of_buildLayout {pe : PeFile} {bytes : Bytes} {layout : Layout}
    (h : buildLayout pe bytes = .ok layout) :
    Enclosed layout := by
  unfold buildLayout at h
  split at h
  · cases h
  split at h
  · cases h
  split at h
  · cases h
  split at h
  · cases h
  next hsize =>
    obtain ⟨sections, hsections, h⟩ := Rust.bind_eq_ok.mp h
    obtain ⟨relocations, -, h⟩ := Rust.bind_eq_ok.mp h
    cases h
    refine ⟨?_, buildSections_enclosed hsections⟩
    simp only [List.length_take]
    omega

/-! ## Pages -/

section Pages

variable {canMap : Space → Nat → Bool}

/-- The loop of `map_region` maps all pages of a region or ends at one that cannot be mapped. -/
theorem mapPages_cases
    (canMap : Space → Nat → Bool) (r : Region) (space : Space) (left k : Nat) :
    (∀ j < left, r.CanMap canMap space (k + j)) ∧
        mapPages canMap left (r.page + k) (r.mapFirst space k) =
          (.ok (), r.mapFirst space (k + left)) ∨
      (¬ ∀ j < left, r.CanMap canMap space (k + j)) ∧
        ∃ space', mapPages canMap left (r.page + k) (r.mapFirst space k) =
          (.error (.nt .noMemory), space') := by
  induction left generalizing k with
  | zero =>
    exact .inl ⟨fun j hj => absurd hj (Nat.not_lt_zero j), rfl⟩
  | succ left ih =>
    rw [mapPages, Region.mapPage_mapFirst, Nat.forall_lt_succ_left]
    by_cases hcan : canMap (r.mapFirst space k) (r.page + k) = true
    · rw [if_pos hcan, and_iff_right (show r.CanMap canMap space (k + 0) from hcan)]
      have hnext := ih (k + 1)
      simp only [Nat.add_assoc, Nat.add_comm 1] at hnext ⊢
      exact hnext
    · rw [if_neg hcan]
      exact .inr ⟨fun hall => hcan hall.1, _, rfl⟩

/-- The pages of a size from the start of a page on. -/
def pagesFrom (start size : Nat) (space : Space) : Region :=
  ⟨start / pageSize, alignTo pageSize size / pageSize, space.nextAllocBase⟩

theorem mapRegion_cases
    (canMap : Space → Nat → Bool) (start size : Nat) (space : Space) :
    (∀ k < (pagesFrom start size space).count, (pagesFrom start size space).CanMap canMap space k) ∧
        mapRegion canMap start (alignTo pageSize size) space =
          (.ok (), (pagesFrom start size space).mapFirst space (pagesFrom start size space).count) ∨
      (¬ ∀ k < (pagesFrom start size space).count,
          (pagesFrom start size space).CanMap canMap space k) ∧
        ∃ space', mapRegion canMap start (alignTo pageSize size) space =
          (.error (.nt .noMemory), space') := by
  have hcount : (alignTo pageSize size + (pageSize - 1)) / pageSize =
      (pagesFrom start size space).count := by
    have hmod := alignTo_mod pageSize size
    simp only [pagesFrom, pageSize] at hmod ⊢
    omega
  have hcases := mapPages_cases canMap (pagesFrom start size space) space
    (pagesFrom start size space).count 0
  rw [Region.mapFirst_zero] at hcases
  simp only [Nat.zero_add, Nat.add_zero] at hcases
  rw [mapRegion, hcount]
  exact hcases

/-- The address is in the pages of an image at the base. -/
def InImage (layout : Layout) (base addr : Nat) : Prop :=
  User.alignDown base ≤ addr ∧ addr < User.alignDown base + alignTo pageSize layout.sizeOfImage

theorem mapRegion_mapped {start size : Nat} {space space' : Space}
    (hstart : start % pageSize = 0)
    (h : mapRegion canMap start (alignTo pageSize size) space = (.ok (), space'))
    (addr : Nat) :
    space'.mapped (addr / pageSize) = true ↔ space.mapped (addr / pageSize) = true ∨
      start ≤ addr ∧ addr < start + alignTo pageSize size := by
  rcases mapRegion_cases canMap start size space with ⟨-, hok⟩ | ⟨-, space₁, herror⟩
  · cases hok.symm.trans h
    rw [Region.mapped_mapFirst]
    refine or_congr_right ?_
    have hmod := alignTo_mod pageSize size
    simp only [pagesFrom, pageSize] at hstart hmod ⊢
    omega
  · cases herror.symm.trans h

theorem allocateUserRegion_cases {size base : Nat} {space space' : Space}
    (h : allocateUserRegion canMap size space = (.ok base, space')) :
    base % pageSize = 0 ∧ ∀ addr, space'.mapped (addr / pageSize) = true ↔
      space.mapped (addr / pageSize) = true ∨ base ≤ addr ∧ addr < base + alignTo pageSize size := by
  rw [allocateUserRegion] at h
  generalize min (_ : Nat) _ = next at h
  split at h
  next space₁ hregion =>
    cases h
    have hmapped := mapRegion_mapped (alignTo_mod pageSize space.nextAllocBase) hregion
    exact ⟨alignTo_mod pageSize _, hmapped⟩
  next =>
    cases h

/-- The image gets the base that it prefers: the region is one of user space, its pages are free,
and they can be mapped. -/
structure Preferred (canMap : Space → Nat → Bool) (layout : Layout) (space : Space) : Prop where
  user : pml4Index layout.preferredBase ≠ 0
  free : regionIsFree space (User.alignDown layout.preferredBase)
    (alignTo pageSize layout.sizeOfImage) = true
  fits : ∀ k < (pagesFrom (User.alignDown layout.preferredBase) layout.sizeOfImage space).count,
    (pagesFrom (User.alignDown layout.preferredBase) layout.sizeOfImage space).CanMap canMap space k

theorem placeImage_of_preferred {layout : Layout} {space : Space}
    (h : Preferred canMap layout space) :
    ∃ space', placeImage canMap layout space = (.ok layout.preferredBase, space') := by
  rw [placeImage, if_neg h.user, mapRegionExact, if_pos h.free]
  rcases mapRegion_cases canMap (User.alignDown layout.preferredBase) layout.sizeOfImage space with
    ⟨-, hok⟩ | ⟨hnot, -⟩
  · rw [hok]
    exact ⟨_, rfl⟩
  · exact absurd h.fits hnot

/-- What placing an image at the base did: it is at the start of a page or gets the base that it
prefers, and its pages are mapped. -/
structure ImageAt (canMap : Space → Nat → Bool) (layout : Layout) (space : Space) (base : Nat)
    (space' : Space) : Prop where
  starts : base % pageSize = 0 ∨ base = layout.preferredBase ∧ Preferred canMap layout space
  mapped : ∀ addr, space'.mapped (addr / pageSize) = true ↔
    space.mapped (addr / pageSize) = true ∨ InImage layout base addr

theorem imageAt_of_allocate {layout : Layout} {base : Nat} {space space' : Space}
    (h : allocateUserRegion canMap layout.sizeOfImage space = (.ok base, space')) :
    ImageAt canMap layout space base space' := by
  obtain ⟨hmod, hmapped⟩ := allocateUserRegion_cases h
  refine ⟨.inl hmod, ?_⟩
  simpa only [InImage, User.alignDown_of_mod hmod] using hmapped

theorem imageAt_of_placeImage {layout : Layout} {base : Nat} {space space' : Space}
    (h : placeImage canMap layout space = (.ok base, space')) :
    ImageAt canMap layout space base space' := by
  rw [placeImage] at h
  split at h
  · split at h
    · exact imageAt_of_allocate h
    · cases h
  next huser =>
    by_cases hfree : regionIsFree space (User.alignDown layout.preferredBase)
      (alignTo pageSize layout.sizeOfImage) = true
    · rw [mapRegionExact, if_pos hfree] at h
      rcases mapRegion_cases canMap (User.alignDown layout.preferredBase) layout.sizeOfImage
        space with ⟨hfits, hok⟩ | ⟨-, space₁, herror⟩
      · rw [hok] at h
        cases h
        have hmapped := mapRegion_mapped (User.alignDown_mod layout.preferredBase) hok
        exact ⟨.inr ⟨rfl, huser, hfree, hfits⟩, hmapped⟩
      · rw [herror] at h
        cases h
    · rw [mapRegionExact, if_neg hfree] at h
      dsimp only at h
      split at h
      · exact imageAt_of_allocate h
      · cases h

end Pages

/-! ## The stores -/

def fillStores (layout : Layout) (base : Nat) : List (Write UInt8) :=
  [⟨base, List.replicate layout.sizeOfImage 0⟩, ⟨base, layout.headers⟩]

def sectionStores (base : Nat) (part : TemplateSection) : List (Write UInt8) :=
  let virt := base + part.virtualAddress
  (if part.data = [] then [] else [⟨virt, part.data⟩]) ++
    if part.data.length < part.virtualSize then
      [⟨virt + part.data.length, List.replicate (part.virtualSize - part.data.length) 0⟩]
    else []

def addStore (width target delta : Nat) (m : Nat → UInt8) : Write UInt8 :=
  ⟨target, toLE width (ofLE (fetch m target width) + delta)⟩

/-- The loop over the relocations. -/
def relocationStores (layout : Layout) (base delta : Nat) :
    List TemplateRelocation → (Nat → UInt8) → List (Write UInt8)
  | [], _ => []
  | r :: relocations, m =>
    if layout.sizeOfImage < r.rva + 8 then []
    else if r.kind = 0 then relocationStores layout base delta relocations m
    else if r.kind = 10 then
      let w := addStore 8 (base + r.rva) delta m
      w :: relocationStores layout base delta relocations (store m w.off w.data)
    else if r.kind = 3 then
      let w := addStore 4 (base + r.rva) delta m
      w :: relocationStores layout base delta relocations (store m w.off w.data)
    else []

/-- The stores of `apply_base_relocations`. -/
def baseRelocationStores (layout : Layout) (base : Nat) (m : Nat → UInt8) : List (Write UInt8) :=
  let delta := relocationDelta layout base
  if delta = 0 then []
  else if layout.hasRelocations then relocationStores layout base delta layout.relocations m
  else []

def partStores (layout : Layout) (base : Nat) : List (Write UInt8) :=
  fillStores layout base ++ layout.sections.flatMap (sectionStores base)

/-- The stores up to the imports. -/
def bodyStores (layout : Layout) (base : Nat) (m : Nat → UInt8) : List (Write UInt8) :=
  partStores layout base ++ baseRelocationStores layout base (storeAll m (partStores layout base))

/-- The store of an import. -/
def slotStores (layout : Layout) (base : Nat) (i : Import) (address : Nat) : List (Write UInt8) :=
  let slot := base + i.offset
  if base + layout.sizeOfImage < slot + i.size then []
  else if i.size = 4 then [⟨slot, toLE 4 address⟩]
  else if i.size = 8 then [⟨slot, toLE 8 address⟩]
  else []

/-- The stores of `resolve_imports`. -/
def importStores (load : Text → Load LoadedImage) (depth : Nat) (layout : Layout) (base : Nat) :
    List Import → Process → List (Write UInt8)
  | [], _ => []
  | i :: imports, s =>
    match load i.dll s with
    | some (.ok image, s₁) =>
      match resolveExport load depth image i.symbol s₁ with
      | some (.ok address, s₂) =>
        slotStores layout base i address ++
          match writeSlot layout base i address s₂.space with
          | (.ok (), space) => importStores load depth layout base imports { s₂ with space := space }
          | (.error _, _) => []
      | _ => []
    | _ => []

/-- The stores of `load_pe_image` itself. -/
def imageStores (canMap : Space → Nat → Bool) (load : Text → Load LoadedImage) (depth : Nat)
    (canonicalPath : Text) (template : ModuleTemplate) (s : Process) : List (Write UInt8) :=
  match placeImage canMap template.layout s.space with
  | (.ok base, space) =>
    bodyStores template.layout base space.memory ++
      match writeImage template.layout base space with
      | (.ok (), space') =>
        importStores load depth template.layout base template.imports
          { s with space := space', placed := s.placed ++ [lower canonicalPath] }
      | (.error _, _) => []
  | (.error _, _) => []

/-! ## The stores make the image -/

section Image

variable {layout : Layout} {image : Bytes}

theorem length_writeSection {image : Bytes} {part : TemplateSection}
    (h : part.virtualAddress + part.virtualSize ≤ image.length)
    (hdata : part.data.length ≤ part.virtualSize) :
    (writeSection image part).length = image.length := by
  refine length_splice ?_
  rw [List.length_append, List.length_replicate]
  omega

theorem storeAll_sectionStores {part : TemplateSection}
    (m : Nat → UInt8) (base : Nat)
    (hpart : part.virtualAddress + part.virtualSize ≤ image.length)
    (hdata : part.data.length ≤ part.virtualSize) :
    storeAll (store m base image) (sectionStores base part) =
      store m base (writeSection image part) := by
  have hfirst : storeAll (store m base image)
      (if part.data = [] then [] else [⟨base + part.virtualAddress, part.data⟩]) =
        store m base (splice image part.virtualAddress part.data) := by
    rw [← store_store m base (by omega)]
    split
    next hempty =>
      rw [hempty, store_nil]
      rfl
    next =>
      rfl
  have hlength : (splice image part.virtualAddress part.data).length = image.length :=
    length_splice (by omega)
  have hsecond : store (store m base (splice image part.virtualAddress part.data))
      (base + (part.virtualAddress + part.data.length))
      (List.replicate (part.virtualSize - part.data.length) 0) = _ :=
    store_store m base (by rw [List.length_replicate, hlength]; omega)
  rw [splice_append (by rw [List.length_replicate]; omega)] at hsecond
  rw [sectionStores, storeAll_append, hfirst, writeSection, ← hsecond]
  split
  next =>
    rw [← Nat.add_assoc]
    rfl
  next hfull =>
    rw [Nat.sub_eq_zero_of_le (by omega), List.replicate_zero, store_nil]
    rfl

/-- The stores of the parts leave the image at the base. -/
theorem storeAll_partStores
    (h : Enclosed layout)
    (m : Nat → UInt8) (base : Nat) :
    (imageBytes layout).length = layout.sizeOfImage ∧
      storeAll m (partStores layout base) = store m base (imageBytes layout) := by
  have hloop : ∀ (parts : List TemplateSection) (image : Bytes),
      image.length = layout.sizeOfImage →
      (∀ part ∈ parts, part.virtualAddress + part.virtualSize ≤ layout.sizeOfImage ∧
        part.data.length ≤ part.virtualSize) →
      (parts.foldl writeSection image).length = layout.sizeOfImage ∧
        storeAll (store m base image) (parts.flatMap (sectionStores base)) =
          store m base (parts.foldl writeSection image) := by
    intro parts
    induction parts with
    | nil =>
      exact fun image himage _ => ⟨himage, rfl⟩
    | cons part parts ih =>
      intro image himage hparts
      obtain ⟨⟨hpart, hdata⟩, hrest⟩ := List.forall_mem_cons.mp hparts
      rw [← himage] at hpart
      rw [List.flatMap_cons, storeAll_append, storeAll_sectionStores m base hpart hdata]
      exact ih _ ((length_writeSection hpart hdata).trans himage) hrest
  have hheaders : 0 + layout.headers.length ≤ (List.replicate layout.sizeOfImage (0 : UInt8)).length := by
    rw [List.length_replicate, Nat.zero_add]
    exact h.headers
  have hfill : storeAll m (fillStores layout base) =
      store m base (splice (List.replicate layout.sizeOfImage 0) 0 layout.headers) := by
    rw [← store_store m base hheaders]
    rfl
  rw [partStores, storeAll_append, hfill]
  exact hloop _ _ (by rw [length_splice hheaders, List.length_replicate]) h.sections

theorem addStore_store {width rva : Nat}
    (m : Nat → UInt8) (base delta : Nat)
    (h : rva + width ≤ image.length) :
    store (store m base image) (base + rva)
      (addStore width (base + rva) delta (store m base image)).data =
        store m base (addAt image width rva delta) := by
  rw [addStore, fetch_store m base h]
  exact store_store m base (by rw [length_toLE]; exact h)

theorem storeAll_relocationStores
    (m : Nat → UInt8) (base delta : Nat) (relocations : List TemplateRelocation)
    (h : image.length = layout.sizeOfImage) :
    storeAll (store m base image)
      (relocationStores layout base delta relocations (store m base image)) =
        store m base (relocate layout delta relocations image).2 := by
  induction relocations generalizing image with
  | nil =>
    rfl
  | cons r relocations ih =>
    rw [relocationStores, relocate]
    by_cases hfits : layout.sizeOfImage < r.rva + 8
    · rw [if_pos hfits, if_pos hfits]
      rfl
    rw [if_neg hfits, if_neg hfits]
    have hround : ∀ width, width ≤ 8 →
        storeAll (store m base image)
          (addStore width (base + r.rva) delta (store m base image) ::
            relocationStores layout base delta relocations
              (store (store m base image) (base + r.rva)
                (addStore width (base + r.rva) delta (store m base image)).data)) =
          store m base (relocate layout delta relocations (addAt image width r.rva delta)).2 := by
      intro width hwidth
      have hadd := addStore_store m base delta (show r.rva + width ≤ image.length by omega)
      rw [storeAll]
      change storeAll (store _ (base + r.rva) _) _ = _
      rw [hadd]
      refine ih ?_
      rw [addAt, length_splice (by rw [length_toLE]; omega), h]
    split_ifs
    · exact ih h
    · exact hround 8 (by decide)
    · exact hround 4 (by decide)
    · rfl

/-- The stores up to the imports leave the memory that the image is written to. -/
theorem storeAll_bodyStores
    (h : Enclosed layout)
    (base : Nat) (space : Space) :
    storeAll space.memory (bodyStores layout base space.memory) =
      (writeImage layout base space).2.memory := by
  obtain ⟨hlength, hparts⟩ := storeAll_partStores h space.memory base
  rw [bodyStores, storeAll_append, hparts, writeImage, baseRelocationStores, applyBaseRelocations]
  dsimp only
  split_ifs
  · rfl
  · exact storeAll_relocationStores _ _ _ _ hlength
  · rfl

theorem storeAll_slotStores
    (base : Nat) (i : Import) (address : Nat) (space : Space) :
    storeAll space.memory (slotStores layout base i address) =
      (writeSlot layout base i address space).2.memory := by
  rw [slotStores, writeSlot]
  split_ifs
  · rfl
  · rfl
  · rfl
  · rfl

end Image

/-! ## The memory after loading

If the modules that the imports lead to have been loaded already, the stores are all that happens
to the memory.
-/

/-- Loading leaves the address space as it is. -/
def KeepsSpace {α : Type} (x : Load α) : Prop :=
  ∀ s r s', x s = some (r, s') → s'.space = s.space

theorem KeepsSpace.bind {α β : Type} {x : Load α} {f : α → Load β}
    (hx : KeepsSpace x)
    (hf : ∀ a, KeepsSpace (f a)) :
    KeepsSpace (x >>= f) := by
  intro s r s' h
  rcases Load.bind_eq_some.mp h with ⟨e, hfirst, -⟩ | ⟨a, t, hfirst, hsecond⟩
  · exact hx _ _ _ hfirst
  · exact (hf a _ _ _ hsecond).trans (hx _ _ _ hfirst)

theorem keepsSpace_pure
    {α : Type} (a : α) :
    KeepsSpace (pure a : Load α) := by
  intro s r s' h
  cases h
  rfl

theorem keepsSpace_inSpace {α : Type} {f : Space → Except LoadStatus α × Space}
    (hf : ∀ space, (f space).2 = space) :
    KeepsSpace (Load.inSpace f) := by
  intro s r s' h
  obtain ⟨-, rfl⟩ := Prod.mk.injEq .. ▸ Option.some.inj h
  exact hf s.space

section Memory

variable {load : Text → Load LoadedImage} {layout : Layout} {base depth : Nat}

theorem resolveExport_keepsSpace
    (hload : ∀ path, KeepsSpace (load path))
    (image : LoadedImage) (symbol : Symbol) :
    KeepsSpace (resolveExport load depth image symbol) := by
  induction depth generalizing image symbol with
  | zero =>
    intro s r s' h
    cases h
  | succ depth ih =>
    rw [resolveExport]
    rcases image.find symbol with _ | address | ⟨dll, next⟩
    · intro s r s' h
      cases h
      rfl
    · exact keepsSpace_pure address
    · exact (hload dll).bind fun image => ih image next

theorem storeAll_importStores
    (hload : ∀ path, KeepsSpace (load path))
    (imports : List Import) {s s' : Process} {r : Except LoadStatus Unit}
    (h : resolveImports load depth layout base imports s = some (r, s')) :
    storeAll s.space.memory (importStores load depth layout base imports s) = s'.space.memory := by
  induction imports generalizing s with
  | nil =>
    cases h
    rfl
  | cons i imports ih =>
    rw [resolveImports] at h
    rw [importStores]
    rcases Load.bind_eq_some.mp h with ⟨e, hfirst, -⟩ | ⟨image, s₁, hfirst, h⟩
    · rw [hfirst, hload _ _ _ _ hfirst]
      rfl
    rcases Load.bind_eq_some.mp h with ⟨e, hsecond, -⟩ | ⟨address, s₂, hsecond, h⟩
    · rw [hfirst]
      dsimp only
      rw [hsecond, resolveExport_keepsSpace hload _ _ _ _ _ hsecond, hload _ _ _ _ hfirst]
      rfl
    have hsame : s₂.space = s.space :=
      (resolveExport_keepsSpace hload _ _ _ _ _ hsecond).trans (hload _ _ _ _ hfirst)
    rw [hfirst]
    dsimp only
    rw [hsecond]
    dsimp only
    rw [← hsame, storeAll_append, storeAll_slotStores]
    rcases hslot : writeSlot layout base i address s₂.space with ⟨e | _, space⟩
    · rw [Load.inSpace_bind_error (by rw [hslot])] at h
      cases h
      rw [hslot]
      rfl
    · rw [Load.inSpace_bind_ok (by rw [hslot]), hslot] at h
      exact ih h

theorem protectSections_space
    (parts : List TemplateSection) (space : Space) :
    (protectSections base parts space).2 = space := by
  induction parts with
  | nil =>
    rfl
  | cons part parts ih =>
    rw [protectSections, protectRegion]
    split_ifs
    · exact ih
    · rfl

theorem protectRegion_space
    (start len : Nat) (space : Space) :
    (protectRegion start len space).2 = space := by
  rw [protectRegion]
  split_ifs <;> rfl

/-- The memory after `load_pe_image` is that of its stores, whatever it returns. -/
theorem storeAll_imageStores {canMap : Space → Nat → Bool} {canonicalPath : Text}
    {template : ModuleTemplate} {space : Space} {s s' : Process} {r : Except LoadStatus LoadedImage}
    (hload : ∀ path, KeepsSpace (load path))
    (henclosed : Enclosed template.layout)
    (hplace : placeImage canMap template.layout s.space = (.ok base, space))
    (h : loadPeImage canMap load depth canonicalPath template s = some (r, s')) :
    storeAll space.memory (imageStores canMap load depth canonicalPath template s) =
      s'.space.memory := by
  rw [loadPeImage, Load.inSpace_bind_ok (by rw [hplace]), hplace, notePlaced_bind] at h
  rw [imageStores, hplace]
  dsimp only at h ⊢
  rw [storeAll_append, storeAll_bodyStores henclosed]
  rcases hwrite : writeImage template.layout base space with ⟨e | _, space₁⟩
  · rw [Load.inSpace_bind_error (by rw [hwrite])] at h
    cases h
    rw [hwrite]
    rfl
  rw [Load.inSpace_bind_ok (by rw [hwrite]), hwrite] at h
  dsimp only at h ⊢
  rcases Load.bind_eq_some.mp h with ⟨e, himports, -⟩ | ⟨_, t, himports, h⟩
  · exact storeAll_importStores hload _ himports
  have hprotect : s'.space = t.space := by
    refine KeepsSpace.bind (keepsSpace_inSpace (protectSections_space _)) (fun _ => ?_) _ _ _ h
    exact (keepsSpace_inSpace (protectRegion_space _ _)).bind fun _ => keepsSpace_pure _
  rw [hprotect]
  exact storeAll_importStores hload _ himports

end Memory

/-! ## Where the stores are -/

/-- The store is between the base and the end of the image. -/
def Within (layout : Layout) (base : Nat) (w : Write UInt8) : Prop :=
  base ≤ w.off ∧ w.stop ≤ base + layout.sizeOfImage

section Within

variable {layout : Layout} {base : Nat}

theorem partStores_within
    (h : Enclosed layout) :
    ∀ w ∈ partStores layout base, Within layout base w := by
  intro w hw
  rcases List.mem_append.mp hw with hw | hw
  · simp only [fillStores, List.mem_cons, List.not_mem_nil, or_false] at hw
    have hheaders := h.headers
    rcases hw with rfl | rfl
    · exact ⟨le_refl _, by rw [Write.stop, List.length_replicate]⟩
    · exact ⟨le_refl _, by rw [Write.stop]; dsimp only; omega⟩
  · obtain ⟨part, hpart, hw⟩ := List.mem_flatMap.mp hw
    obtain ⟨hfits, hdata⟩ := h.sections part hpart
    rcases List.mem_append.mp hw with hw | hw
    · split at hw
      · cases hw
      · cases List.mem_singleton.mp hw
        exact ⟨Nat.le_add_right _ _, by rw [Write.stop]; dsimp only; omega⟩
    · split at hw
      · cases List.mem_singleton.mp hw
        refine ⟨by dsimp only; omega, ?_⟩
        rw [Write.stop, List.length_replicate]
        dsimp only
        omega
      · cases hw

theorem relocationStores_within {delta : Nat}
    (relocations : List TemplateRelocation) (m : Nat → UInt8) :
    ∀ w ∈ relocationStores layout base delta relocations m, Within layout base w := by
  induction relocations generalizing m with
  | nil =>
    exact fun w hw => absurd hw List.not_mem_nil
  | cons r relocations ih =>
    rw [relocationStores]
    by_cases hfits : layout.sizeOfImage < r.rva + 8
    · rw [if_pos hfits]
      exact fun w hw => absurd hw List.not_mem_nil
    have hround : ∀ width, width ≤ 8 →
        Within layout base (addStore width (base + r.rva) delta m) := by
      intro width hwidth
      refine ⟨Nat.le_add_right _ _, ?_⟩
      rw [Write.stop, addStore, length_toLE]
      dsimp only
      omega
    rw [if_neg hfits]
    split_ifs
    · exact ih m
    · exact List.forall_mem_cons.mpr ⟨hround 8 (by decide), ih _⟩
    · exact List.forall_mem_cons.mpr ⟨hround 4 (by decide), ih _⟩
    · exact fun w hw => absurd hw List.not_mem_nil

theorem bodyStores_within
    (h : Enclosed layout)
    (m : Nat → UInt8) :
    ∀ w ∈ bodyStores layout base m, Within layout base w := by
  intro w hw
  rcases List.mem_append.mp hw with hw | hw
  · exact partStores_within h w hw
  · rw [baseRelocationStores] at hw
    split_ifs at hw
    · cases hw
    · exact relocationStores_within _ _ w hw
    · cases hw

theorem slotStores_within
    (i : Import) (address : Nat) :
    ∀ w ∈ slotStores layout base i address, Within layout base w := by
  have hslot : ∀ width, base + i.offset + width ≤ base + layout.sizeOfImage →
      Within layout base ⟨base + i.offset, toLE width address⟩ := by
    intro width hwidth
    exact ⟨Nat.le_add_right _ _, by rw [Write.stop, length_toLE]; exact hwidth⟩
  rw [slotStores]
  split_ifs with hfits hfour height
  · exact fun w hw => absurd hw List.not_mem_nil
  · exact List.forall_mem_singleton.mpr (hslot 4 (by omega))
  · exact List.forall_mem_singleton.mpr (hslot 8 (by omega))
  · exact fun w hw => absurd hw List.not_mem_nil

theorem importStores_within {load : Text → Load LoadedImage} {depth : Nat}
    (imports : List Import) (s : Process) :
    ∀ w ∈ importStores load depth layout base imports s, Within layout base w := by
  induction imports generalizing s with
  | nil =>
    exact fun w hw => absurd hw List.not_mem_nil
  | cons i imports ih =>
    intro w hw
    rw [importStores] at hw
    split at hw
    next image s₁ _ =>
      split at hw
      next address s₂ _ =>
        rcases List.mem_append.mp hw with hw | hw
        · exact slotStores_within i address w hw
        · split at hw
          · exact ih _ w hw
          · cases hw
      next =>
        cases hw
    next =>
      cases hw

end Within

/-- The address is in the pages that `load_pe_image` maps for the image. -/
def InImagePages (canMap : Space → Nat → Bool) (layout : Layout) (space : Space) (addr : Nat) :
    Prop :=
  ∃ base space', placeImage canMap layout space = (.ok base, space') ∧ InImage layout base addr

/-- **Stores of an image.**  For a layout that `build_module_template` makes, whatever the
imports lead to and however `load_pe_image` ends, its stores are in the pages that it maps for
the image exactly if an image that gets the base that it prefers does not go on behind the last
page.  That is so if it begins at the start of a page. -/
theorem image_stores_confined_iff {pe : PeFile} {bytes : Bytes} {template : ModuleTemplate}
    (hbuild : buildLayout pe bytes = .ok template.layout)
    (canMap : Space → Nat → Bool) (load : Text → Load LoadedImage) (depth : Nat)
    (canonicalPath : Text) (s : Process) :
    ((∀ w ∈ imageStores canMap load depth canonicalPath template s,
      ∀ addr, w.off ≤ addr → addr < w.stop → InImagePages canMap template.layout s.space addr) ↔
      (Preferred canMap template.layout s.space →
        template.layout.sizeOfImage = 0 ∨
          template.layout.preferredBase % pageSize + template.layout.sizeOfImage ≤
            alignTo pageSize template.layout.sizeOfImage)) ∧
    ∀ base space, placeImage canMap template.layout s.space = (.ok base, space) →
      (base % pageSize = 0 ∨ base = template.layout.preferredBase) ∧
      ∀ addr, space.mapped (addr / pageSize) = true ↔
        s.space.mapped (addr / pageSize) = true ∨
          InImagePages canMap template.layout s.space addr := by
  have henclosed := enclosed_of_buildLayout hbuild
  rcases hplace : placeImage canMap template.layout s.space with ⟨e | base, space⟩
  · have hnot : ¬ Preferred canMap template.layout s.space := fun hpreferred => by
      obtain ⟨_, hok⟩ := placeImage_of_preferred hpreferred
      cases hplace.symm.trans hok
    simp [imageStores, hplace, hnot]
  have hpages : ∀ addr, InImagePages canMap template.layout s.space addr ↔
      InImage template.layout base addr := by
    intro addr
    simp [InImagePages, hplace]
  have hstores : ∃ rest, imageStores canMap load depth canonicalPath template s =
      bodyStores template.layout base space.memory ++ rest ∧
        ∀ w ∈ rest, Within template.layout base w := by
    rw [imageStores, hplace]
    refine ⟨_, rfl, ?_⟩
    split
    · exact importStores_within _ _
    · exact fun w hw => absurd hw List.not_mem_nil
  obtain ⟨rest, hstores, hrest⟩ := hstores
  have hat := imageAt_of_placeImage hplace
  simp only [hpages, hstores]
  refine ⟨⟨fun h hpreferred => ?_, fun h w hw addr hlow hhigh => ?_⟩, fun base' space' heq => ?_⟩
  · obtain ⟨_, hok⟩ := placeImage_of_preferred hpreferred
    cases hplace.symm.trans hok
    -- the zeros go up to the end of the image
    rcases Nat.eq_zero_or_pos template.layout.sizeOfImage with hzero | hpos
    · exact .inl hzero
    · have hlast := h ⟨template.layout.preferredBase, List.replicate template.layout.sizeOfImage 0⟩
        (by simp [bodyStores, partStores, fillStores])
        (template.layout.preferredBase + template.layout.sizeOfImage - 1)
        (by dsimp only; omega) (by rw [Write.stop, List.length_replicate]; dsimp only; omega)
      simp only [InImage, User.alignDown, pageSize] at hlast ⊢
      omega
  · have hwithin : Within template.layout base w := by
      rcases List.mem_append.mp hw with hw | hw
      · exact bodyStores_within henclosed _ w hw
      · exact hrest w hw
    have hcondition : template.layout.sizeOfImage = 0 ∨ base % pageSize +
        template.layout.sizeOfImage ≤ alignTo pageSize template.layout.sizeOfImage := by
      rcases hat.starts with hstarts | ⟨rfl, hpreferred⟩
      · right
        rw [hstarts, Nat.zero_add]
        exact le_alignTo (by decide) _
      · exact h hpreferred
    simp only [Within, InImage, User.alignDown, pageSize] at hwithin hcondition ⊢
    omega
  · cases heq
    exact ⟨hat.starts.imp_right And.left, hat.mapped⟩

/-- A process that has nothing mapped. -/
def emptyProcess : Process :=
  ⟨[], emptySpace, []⟩

/-- A file of 16 bytes: 8 of headers, and a section with the others and a relocation. -/
def smallFile : PeFile where
  is64 := true
  machine := machineX8664
  optionalHeader := some (64, 8)
  imageBase := 0x400000
  entry := 0
  sections := [⟨16, 12, 8, 8, 0⟩]
  relocationData := some [some ⟨16, [some (2, 3)]⟩]

/-- Its template, with an import. -/
def smallTemplate : ModuleTemplate where
  layout := ⟨0x400000, 64, 8, 0, true, List.replicate 8 1, [⟨16, 12, 0, List.replicate 8 2⟩],
    [⟨18, 3⟩]⟩
  dllName := []
  imports := [⟨['d'], .ordinal 7, 32, 8⟩]
  exportsByName := []
  exportsByOrdinal := []

/-- Every module that is asked for has been loaded, with one export. -/
def anyDll (_ : Text) : Load LoadedImage :=
  pure ⟨0, 0, 0, [], [(7, .here 0x1234)], []⟩

/-- The file is loaded at another base than the one it prefers: the zeros, the headers, the data of
the section and the zeros behind it, the relocation and the import are all stored inside its
page. -/
theorem image_stores_confined_small :
    buildLayout smallFile (List.replicate 8 1 ++ List.replicate 8 2) = .ok smallTemplate.layout ∧
      (imageStores plenty anyDll 1 [] smallTemplate emptyProcess).map
        (fun w => (w.off - userAllocBase, w.data.length)) =
          [(0, 64), (0, 8), (16, 8), (24, 4), (18, 4), (32, 8)] ∧
      ∀ w ∈ imageStores plenty anyDll 1 [] smallTemplate emptyProcess,
        ∀ addr, w.off ≤ addr → addr < w.stop →
          InImagePages plenty smallTemplate.layout emptyProcess.space addr := by
  have hbuild : buildLayout smallFile (List.replicate 8 1 ++ List.replicate 8 2) =
      .ok smallTemplate.layout := rfl
  refine ⟨hbuild, by decide +kernel, ?_⟩
  refine (image_stores_confined_iff hbuild plenty anyDll 1 [] emptyProcess).1.mpr fun _ => ?_
  exact .inr (by decide)

/-- A file of one page, one byte behind the start of a page. -/
def unalignedFile : PeFile where
  is64 := true
  machine := machineX8664
  optionalHeader := some (4096, 0)
  imageBase := 0x8000000001
  entry := 0
  sections := []
  relocationData := none

def unalignedTemplate : ModuleTemplate where
  layout := ⟨0x8000000001, 4096, 0, 0, false, [], [], []⟩
  dllName := []
  imports := []
  exportsByName := []
  exportsByOrdinal := []

/-- The base is one byte behind the start of a page, so the last byte of the zeros is behind the
page of the image. -/
theorem unaligned_image_leaves_pages :
    buildLayout unalignedFile [] = .ok unalignedTemplate.layout ∧
      (⟨0x8000000001, List.replicate 4096 0⟩ : Write UInt8) ∈
        imageStores plenty anyDll 0 [] unalignedTemplate emptyProcess ∧
      ¬ InImagePages plenty unalignedTemplate.layout emptyProcess.space
        (0x8000000001 + 4095) := by
  refine ⟨rfl, List.mem_append_left _ (List.mem_cons_self ..), ?_⟩
  rintro ⟨base, space, hplace, -, hhigh⟩
  have hbase : (placeImage plenty unalignedTemplate.layout emptyProcess.space).1 =
      .ok 0x8000000001 := rfl
  rw [hplace] at hbase
  cases hbase
  exact absurd hhigh (by decide)

end Loader
end Kernel
end Theos
