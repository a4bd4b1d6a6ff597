import Theos.Base.Endian
import Theos.Base.Memory
import Theos.Kernel.Nt
import Theos.Kernel.UserMemory

/-!
# Loading modules

`user::load_module` and what it calls: the image of a module is placed in the address
space of the process, its imports are resolved, which loads further modules and
follows forwarders into them, and at last the module is added to the list of the
process.

The modules there are, under the paths that lead to them, are a `Library`; a path is
looked up ignoring ASCII case.  It holds what is reported for each file, and
`build_module_template` makes the paths in it canonical and the names lower case.
Whether the memory for a page can be had is a parameter.  `none` is a recursion that
has not ended at the given depth.
-/

namespace Theos
namespace Kernel
namespace Loader

open Base Nt

abbrev Text := List Char

def lower (text : Text) : Text :=
  text.map Char.toLower

/-- `eq_ignore_ascii_case`. -/
def sameText (a b : Text) : Bool :=
  lower a = lower b

inductive LoadStatus where
  | nt (status : NtStatus)
  | conflictingAddresses
deriving DecidableEq, Repr

/-! ## Reported modules and templates -/

/-- What an import or a forwarder asks for. -/
inductive Symbol where
  | name (text : Text)
  | ordinal (n : Nat)
deriving DecidableEq, Repr

/-- An export: a place in the module, or a forwarder (`ForwardName` and
`ForwardOrdinal`) to a module. -/
inductive Target (α : Type) where
  | here (place : α)
  | forward (dll : Text) (symbol : Symbol)
deriving DecidableEq, Repr

structure TemplateSection where
  virtualAddress : Nat
  virtualSize : Nat
  characteristics : Nat
  data : Bytes

structure TemplateRelocation where
  rva : Nat
  kind : Nat

/-- The parts of a module that are not changed when its template is built. -/
structure Layout where
  preferredBase : Nat
  sizeOfImage : Nat
  sizeOfHeaders : Nat
  entryRva : Nat
  hasRelocations : Bool
  headers : Bytes
  sections : List TemplateSection
  relocations : List TemplateRelocation

structure Import where
  dll : Text
  symbol : Symbol
  offset : Nat
  size : Nat

/-- A module as it is reported: named exports, and the export address table, whose
first entry has the ordinal `ordinalBase`. -/
structure PeModule where
  layout : Layout
  name : Option Text
  imports : List Import
  names : List (Text × Target UInt32)
  ordinalBase : Nat
  table : List (Target UInt32)

structure ModuleTemplate where
  layout : Layout
  dllName : Text
  imports : List Import
  exportsByName : List (Text × Target UInt32)
  exportsByOrdinal : List (Nat × Target UInt32)

def canonicalModulePath (name : Text) : Text :=
  if name.head? = some '\\' ∨ ':' ∈ name then canonicalizeNtPath name
  else
    let normalized := name.map fun c => if c = '/' then '\\' else c
    if '\\' ∈ normalized then canonicalizeNtPath normalized
    else canonicalizeNtPath ("\\SystemRoot\\System32\\".toList ++ normalized)

def lowerSymbol : Symbol → Symbol
  | .name text => .name (lower text)
  | .ordinal n => .ordinal n

def templateTarget : Target UInt32 → Target UInt32
  | .here rva => .here rva
  | .forward dll symbol => .forward (canonicalModulePath dll) (lowerSymbol symbol)

def buildModuleTemplate (ntPath : Text) (pe : PeModule) : ModuleTemplate where
  layout := pe.layout
  dllName := lower (pe.name.getD (moduleBasename ntPath))
  imports := pe.imports.map fun i =>
    { i with dll := canonicalModulePath i.dll, symbol := lowerSymbol i.symbol }
  exportsByName := pe.names.map fun e => (lower e.1, templateTarget e.2)
  exportsByOrdinal := pe.table.zipIdx.map fun e => (pe.ordinalBase + e.2, templateTarget e.1)

/-- The modules there are, by their paths. -/
abbrev Library := List (Text × PeModule)

def Library.find (library : Library) (path : Text) : Option (Text × PeModule) :=
  List.find? (fun entry => sameText entry.1 path) library

def moduleTemplate (library : Library) (canonicalPath : Text) :
    Except LoadStatus ModuleTemplate :=
  match library.find canonicalPath with
  | some entry => .ok (buildModuleTemplate canonicalPath entry.2)
  | none => .error (.nt .objectNameNotFound)

/-! ## The process -/

structure LoadedImage where
  entry : Nat
  imageBase : Nat
  sizeOfImage : Nat
  exportsByName : List (Text × Target Nat)
  exportsByOrdinal : List (Nat × Target Nat)
  dllName : Text

structure LoadedModule extends LoadedImage where
  ntPath : Text

/-- The address space: where the next region is looked for, the numbers of the pages
that are mapped, and the bytes in them. -/
structure Space where
  nextAllocBase : Nat
  mapped : Nat → Bool
  memory : Nat → UInt8

/-- The modules of a process and its address space.  `placed` is not in the source: the
paths, in lower case, of the modules whose images were mapped, in order. -/
structure Process where
  modules : List LoadedModule
  space : Space
  placed : List Text

/-- A step of loading: a result and the process after it. -/
def Load (α : Type) : Type :=
  Process → Option (Except LoadStatus α × Process)

namespace Load

protected def pure {α : Type} (a : α) : Load α :=
  fun s => some (.ok a, s)

protected def bind {α β : Type} (x : Load α) (f : α → Load β) : Load β :=
  fun s =>
    match x s with
    | none => none
    | some (.error e, t) => some (.error e, t)
    | some (.ok a, t) => f a t

instance : Monad Load where
  pure := Load.pure
  bind := Load.bind

def fail {α : Type} (status : LoadStatus) : Load α :=
  fun s => some (.error status, s)

def ofExcept {α : Type} (result : Except LoadStatus α) : Load α :=
  fun s => some (result, s)

/-- A step in the address space. -/
def inSpace {α : Type} (f : Space → Except LoadStatus α × Space) : Load α :=
  fun s => some ((f s.space).1, { s with space := (f s.space).2 })

end Load

/-! ## Regions -/

-- Addresses stay far below `u64::MAX`, so the sums of `align_up` do not overflow here.

variable (canMap : Space → Nat → Bool)

/-- One round of `map_region`: a page that is mapped already keeps its content. -/
def mapPage (space : Space) (page : Nat) : Except LoadStatus Unit × Space :=
  if canMap space page then
    if space.mapped page then (.ok (), space)
    else
      (.ok (), { space with
        mapped := fun p => if p = page then true else space.mapped p
        memory := fun addr => if addr / pageSize = page then 0 else space.memory addr })
  else (.error (.nt .noMemory), space)

def mapPages : Nat → Nat → Space → Except LoadStatus Unit × Space
  | 0, _, space => (.ok (), space)
  | count + 1, page, space =>
    match mapPage canMap space page with
    | (.ok (), space) => mapPages count (page + 1) space
    | (.error e, space) => (.error e, space)

/-- `map_region`, from the start of a page. -/
def mapRegion (start len : Nat) (space : Space) : Except LoadStatus Unit × Space :=
  mapPages canMap ((len + (pageSize - 1)) / pageSize) (start / pageSize) space

def regionIsFree (space : Space) (start len : Nat) : Bool :=
  (List.range (alignTo pageSize (start + len) / pageSize - start / pageSize)).all fun i =>
    !space.mapped (start / pageSize + i)

def mapRegionExact (start len : Nat) (space : Space) : Except LoadStatus Unit × Space :=
  let start := User.alignDown start
  let len := alignTo pageSize len
  if regionIsFree space start len then mapRegion canMap start len space
  else (.error .conflictingAddresses, space)

def allocateUserRegion (len : Nat) (space : Space) : Except LoadStatus Nat × Space :=
  let len := alignTo pageSize len
  let base := alignTo pageSize space.nextAllocBase
  let space := { space with nextAllocBase := min (base + len + pageSize) (2 ^ 64 - 1) }
  match mapRegion canMap base len space with
  | (.ok (), space) => (.ok base, space)
  | (.error e, space) => (.error e, space)

/-- Where `load_pe_image` places an image. -/
def placeImage (layout : Layout) (space : Space) : Except LoadStatus Nat × Space :=
  if pml4Index layout.preferredBase = 0 then
    if layout.hasRelocations then allocateUserRegion canMap layout.sizeOfImage space
    else (.error .conflictingAddresses, space)
  else
    match mapRegionExact canMap layout.preferredBase layout.sizeOfImage space with
    | (.ok (), space) => (.ok layout.preferredBase, space)
    | (.error .conflictingAddresses, space) =>
      if layout.hasRelocations then allocateUserRegion canMap layout.sizeOfImage space
      else (.error .conflictingAddresses, space)
    | (.error e, space) => (.error e, space)

/-! ## Images -/

/-- Write one section: its data, and zeros up to its size. -/
def writeSection (image : Bytes) (part : TemplateSection) : Bytes :=
  splice image part.virtualAddress
    (part.data ++ List.replicate (part.virtualSize - part.data.length) 0)

/-- The image before relocation. -/
def imageBytes (layout : Layout) : Bytes :=
  layout.sections.foldl writeSection
    (splice (List.replicate layout.sizeOfImage 0) 0 layout.headers)

/-- Add to a number of `width` bytes in the image. -/
def addAt (image : Bytes) (width rva delta : Nat) : Bytes :=
  splice image rva (toLE width (ofLE (slice image rva width) + delta))

def relocate (layout : Layout) (delta : Nat) :
    List TemplateRelocation → Bytes → Except LoadStatus Unit × Bytes
  | [], image => (.ok (), image)
  | relocation :: relocations, image =>
    if layout.sizeOfImage < relocation.rva + 8 then (.error (.nt .invalidImageFormat), image)
    else if relocation.kind = 0 then relocate layout delta relocations image
    else if relocation.kind = 10 then
      relocate layout delta relocations (addAt image 8 relocation.rva delta)
    else if relocation.kind = 3 then
      relocate layout delta relocations (addAt image 4 relocation.rva delta)
    else (.error (.nt .notSupported), image)

/-- `image_base.wrapping_sub(preferred_base)`. -/
def relocationDelta (layout : Layout) (imageBase : Nat) : Nat :=
  (imageBase + 2 ^ 64 - layout.preferredBase) % 2 ^ 64

def applyBaseRelocations (layout : Layout) (imageBase : Nat) (image : Bytes) :
    Except LoadStatus Unit × Bytes :=
  let delta := relocationDelta layout imageBase
  if delta = 0 then (.ok (), image)
  else if layout.hasRelocations then relocate layout delta layout.relocations image
  else (.error .conflictingAddresses, image)

/-- Write the image into memory and relocate it. -/
def writeImage (layout : Layout) (imageBase : Nat) (space : Space) :
    Except LoadStatus Unit × Space :=
  let relocated := applyBaseRelocations layout imageBase (imageBytes layout)
  (relocated.1, { space with memory := store space.memory imageBase relocated.2 })

def materializeExportTarget (imageBase : Nat) : Target UInt32 → Target Nat
  | .here rva => .here (imageBase + rva.toNat)
  | .forward dll symbol => .forward dll symbol

def materializeExports {κ : Type} (imageBase : Nat) (exports : List (κ × Target UInt32)) :
    List (κ × Target Nat) :=
  exports.map fun e => (e.1, materializeExportTarget imageBase e.2)

/-- `protect_region`: the flags of every page are changed, which has to be mapped. -/
def protectRegion (start len : Nat) (space : Space) : Except LoadStatus Unit × Space :=
  if (List.range (alignTo pageSize len / pageSize)).all fun i => space.mapped (start / pageSize + i) then
    (.ok (), space)
  else (.error (.nt .unsuccessful), space)

def protectSections (imageBase : Nat) :
    List TemplateSection → Space → Except LoadStatus Unit × Space
  | [], space => (.ok (), space)
  | part :: parts, space =>
    match protectRegion (imageBase + part.virtualAddress) (alignTo pageSize part.virtualSize) space with
    | (.ok (), space) => protectSections imageBase parts space
    | (.error e, space) => (.error e, space)

/-! ## Linking -/

/-- The export of a name, in lower case, or of an ordinal. -/
def LoadedImage.find (image : LoadedImage) : Symbol → Option (Target Nat)
  | .name text => (image.exportsByName.find? fun e => e.1 = lower text).map Prod.snd
  | .ordinal n => (image.exportsByOrdinal.find? fun e => e.1 = n).map Prod.snd

/-- `resolve_export_name`, `resolve_export_ordinal` and `resolve_export_target`. -/
def resolveExport (load : Text → Load LoadedImage) : Nat → LoadedImage → Symbol → Load Nat
  | 0, _, _ => fun _ => none
  | depth + 1, image, symbol =>
    match image.find symbol with
    | none => Load.fail (.nt .objectNameNotFound)
    | some (.here address) => pure address
    | some (.forward dll symbol) => do
      let image ← load dll
      resolveExport load depth image symbol

/-- Write the address of a symbol into the slot of an import. -/
def writeSlot (layout : Layout) (imageBase : Nat) (i : Import) (address : Nat) (space : Space) :
    Except LoadStatus Unit × Space :=
  let slot := imageBase + i.offset
  if imageBase + layout.sizeOfImage < slot + i.size then (.error (.nt .invalidImageFormat), space)
  else if i.size = 4 then
    (.ok (), { space with memory := store space.memory slot (toLE 4 address) })
  else if i.size = 8 then
    (.ok (), { space with memory := store space.memory slot (toLE 8 address) })
  else (.error (.nt .invalidImageFormat), space)

def resolveImports (load : Text → Load LoadedImage) (depth : Nat) (layout : Layout)
    (imageBase : Nat) : List Import → Load Unit
  | [] => pure ()
  | i :: imports => do
    let image ← load i.dll
    let address ← resolveExport load depth image i.symbol
    Load.inSpace (writeSlot layout imageBase i address)
    resolveImports load depth layout imageBase imports

/-- The result of loading an image at a base. -/
def loadedImage (template : ModuleTemplate) (imageBase : Nat) : LoadedImage where
  entry := imageBase + template.layout.entryRva
  imageBase := imageBase
  sizeOfImage := template.layout.sizeOfImage
  exportsByName := materializeExports imageBase template.exportsByName
  exportsByOrdinal := materializeExports imageBase template.exportsByOrdinal
  dllName := template.dllName

def notePlaced (canonicalPath : Text) : Load Unit :=
  fun s => some (.ok (), { s with placed := s.placed ++ [lower canonicalPath] })

def loadPeImage (load : Text → Load LoadedImage) (depth : Nat) (canonicalPath : Text)
    (template : ModuleTemplate) : Load LoadedImage := do
  let imageBase ← Load.inSpace (placeImage canMap template.layout)
  notePlaced canonicalPath
  Load.inSpace (writeImage template.layout imageBase)
  resolveImports load depth template.layout imageBase template.imports
  Load.inSpace (protectSections imageBase template.layout.sections)
  Load.inSpace (protectRegion imageBase (alignTo pageSize template.layout.sizeOfHeaders))
  pure (loadedImage template imageBase)

def pushModule (canonicalPath : Text) (image : LoadedImage) : Load Unit :=
  fun s => some (.ok (), { s with modules := s.modules ++ [{ image with ntPath := canonicalPath }] })

def loadModule (library : Library) : Nat → Text → Load LoadedImage
  | 0, _ => fun _ => none
  | depth + 1, ntPath => fun s =>
    let canonicalPath := canonicalModulePath ntPath
    match s.modules.find? fun m => sameText m.ntPath canonicalPath with
    | some existing => some (.ok existing.toLoadedImage, s)
    | none =>
      (do
        let template ← Load.ofExcept (moduleTemplate library canonicalPath)
        let image ← loadPeImage canMap (loadModule library depth) depth canonicalPath template
        pushModule canonicalPath image
        pure image : Load LoadedImage) s

variable {canMap} {library : Library}

/-- There is memory for every page. -/
def plenty (_ : Space) (_ : Nat) : Bool :=
  true

end Loader
end Kernel
end Theos
