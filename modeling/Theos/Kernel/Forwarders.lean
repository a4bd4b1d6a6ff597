import Theos.Base.Recursion
import Theos.Base.Text
import Theos.Kernel.ModuleLoads
import Theos.Kernel.NtPaths
import Theos.Kernel.PathSpellings

/-!
# Forwarders

A forwarder `LIB.Symbol` stands for an export of `LIB.dll`.  The template keeps the path of
`LIB` for it, as it is written there, while an import has the path of `LIB.dll`.  A dot is
never lost on the way to a canonical path and never added, so the two are different modules:
what a forwarder loads is not what an import loads.

`resolveIn` is `resolve_export_target` with the path of the module that the export is found in.
-/

namespace Theos
namespace Kernel

open Base

/-! ## Characters of canonical paths -/

namespace Nt

theorem mem_mergeBackslashes_of_ne {path : Path} {c : Char}
    (hc : c ≠ '\\')
    (h : c ∈ path) :
    c ∈ mergeBackslashes path := by
  fun_induction mergeBackslashes path with
  | case1 rest ih =>
    simp only [List.mem_cons, hc, false_or] at h ⊢
    exact ih h
  | case2 d rest _ ih =>
    rcases List.mem_cons.mp h with rfl | h
    · exact List.mem_cons_self ..
    · exact List.mem_cons_of_mem _ (ih h)
  | case3 =>
    exact h

theorem mem_mergeLoop_of_ne {fuel : Nat} {path : Path} {c : Char}
    (hc : c ≠ '\\')
    (h : c ∈ path) :
    c ∈ mergeLoop fuel path := by
  induction fuel generalizing path with
  | zero =>
    exact h
  | succ fuel ih =>
    rw [mergeLoop]
    split
    · exact ih (mem_mergeBackslashes_of_ne hc h)
    · exact h

theorem mem_rootPath_of_mem {path : Path} {c : Char}
    (h : c ∈ path) :
    c ∈ rootPath path := by
  unfold rootPath
  split
  · split
    · exact List.mem_append_right _ h
    · split
      · exact h
      · exact List.mem_cons_of_mem _ h
  · exact h
  · exact List.mem_cons_of_mem _ h

/-- The path without the start of an extended one. -/
def unextended (path : Path) : Path :=
  match stripPrefix "\\\\?\\".toList path with
  | some rest => "\\??\\".toList ++ rest
  | none => path

-- The premise is a `Bool`, so that it is evaluated along the list.
theorem not_mem_of_all {pre : Path} {c : Char}
    (hback : c ≠ '\\')
    (hquestion : c ≠ '?')
    (h : pre.all (fun d => d == '\\' || d == '?') = true) :
    c ∉ pre := by
  intro hmem
  have hc := List.all_eq_true.mp h c hmem
  rw [Bool.or_eq_true, beq_iff_eq, beq_iff_eq] at hc
  exact hc.elim hback hquestion

theorem mem_unextended_iff {path : Path} {c : Char}
    (hback : c ≠ '\\')
    (hquestion : c ≠ '?') :
    c ∈ unextended path ↔ c ∈ path := by
  have hold : c ∉ "\\\\?\\".toList := not_mem_of_all hback hquestion (by decide)
  have hnew : c ∉ "\\??\\".toList := not_mem_of_all hback hquestion (by decide)
  rw [unextended, stripPrefix]
  by_cases hstart : "\\\\?\\".toList.isPrefixOf path = true
  · rw [if_pos hstart]
    obtain ⟨rest, hrest⟩ := List.isPrefixOf_iff_prefix.mp hstart
    rw [← hrest, List.drop_left]
    simp only [List.mem_append, hold, hnew, false_or]
  · rw [if_neg hstart]

theorem mem_canonicalizeNtPath_iff {path : Path} {c : Char}
    (hslash : c ≠ '/')
    (hback : c ≠ '\\')
    (hquestion : c ≠ '?') :
    c ∈ canonicalizeNtPath path ↔ c ∈ path := by
  rw [canonicalizeNtPath]
  cases path with
  | nil =>
    exact Iff.rfl
  | cons first path =>
    have hmapped : c ∈ ((first :: path).map fun c => if c = '/' then '\\' else c) ↔
        c ∈ first :: path := by
      rw [List.mem_map]
      constructor
      · rintro ⟨d, hd, heq⟩
        split at heq
        · exact absurd heq.symm hback
        · exact heq ▸ hd
      · exact fun hmem => ⟨c, hmem, if_neg hslash⟩
    rw [← hmapped]
    generalize ((first :: path).map fun c => if c = '/' then '\\' else c) = mapped
    refine Iff.trans ?_ (mem_unextended_iff hback hquestion)
    change c ∈ popBackslash (mergeLoop (rootPath (unextended mapped)).length
      (rootPath (unextended mapped))) ↔ _
    generalize unextended mapped = rest
    have hmerged : c ∈ mergeLoop (rootPath rest).length (rootPath rest) ↔ c ∈ rest := by
      constructor
      · intro hmem
        rcases mem_rootPath _ (mem_mergeLoop _ _ hmem) with hmem | hmem
        · exact hmem
        · exact absurd hmem (not_mem_of_all hback hquestion (by decide))
      · exact fun hmem => mem_mergeLoop_of_ne hback (mem_rootPath_of_mem hmem)
    rw [← hmerged]
    generalize mergeLoop (rootPath rest).length (rootPath rest) = merged
    rw [popBackslash]
    split
    next hlast =>
      refine ⟨List.mem_of_mem_dropLast, fun hmem => ?_⟩
      have hne : merged ≠ [] := List.ne_nil_of_mem hmem
      rw [← List.dropLast_append_getLast hne] at hmem
      rcases List.mem_append.mp hmem with hmem | hmem
      · exact hmem
      · rw [List.getLast?_eq_some_getLast hne] at hlast
        rw [List.mem_singleton, Option.some.inj hlast.2] at hmem
        exact absurd hmem hback
    next =>
      exact Iff.rfl

end Nt

namespace Loader

open Relation

/-! ## The meaning of imports -/

abbrev Entry := Text × PeModule

/-- Everything that a module exports. -/
def PeModule.targets (pe : PeModule) : List (Target UInt32) :=
  pe.names.map Prod.snd ++ pe.table

/-- The name of a library in an import or a forwarder leads to a module. -/
def Names (library : Library) (dll : Text) (entry : Entry) : Prop :=
  library.find (canonicalModulePath dll) = some entry

theorem sameText_iff
    {a b : Text} :
    sameText a b = true ↔ lower a = lower b := by
  simp [sameText]

/-- The image of a module of the set at a base. -/
def imageOf (ntPath : Text) (pe : PeModule) (imageBase : Nat) : LoadedImage :=
  loadedImage (buildModuleTemplate ntPath pe) imageBase

theorem dot_mem_canonicalModulePath_iff
    {name : Text} :
    '.' ∈ canonicalModulePath name ↔ '.' ∈ name := by
  have hcanonical : ∀ path : Text, '.' ∈ Nt.canonicalizeNtPath path ↔ '.' ∈ path := fun _ =>
    Nt.mem_canonicalizeNtPath_iff (by decide) (by decide) (by decide)
  have hnormalized : '.' ∈ (name.map fun c => if c = '/' then '\\' else c) ↔ '.' ∈ name := by
    rw [List.mem_map]
    constructor
    · rintro ⟨d, hd, heq⟩
      split at heq
      · exact absurd heq (by decide)
      · exact heq ▸ hd
    · exact fun hmem => ⟨'.', hmem, by decide⟩
  rw [canonicalModulePath]
  split
  · exact hcanonical name
  · dsimp only
    split
    · rw [hcanonical, hnormalized]
    · have hdirectory : '.' ∉ "\\SystemRoot\\System32\\".toList := by decide
      rw [hcanonical, List.mem_append, hnormalized]
      simp only [hdirectory, false_or]

theorem dot_mem_lower_iff
    {text : Text} :
    '.' ∈ lower text ↔ '.' ∈ text := by
  rw [lower, List.mem_map]
  constructor
  · rintro ⟨c, hc, heq⟩
    rw [toLower_eq_iff (by decide)] at heq
    exact heq ▸ hc
  · exact fun hmem => ⟨'.', hmem, by decide⟩

/-! ## Exports -/

/-- The export that a module has under a name or an ordinal, the first one. -/
def PeModule.find (pe : PeModule) : Symbol → Option (Target UInt32)
  | .name text => (pe.names.find? fun e => lower e.1 = lower text).map Prod.snd
  | .ordinal n => (pe.table.zipIdx.find? fun e => pe.ordinalBase + e.2 = n).map Prod.fst

theorem find_imageOf_eq
    (ntPath : Text) (pe : PeModule) (base : Nat) (symbol : Symbol) :
    (imageOf ntPath pe base).find symbol =
      (pe.find symbol).map fun target => materializeExportTarget base (templateTarget target) := by
  cases symbol with
  | name text =>
    simp only [imageOf, loadedImage, buildModuleTemplate, materializeExports, LoadedImage.find,
      PeModule.find, List.map_map, List.find?_map, Option.map_map]
    rfl
  | ordinal n =>
    simp only [imageOf, loadedImage, buildModuleTemplate, materializeExports, LoadedImage.find,
      PeModule.find, List.map_map, List.find?_map, Option.map_map]
    rfl

theorem mem_targets_of_find {pe : PeModule} {symbol : Symbol} {target : Target UInt32}
    (h : pe.find symbol = some target) :
    target ∈ pe.targets := by
  cases symbol with
  | name text =>
    obtain ⟨e, he, rfl⟩ := Option.map_eq_some_iff.mp h
    exact List.mem_append_left _ (List.mem_map_of_mem (List.mem_of_find?_eq_some he))
  | ordinal n =>
    obtain ⟨e, he, rfl⟩ := Option.map_eq_some_iff.mp h
    refine List.mem_append_right _ ?_
    exact List.mem_of_getElem? (List.mem_zipIdx_iff_getElem?.mp (List.mem_of_find?_eq_some he))

def dllSuffix : Text :=
  ".dll".toList

/-- A symbol of a module is, after the forwarders of `LIB.dll`, a place in the module with the
path. -/
inductive Leads (library : Library) : Text → PeModule → Symbol → Text → UInt32 → Prop
  | here {path : Text} {pe : PeModule} {symbol : Symbol} {rva : UInt32}
      (h : pe.find symbol = some (.here rva)) :
      Leads library path pe symbol path rva
  | forward {path last lib : Text} {pe : PeModule} {next : Entry} {symbol symbol' : Symbol}
      {rva : UInt32}
      (h : pe.find symbol = some (.forward lib symbol'))
      (hnext : Names library (lib ++ dllSuffix) next)
      (hrest : Leads library (canonicalModulePath (lib ++ dllSuffix)) next.2 symbol' last rva) :
      Leads library path pe symbol last rva

/-- The path of a module that was reached over a forwarder has a dot. -/
theorem Leads.dot_mem {library : Library} {path last : Text} {pe : PeModule} {symbol : Symbol}
    {rva : UInt32}
    (h : Leads library path pe symbol last rva)
    (hpath : '.' ∈ path) :
    '.' ∈ last := by
  induction h with
  | here =>
    exact hpath
  | forward _ _ _ ih =>
    exact ih (dot_mem_canonicalModulePath_iff.mpr (List.mem_append_right _ (by decide)))

/-! ## Processes -/

/-- Every module of the process is one of the library. -/
def FromLibrary (library : Library) (s : Process) : Prop :=
  ∀ m ∈ s.modules, ∃ entry ∈ library, sameText entry.1 m.ntPath = true ∧
    ∃ base, m.toLoadedImage = imageOf m.ntPath entry.2 base

/-- A step of loading keeps the modules those of the library, and has a result with a
property. -/
def Load.Gives {α : Type} (library : Library) (x : Load α) (post : Process → α → Prop) : Prop :=
  ∀ s r t, FromLibrary library s → x s = some (r, t) →
    FromLibrary library t ∧ ∀ a, r = .ok a → post t a

section Loading

variable {library : Library} {canMap : Space → Nat → Bool}

theorem Load.Gives.bind {α β : Type} {x : Load α} {f : α → Load β} {post : Process → α → Prop}
    {post' : Process → β → Prop}
    (hx : x.Gives library post)
    (hf : ∀ a s r t, FromLibrary library s → post s a → f a s = some (r, t) →
      FromLibrary library t ∧ ∀ b, r = .ok b → post' t b) :
    (x >>= f).Gives library post' := by
  intro s r t hs h
  rcases Load.bind_eq_some.mp h with ⟨e, hfirst, rfl⟩ | ⟨a, u, hfirst, hsecond⟩
  · exact ⟨(hx s _ t hs hfirst).1, fun b hb => nomatch hb⟩
  · obtain ⟨hu, hpost⟩ := hx s _ u hs hfirst
    exact hf a u r t hu (hpost a rfl) hsecond

theorem gives_inSpace
    {α : Type} (f : Space → Except LoadStatus α × Space) :
    (Load.inSpace f).Gives library fun _ _ => True := by
  rintro s r t hs ⟨⟩
  exact ⟨hs, fun _ _ => trivial⟩

/-- The image of a module of the process. -/
def LoadedIn (t : Process) (image : LoadedImage) : Prop :=
  ∃ m ∈ t.modules, m.toLoadedImage = image

theorem gives_resolveExport {load : Text → Load LoadedImage} {depth : Nat}
    (hload : ∀ path, (load path).Gives library LoadedIn)
    (image : LoadedImage) (symbol : Symbol) :
    (resolveExport load depth image symbol).Gives library fun _ _ => True := by
  induction depth generalizing image symbol with
  | zero =>
    intro s r t hs h
    cases h
  | succ depth ih =>
    rw [resolveExport]
    rcases image.find symbol with _ | address | ⟨dll, next⟩
    · rintro s r t hs ⟨⟩
      exact ⟨hs, fun _ _ => trivial⟩
    · rintro s r t hs ⟨⟩
      exact ⟨hs, fun _ _ => trivial⟩
    · exact (hload dll).bind fun image s r t hs _ h => ih image next s r t hs h

theorem gives_resolveImports {load : Text → Load LoadedImage} {depth base : Nat} {layout : Layout}
    (hload : ∀ path, (load path).Gives library LoadedIn)
    (imports : List Import) :
    (resolveImports load depth layout base imports).Gives library fun _ _ => True := by
  induction imports with
  | nil =>
    rintro s r t hs ⟨⟩
    exact ⟨hs, fun _ _ => trivial⟩
  | cons i imports ih =>
    have hslot : ∀ address, (Load.inSpace (writeSlot layout base i address) >>= fun _ =>
        resolveImports load depth layout base imports).Gives library fun _ _ => True :=
      fun address => (gives_inSpace _).bind fun _ s r t hs _ h => ih s r t hs h
    have hexport : ∀ image, (resolveExport load depth image i.symbol >>= fun address =>
        Load.inSpace (writeSlot layout base i address) >>= fun _ =>
          resolveImports load depth layout base imports).Gives library fun _ _ => True :=
      fun image => (gives_resolveExport hload image i.symbol).bind
        fun address s r t hs _ h => hslot address s r t hs h
    exact (hload i.dll).bind fun image s r t hs _ h => hexport image s r t hs h

theorem gives_endLoad {path : Text} {template : ModuleTemplate} {imageBase : Nat} {s t : Process}
    {r : Except LoadStatus LoadedImage}
    (hfound : moduleTemplate library path = .ok template)
    (hs : FromLibrary library s)
    (h : endLoad path template imageBase s = some (r, t)) :
    FromLibrary library t ∧ ∀ image, r = .ok image → LoadedIn t image := by
  obtain ⟨r', t', hend, -, hresult⟩ := endLoad_spec path template imageBase s
  cases hend.symm.trans h
  rcases hresult with ⟨e, rfl, hmodules⟩ | ⟨rfl, hmodules⟩
  · exact ⟨fun m hm => hs m (hmodules ▸ hm), fun _ himage => nomatch himage⟩
  · refine ⟨fun m hm => ?_, fun image himage => ?_⟩
    · rw [hmodules] at hm
      rcases List.mem_append.mp hm with hm | hm
      · exact hs m hm
      · cases List.mem_singleton.mp hm
        rw [moduleTemplate] at hfound
        split at hfound
        next entry hentry =>
          cases hfound
          exact ⟨entry, List.mem_of_find?_eq_some hentry,
            by simpa using List.find?_some hentry, imageBase, rfl⟩
        next =>
          cases hfound
    · cases himage
      exact ⟨_, by rw [hmodules]; exact List.mem_append_right _ (List.mem_singleton_self _), rfl⟩

theorem gives_loadModule
    (depth : Nat) (path : Text) :
    (loadModule canMap library depth path).Gives library LoadedIn := by
  induction depth generalizing path with
  | zero =>
    intro s r t hs h
    cases h
  | succ depth ih =>
    intro s r t hs h
    obtain ⟨m, hm⟩ | ⟨e, space, -, hload⟩ | ⟨template, imageBase, e, -, hload⟩ |
      ⟨template, imageBase, hbegins⟩ := loadModule_cases canMap library path s
    · cases (loadModule_of_recorded canMap library hm depth).symm.trans h
      refine ⟨hs, fun image himage => ?_⟩
      cases himage
      exact ⟨m, List.mem_of_find?_eq_some hm, rfl⟩
    · cases (hload depth).symm.trans h
      exact ⟨hs, fun _ himage => nomatch himage⟩
    · cases (hload depth).symm.trans h
      exact ⟨hs, fun _ himage => nomatch himage⟩
    · rw [hbegins.loadModule depth] at h
      have hbegun : FromLibrary library (begun canMap path s template.layout imageBase) := hs
      have hrest : (resolveImports (loadModule canMap library depth) depth template.layout imageBase
          template.imports >>= fun _ => endLoad (canonicalModulePath path) template imageBase).Gives
            library LoadedIn := by
        refine (gives_resolveImports ih template.imports).bind fun _ u r t hu _ h => ?_
        exact gives_endLoad hbegins.found hu h
      exact hrest _ r t hbegun h

end Loading

/-! ## Following forwarders -/

/-- `resolve_export_target`, with the path of the module that the export was found in. -/
def resolveIn (load : Text → Load LoadedImage) :
    Nat → Text → LoadedImage → Symbol → Load (Text × Nat)
  | 0, _, _, _ => fun _ => none
  | depth + 1, path, image, symbol =>
    match image.find symbol with
    | none => Load.fail (.nt .objectNameNotFound)
    | some (.here address) => pure (path, address)
    | some (.forward dll symbol) => do
      let image ← load dll
      resolveIn load depth (canonicalModulePath dll) image symbol

/-- The address is that of `resolve_export_target`. -/
theorem resolveExport_eq_resolveIn
    (load : Text → Load LoadedImage) (depth : Nat) (path : Text) (image : LoadedImage)
    (symbol : Symbol) :
    resolveExport load depth image symbol = Prod.snd <$> resolveIn load depth path image symbol := by
  induction depth generalizing path image symbol with
  | zero =>
    rfl
  | succ depth ih =>
    rw [resolveExport, resolveIn]
    rcases image.find symbol with _ | address | ⟨dll, next⟩
    · rfl
    · rfl
    · dsimp only
      rw [map_bind]
      exact bind_congr fun image => ih (canonicalModulePath dll) image next

section Forwarding

variable {library : Library} {canMap : Space → Nat → Bool}

/-- The forwarders of a library are written without an extension. -/
def Bare (library : Library) : Prop :=
  ∀ entry ∈ library, ∀ lib symbol, .forward lib symbol ∈ entry.2.targets → '.' ∉ lib

theorem find_eq_forward_iff {ntPath dll : Text} {pe : PeModule} {base : Nat}
    {symbol next : Symbol} :
    (imageOf ntPath pe base).find symbol = some (.forward dll next) ↔
      ∃ lib symbol', pe.find symbol = some (.forward lib symbol') ∧
        canonicalModulePath lib = dll ∧ lowerSymbol symbol' = next := by
  rw [find_imageOf_eq, Option.map_eq_some_iff]
  constructor
  · rintro ⟨target, hfind, htarget⟩
    cases target with
    | here rva =>
      cases htarget
    | forward lib symbol' =>
      cases htarget
      exact ⟨lib, symbol', hfind, rfl, rfl⟩
  · rintro ⟨lib, symbol', hfind, rfl, rfl⟩
    exact ⟨_, hfind, rfl⟩

theorem dot_not_mem_of_forward {s : Process} {image : LoadedImage} {symbol next : Symbol}
    {dll : Text}
    (hbare : Bare library)
    (hs : FromLibrary library s)
    (himage : LoadedIn s image)
    (h : image.find symbol = some (.forward dll next)) :
    '.' ∉ dll := by
  obtain ⟨m, hm, rfl⟩ := himage
  obtain ⟨entry, hentry, -, base, hbase⟩ := hs m hm
  rw [hbase] at h
  obtain ⟨lib, symbol', hfind, rfl, -⟩ := find_eq_forward_iff.mp h
  rw [dot_mem_canonicalModulePath_iff]
  exact hbare entry hentry lib symbol' (mem_targets_of_find hfind)

/-- A forwarder of a module of the process. -/
theorem find_of_forward {s : Process} {m : LoadedModule} {entry : Entry} {base : Nat}
    {symbol symbol' : Symbol} {lib : Text}
    (hbare : Bare library)
    (hs : FromLibrary library s)
    (hm : m ∈ s.modules)
    (himage : m.toLoadedImage = imageOf m.ntPath entry.2 base)
    (hforward : entry.2.find symbol = some (.forward lib symbol')) :
    m.toLoadedImage.find symbol =
        some (.forward (canonicalModulePath lib) (lowerSymbol symbol')) ∧
      '.' ∉ canonicalModulePath lib := by
  have hfind : m.toLoadedImage.find symbol =
      some (.forward (canonicalModulePath lib) (lowerSymbol symbol')) := by
    rw [himage]
    exact find_eq_forward_iff.mpr ⟨lib, symbol', hforward, rfl, rfl⟩
  exact ⟨hfind, dot_not_mem_of_forward hbare hs ⟨m, hm, rfl⟩ hfind⟩

/-- Behind a forwarder, the paths of the modules have no dots. -/
theorem resolveIn_path {load : Text → Load LoadedImage} {depth address : Nat} {path q : Text}
    {image : LoadedImage} {symbol : Symbol} {s t : Process}
    (hbare : Bare library)
    (hload : ∀ path, (load path).Gives library LoadedIn)
    (hs : FromLibrary library s)
    (himage : LoadedIn s image)
    (h : resolveIn load depth path image symbol s = some (.ok (q, address), t)) :
    q = path ∨ '.' ∉ q := by
  induction depth generalizing path image symbol s with
  | zero =>
    cases h
  | succ depth ih =>
    rw [resolveIn] at h
    rcases hfind : image.find symbol with _ | here | ⟨dll, next⟩
    · rw [hfind] at h
      cases h
    · rw [hfind] at h
      cases h
      exact .inl rfl
    · rw [hfind] at h
      have hdll := dot_not_mem_of_forward hbare hs himage hfind
      rcases Load.bind_eq_some.mp h with ⟨e, -, he⟩ | ⟨image', u, hfirst, hsecond⟩
      · cases he
      · obtain ⟨hu, himage'⟩ := hload dll s _ u hs hfirst
        rcases ih hu (himage' image' rfl) hsecond with rfl | hdot
        · rw [dot_mem_canonicalModulePath_iff]
          exact .inr hdll
        · exact .inr hdot

/-- A symbol of a module of the process is resolved to the place in the module with the path. -/
def Reaches (canMap : Space → Nat → Bool) (library : Library) (s : Process) (m : LoadedModule)
    (symbol : Symbol) (last : Text) (rva : UInt32) : Prop :=
  ∃ depth q t m', resolveIn (loadModule canMap library depth) depth m.ntPath m.toLoadedImage symbol s =
      some (.ok (q, m'.imageBase + rva.toNat), t) ∧
    m' ∈ t.modules ∧ sameText q last = true ∧ sameText m'.ntPath last = true

theorem not_reaches_of_forward {s : Process} {m : LoadedModule} {entry : Entry} {base : Nat}
    {symbol symbol' : Symbol} {last lib : Text} {rva : UInt32}
    (hbare : Bare library)
    (hs : FromLibrary library s)
    (hm : m ∈ s.modules)
    (himage : m.toLoadedImage = imageOf m.ntPath entry.2 base)
    (hforward : entry.2.find symbol = some (.forward lib symbol'))
    (hleads : Leads library m.ntPath entry.2 symbol last rva) :
    ¬ Reaches canMap library s m symbol last rva := by
  rintro ⟨depth, q, t, m', hresolve, -, hsame, -⟩
  have hlast : '.' ∈ last := by
    cases hleads with
    | here hhere =>
      cases hforward.symm.trans hhere
    | forward _ _ hrest =>
      exact hrest.dot_mem (dot_mem_canonicalModulePath_iff.mpr (List.mem_append_right _ (by decide)))
  obtain ⟨hfind, hdll⟩ := find_of_forward hbare hs hm himage hforward
  have hq : '.' ∉ q := by
    cases depth with
    | zero =>
      cases hresolve
    | succ depth =>
      rw [resolveIn, hfind] at hresolve
      rcases Load.bind_eq_some.mp hresolve with ⟨e, -, he⟩ | ⟨image', u, hfirst, hsecond⟩
      · cases he
      · obtain ⟨hu, himage'⟩ := gives_loadModule _ _ s _ u hs hfirst
        rcases resolveIn_path hbare (gives_loadModule _) hu (himage' image' rfl) hsecond with
          rfl | hdot
        · rwa [dot_mem_canonicalModulePath_iff]
        · exact hdot
  rw [sameText_iff] at hsame
  exact hq (dot_mem_lower_iff.mp (hsame ▸ dot_mem_lower_iff.mpr hlast))

/-- If every module there is has an extension, a forwarder leads nowhere. -/
theorem resolveExport_of_forward {s : Process} {m : LoadedModule} {entry : Entry} {base : Nat}
    {symbol symbol' : Symbol} {lib : Text}
    (hbare : Bare library)
    (hs : FromLibrary library s)
    (hm : m ∈ s.modules)
    (himage : m.toLoadedImage = imageOf m.ntPath entry.2 base)
    (hforward : entry.2.find symbol = some (.forward lib symbol'))
    (hdots : ∀ other ∈ library, '.' ∈ other.1)
    (depth : Nat) :
    resolveExport (loadModule canMap library (depth + 1)) (depth + 1) m.toLoadedImage symbol s =
      some (.error (.nt .objectNameNotFound), s) := by
  obtain ⟨hfind, hdll⟩ := find_of_forward hbare hs hm himage hforward
  generalize canonicalModulePath lib = dll at hfind hdll
  have hkey : '.' ∉ lower (canonicalModulePath dll) := by
    rwa [dot_mem_lower_iff, dot_mem_canonicalModulePath_iff]
  have hnew : recorded s.modules dll = none := by
    rw [recorded_eq_none]
    intro hmem
    obtain ⟨other, hother, heq⟩ := List.mem_map.mp hmem
    obtain ⟨entry', hentry', hsame, -⟩ := hs other hother
    refine hkey ?_
    rw [moduleKey] at heq
    rw [← heq, ← sameText_iff.mp hsame]
    exact dot_mem_lower_iff.mpr (hdots entry' hentry')
  have hmissing : library.find (canonicalModulePath dll) = none := by
    refine List.find?_eq_none.mpr fun other hother hsame => hkey ?_
    rw [← sameText_iff.mp hsame]
    exact dot_mem_lower_iff.mpr (hdots other hother)
  have hload : loadModule canMap library (depth + 1) dll s =
      some (.error (.nt .objectNameNotFound), s) := by
    rw [loadModule_of_new canMap library hnew, moduleTemplate, hmissing]
    rfl
  rw [resolveExport, hfind]
  exact Load.bind_eq_some.mpr (.inl ⟨_, hload, rfl⟩)

/-- **Forwarders.**  In a process whose modules come from a library, let a symbol of a module lead,
over forwarders to `LIB.dll`, to a place in a module.  The symbol is resolved to that place in
that module exactly if it is no forwarder; then nothing is loaded.  If every module there is has
an extension, a forwarder is not found. -/
theorem forwarded_export_reached_iff {s : Process} {m : LoadedModule} {entry : Entry} {base : Nat}
    {symbol : Symbol} {last : Text} {rva : UInt32}
    (hbare : Bare library)
    (hs : FromLibrary library s)
    (hm : m ∈ s.modules)
    (himage : m.toLoadedImage = imageOf m.ntPath entry.2 base)
    (hleads : Leads library m.ntPath entry.2 symbol last rva) :
    (Reaches canMap library s m symbol last rva ↔ entry.2.find symbol = some (.here rva)) ∧
    (entry.2.find symbol = some (.here rva) →
      ∀ depth, resolveExport (loadModule canMap library (depth + 1)) (depth + 1) m.toLoadedImage
        symbol s = some (.ok (m.imageBase + rva.toNat), s)) ∧
    (entry.2.find symbol ≠ some (.here rva) → (∀ other ∈ library, '.' ∈ other.1) →
      ∀ depth, resolveExport (loadModule canMap library (depth + 1)) (depth + 1) m.toLoadedImage
        symbol s = some (.error (.nt .objectNameNotFound), s)) := by
  have hbase : m.imageBase = base := by
    rw [himage]
    rfl
  have hdirect : entry.2.find symbol = some (.here rva) →
      m.toLoadedImage.find symbol = some (.here (m.imageBase + rva.toNat)) := by
    intro hhere
    rw [hbase, himage, find_imageOf_eq, hhere]
    rfl
  refine ⟨⟨fun hreaches => ?_, fun hhere => ?_⟩, fun hhere depth => ?_, fun hnot hdots depth => ?_⟩
  · cases hleads with
    | here hhere =>
      exact hhere
    | forward hforward hnext hrest =>
      exact absurd hreaches
        (not_reaches_of_forward hbare hs hm himage hforward (.forward hforward hnext hrest))
  · cases hleads with
    | here _ =>
      refine ⟨1, m.ntPath, s, m, ?_, hm, sameText_iff.mpr rfl, sameText_iff.mpr rfl⟩
      rw [resolveIn, hdirect hhere]
      rfl
    | forward hforward _ _ =>
      cases hforward.symm.trans hhere
  · rw [resolveExport, hdirect hhere]
    rfl
  · cases hleads with
    | here hhere =>
      exact absurd hhere hnot
    | forward hforward _ _ =>
      exact resolveExport_of_forward hbare hs hm himage hforward hdots depth

end Forwarding

/-! ## Two modules -/

def pathA : Text :=
  "\\SystemRoot\\System32\\a.dll".toList

def pathB : Text :=
  "\\SystemRoot\\System32\\b.dll".toList

/-- A module with one export. -/
def oneExport (name : Text) (target : Target UInt32) : PeModule where
  layout := ⟨0, 32, 0, 0, true, [], [], []⟩
  name := none
  imports := []
  names := [(name, target)]
  ordinalBase := 1
  table := []

/-- `a.dll` forwards `f` to `b.g`. -/
def entryA : Entry :=
  (pathA, oneExport ['f'] (.forward ['b'] (.name ['g'])))

def entryB : Entry :=
  (pathB, oneExport ['g'] (.here 16))

def forwardingLibrary : Library :=
  [entryA, entryB]

def moduleA : LoadedModule :=
  ⟨imageOf pathA entryA.2 0x10000, pathA⟩

def moduleB : LoadedModule :=
  ⟨imageOf pathB entryB.2 0x20000, pathB⟩

/-- The process has loaded both. -/
def bothLoaded : Process :=
  ⟨[moduleA, moduleB], ⟨0x30000, fun _ => true, fun _ => 0⟩, [lower pathA, lower pathB]⟩

theorem bare_forwardingLibrary :
    Bare forwardingLibrary := by
  intro entry hentry lib symbol hmem
  simp only [forwardingLibrary, List.mem_cons, List.not_mem_nil, or_false] at hentry
  rcases hentry with rfl | rfl
  · cases List.mem_singleton.mp hmem
    decide
  · cases List.mem_singleton.mp hmem

theorem fromLibrary_bothLoaded :
    FromLibrary forwardingLibrary bothLoaded := by
  intro m hm
  simp only [bothLoaded, List.mem_cons, List.not_mem_nil, or_false] at hm
  rcases hm with rfl | rfl
  · exact ⟨entryA, List.mem_cons_self .., sameText_iff.mpr rfl, _, rfl⟩
  · exact ⟨entryB, List.mem_cons_of_mem _ (List.mem_cons_self ..), sameText_iff.mpr rfl, _, rfl⟩

theorem names_b_dll :
    Names forwardingLibrary (['b'] ++ dllSuffix) entryB := by
  have hfirst : ¬ sameText entryA.1 (canonicalModulePath (['b'] ++ dllSuffix)) = true := by
    decide +kernel
  have hsecond : sameText pathB (canonicalModulePath (['b'] ++ dllSuffix)) = true := by
    decide +kernel
  exact (List.find?_cons_of_neg (p := fun entry : Entry => sameText entry.1 _) hfirst).trans
    (List.find?_cons_of_pos hsecond)

theorem forwarded_export_not_reached :
    Leads forwardingLibrary pathA entryA.2 (.name ['f']) pathB 16 ∧
      ¬ Reaches plenty forwardingLibrary bothLoaded moduleA (.name ['f']) pathB 16 := by
  have hpath : canonicalModulePath (['b'] ++ dllSuffix) = pathB := by decide +kernel
  have hleads : Leads forwardingLibrary pathA entryA.2 (.name ['f']) pathB 16 :=
    .forward rfl names_b_dll (hpath ▸ .here rfl)
  refine ⟨hleads, fun hreaches => ?_⟩
  have hhere := (forwarded_export_reached_iff bare_forwardingLibrary fromLibrary_bothLoaded
    (List.mem_cons_self ..) rfl hleads).1.mp hreaches
  cases hhere

/-- The symbol `f` of `a.dll` is `g` of `b.dll`, which is loaded and has it; but it is not
found. -/
theorem forwarder_of_loaded_module_not_found :
    loadModule plenty forwardingLibrary 1 "b.dll".toList bothLoaded =
        some (.ok moduleB.toLoadedImage, bothLoaded) ∧
      moduleB.find (.name ['g']) = some (.here 0x20010) ∧
      resolveExport (loadModule plenty forwardingLibrary 1) 1 moduleA.toLoadedImage (.name ['f'])
        bothLoaded = some (.error (.nt .objectNameNotFound), bothLoaded) := by
  have hfirst : ¬ sameText moduleA.ntPath (canonicalModulePath "b.dll".toList) = true := by
    decide +kernel
  have hsecond : sameText pathB (canonicalModulePath "b.dll".toList) = true := by
    decide +kernel
  refine ⟨loadModule_of_recorded _ _ ?_ 0, rfl, ?_⟩
  · exact (List.find?_cons_of_neg (p := fun m : LoadedModule => sameText m.ntPath _) hfirst).trans
      (List.find?_cons_of_pos hsecond)
  · have hforward : entryA.2.find (.name ['f']) = some (.forward ['b'] (.name ['g'])) := rfl
    refine resolveExport_of_forward bare_forwardingLibrary fromLibrary_bothLoaded
      (List.mem_cons_self ..) rfl hforward ?_ 0
    intro other hother
    simp only [forwardingLibrary, List.mem_cons, List.not_mem_nil, or_false] at hother
    rcases hother with rfl | rfl
    · exact (by decide +kernel : '.' ∈ pathA)
    · exact (by decide +kernel : '.' ∈ pathB)

end Loader
end Kernel
end Theos
