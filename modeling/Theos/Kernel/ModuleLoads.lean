import Theos.Kernel.ModuleLoader

/-!
# One load of a module

What a call of `load_module` does, step by step, and that it only ever adds to the list
of modules of the process.
-/

namespace Theos
namespace Kernel
namespace Loader

open Base

/-! ## Computations that only add to a process -/

namespace Load

variable {α β : Type}

theorem bind_apply
    (x : Load α) (f : α → Load β) (s : Process) :
    (x >>= f) s =
      match x s with
      | none => none
      | some (.error e, t) => some (.error e, t)
      | some (.ok a, t) => f a t :=
  rfl

instance : LawfulMonad Load :=
  LawfulMonad.mk' Load
    (by
      intro α x
      funext s
      change (x >>= fun a => pure (id a)) s = x s
      rw [bind_apply]
      rcases x s with _ | ⟨_ | _, _⟩ <;> rfl)
    (fun _ _ => rfl)
    (by
      intro α β γ x f g
      funext s
      simp only [bind_apply]
      rcases x s with _ | ⟨_ | _, _⟩ <;> rfl)

/-- The result of a computation that is followed by another one. -/
theorem bind_eq_some
    {x : Load α} {f : α → Load β} {s u : Process} {r : Except LoadStatus β} :
    (x >>= f) s = some (r, u) ↔
      (∃ e, x s = some (.error e, u) ∧ r = .error e) ∨
        ∃ a t, x s = some (.ok a, t) ∧ f a t = some (r, u) := by
  rw [bind_apply]
  rcases x s with _ | ⟨e | a, t⟩
  · simp
  · constructor
    · intro h
      cases h
      exact .inl ⟨e, rfl, rfl⟩
    · rintro (⟨e', h, rfl⟩ | ⟨a, t', h, -⟩)
      · cases h
        rfl
      · cases h
  · constructor
    · exact fun h => .inr ⟨a, t, rfl, h⟩
    · rintro (⟨e', h, -⟩ | ⟨a', t', h, hf⟩)
      · cases h
      · cases h
        exact hf

theorem inSpace_bind_ok {f : Space → Except LoadStatus α × Space} {s : Process} {a : α}
    (h : (f s.space).1 = .ok a)
    (g : α → Load β) :
    (Load.inSpace f >>= g) s = g a { s with space := (f s.space).2 } := by
  simp only [bind_apply, inSpace, h]

theorem inSpace_bind_error {f : Space → Except LoadStatus α × Space} {s : Process} {e : LoadStatus}
    (h : (f s.space).1 = .error e)
    (g : α → Load β) :
    (Load.inSpace f >>= g) s = some (.error e, { s with space := (f s.space).2 }) := by
  simp only [bind_apply, inSpace, h]

theorem ofExcept_bind_ok
    (a : α) (g : α → Load β) :
    Load.ofExcept (.ok a) >>= g = g a := by
  funext s
  rw [bind_apply, ofExcept]

end Load

theorem notePlaced_bind
    {α : Type} (path : Text) (g : Unit → Load α) (s : Process) :
    (notePlaced path >>= g) s = g () { s with placed := s.placed ++ [lower path] } := by
  rw [Load.bind_apply, notePlaced]

/-! ## One load -/

/-- The path by which a module is known. -/
def moduleKey (path : Text) : Text :=
  lower (canonicalModulePath path)

/-- The module of a list that has a path. -/
def recorded (modules : List LoadedModule) (path : Text) : Option LoadedModule :=
  modules.find? fun m => sameText m.ntPath (canonicalModulePath path)

/-- The paths by which the modules of a list are known. -/
def moduleKeys (modules : List LoadedModule) : List Text :=
  modules.map fun m => lower m.ntPath

theorem recorded_eq_none
    {modules : List LoadedModule} {path : Text} :
    recorded modules path = none ↔ moduleKey path ∉ moduleKeys modules := by
  simp [recorded, moduleKey, moduleKeys, sameText]

section OneLoad

variable (canMap : Space → Nat → Bool) (library : Library)

/-- The load of a module that is not in the list of the process maps its image. -/
structure Places (path : Text) (s : Process) (template : ModuleTemplate) (imageBase : Nat) :
    Prop where
  new : recorded s.modules path = none
  found : moduleTemplate library (canonicalModulePath path) = .ok template
  place : (placeImage canMap template.layout s.space).1 = .ok imageBase

/-- The process when the image of a module is mapped and written. -/
def begun (path : Text) (s : Process) (layout : Layout) (imageBase : Nat) : Process where
  modules := s.modules
  space := (writeImage layout imageBase (placeImage canMap layout s.space).2).2
  placed := s.placed ++ [moduleKey path]

theorem write_bind_ok {α : Type} {s : Process} {layout : Layout} {imageBase : Nat} {u : Unit}
    (path : Text) (h : (writeImage layout imageBase (placeImage canMap layout s.space).2).1 = .ok u)
    (g : Unit → Load α) :
    (Load.inSpace (writeImage layout imageBase) >>= g)
        ⟨s.modules, (placeImage canMap layout s.space).2,
          s.placed ++ [lower (canonicalModulePath path)]⟩ =
      g u (begun canMap path s layout imageBase) := by
  rw [begun, moduleKey]
  exact Load.inSpace_bind_ok (f := writeImage layout imageBase)
    (s := ⟨s.modules, (placeImage canMap layout s.space).2,
      s.placed ++ [lower (canonicalModulePath path)]⟩) h g

theorem write_bind_error
    {α : Type} {s : Process} {layout : Layout} {imageBase : Nat} {e : LoadStatus} (path : Text)
    (h : (writeImage layout imageBase (placeImage canMap layout s.space).2).1 = .error e)
    (g : Unit → Load α) :
    (Load.inSpace (writeImage layout imageBase) >>= g)
        ⟨s.modules, (placeImage canMap layout s.space).2,
          s.placed ++ [lower (canonicalModulePath path)]⟩ =
      some (.error e, begun canMap path s layout imageBase) := by
  rw [begun, moduleKey]
  exact Load.inSpace_bind_error (f := writeImage layout imageBase)
    (s := ⟨s.modules, (placeImage canMap layout s.space).2,
      s.placed ++ [lower (canonicalModulePath path)]⟩) h g

/-- The load of a module comes to its imports. -/
structure Begins (path : Text) (s : Process) (template : ModuleTemplate) (imageBase : Nat) : Prop
    extends Places canMap library path s template imageBase where
  written : (writeImage template.layout imageBase
    (placeImage canMap template.layout s.space).2).1 = .ok ()

/-- What is left of a load when the imports are resolved. -/
def endLoad (canonicalPath : Text) (template : ModuleTemplate) (imageBase : Nat) :
    Load LoadedImage := do
  Load.inSpace (protectSections imageBase template.layout.sections)
  Load.inSpace (protectRegion imageBase (alignTo pageSize template.layout.sizeOfHeaders))
  pushModule canonicalPath (loadedImage template imageBase)
  pure (loadedImage template imageBase)

variable {canMap library}

variable (canMap library) in
theorem loadModule_of_new {path : Text} {s : Process} (h : recorded s.modules path = none)
    (depth : Nat) :
    loadModule canMap library (depth + 1) path s =
      (do
        let template ← Load.ofExcept (moduleTemplate library (canonicalModulePath path))
        let image ← loadPeImage canMap (loadModule canMap library depth) depth
          (canonicalModulePath path) template
        pushModule (canonicalModulePath path) image
        pure image : Load LoadedImage) s := by
  rw [recorded] at h
  simp only [loadModule, h]

theorem Places.loadModule {path : Text} {s : Process} {template : ModuleTemplate} {imageBase : Nat}
    (h : Places canMap library path s template imageBase)
    (depth : Nat) :
    loadModule canMap library (depth + 1) path s =
      (Load.inSpace (writeImage template.layout imageBase) >>= fun _ =>
        resolveImports (Loader.loadModule canMap library depth) depth template.layout imageBase
          template.imports >>= fun _ => endLoad (canonicalModulePath path) template imageBase)
        ⟨s.modules, (placeImage canMap template.layout s.space).2,
          s.placed ++ [lower (canonicalModulePath path)]⟩ := by
  rw [loadModule_of_new canMap library h.new, h.found]
  simp only [Load.ofExcept_bind_ok, loadPeImage, bind_assoc, Load.inSpace_bind_ok h.place,
    notePlaced_bind, endLoad, pure_bind]

theorem Begins.loadModule {path : Text} {s : Process} {template : ModuleTemplate} {imageBase : Nat}
    (h : Begins canMap library path s template imageBase)
    (depth : Nat) :
    loadModule canMap library (depth + 1) path s =
      (resolveImports (Loader.loadModule canMap library depth) depth template.layout imageBase
        template.imports >>= fun _ => endLoad (canonicalModulePath path) template imageBase)
        (begun canMap path s template.layout imageBase) :=
  (h.toPlaces.loadModule depth).trans (write_bind_ok canMap path h.written _)

variable (canMap library) in
theorem loadModule_of_recorded {path : Text} {s : Process} {m : LoadedModule}
    (h : recorded s.modules path = some m)
    (depth : Nat) :
    loadModule canMap library (depth + 1) path s = some (.ok m.toLoadedImage, s) := by
  rw [recorded] at h
  simp only [loadModule, h]

variable (canMap library) in
/-- The four ways in which a load goes on. -/
theorem loadModule_cases
    (path : Text) (s : Process) :
    (∃ m, recorded s.modules path = some m) ∨
    (∃ e space, (∀ template imageBase, ¬ Places canMap library path s template imageBase) ∧
      ∀ depth, loadModule canMap library (depth + 1) path s =
        some (.error e, { s with space := space })) ∨
    (∃ template imageBase e, Places canMap library path s template imageBase ∧
      ∀ depth, loadModule canMap library (depth + 1) path s =
        some (.error e, begun canMap path s template.layout imageBase)) ∨
    ∃ template imageBase, Begins canMap library path s template imageBase := by
  cases hnew : recorded s.modules path with
  | some m =>
    exact .inl ⟨m, rfl⟩
  | none =>
    have hload := loadModule_of_new canMap library hnew
    cases hfound : moduleTemplate library (canonicalModulePath path) with
    | error e =>
      refine .inr (.inl ⟨e, s.space, ?_, fun depth => ?_⟩)
      · intro template imageBase hplaces
        cases hfound.symm.trans hplaces.found
      · rw [hload, hfound, Load.bind_apply, Load.ofExcept]
    | ok template =>
      cases hplace : (placeImage canMap template.layout s.space).1 with
      | error e =>
        refine .inr (.inl ⟨e, (placeImage canMap template.layout s.space).2, ?_,
          fun depth => ?_⟩)
        · intro template' imageBase hplaces
          cases hfound.symm.trans hplaces.found
          cases hplace.symm.trans hplaces.place
        · rw [hload, hfound, Load.ofExcept_bind_ok, loadPeImage, bind_assoc,
            Load.inSpace_bind_error hplace]
      | ok imageBase =>
        have hplaces : Places canMap library path s template imageBase :=
          ⟨hnew, hfound, hplace⟩
        cases hwritten : (writeImage template.layout imageBase
            (placeImage canMap template.layout s.space).2).1 with
        | error e =>
          refine .inr (.inr (.inl ⟨template, imageBase, e, hplaces, fun depth => ?_⟩))
          exact (hplaces.loadModule depth).trans (write_bind_error canMap path hwritten _)
        | ok _ =>
          exact .inr (.inr (.inr ⟨template, imageBase, ⟨hplaces, hwritten⟩⟩))

end OneLoad

variable {canMap : Space → Nat → Bool} {library : Library}

/-- The end of a load: the module is added to the list unless there is an error. -/
theorem endLoad_spec
    (path : Text) (template : ModuleTemplate) (imageBase : Nat) (s : Process) :
    ∃ r t, endLoad path template imageBase s = some (r, t) ∧ t.placed = s.placed ∧
      ((∃ e, r = .error e ∧ t.modules = s.modules) ∨
        r = .ok (loadedImage template imageBase) ∧
          t.modules = s.modules ++ [{ loadedImage template imageBase with ntPath := path }]) := by
  rw [endLoad]
  cases hsections : (protectSections imageBase template.layout.sections s.space).1 with
  | error e =>
    rw [Load.inSpace_bind_error hsections]
    exact ⟨_, _, rfl, rfl, .inl ⟨e, rfl, rfl⟩⟩
  | ok _ =>
    rw [Load.inSpace_bind_ok hsections]
    generalize (protectSections imageBase template.layout.sections s.space).2 = space
    cases hheaders : (protectRegion imageBase (alignTo pageSize template.layout.sizeOfHeaders) space).1 with
    | error e =>
      exact ⟨_, _, Load.inSpace_bind_error (s := { s with space := space }) hheaders _, rfl,
        .inl ⟨e, rfl, rfl⟩⟩
    | ok _ =>
      exact ⟨_, _, Load.inSpace_bind_ok (s := { s with space := space }) hheaders _, rfl,
        .inr ⟨rfl, rfl⟩⟩

end Loader
end Kernel
end Theos
