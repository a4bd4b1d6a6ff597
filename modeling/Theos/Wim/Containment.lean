import Theos.Wim.Pruning

/-!
# Where an image is unpacked to

The names of the entries are joined to the output directory as they are.  What is written
stays below it exactly if no entry that is written is reached over names that lead out of
it: an absolute name, or more `..` than directories entered before.  A file whose names
add nothing to the path, such as `.`, is written to the output directory itself, and it is
the parent of that which is created.
-/

namespace Theos
namespace Wim

open Base UnixPath

/-- All that is written is below the output directory. -/
def Confined (outputPath : Text) (result : Collected) : Prop :=
  (∀ task ∈ result.tasks, Under (components outputPath) (components task.path)) ∧
    ∀ dir ∈ result.created, Under (components outputPath) dir

/-- What is created for the directory stays below the output directory. -/
def SafeDirectory (includePaths : Option (List Text)) (visit : Visit) : Prop :=
  isDirectory visit.2 = true →
    shouldDescend (joinAll [] visit.1) includePaths = true → Inside visit.1

def SafeFile (lookupByHash : Bytes → Option ResEntry) (includePaths : Option (List Text))
    (visit : Visit) : Prop :=
  isDirectory visit.2 = false → (lookupByHash visit.2.hash).isSome = true →
    shouldExtract (joinAll [] visit.1) includePaths = true →
      Inside visit.1 ∧ visit.1.flatMap pieces ≠ []

section

variable {lookupByHash : Bytes → Option ResEntry} {includePaths : Option (List Text)}

theorem taskOf_eq_some
    {outputPath : Text} {visit : Visit} {task : ExtractTask} :
    taskOf lookupByHash includePaths outputPath visit = some task ↔
      visit.2.name ≠ [] ∧ isDirectory visit.2 = false ∧
        shouldExtract (joinAll [] visit.1) includePaths = true ∧
        ∃ resEntry, lookupByHash visit.2.hash = some resEntry ∧
          ⟨joinAll outputPath visit.1, resEntry, joinAll [] visit.1⟩ = task := by
  rw [taskOf]
  by_cases hname : visit.2.name = []
  · simp [hname]
  · cases hdir : isDirectory visit.2 with
    | true => simp
    | false =>
      cases shouldExtract (joinAll [] visit.1) includePaths with
      | true => simp [hname]
      | false => simp

theorem nonEmpty_eq_some
    {dir dir' : List Component} :
    nonEmpty dir = some dir' ↔ dir ≠ [] ∧ dir = dir' := by
  rw [nonEmpty]
  split
  next h => simp [h]
  next h => simp [h]

/-- The directory for an entry: itself, or the parent of the file to write. -/
theorem dirOf_eq_some
    {outputPath : Text} {visit : Visit} {dir : List Component} :
    dirOf lookupByHash includePaths outputPath visit = some dir ↔
      dir ≠ [] ∧
        ((visit.2.name ≠ [] ∧ isDirectory visit.2 = true ∧
            shouldDescend (joinAll [] visit.1) includePaths = true ∧
            components (joinAll outputPath visit.1) = dir) ∨
          ∃ task, taskOf lookupByHash includePaths outputPath visit = some task ∧
            parent (components task.path) = some dir) := by
  rw [dirOf]
  by_cases hname : visit.2.name = []
  · simp [hname, taskOf_eq_some]
  · cases hdir : isDirectory visit.2 with
    | true =>
      cases shouldDescend (joinAll [] visit.1) includePaths with
      | true =>
        simp only [hname, if_false, if_true, nonEmpty_eq_some, taskOf_eq_some, hdir]
        constructor
        · rintro ⟨hne, rfl⟩
          exact ⟨hne, .inl ⟨hname, trivial, trivial, rfl⟩⟩
        · rintro ⟨hne, ⟨-, -, -, rfl⟩ | ⟨_, ⟨-, h, -⟩, -⟩⟩
          · exact ⟨hne, rfl⟩
          · cases h
      | false => simp [hname, taskOf_eq_some, hdir]
    | false =>
      rw [if_neg hname, if_neg (by simp), Option.bind_eq_some_iff]
      simp only [Option.bind_eq_some_iff, nonEmpty_eq_some]
      constructor
      · rintro ⟨task, htask, up, hup, hne, rfl⟩
        exact ⟨hne, .inr ⟨task, htask, hup⟩⟩
      · rintro ⟨hne, ⟨-, h, -⟩ | ⟨task, htask, hup⟩⟩
        · cases h
        · exact ⟨task, htask, dir, hup, hne, rfl⟩

/-! ## One entry -/

variable {visit : Visit}

theorem under_of_safe (hdirectory : SafeDirectory includePaths visit)
    (hfile : SafeFile lookupByHash includePaths visit)
    (outputPath : Text) :
    (∀ task, taskOf lookupByHash includePaths outputPath visit = some task →
      Under (components outputPath) (components task.path)) ∧
    ∀ dir, dirOf lookupByHash includePaths outputPath visit = some dir →
      Under (components outputPath) dir := by
  constructor
  · intro task htask
    obtain ⟨-, hdir, hextract, resEntry, hlookup, rfl⟩ := taskOf_eq_some.mp htask
    exact under_joinAll (hfile hdir (by rw [hlookup]; rfl) hextract).1 outputPath
  · intro dir h
    obtain ⟨-, ⟨-, hdir, hdescend, rfl⟩ | ⟨task, htask, hup⟩⟩ := dirOf_eq_some.mp h
    · exact under_joinAll (hdirectory hdir hdescend) outputPath
    · obtain ⟨-, hdir, hextract, resEntry, hlookup, rfl⟩ := taskOf_eq_some.mp htask
      obtain ⟨hinside, hadded⟩ := hfile hdir (by rw [hlookup]; rfl) hextract
      exact under_parent hinside hadded hup

theorem components_joinAll_farOut_ne_nil
    (names : List Text) :
    components (joinAll farOut names) ≠ [] := by
  by_cases hany : names.any isAbsolute = true
  · rw [components, leading, isAbsolute_joinAll, hany]
    simp
  · rw [components_joinAll (by simpa using hany) (by decide), components_farOut]
    simp

/-- An output directory given by `..` only shows what leads out of it. -/
theorem safe_of_under_farOut (hname : visit.2.name ≠ [])
    (htasks : ∀ task, taskOf lookupByHash includePaths farOut visit = some task →
      Under (components farOut) (components task.path))
    (hdirs : ∀ dir, dirOf lookupByHash includePaths farOut visit = some dir →
      Under (components farOut) dir) :
    SafeDirectory includePaths visit ∧ SafeFile lookupByHash includePaths visit := by
  constructor
  · intro hdir hdescend
    apply inside_of_under_farOut
    apply hdirs
    exact dirOf_eq_some.mpr ⟨components_joinAll_farOut_ne_nil _, .inl ⟨hname, hdir, hdescend, rfl⟩⟩
  · intro hdir hlookup hextract
    obtain ⟨resEntry, hlookup⟩ := Option.isSome_iff_exists.mp hlookup
    have htask := @taskOf_eq_some _ _ farOut visit _ |>.mpr
      ⟨hname, hdir, hextract, resEntry, hlookup, rfl⟩
    have hinside := inside_of_under_farOut (htasks _ htask)
    refine ⟨hinside, fun hnone => ?_⟩
    -- nothing is added to the output directory, so it is its parent that is created
    have hpath : components (joinAll farOut visit.1) = [.parent, .parent] := by
      rw [components_joinAll hinside.1 (by decide), hnone, components_farOut, List.append_nil]
    obtain ⟨rest, hrest, -⟩ := hdirs [.parent] (dirOf_eq_some.mpr
      ⟨by simp, .inr ⟨_, htask, by rw [hpath]; rfl⟩⟩)
    have hlength := congrArg List.length hrest
    rw [components_farOut, List.length_append] at hlength
    have hone : (resolve [.parent]).length = 1 := by decide
    have htwo : (resolve [.parent, .parent]).length = 2 := by decide
    omega

/-! ## The whole image -/

/-- Whatever the output directory, an image is unpacked below it exactly if the names that
lead to the entries to write do not lead out of it. -/
theorem collect_tasks_confined_iff
    (lookupByHash : Bytes → Option ResEntry) (includePaths : Option (List Text))
    (metadata : Bytes) (start : Nat) :
    (∀ createDir outputPath depth result,
      collectTasks createDir lookupByHash includePaths metadata depth start outputPath [] ⟨[], []⟩ =
        some (.ok result) → Confined outputPath result) ↔
      ∀ depth visits, walk metadata includePaths depth start [] = some (.ok visits) →
        ∀ visit ∈ visits, visit.2.name ≠ [] →
          SafeDirectory includePaths visit ∧ SafeFile lookupByHash includePaths visit := by
  constructor
  · intro h depth visits hwalk visit hvisit hname
    obtain ⟨result, hwrite⟩ := @writeVisits_succeeds (fun _ => true) lookupByHash includePaths
      farOut (fun _ => rfl) ⟨[], []⟩ visits
    obtain ⟨htasks, hdirs⟩ := h _ farOut depth result
      ((collectTasks_eq_ok depth start [] _ _).mpr ⟨visits, hwalk, hwrite⟩)
    rw [(writeVisits_eq_ok hwrite).1] at htasks
    rw [(writeVisits_eq_ok hwrite).2] at hdirs
    exact safe_of_under_farOut hname
      (fun task htask => htasks task (by simpa using ⟨_, _, hvisit, htask⟩))
      (fun dir hdir => hdirs dir (by simpa using ⟨_, _, hvisit, hdir⟩))
  · intro h createDir outputPath depth result hcollect
    obtain ⟨visits, hwalk, hwrite⟩ := (collectTasks_eq_ok depth start [] _ _).mp hcollect
    obtain ⟨htasks, hdirs⟩ := writeVisits_eq_ok hwrite
    have hsafe : ∀ visit ∈ visits, _ := h depth visits hwalk
    constructor
    · intro task htask
      rw [htasks, List.nil_append] at htask
      obtain ⟨visit, hvisit, htask⟩ := List.mem_filterMap.mp htask
      obtain ⟨hdirectory, hfile⟩ := hsafe visit hvisit (taskOf_eq_some.mp htask).1
      exact (under_of_safe hdirectory hfile outputPath).1 task htask
    · intro dir hdir
      rw [hdirs, List.nil_append] at hdir
      obtain ⟨visit, hvisit, hdir⟩ := List.mem_filterMap.mp hdir
      have hname : visit.2.name ≠ [] := by
        obtain ⟨-, ⟨hname, -⟩ | ⟨task, htask, -⟩⟩ := dirOf_eq_some.mp hdir
        · exact hname
        · exact (taskOf_eq_some.mp htask).1
      obtain ⟨hdirectory, hfile⟩ := hsafe visit hvisit hname
      exact (under_of_safe hdirectory hfile outputPath).2 dir hdir

/-- An image with a file `../x`. -/
def escapingMetadata : Bytes :=
  dentryBytes [] 0x10 104 ++ (dentryBytes [46, 46, 47, 120] 0x20 0 ++ toLE 8 0)

/-- The file is written next to the output directory. -/
theorem file_outside_output :
    ∃ result, collectTasks (fun _ => true) (fun _ => some ⟨0, 0, 0⟩) none escapingMetadata 3 0
        ['o', 'u', 't'] [] ⟨[], []⟩ = some (.ok result) ∧
      (∃ task ∈ result.tasks, task.path = ['o', 'u', 't', '/', '.', '.', '/', 'x']) ∧
      ¬ Confined ['o', 'u', 't'] result := by
  refine ⟨⟨[⟨['o', 'u', 't', '/', '.', '.', '/', 'x'], ⟨0, 0, 0⟩, ['.', '.', '/', 'x']⟩],
    [[.normal ['o', 'u', 't'], .parent]]⟩, by decide +kernel, by simp, ?_⟩
  intro h
  obtain ⟨rest, hrest, -⟩ := h.1 _ (List.mem_singleton.mpr rfl)
  have hlast := congrArg List.getLast? hrest
  have hout : resolve (components ['o', 'u', 't']) = [.normal ['o', 'u', 't']] := by decide
  have hx : resolve (components ['o', 'u', 't', '/', '.', '.', '/', 'x']) = [.normal ['x']] := by
    decide
  rw [hout, hx, List.getLast?_append] at hlast
  simp at hlast

end

end Wim
end Theos
