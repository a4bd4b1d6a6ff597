import Theos.Base.UnixPath
import Theos.Wim.Metadata

/-!
# Collecting what is to be unpacked

`collect_tasks` walks over the directory entries of an image.  It creates directories on
the way and leaves a list of files to write.  Given a set of paths, it goes only into the
directories that lead to one of them.

`walk` is the same walk without the writing: the entries it comes to, each with the names
that lead to it.  What is created and what is to be written depends on these alone.
-/

namespace Theos
namespace Wim

open Base UnixPath

/-! ## The code -/

structure ResEntry where
  sizeFlags : Nat
  offset : Nat
  originalSize : Nat
deriving DecidableEq, Repr

/-- A file to write.  `relative` is not in the source: the path of the entry in the image. -/
structure ExtractTask where
  path : Text
  resEntry : ResEntry
  relative : Text
deriving DecidableEq, Repr

/-- The tasks so far, and the directories for which `create_dir_all` was called. -/
structure Collected where
  tasks : List ExtractTask
  created : List (List Component)
deriving DecidableEq, Repr

def lower (text : Text) : Text :=
  text.map Char.toLower

def normalizeRelativePath (path : Text) : Text :=
  lower (List.intercalate ['/'] ((components path).map Component.text))

def shouldExtract (path : Text) (includePaths : Option (List Text)) : Bool :=
  match includePaths with
  | none => true
  | some paths => paths.any fun included => included = normalizeRelativePath path

/-- `strip_prefix`, and the rest starts with a separator. -/
def leadsTo (normalized included : Text) : Bool :=
  normalized.isPrefixOf included && (included.drop normalized.length).head? = some '/'

def shouldDescend (path : Text) (includePaths : Option (List Text)) : Bool :=
  match includePaths with
  | none => true
  | some paths =>
    let normalized := normalizeRelativePath path
    if normalized = [] then true
    else paths.any fun included => included = normalized || leadsTo normalized included

def isDirectory (dentry : Dentry) : Bool :=
  dentry.attributes &&& fileAttributeDirectory ≠ 0

/-- The path of an entry in a directory; an entry without a name is the directory. -/
def entryPath (path : Text) (dentry : Dentry) : Text :=
  if dentry.name = [] then path else join path dentry.name

section

variable (createDir : List Component → Bool) (lookupByHash : Bytes → Option ResEntry)
  (includePaths : Option (List Text))

/-- `create_dir_all`, which does nothing for the empty path. -/
def createDirAll (dir : List Component) (found : Collected) : Except Failure Collected :=
  if dir = [] then .ok found
  else if createDir dir then .ok { found with created := found.created ++ [dir] }
  else .error .io

/-- What is done for an entry with a name: a directory is created, a file is a task. -/
def writeEntry (dentry : Dentry) (path relative : Text) (found : Collected) :
    Except Failure Collected :=
  if isDirectory dentry then
    if shouldDescend relative includePaths then createDirAll createDir (components path) found
    else .ok found
  else
    match lookupByHash dentry.hash with
    | none => .ok found
    | some resEntry =>
      if shouldExtract relative includePaths then
        ((parent (components path)).elim (.ok found)
          fun up => createDirAll createDir up found).map fun found =>
            { found with tasks := found.tasks ++ [⟨path, resEntry, relative⟩] }
      else .ok found

/-- The loop over the entries of a directory. -/
def collectChildren (metadata : Bytes)
    (visit : Nat → Collected → Option (Except Failure Collected)) :
    Nat → Nat → Collected → Option (Except Failure Collected)
  | 0, _, _ => none
  | depth + 1, childOffset, found =>
    match readDentry metadata childOffset with
    | .error e => some (.error e)
    | .ok none => some (.ok found)
    | .ok (some child) =>
      match visit childOffset found with
      | some (.ok found) => collectChildren metadata visit depth child.nextOffset found
      | other => other

/-- `collect_tasks`; `none` is a recursion that has not ended at the given depth. -/
def collectTasks (metadata : Bytes) :
    Nat → Nat → Text → Text → Collected → Option (Except Failure Collected)
  | 0, _, _, _, _ => none
  | depth + 1, offset, outputPath, relativePath, found =>
    match readDentry metadata offset with
    | .error e => some (.error e)
    | .ok none => some (.ok found)
    | .ok (some dentry) =>
      let relative := entryPath relativePath dentry
      let written :=
        if dentry.name = [] then .ok found
        else writeEntry createDir lookupByHash includePaths dentry
          (join outputPath dentry.name) relative found
      match written with
      | .error e => some (.error e)
      | .ok found =>
        if dentry.subdirOffset ≠ 0 ∧ shouldDescend relative includePaths then
          collectChildren metadata
            (fun child => collectTasks metadata depth child (entryPath outputPath dentry)
              relative)
            depth dentry.subdirOffset found
        else some (.ok found)

end

/-! ## The walk -/

/-- An entry, with the names that lead to it. -/
abbrev Visit := List Text × Dentry

def walkChildren (metadata : Bytes) (visit : Nat → Option (Except Failure (List Visit))) :
    Nat → Nat → Option (Except Failure (List Visit))
  | 0, _ => none
  | depth + 1, childOffset =>
    match readDentry metadata childOffset with
    | .error e => some (.error e)
    | .ok none => some (.ok [])
    | .ok (some child) =>
      match visit childOffset with
      | some (.ok visits) =>
        (walkChildren metadata visit depth child.nextOffset).map (·.map (visits ++ ·))
      | other => other

/-- The names that lead to an entry in a directory. -/
def namesOf (names : List Text) (dentry : Dentry) : List Text :=
  if dentry.name = [] then names else names ++ [dentry.name]

/-- The entries that `collect_tasks` comes to. -/
def walk (metadata : Bytes) (includePaths : Option (List Text)) :
    Nat → Nat → List Text → Option (Except Failure (List Visit))
  | 0, _, _ => none
  | depth + 1, offset, names =>
    match readDentry metadata offset with
    | .error e => some (.error e)
    | .ok none => some (.ok [])
    | .ok (some dentry) =>
      let inner := namesOf names dentry
      if dentry.subdirOffset ≠ 0 ∧ shouldDescend (joinAll [] inner) includePaths then
        (walkChildren metadata (fun child => walk metadata includePaths depth child inner)
          depth dentry.subdirOffset).map (·.map ((inner, dentry) :: ·))
      else some (.ok [(inner, dentry)])

theorem walkChildren_succ_eq_ok {metadata : Bytes}
    {visit : Nat → Option (Except Failure (List Visit))} {depth child : Nat}
    {visits : List Visit} :
    walkChildren metadata visit (depth + 1) child = some (.ok visits) ↔
      (readDentry metadata child = .ok none ∧ visits = []) ∨
        ∃ dentry first rest, readDentry metadata child = .ok (some dentry) ∧
          visit child = some (.ok first) ∧
          walkChildren metadata visit depth dentry.nextOffset = some (.ok rest) ∧
          visits = first ++ rest := by
  rw [walkChildren]
  rcases readDentry metadata child with e | _ | dentry
  · simp [-IsEmpty.exists_iff]
  · simp [eq_comm, -IsEmpty.exists_iff]
  · rcases hvisit : visit child with _ | e | first
    · simp [-IsEmpty.exists_iff]
    · simp [-IsEmpty.exists_iff]
    · rcases hrest : walkChildren metadata visit depth dentry.nextOffset with _ | e | rest
      · simp [hrest, -IsEmpty.exists_iff]
      · simp [hrest, Except.map, -IsEmpty.exists_iff]
      · simp [hrest, Except.map, eq_comm, -IsEmpty.exists_iff]

theorem walk_succ_eq_ok {metadata : Bytes} {includePaths : Option (List Text)}
    {depth offset : Nat} {names : List Text} {visits : List Visit} :
    walk metadata includePaths (depth + 1) offset names = some (.ok visits) ↔
      (readDentry metadata offset = .ok none ∧ visits = []) ∨
        ∃ dentry below, readDentry metadata offset = .ok (some dentry) ∧
          visits = (namesOf names dentry, dentry) :: below ∧
          if dentry.subdirOffset ≠ 0 ∧
              shouldDescend (joinAll [] (namesOf names dentry)) includePaths = true then
            walkChildren metadata
              (fun child => walk metadata includePaths depth child (namesOf names dentry))
              depth dentry.subdirOffset = some (.ok below)
          else below = [] := by
  rw [walk]
  rcases readDentry metadata offset with e | _ | dentry
  · simp [-IsEmpty.exists_iff]
  · simp [@eq_comm _ _ visits, -IsEmpty.exists_iff]
  · dsimp only
    by_cases hdescend : dentry.subdirOffset ≠ 0 ∧
        shouldDescend (joinAll [] (namesOf names dentry)) includePaths = true
    · rcases hbelow : walkChildren metadata
          (fun child => walk metadata includePaths depth child (namesOf names dentry))
          depth dentry.subdirOffset with _ | e | below
      · simp [hdescend, hbelow, -IsEmpty.exists_iff]
      · simp [hdescend, hbelow, Except.map, -IsEmpty.exists_iff]
      · simp [hdescend, hbelow, Except.map, @eq_comm _ _ visits, -IsEmpty.exists_iff]
    · simp [hdescend, @eq_comm _ _ visits, -IsEmpty.exists_iff]

theorem walkChildren_of_le {metadata : Bytes}
    {visit visit' : Nat → Option (Except Failure (List Visit))}
    (hvisit : ∀ child r, visit child = some r → visit' child = some r)
    {depth depth' child : Nat} {r : Except Failure (List Visit)}
    (hle : depth ≤ depth')
    (h : walkChildren metadata visit depth child = some r) :
    walkChildren metadata visit' depth' child = some r := by
  induction depth generalizing depth' child r with
  | zero =>
    cases h
  | succ depth ih =>
    obtain ⟨depth', rfl⟩ := Nat.exists_eq_succ_of_ne_zero (Nat.ne_zero_of_lt hle)
    rw [walkChildren] at h ⊢
    rcases hread : readDentry metadata child with e | _ | dentry <;> rw [hread] at h
    · exact h
    · exact h
    · dsimp only at h ⊢
      rcases hfirst : visit child with _ | e | visits <;> rw [hfirst] at h
      · cases h
      · rw [hvisit child _ hfirst]
        exact h
      · rw [hvisit child _ hfirst]
        obtain ⟨rest, hrest, heq⟩ := Option.map_eq_some_iff.mp h
        exact Option.map_eq_some_iff.mpr ⟨rest, ih (Nat.le_of_succ_le_succ hle) hrest, heq⟩

/-- A walk that has ended does not change if it may go deeper. -/
theorem walk_of_le {metadata : Bytes} {includePaths : Option (List Text)}
    {depth depth' offset : Nat} {names : List Text} {r : Except Failure (List Visit)}
    (hle : depth ≤ depth')
    (h : walk metadata includePaths depth offset names = some r) :
    walk metadata includePaths depth' offset names = some r := by
  induction depth generalizing depth' offset names r with
  | zero =>
    cases h
  | succ depth ih =>
    obtain ⟨depth', rfl⟩ := Nat.exists_eq_succ_of_ne_zero (Nat.ne_zero_of_lt hle)
    have hle := Nat.le_of_succ_le_succ hle
    rw [walk] at h ⊢
    rcases hread : readDentry metadata offset with e | _ | dentry <;> rw [hread] at h
    · exact h
    · exact h
    · dsimp only at h ⊢
      split at h
      next hdescend =>
        rw [if_pos hdescend]
        obtain ⟨below, hbelow, heq⟩ := Option.map_eq_some_iff.mp h
        exact Option.map_eq_some_iff.mpr
          ⟨below, walkChildren_of_le (fun child r => ih hle) hle hbelow, heq⟩
      next hdescend =>
        rw [if_neg hdescend]
        exact h

theorem entryPath_joinAll
    (path : Text) (names : List Text) (dentry : Dentry) :
    entryPath (joinAll path names) dentry = joinAll path (namesOf names dentry) := by
  rw [entryPath, namesOf]
  split
  · rfl
  · rw [joinAll, joinAll, List.foldl_append]
    rfl

section

variable (createDir : List Component → Bool) (lookupByHash : Bytes → Option ResEntry)
  (includePaths : Option (List Text)) (outputPath : Text)

/-- What is done for an entry that the walk comes to. -/
def writeVisit (found : Collected) (visit : Visit) : Except Failure Collected :=
  if visit.2.name = [] then .ok found
  else writeEntry createDir lookupByHash includePaths visit.2 (joinAll outputPath visit.1)
    (joinAll [] visit.1) found

def writeVisits (found : Collected) (visits : List Visit) : Except Failure Collected :=
  visits.foldlM (writeVisit createDir lookupByHash includePaths outputPath) found

variable {createDir lookupByHash includePaths outputPath}

theorem writeVisits_nil
    {found : Collected} :
    writeVisits createDir lookupByHash includePaths outputPath found [] = .ok found :=
  rfl

theorem writeVisits_append
    {found result : Collected} {visits visits' : List Visit} :
    writeVisits createDir lookupByHash includePaths outputPath found (visits ++ visits') =
        .ok result ↔
      ∃ between, writeVisits createDir lookupByHash includePaths outputPath found visits =
          .ok between ∧
        writeVisits createDir lookupByHash includePaths outputPath between visits' =
          .ok result := by
  rw [writeVisits, List.foldlM_append, writeVisits]
  rcases visits.foldlM (writeVisit createDir lookupByHash includePaths outputPath) found with e | r
  · simp [bind, Except.bind]
  · simp [bind, Except.bind, writeVisits]

theorem writeVisits_cons
    {found result : Collected} {visit : Visit} {visits : List Visit} :
    writeVisits createDir lookupByHash includePaths outputPath found (visit :: visits) =
        .ok result ↔
      ∃ between, writeVisit createDir lookupByHash includePaths outputPath found visit =
          .ok between ∧
        writeVisits createDir lookupByHash includePaths outputPath between visits =
          .ok result := by
  rw [writeVisits, List.foldlM_cons]
  rcases writeVisit createDir lookupByHash includePaths outputPath found visit with e | r
  · simp [bind, Except.bind]
  · simp [bind, Except.bind, writeVisits]

theorem collectChildren_eq_ok
    {metadata : Bytes} {collect : Nat → Collected → Option (Except Failure Collected)}
    {visit : Nat → Option (Except Failure (List Visit))}
    (hvisit : ∀ child found result, collect child found = some (.ok result) ↔
      ∃ visits, visit child = some (.ok visits) ∧
        writeVisits createDir lookupByHash includePaths outputPath found visits = .ok result)
    (depth child : Nat) (found result : Collected) :
    collectChildren metadata collect depth child found = some (.ok result) ↔
      ∃ visits, walkChildren metadata visit depth child = some (.ok visits) ∧
        writeVisits createDir lookupByHash includePaths outputPath found visits = .ok result := by
  induction depth generalizing child found with
  | zero =>
    simp [collectChildren, walkChildren]
  | succ depth ih =>
    rw [collectChildren, walkChildren]
    rcases readDentry metadata child with e | _ | d
    · simp
    · simp [writeVisits_nil]
    · dsimp only
      constructor
      · intro h
        rcases hcollect : collect child found with _ | e | between
        · rw [hcollect] at h
          cases h
        · rw [hcollect] at h
          cases h
        · rw [hcollect] at h
          obtain ⟨visits, hfirst, hwrite⟩ := (hvisit child found between).mp hcollect
          obtain ⟨visits', hrest, hwrite'⟩ := (ih d.nextOffset between).mp h
          exact ⟨visits ++ visits', by rw [hfirst, hrest]; rfl,
            writeVisits_append.mpr ⟨between, hwrite, hwrite'⟩⟩
      · rintro ⟨visits, hwalk, hwrite⟩
        rcases hfirst : visit child with _ | e | visits₁
        · rw [hfirst] at hwalk
          cases hwalk
        · rw [hfirst] at hwalk
          cases hwalk
        · rw [hfirst] at hwalk
          dsimp only at hwalk
          rcases hrest : walkChildren metadata visit depth d.nextOffset with _ | e | visits₂
          · rw [hrest] at hwalk
            cases hwalk
          · rw [hrest] at hwalk
            cases hwalk
          · rw [hrest] at hwalk
            cases hwalk
            obtain ⟨between, hwrite, hwrite'⟩ := writeVisits_append.mp hwrite
            rw [(hvisit child found between).mpr ⟨visits₁, hfirst, hwrite⟩]
            exact (ih d.nextOffset between).mpr ⟨visits₂, hrest, hwrite'⟩

/-- Collecting is walking, and writing for each entry on the way. -/
theorem collectTasks_eq_ok
    {metadata : Bytes} (depth offset : Nat) (names : List Text) (found result : Collected) :
    collectTasks createDir lookupByHash includePaths metadata depth offset
        (joinAll outputPath names) (joinAll [] names) found = some (.ok result) ↔
      ∃ visits, walk metadata includePaths depth offset names = some (.ok visits) ∧
        writeVisits createDir lookupByHash includePaths outputPath found visits = .ok result := by
  induction depth generalizing offset names found result with
  | zero =>
    simp [collectTasks, walk]
  | succ depth ih =>
    rw [collectTasks, walk]
    rcases readDentry metadata offset with e | _ | dentry
    · simp
    · simp [writeVisits_nil]
    · have hwritten : (if dentry.name = [] then .ok found
          else writeEntry createDir lookupByHash includePaths dentry
            (join (joinAll outputPath names) dentry.name) (joinAll [] (namesOf names dentry))
            found) =
          writeVisit createDir lookupByHash includePaths outputPath found
            (namesOf names dentry, dentry) := by
        rw [writeVisit, ← entryPath_joinAll outputPath, entryPath]
        split
        · rfl
        · rfl
      dsimp only
      rw [entryPath_joinAll, entryPath_joinAll, hwritten]
      by_cases hdescend : dentry.subdirOffset ≠ 0 ∧
          shouldDescend (joinAll [] (namesOf names dentry)) includePaths = true
      · rw [if_pos hdescend]
        constructor
        · intro h
          rcases hvisit : writeVisit createDir lookupByHash includePaths outputPath found
              (namesOf names dentry, dentry) with e | between
          · rw [hvisit] at h
            cases h
          · rw [hvisit] at h
            dsimp only at h
            rw [if_pos hdescend] at h
            obtain ⟨visits, hwalk, hwrite⟩ := (collectChildren_eq_ok
              (fun child found result => ih child (namesOf names dentry) found result) _ _ _ _).mp h
            exact ⟨(namesOf names dentry, dentry) :: visits, by rw [hwalk]; rfl,
              writeVisits_cons.mpr ⟨between, hvisit, hwrite⟩⟩
        · rintro ⟨visits, hwalk, hwrite⟩
          rcases hchildren : walkChildren metadata (fun child => walk metadata includePaths depth
              child (namesOf names dentry)) depth dentry.subdirOffset with _ | e | visits'
          · rw [hchildren] at hwalk
            cases hwalk
          · rw [hchildren] at hwalk
            cases hwalk
          · rw [hchildren] at hwalk
            cases hwalk
            obtain ⟨between, hvisit, hwrite⟩ := writeVisits_cons.mp hwrite
            rw [hvisit]
            dsimp only
            rw [if_pos hdescend]
            exact (collectChildren_eq_ok (fun child found result =>
              ih child (namesOf names dentry) found result) _ _ _ _).mpr
                ⟨visits', hchildren, hwrite⟩
      · rw [if_neg hdescend]
        rcases hvisit : writeVisit createDir lookupByHash includePaths outputPath found
            (namesOf names dentry, dentry) with e | between
        · simp [writeVisits_cons, hvisit]
        · simp [writeVisits_cons, hvisit, hdescend, writeVisits_nil]

/-! ## What is written for an entry -/

variable (lookupByHash includePaths outputPath) in
/-- The task for an entry. -/
def taskOf (visit : Visit) : Option ExtractTask :=
  if visit.2.name = [] ∨ isDirectory visit.2 = true then none
  else if shouldExtract (joinAll [] visit.1) includePaths then
    (lookupByHash visit.2.hash).map fun resEntry =>
      ⟨joinAll outputPath visit.1, resEntry, joinAll [] visit.1⟩
  else none

/-- For the empty path nothing is created. -/
def nonEmpty (dir : List Component) : Option (List Component) :=
  if dir = [] then none else some dir

variable (lookupByHash includePaths outputPath) in
/-- The directory that is created for an entry: itself, or the parent of a file. -/
def dirOf (visit : Visit) : Option (List Component) :=
  if visit.2.name = [] then none
  else if isDirectory visit.2 then
    if shouldDescend (joinAll [] visit.1) includePaths then
      nonEmpty (components (joinAll outputPath visit.1))
    else none
  else (taskOf lookupByHash includePaths outputPath visit).bind fun task =>
    (parent (components task.path)).bind nonEmpty

theorem createDirAll_eq_ok {dir : List Component} {found result : Collected}
    (h : createDirAll createDir dir found = .ok result) :
    result = { found with created := found.created ++ (nonEmpty dir).toList } := by
  rw [createDirAll] at h
  split at h
  next hdir =>
    cases h
    simp [nonEmpty, hdir]
  next hdir =>
    split at h
    · cases h
      simp [nonEmpty, hdir]
    · cases h

theorem writeVisit_eq_ok {found result : Collected} {visit : Visit}
    (h : writeVisit createDir lookupByHash includePaths outputPath found visit = .ok result) :
    result.tasks = found.tasks ++ (taskOf lookupByHash includePaths outputPath visit).toList ∧
      result.created =
        found.created ++ (dirOf lookupByHash includePaths outputPath visit).toList := by
  rw [writeVisit] at h
  by_cases hname : visit.2.name = []
  · rw [if_pos hname] at h
    cases h
    simp [taskOf, dirOf, hname]
  · rw [if_neg hname, writeEntry] at h
    by_cases hdir : isDirectory visit.2 = true
    · rw [if_pos hdir] at h
      split at h
      next hdescend =>
        cases createDirAll_eq_ok h
        simp [taskOf, dirOf, hname, hdir, hdescend]
      next hdescend =>
        cases h
        simp [taskOf, dirOf, hname, hdir, hdescend]
    · rw [if_neg hdir] at h
      cases hlookup : lookupByHash visit.2.hash with
      | none =>
        rw [hlookup] at h
        cases h
        simp [taskOf, dirOf, hname, hdir, hlookup]
      | some resEntry =>
        rw [hlookup] at h
        dsimp only at h
        split at h
        next hextract =>
          cases hparent : parent (components (joinAll outputPath visit.1)) with
          | none =>
            rw [hparent] at h
            cases h
            simp [taskOf, dirOf, hname, hdir, hlookup, hextract, hparent]
          | some up =>
            rw [hparent] at h
            dsimp only [Option.elim] at h
            cases hcreate : createDirAll createDir up found with
            | error e =>
              rw [hcreate] at h
              cases h
            | ok found' =>
              rw [hcreate] at h
              cases h
              cases createDirAll_eq_ok hcreate
              simp [taskOf, dirOf, hname, hdir, hlookup, hextract, hparent]
        next hextract =>
          cases h
          simp [taskOf, dirOf, hname, hdir, hextract]

theorem writeVisits_eq_ok {found result : Collected} {visits : List Visit}
    (h : writeVisits createDir lookupByHash includePaths outputPath found visits = .ok result) :
    result.tasks = found.tasks ++ visits.filterMap (taskOf lookupByHash includePaths outputPath) ∧
      result.created =
        found.created ++ visits.filterMap (dirOf lookupByHash includePaths outputPath) := by
  induction visits generalizing found with
  | nil =>
    cases h
    simp
  | cons visit visits ih =>
    obtain ⟨between, hvisit, hrest⟩ := writeVisits_cons.mp h
    obtain ⟨htasks, hcreated⟩ := writeVisit_eq_ok hvisit
    obtain ⟨htasks', hcreated'⟩ := ih hrest
    rw [htasks', hcreated', htasks, hcreated]
    constructor
    · cases htask : taskOf lookupByHash includePaths outputPath visit with
      | none => simp [htask]
      | some task => simp [htask]
    · cases hdir : dirOf lookupByHash includePaths outputPath visit with
      | none => simp [hdir]
      | some dir => simp [hdir]

/-- If every directory can be created, nothing fails. -/
theorem writeEntry_succeeds
    (hcreate : ∀ dir, createDir dir = true)
    (dentry : Dentry) (path relative : Text) (found : Collected) :
    ∃ result, writeEntry createDir lookupByHash includePaths dentry path relative found =
      .ok result := by
  have hdirs (dir : List Component) (found : Collected) :
      ∃ result, createDirAll createDir dir found = .ok result := by
    rw [createDirAll, hcreate]
    split
    · exact ⟨_, rfl⟩
    · exact ⟨_, rfl⟩
  rw [writeEntry]
  split
  · split
    · exact hdirs _ _
    · exact ⟨_, rfl⟩
  split
  · exact ⟨_, rfl⟩
  split
  · cases parent (components path) with
    | none => exact ⟨_, rfl⟩
    | some up =>
      obtain ⟨result, hresult⟩ := hdirs up found
      exact ⟨_, by rw [Option.elim, hresult]; rfl⟩
  · exact ⟨_, rfl⟩

theorem writeVisits_succeeds (hcreate : ∀ dir, createDir dir = true)
    (found : Collected) (visits : List Visit) :
    ∃ result, writeVisits createDir lookupByHash includePaths outputPath found visits =
      .ok result := by
  induction visits generalizing found with
  | nil =>
    exact ⟨found, rfl⟩
  | cons visit visits ih =>
    obtain ⟨between, hvisit⟩ : ∃ between,
        writeVisit createDir lookupByHash includePaths outputPath found visit = .ok between := by
      rw [writeVisit]
      split
      · exact ⟨_, rfl⟩
      · exact writeEntry_succeeds hcreate _ _ _ _
    obtain ⟨result, hresult⟩ := ih between
    exact ⟨result, writeVisits_cons.mpr ⟨between, hvisit, hresult⟩⟩

end

end Wim
end Theos
