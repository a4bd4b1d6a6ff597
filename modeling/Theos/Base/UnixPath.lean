import Theos.Base.Text

/-!
# Paths on Unix

The paths of `std::path` on Unix: joining texts, the components of a text, and what a
list of components leads to when `.` and `..` are resolved without looking at the
file system.  Two paths are the same if their components are.
-/

namespace Theos
namespace Base
namespace UnixPath

inductive Component where
  | root
  | cur
  | parent
  | normal (name : List Char)
deriving DecidableEq, Repr

def Component.text : Component → List Char
  | .root => ['/']
  | .cur => ['.']
  | .parent => ['.', '.']
  | .normal name => name

def isAbsolute (path : List Char) : Bool :=
  path.head? = some '/'

/-- `Path::join`: an absolute path replaces everything before it. -/
def join (path name : List Char) : List Char :=
  if isAbsolute name then name
  else if path = [] ∨ path.getLast? = some '/' then path ++ name
  else path ++ '/' :: name

/-- The component for a part between two separators; `.` and nothing are skipped. -/
def piece : List Char → Option Component
  | [] => none
  | ['.'] => none
  | ['.', '.'] => some .parent
  | name => some (.normal name)

def pieces (path : List Char) : List Component :=
  (path.splitOn '/').filterMap piece

/-- What comes before the pieces: the root, or a `.` at the start of a relative path. -/
def leading (path : List Char) : List Component :=
  if isAbsolute path then [.root]
  else if (path.splitOn '/').head? = some ['.'] then [.cur]
  else []

/-- `Path::components`. -/
def components (path : List Char) : List Component :=
  leading path ++ pieces path

/-- `Path::parent`. -/
def parent (path : List Component) : Option (List Component) :=
  match path.getLast? with
  | none => none
  | some .root => none
  | some _ => some path.dropLast

/-! ## Lexical resolution -/

/-- Enter one more component; the innermost directory comes first. -/
def enter (stack : List Component) : Component → List Component
  | .root => [.root]
  | .cur => stack
  | .normal name => .normal name :: stack
  | .parent =>
    match stack with
    | .normal _ :: rest => rest
    | .root :: rest => .root :: rest
    | stack => .parent :: stack

def resolve (path : List Component) : List Component :=
  path.foldl enter []

def Named (path : List Component) : Prop :=
  ∀ c ∈ path, ∃ name, c = .normal name

/-- A path stays in a directory. -/
def Under (dir path : List Component) : Prop :=
  ∃ rest, resolve path = rest ++ resolve dir ∧ Named rest

/-- From some depth below a directory, components do not lead out of it. -/
def stays : Nat → List Component → Bool
  | _, [] => true
  | _, .root :: _ => false
  | depth, .cur :: rest => stays depth rest
  | depth, .normal _ :: rest => stays (depth + 1) rest
  | 0, .parent :: _ => false
  | depth + 1, .parent :: rest => stays depth rest

/-! ## Joining -/

theorem isAbsolute_join
    (path name : List Char) :
    isAbsolute (join path name) = (isAbsolute name || isAbsolute path) := by
  rw [join]
  split
  next h =>
    rw [h, Bool.true_or]
  next h =>
    rw [Bool.eq_false_iff.mpr h, Bool.false_or]
    cases path with
    | nil =>
      simpa [isAbsolute] using h
    | cons c rest =>
      split
      · rfl
      · rfl

theorem splitOn_append_slash
    (a b : List Char) :
    (a ++ '/' :: b).splitOn '/' = a.splitOn '/' ++ b.splitOn '/' :=
  List.splitOn_append_cons_of_beq _ _ (by simp)

theorem pieces_append_slash
    (a b : List Char) :
    pieces (a ++ '/' :: b) = pieces a ++ pieces b := by
  rw [pieces, splitOn_append_slash, List.filterMap_append, pieces, pieces]

theorem pieces_nil :
    pieces [] = [] := by
  simp [pieces, piece]

theorem pieces_join {path name : List Char}
    (hname : isAbsolute name = false) :
    pieces (join path name) = pieces path ++ pieces name := by
  rw [join, hname, if_neg (by simp)]
  split
  next h =>
    rcases h with rfl | h
    · rw [pieces_nil]
      rfl
    · -- the separator is there already, and nothing is behind it
      obtain ⟨front, rfl⟩ : ∃ front, path = front ++ ['/'] :=
        ⟨path.dropLast, (List.dropLast_append_getLast? _ h).symm⟩
      rw [List.append_assoc, List.singleton_append, pieces_append_slash, pieces_append_slash,
        pieces_nil, List.append_nil]
  next =>
    exact pieces_append_slash path name

theorem not_mem_pieces_root
    (path : List Char) :
    .root ∉ pieces path := by
  intro h
  obtain ⟨name, -, hname⟩ := List.mem_filterMap.mp h
  unfold piece at hname
  split at hname <;> cases hname

theorem head_splitOn_append_slash
    (a b : List Char) :
    ((a ++ '/' :: b).splitOn '/').head? = (a.splitOn '/').head? := by
  obtain ⟨first, others, hsplit⟩ := List.exists_cons_of_ne_nil (List.splitOn_ne_nil '/' a)
  rw [splitOn_append_slash, hsplit]
  rfl

theorem leading_join {path name : List Char} (hpath : path ≠ [])
    (hname : isAbsolute name = false) :
    leading (join path name) = leading path := by
  have hhead : ((join path name).splitOn '/').head? = (path.splitOn '/').head? := by
    rw [join, hname, if_neg (by simp)]
    split
    next h =>
      have h := h.resolve_left hpath
      obtain ⟨front, rfl⟩ : ∃ front, path = front ++ ['/'] :=
        ⟨path.dropLast, (List.dropLast_append_getLast? _ h).symm⟩
      rw [List.append_assoc, List.singleton_append, head_splitOn_append_slash,
        head_splitOn_append_slash]
    next =>
      exact head_splitOn_append_slash path name
  rw [leading, leading, isAbsolute_join, hname, Bool.false_or, hhead]

theorem join_ne_nil {path : List Char} (hpath : path ≠ [])
    (name : List Char) :
    join path name ≠ [] := by
  rw [join]
  split
  next h =>
    rintro rfl
    cases h
  next =>
    split
    · simp [hpath]
    · simp

/-- Join names to a path, one after the other. -/
def joinAll (path : List Char) (names : List (List Char)) : List Char :=
  names.foldl join path

section JoinAll

variable {names : List (List Char)}

theorem isAbsolute_joinAll
    (path : List Char) :
    isAbsolute (joinAll path names) = (names.any isAbsolute || isAbsolute path) := by
  induction names generalizing path with
  | nil =>
    simp [joinAll]
  | cons name names ih =>
    have hrest := ih (join path name)
    rw [isAbsolute_join] at hrest
    rw [List.any_cons, joinAll, List.foldl_cons]
    rw [joinAll] at hrest
    rw [hrest]
    cases isAbsolute name <;> cases names.any isAbsolute <;> rfl

theorem pieces_joinAll (hnames : ∀ name ∈ names, isAbsolute name = false)
    (path : List Char) :
    pieces (joinAll path names) = pieces path ++ names.flatMap pieces := by
  induction names generalizing path with
  | nil =>
    simp [joinAll]
  | cons name names ih =>
    obtain ⟨hname, hnames⟩ := List.forall_mem_cons.mp hnames
    have hrest := ih hnames (join path name)
    rw [pieces_join hname, List.append_assoc] at hrest
    rw [List.flatMap_cons]
    exact hrest

theorem leading_joinAll (hnames : ∀ name ∈ names, isAbsolute name = false) {path : List Char}
    (hpath : path ≠ []) :
    leading (joinAll path names) = leading path := by
  induction names generalizing path with
  | nil =>
    rfl
  | cons name names ih =>
    obtain ⟨hname, hnames⟩ := List.forall_mem_cons.mp hnames
    exact (ih hnames (join_ne_nil hpath name)).trans (leading_join hpath hname)

/-- Names joined to a path that is not empty come behind its components. -/
theorem components_joinAll (hnames : ∀ name ∈ names, isAbsolute name = false) {path : List Char}
    (hpath : path ≠ []) :
    components (joinAll path names) = components path ++ names.flatMap pieces := by
  rw [components, leading_joinAll hnames hpath, pieces_joinAll hnames, components,
    List.append_assoc]

end JoinAll

/-! ## Resolving what was joined -/

/-- Where a path starts. -/
def origin (path : List Char) : List Component :=
  if isAbsolute path then [.root] else []

theorem resolve_leading
    (path : List Char) (rest : List Component) :
    resolve (leading path ++ rest) = rest.foldl enter (origin path) := by
  rw [resolve, List.foldl_append, leading, origin]
  split
  · rfl
  · split
    · rfl
    · rfl

theorem resolve_joinAll {names : List (List Char)}
    (hnames : ∀ name ∈ names, isAbsolute name = false)
    (path : List Char) :
    resolve (components (joinAll path names)) =
      (names.flatMap pieces).foldl enter (resolve (components path)) := by
  have hany : names.any isAbsolute = false := by
    simpa using hnames
  rw [components, components, resolve_leading, resolve_leading, origin, origin,
    isAbsolute_joinAll, hany, Bool.false_or, pieces_joinAll hnames, List.foldl_append]

theorem named_nil :
    Named [] :=
  fun _ h => by cases h

theorem named_cons {name : List Char} {top : List Component}
    (h : Named top) :
    Named (.normal name :: top) := by
  intro c hc
  rcases List.mem_cons.mp hc with rfl | hc
  · exact ⟨name, rfl⟩
  · exact h c hc

theorem named_tail {c : Component} {top : List Component}
    (h : Named (c :: top)) :
    (∃ name, c = .normal name) ∧ Named top :=
  ⟨h c (List.mem_cons_self ..), fun d hd => h d (List.mem_cons_of_mem _ hd)⟩

/-- Components that stay below a directory leave it at the bottom of the stack. -/
theorem foldl_enter_of_stays {cs top : List Component} (hstays : stays top.length cs = true)
    (htop : Named top)
    (dir : List Component) :
    ∃ top', cs.foldl enter (top ++ dir) = top' ++ dir ∧ Named top' := by
  induction cs generalizing top with
  | nil =>
    exact ⟨top, rfl, htop⟩
  | cons c cs ih =>
    rw [List.foldl_cons]
    cases c with
    | root =>
      simp [stays] at hstays
    | cur =>
      exact ih hstays htop
    | normal name =>
      exact @ih (.normal name :: top) hstays (named_cons htop)
    | parent =>
      cases top with
      | nil =>
        simp [stays] at hstays
      | cons d top =>
        obtain ⟨⟨name, rfl⟩, hrest⟩ := named_tail htop
        exact ih hstays hrest

/-- From a directory that is given by `..` only, every way up shows. -/
theorem foldl_enter_parents {cs top : List Component} (hroot : .root ∉ cs) (htop : Named top)
    (k : Nat) :
    ∃ top' k', cs.foldl enter (top ++ List.replicate k .parent) =
        top' ++ List.replicate k' .parent ∧ Named top' ∧ k ≤ k' ∧
      (k' = k → stays top.length cs = true) := by
  induction cs generalizing top k with
  | nil =>
    exact ⟨top, k, rfl, htop, Nat.le_refl k, fun _ => rfl⟩
  | cons c cs ih =>
    obtain ⟨hc, hcs⟩ := not_or.mp (mt List.mem_cons.mpr hroot)
    rw [List.foldl_cons]
    cases c with
    | root =>
      exact absurd rfl hc
    | cur =>
      exact ih hcs htop k
    | normal name =>
      exact @ih (.normal name :: top) hcs (named_cons htop) k
    | parent =>
      cases top with
      | nil =>
        obtain ⟨top', k', hfold, htop', hle, -⟩ := ih hcs named_nil (k + 1)
        refine ⟨top', k', ?_, htop', by omega, fun h => by omega⟩
        rw [← hfold]
        cases k with
        | zero => rfl
        | succ k => rfl
      | cons d top =>
        obtain ⟨⟨name, rfl⟩, hrest⟩ := named_tail htop
        exact ih hcs hrest k

/-- An absolute path stays absolute. -/
theorem foldl_enter_root {cs top : List Component} (hroot : .root ∉ cs)
    (htop : Named top) :
    ∃ top', cs.foldl enter (top ++ [.root]) = top' ++ [.root] ∧ Named top' := by
  induction cs generalizing top with
  | nil =>
    exact ⟨top, rfl, htop⟩
  | cons c cs ih =>
    obtain ⟨hc, hcs⟩ := not_or.mp (mt List.mem_cons.mpr hroot)
    rw [List.foldl_cons]
    cases c with
    | root =>
      exact absurd rfl hc
    | cur =>
      exact ih hcs htop
    | normal name =>
      exact @ih (.normal name :: top) hcs (named_cons htop)
    | parent =>
      cases top with
      | nil =>
        exact ih hcs named_nil
      | cons d top =>
        obtain ⟨⟨name, rfl⟩, hrest⟩ := named_tail htop
        exact ih hcs hrest

theorem stays_dropLast {depth : Nat} {cs : List Component}
    (h : stays depth cs = true) :
    stays depth cs.dropLast = true := by
  induction cs generalizing depth with
  | nil =>
    exact h
  | cons c cs ih =>
    cases cs with
    | nil =>
      rfl
    | cons d cs =>
      rw [List.dropLast_cons_cons]
      cases c with
      | root =>
        simp [stays] at h
      | cur =>
        exact ih h
      | normal name =>
        exact @ih (depth + 1) h
      | parent =>
        cases depth with
        | zero =>
          simp [stays] at h
        | succ depth =>
          exact @ih depth h

/-! ## Staying in every directory -/

/-- Names that do not lead out of the directory they are joined to. -/
def Inside (names : List (List Char)) : Prop :=
  (∀ name ∈ names, isAbsolute name = false) ∧ stays 0 (names.flatMap pieces) = true

/-- The grandparent of the working directory. -/
def farOut : List Char :=
  ['.', '.', '/', '.', '.']

theorem components_farOut :
    components farOut = [.parent, .parent] := by
  decide

theorem count_parent_of_named {path : List Component}
    (h : Named path) :
    path.count .parent = 0 := by
  rw [List.count_eq_zero]
  intro hmem
  obtain ⟨name, hname⟩ := h _ hmem
  cases hname

/-- Names stay in every directory exactly if they do not lead out of it; one directory
shows it. -/
theorem inside_of_under_farOut {names : List (List Char)}
    (h : Under (components farOut) (components (joinAll farOut names))) :
    Inside names := by
  obtain ⟨rest, hrest, hnamed⟩ := h
  rw [components_farOut] at hrest
  have hbase : resolve [.parent, .parent] = [.parent, .parent] := by decide
  rw [hbase] at hrest
  by_cases hany : names.any isAbsolute = true
  · have habsolute : isAbsolute (joinAll farOut names) = true := by
      rw [isAbsolute_joinAll, hany, Bool.true_or]
    obtain ⟨top, htop, -⟩ := foldl_enter_root (not_mem_pieces_root (joinAll farOut names)) named_nil
    rw [components, resolve_leading, origin, if_pos habsolute] at hrest
    have hlast := congrArg List.getLast? (htop.symm.trans hrest)
    simp at hlast
  · have hnames : ∀ name ∈ names, isAbsolute name = false := by
      simpa using hany
    have hroot : .root ∉ names.flatMap pieces := by
      intro hmem
      obtain ⟨name, -, hname⟩ := List.mem_flatMap.mp hmem
      exact not_mem_pieces_root name hname
    obtain ⟨top, k, htop, hnamed', -, hstays⟩ := foldl_enter_parents hroot named_nil 2
    rw [resolve_joinAll hnames, components_farOut, hbase] at hrest
    have hcount := congrArg (List.count .parent) (htop.symm.trans hrest)
    rw [List.count_append, List.count_append, count_parent_of_named hnamed,
      count_parent_of_named hnamed'] at hcount
    refine ⟨hnames, hstays ?_⟩
    simpa using hcount

theorem under_joinAll {names : List (List Char)} (h : Inside names)
    (dir : List Char) :
    Under (components dir) (components (joinAll dir names)) := by
  obtain ⟨hnames, hstays⟩ := h
  rw [Under, resolve_joinAll hnames]
  exact @foldl_enter_of_stays _ [] hstays named_nil _

/-- The parent of a path stays in the directory if the path does, unless the names add
nothing to it. -/
theorem under_parent {names : List (List Char)} (h : Inside names)
    (hadded : names.flatMap pieces ≠ []) {dir : List Char} {up : List Component}
    (hup : parent (components (joinAll dir names)) = some up) :
    Under (components dir) up := by
  obtain ⟨hnames, hstays⟩ := h
  have hcomponents : components (joinAll dir names) =
      leading (joinAll dir names) ++ pieces dir ++ names.flatMap pieces := by
    rw [components, pieces_joinAll hnames, List.append_assoc]
  have hany : names.any isAbsolute = false := by
    simpa using hnames
  have hdrop : up = leading (joinAll dir names) ++ (pieces dir ++ (names.flatMap pieces).dropLast) := by
    rw [parent, hcomponents] at hup
    rw [List.dropLast_append_of_ne_nil hadded] at hup
    rw [← List.append_assoc]
    split at hup
    · cases hup
    · cases hup
    · exact (Option.some.inj hup).symm
  rw [Under, hdrop, resolve_leading, components, resolve_leading, origin, origin,
    isAbsolute_joinAll, hany, Bool.false_or, List.foldl_append]
  exact @foldl_enter_of_stays _ [] (stays_dropLast hstays) named_nil _

end UnixPath
end Base
end Theos
