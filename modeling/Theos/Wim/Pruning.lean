import Theos.Wim.Tasks

/-!
# Pruning is filtering

Given a set of paths, `collect_tasks` does not go into a directory that leads to none of
them.  It misses nothing by that: above a path that is to be extracted every directory is
one to go into.
-/

namespace Theos
namespace Wim

open Base UnixPath

/-! ## Directories on the way to a path -/

theorem intercalate_append {parts more : List Text} (hparts : parts ≠ []) (hmore : more ≠ [])
    (sep : Text) :
    sep.intercalate (parts ++ more) = sep.intercalate parts ++ sep ++ sep.intercalate more := by
  induction parts with
  | nil =>
    exact absurd rfl hparts
  | cons part parts ih =>
    cases parts with
    | nil =>
      rw [List.singleton_append, List.intercalate_cons_of_ne_nil hmore,
        List.intercalate_singleton]
    | cons next parts =>
      rw [List.cons_append, List.cons_append, List.intercalate_cons_cons,
        List.intercalate_cons_cons, ← List.cons_append, ih (by simp)]
      simp only [List.append_assoc]

theorem lower_append
    (a b : Text) :
    lower (a ++ b) = lower a ++ lower b :=
  List.map_append

theorem leadsTo_append_slash
    (normalized rest : Text) :
    leadsTo normalized (normalized ++ '/' :: rest) = true := by
  simp [leadsTo]

/-- More components make a path that starts with the same text and a separator. -/
theorem normalize_of_components {above path : Text} {more : List Component}
    (h : components path = components above ++ more) :
    normalizeRelativePath above = [] ∨
      normalizeRelativePath path = normalizeRelativePath above ∨
        leadsTo (normalizeRelativePath above) (normalizeRelativePath path) = true := by
  by_cases habove : components above = []
  · left
    rw [normalizeRelativePath, habove]
    rfl
  · by_cases hmore : more = []
    · right
      left
      rw [normalizeRelativePath, h, hmore, List.append_nil, normalizeRelativePath]
    · right
      right
      have hpath : normalizeRelativePath path = normalizeRelativePath above ++
          '/' :: lower (List.intercalate ['/'] (more.map Component.text)) := by
        rw [normalizeRelativePath, h, List.map_append,
          intercalate_append (by simpa using habove) (by simpa using hmore), lower_append,
          lower_append, List.append_assoc]
        rfl
      rw [hpath]
      exact leadsTo_append_slash _ _

theorem shouldDescend_of_shouldExtract {includePaths : Option (List Text)} {names more : List Text}
    (hmore : ∀ name ∈ more, isAbsolute name = false)
    (h : shouldExtract (joinAll [] (names ++ more)) includePaths = true) :
    shouldDescend (joinAll [] names) includePaths = true := by
  cases includePaths with
  | none =>
    rfl
  | some paths =>
    obtain ⟨behind, hbehind⟩ : ∃ behind, components (joinAll [] (names ++ more)) =
        components (joinAll [] names) ++ behind := by
      by_cases hpath : joinAll [] names = []
      · exact ⟨_, by rw [hpath]; rfl⟩
      · rw [joinAll, List.foldl_append]
        exact ⟨_, components_joinAll hmore hpath⟩
    simp only [shouldExtract, List.any_eq_true, decide_eq_true_eq] at h
    obtain ⟨included, hmem, rfl⟩ := h
    simp only [shouldDescend]
    rcases normalize_of_components hbehind with hnil | heq | hleads
    · rw [if_pos hnil]
    · split
      · rfl
      · exact List.any_eq_true.mpr ⟨_, hmem, by simp [heq]⟩
    · split
      · rfl
      · exact List.any_eq_true.mpr ⟨_, hmem, by simp [hleads]⟩

/-! ## The entries of a walk -/

section

variable {metadata : Bytes}

/-- The names that lead to the entries start with the given ones; the others are names of
entries on the way. -/
def LeadFrom (names : List Text) (visits : List Visit) : Prop :=
  ∀ visit ∈ visits, ∃ more, visit.1 = names ++ more ∧
    ∀ name ∈ more, ∃ above ∈ visits, above.2.name = name

theorem LeadFrom.append {names : List Text} {visits visits' : List Visit}
    (h : LeadFrom names visits)
    (h' : LeadFrom names visits') :
    LeadFrom names (visits ++ visits') := by
  intro visit hvisit
  rcases List.mem_append.mp hvisit with hvisit | hvisit
  · obtain ⟨more, hmore, habove⟩ := h visit hvisit
    refine ⟨more, hmore, fun name hname => ?_⟩
    obtain ⟨above, hmem, heq⟩ := habove name hname
    exact ⟨above, List.mem_append_left _ hmem, heq⟩
  · obtain ⟨more, hmore, habove⟩ := h' visit hvisit
    refine ⟨more, hmore, fun name hname => ?_⟩
    obtain ⟨above, hmem, heq⟩ := habove name hname
    exact ⟨above, List.mem_append_right _ hmem, heq⟩

theorem LeadFrom.cons {names : List Text} {dentry : Dentry} {below : List Visit}
    (h : LeadFrom (namesOf names dentry) below) :
    LeadFrom names ((namesOf names dentry, dentry) :: below) := by
  obtain ⟨step, hstep, hname⟩ : ∃ step, namesOf names dentry = names ++ step ∧
      ∀ name ∈ step, dentry.name = name := by
    rw [namesOf]
    split
    · exact ⟨[], by simp, by simp⟩
    · exact ⟨[dentry.name], rfl, by simp⟩
  intro visit hvisit
  rcases List.mem_cons.mp hvisit with rfl | hvisit
  · exact ⟨step, hstep, fun name hmem => ⟨_, List.mem_cons_self .., hname name hmem⟩⟩
  · obtain ⟨more, hmore, habove⟩ := h visit hvisit
    refine ⟨step ++ more, by rw [hmore, hstep, List.append_assoc], fun name hmem => ?_⟩
    rcases List.mem_append.mp hmem with hmem | hmem
    · exact ⟨_, List.mem_cons_self .., hname name hmem⟩
    · obtain ⟨above, hmem, heq⟩ := habove name hmem
      exact ⟨above, List.mem_cons_of_mem _ hmem, heq⟩

theorem walkChildren_leadFrom
    {visit : Nat → Option (Except Failure (List Visit))} {names : List Text}
    (hvisit : ∀ child visits, visit child = some (.ok visits) → LeadFrom names visits)
    {depth child : Nat} {visits : List Visit}
    (h : walkChildren metadata visit depth child = some (.ok visits)) :
    LeadFrom names visits := by
  induction depth generalizing child visits with
  | zero =>
    cases h
  | succ depth ih =>
    rcases walkChildren_succ_eq_ok.mp h with ⟨-, rfl⟩ | ⟨dentry, first, rest, -, hfirst, hrest, rfl⟩
    · intro v hv
      cases hv
    · exact (hvisit child first hfirst).append (ih hrest)

theorem walk_leadFrom {includePaths : Option (List Text)} {depth offset : Nat} {names : List Text}
    {visits : List Visit}
    (h : walk metadata includePaths depth offset names = some (.ok visits)) :
    LeadFrom names visits := by
  induction depth generalizing offset names visits with
  | zero =>
    cases h
  | succ depth ih =>
    rcases walk_succ_eq_ok.mp h with ⟨-, rfl⟩ | ⟨dentry, below, -, rfl, hbelow⟩
    · intro v hv
      cases hv
    · apply LeadFrom.cons
      split at hbelow
      · exact walkChildren_leadFrom (fun child visits => ih) hbelow
      · rw [hbelow]
        intro v hv
        cases hv

/-! ## The pruned walk -/

/-- No entry has a separator in its name. -/
def PlainNames (visits : List Visit) : Prop :=
  ∀ visit ∈ visits, '/' ∉ visit.2.name

theorem isAbsolute_of_plain {name : Text}
    (h : '/' ∉ name) :
    isAbsolute name = false := by
  rw [isAbsolute, decide_eq_false_iff_not]
  intro hhead
  exact h (List.mem_of_mem_head? hhead)

variable {lookupByHash : Bytes → Option ResEntry} {outputPath : Text} {paths : List Text}

/-- Below a directory that is not gone into there is nothing to extract. -/
theorem filterMap_taskOf_of_not_descend {names : List Text} {visits : List Visit}
    (hlead : LeadFrom names visits) (hplain : PlainNames visits)
    (hdescend : shouldDescend (joinAll [] names) (some paths) = false) :
    visits.filterMap (taskOf lookupByHash (some paths) outputPath) = [] := by
  rw [List.filterMap_eq_nil_iff]
  intro visit hvisit
  obtain ⟨more, hmore, habove⟩ := hlead visit hvisit
  have hrelative : ∀ name ∈ more, isAbsolute name = false := by
    intro name hname
    obtain ⟨above, hmem, rfl⟩ := habove name hname
    exact isAbsolute_of_plain (hplain above hmem)
  have hextract : shouldExtract (joinAll [] visit.1) (some paths) = false := by
    rw [hmore, Bool.eq_false_iff]
    intro h
    rw [shouldDescend_of_shouldExtract hrelative h] at hdescend
    cases hdescend
  rw [taskOf, hextract]
  split
  · rfl
  · rfl

theorem walkChildren_pruned {visit visit' : Nat → Option (Except Failure (List Visit))}
    (hvisit : ∀ child visits, visit child = some (.ok visits) → PlainNames visits →
      ∃ visits', visit' child = some (.ok visits') ∧
        visits'.filterMap (taskOf lookupByHash (some paths) outputPath) =
          visits.filterMap (taskOf lookupByHash (some paths) outputPath))
    {depth child : Nat} {visits : List Visit}
    (h : walkChildren metadata visit depth child = some (.ok visits))
    (hplain : PlainNames visits) :
    ∃ visits', walkChildren metadata visit' depth child = some (.ok visits') ∧
      visits'.filterMap (taskOf lookupByHash (some paths) outputPath) =
        visits.filterMap (taskOf lookupByHash (some paths) outputPath) := by
  induction depth generalizing child visits with
  | zero =>
    cases h
  | succ depth ih =>
    rcases walkChildren_succ_eq_ok.mp h with
      ⟨hread, rfl⟩ | ⟨dentry, first, rest, hread, hfirst, hrest, rfl⟩
    · exact ⟨[], walkChildren_succ_eq_ok.mpr (.inl ⟨hread, rfl⟩), rfl⟩
    · obtain ⟨hplain₁, hplain₂⟩ := List.forall_mem_append.mp hplain
      obtain ⟨first', hfirst', heq₁⟩ := hvisit child first hfirst hplain₁
      obtain ⟨rest', hrest', heq₂⟩ := ih hrest hplain₂
      refine ⟨first' ++ rest', walkChildren_succ_eq_ok.mpr
        (.inr ⟨dentry, first', rest', hread, hfirst', hrest', rfl⟩), ?_⟩
      rw [List.filterMap_append, List.filterMap_append, heq₁, heq₂]

theorem walk_pruned {depth offset : Nat} {names : List Text} {visits : List Visit}
    (h : walk metadata none depth offset names = some (.ok visits))
    (hplain : PlainNames visits) :
    ∃ visits', walk metadata (some paths) depth offset names = some (.ok visits') ∧
      visits'.filterMap (taskOf lookupByHash (some paths) outputPath) =
        visits.filterMap (taskOf lookupByHash (some paths) outputPath) := by
  induction depth generalizing offset names visits with
  | zero =>
    cases h
  | succ depth ih =>
    rcases walk_succ_eq_ok.mp h with ⟨hread, rfl⟩ | ⟨dentry, below, hread, rfl, hbelow⟩
    · exact ⟨[], walk_succ_eq_ok.mpr (.inl ⟨hread, rfl⟩), rfl⟩
    · obtain ⟨-, hplain⟩ := List.forall_mem_cons.mp hplain
      by_cases hsub : dentry.subdirOffset = 0
      · rw [if_neg (by simp [hsub])] at hbelow
        refine ⟨_, walk_succ_eq_ok.mpr (.inr ⟨dentry, below, hread, rfl, ?_⟩), rfl⟩
        rw [if_neg (by simp [hsub])]
        exact hbelow
      · rw [if_pos ⟨hsub, rfl⟩] at hbelow
        cases hdescend : shouldDescend (joinAll [] (namesOf names dentry)) (some paths) with
        | true =>
          obtain ⟨below', hbelow', heq⟩ :=
            walkChildren_pruned (fun child visits => ih) hbelow hplain
          refine ⟨_, walk_succ_eq_ok.mpr (.inr ⟨dentry, below', hread, rfl, ?_⟩), ?_⟩
          · rw [if_pos ⟨hsub, hdescend⟩]
            exact hbelow'
          · rw [List.filterMap_cons, List.filterMap_cons, heq]
        | false =>
          have hlead : LeadFrom (namesOf names dentry) below :=
            walkChildren_leadFrom (fun child visits => walk_leadFrom) hbelow
          refine ⟨_, walk_succ_eq_ok.mpr (.inr ⟨dentry, [], hread, rfl, ?_⟩), ?_⟩
          · rw [if_neg (by simp [hdescend])]
          · rw [List.filterMap_cons, List.filterMap_cons,
              filterMap_taskOf_of_not_descend hlead hplain hdescend]
            rfl

/-! ## Pruning and filtering -/

/-- The tasks for a set of paths are those of the tasks for everything that pass the test. -/
theorem filter_taskOf
    (visits : List Visit) :
    visits.filterMap (taskOf lookupByHash (some paths) outputPath) =
      (visits.filterMap (taskOf lookupByHash none outputPath)).filter
        fun task => shouldExtract task.relative (some paths) := by
  rw [List.filter_filterMap]
  apply List.filterMap_congr
  intro visit _
  rw [taskOf, taskOf]
  by_cases hskip : visit.2.name = [] ∨ isDirectory visit.2 = true
  · rw [if_pos hskip, if_pos hskip]
    rfl
  · rw [if_neg hskip, if_neg hskip]
    cases hlookup : lookupByHash visit.2.hash with
    | none => simp [shouldExtract]
    | some resEntry =>
      cases hextract : shouldExtract (joinAll [] visit.1) (some paths) with
      | false => exact (Option.filter_some_neg (by simp [hextract])).symm
      | true =>
        exact (@Option.filter_some_pos _ (fun task : ExtractTask =>
          shouldExtract task.relative (some paths)) ⟨_, resEntry, _⟩ hextract).symm

/-- The entries of an image. -/
def Entries (metadata : Bytes) (start : Nat) (visits : List Visit) : Prop :=
  ∃ depth, walk metadata none depth start [] = some (.ok visits)

theorem Entries.unique {start depth : Nat} {visits visits' : List Visit}
    (h : Entries metadata start visits)
    (h' : walk metadata none depth start [] = some (.ok visits')) :
    visits = visits' := by
  obtain ⟨depth', h⟩ := h
  rcases Nat.le_total depth depth' with hle | hle
  · have heq := (walk_of_le hle h').symm.trans h
    cases heq
    rfl
  · have heq := (walk_of_le hle h).symm.trans h'
    cases heq
    rfl

/-- A run for a set of paths ends well if the run for everything does, and collects the
tasks of that run that are to be extracted. -/
theorem pruned_tasks_eq_filter {metadata : Bytes} {start : Nat}
    (hnames : ∀ visits, Entries metadata start visits → ∀ visit ∈ visits, '/' ∉ visit.2.name)
    {createDir : List Component → Bool} (hcreate : ∀ dir, createDir dir = true)
    (lookupByHash : Bytes → Option ResEntry) (outputPath : Text) (paths : List Text)
    {depth : Nat} {result : Collected}
    (h : collectTasks createDir lookupByHash none metadata depth start outputPath [] ⟨[], []⟩ =
      some (.ok result)) :
    ∃ pruned, collectTasks createDir lookupByHash (some paths) metadata depth start outputPath []
        ⟨[], []⟩ = some (.ok pruned) ∧
      pruned.tasks = result.tasks.filter fun task => shouldExtract task.relative (some paths) := by
  obtain ⟨visits, hwalk, hwrite⟩ := (collectTasks_eq_ok depth start [] _ _).mp h
  obtain ⟨visits', hwalk', heq⟩ := @walk_pruned metadata lookupByHash outputPath paths _ _ _ _
    hwalk (hnames visits ⟨depth, hwalk⟩)
  obtain ⟨pruned, hpruned⟩ := @writeVisits_succeeds createDir lookupByHash (some paths) outputPath
    hcreate ⟨[], []⟩ visits'
  refine ⟨pruned, (collectTasks_eq_ok depth start [] _ _).mpr ⟨visits', hwalk', hpruned⟩, ?_⟩
  rw [(writeVisits_eq_ok hpruned).1, (writeVisits_eq_ok hwrite).1, List.nil_append,
    List.nil_append, heq, filter_taskOf]

/-- A root with a directory `A` that holds a file `b`, and a file `c`. -/
def sampleMetadata : Bytes :=
  dentryBytes [] 0x10 104 ++
    (dentryBytes [65] 0x10 336 ++ dentryBytes [99] 0x20 0 ++ toLE 8 0) ++
    (dentryBytes [98] 0x20 0 ++ toLE 8 0)

def sampleVisits : List Visit :=
  let hash := List.replicate 20 0
  [([], ⟨[], 0x10, hash, 104, 104⟩), ([['A']], ⟨['A'], 0x10, hash, 336, 216⟩),
    ([['A'], ['b']], ⟨['b'], 0x20, hash, 0, 448⟩), ([['c']], ⟨['c'], 0x20, hash, 0, 328⟩)]

theorem walk_sampleMetadata :
    walk sampleMetadata none 4 0 [] = some (.ok sampleVisits) := by
  decide +kernel

def sampleCollected : Collected :=
  ⟨[⟨['o', '/', 'A', '/', 'b'], ⟨0, 0, 0⟩, ['A', '/', 'b']⟩, ⟨['o', '/', 'c'], ⟨0, 0, 0⟩, ['c']⟩],
    [[.normal ['o'], .normal ['A']], [.normal ['o'], .normal ['A']], [.normal ['o']]]⟩

theorem pruned_tasks_eq_filter_sample :
    ∃ pruned, collectTasks (fun _ => true) (fun _ => some ⟨0, 0, 0⟩) (some [['a', '/', 'b']])
        sampleMetadata 4 0 ['o'] [] ⟨[], []⟩ = some (.ok pruned) ∧
      pruned.tasks = sampleCollected.tasks.filter
        fun task => shouldExtract task.relative (some [['a', '/', 'b']]) := by
  have hnames : ∀ visits, Entries sampleMetadata 0 visits →
      ∀ visit ∈ visits, '/' ∉ visit.2.name := by
    intro visits hvisits
    rw [hvisits.unique walk_sampleMetadata]
    decide
  exact pruned_tasks_eq_filter hnames (fun _ => rfl) _ _ _
    (by decide +kernel : collectTasks (fun _ => true) (fun _ => some ⟨0, 0, 0⟩) none
      sampleMetadata 4 0 ['o'] [] ⟨[], []⟩ = some (.ok sampleCollected))

end

end Wim
end Theos
