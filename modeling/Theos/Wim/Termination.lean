import Theos.Base.Recursion
import Theos.Base.Rust
import Theos.Wim.Tasks

/-!
# When the walk over an image ends

The entries of one directory are read one behind the other, so the loop over
them moves forward and ends.  But the offset of the first child of an entry is a
number of the file, and nothing keeps it from leading back to the entry itself.

`Leads` says which offset of the metadata leads to which: to the entries of its directory,
behind entries that can be read with all that is below them.  There are finitely many offsets, so
that the walk ends if none leads back to itself; and without a list of paths to include and
with directories that can be created, only then.
-/

namespace Theos
namespace Wim

open Base UnixPath Relation

/-- The entries of a directory that the loop comes to: those before were walked over. -/
inductive Reached (metadata : Bytes) (walked : Nat → Prop) : Nat → Nat → Prop
  | first {offset : Nat} {dentry : Dentry} :
      readDentry metadata offset = .ok (some dentry) → Reached metadata walked offset offset
  | next {offset offset' : Nat} {dentry : Dentry} :
      readDentry metadata offset = .ok (some dentry) → walked offset →
      Reached metadata walked dentry.nextOffset offset' → Reached metadata walked offset offset'

/-- The entries of a directory, and all that is below them, can be read. -/
inductive Listed (metadata : Bytes) : Nat → Prop
  | done {offset : Nat} : readDentry metadata offset = .ok none → Listed metadata offset
  | entry {offset : Nat} {dentry : Dentry} :
      readDentry metadata offset = .ok (some dentry) →
      (dentry.subdirOffset ≠ 0 → Listed metadata dentry.subdirOffset) →
      Listed metadata dentry.nextOffset → Listed metadata offset

/-- The entry and what is below it can be read. -/
def Finishes (metadata : Bytes) (offset : Nat) : Prop :=
  ∃ entry, readDentry metadata offset = .ok entry ∧
    ∀ dentry ∈ entry, dentry.subdirOffset ≠ 0 → Listed metadata dentry.subdirOffset

/-- An entry leads to those of its directory that the loop comes to. -/
def Leads (metadata : Bytes) (walked : Nat → Prop) (offset child : Nat) : Prop :=
  ∃ dentry, readDentry metadata offset = .ok (some dentry) ∧ dentry.subdirOffset ≠ 0 ∧
    Reached metadata walked dentry.subdirOffset child

/-- From an offset on, no offset leads back to itself. -/
def Acyclic (metadata : Bytes) (walked : Nat → Prop) (offset : Nat) : Prop :=
  ∀ o, ReflTransGen (Leads metadata walked) offset o → ¬ TransGen (Leads metadata walked) o o

/-! ## Entries are read forward -/

theorem le_of_skipStreams {metadata : Bytes} {count offset next : Nat}
    (h : skipStreams metadata count offset = .ok next) :
    offset ≤ next := by
  induction count generalizing offset with
  | zero =>
    cases h
    exact le_refl _
  | succ count ih =>
    rw [skipStreams] at h
    obtain ⟨streamSize, -, h⟩ := except_bind_eq_ok.mp h
    obtain ⟨streamLen, -, h⟩ := except_bind_eq_ok.mp h
    split at h
    · cases h
    · obtain ⟨nameLen, -, h⟩ := except_bind_eq_ok.mp h
      split at h
      · cases h
      · obtain ⟨-, -, h⟩ := except_bind_eq_ok.mp h
        exact le_trans (Nat.le_add_right _ _) (ih h)

/-- An entry lies inside the metadata, before the entry that comes next. -/
theorem readDentry_forward {metadata : Bytes} {offset : Nat} {dentry : Dentry}
    (h : readDentry metadata offset = .ok (some dentry)) :
    offset < metadata.length ∧ offset < dentry.nextOffset := by
  rw [readDentry] at h
  obtain ⟨storedLength, -, h⟩ := except_bind_eq_ok.mp h
  obtain ⟨length, -, h⟩ := except_bind_eq_ok.mp h
  split at h
  · cases h
  split at h
  · cases h
  obtain ⟨bytes, hbytes, h⟩ := except_bind_eq_ok.mp h
  obtain ⟨attributes, -, h⟩ := except_bind_eq_ok.mp h
  obtain ⟨subdirOffset, -, h⟩ := except_bind_eq_ok.mp h
  obtain ⟨numExtraStreams, -, h⟩ := except_bind_eq_ok.mp h
  obtain ⟨shortNameLen, -, h⟩ := except_bind_eq_ok.mp h
  obtain ⟨nameLen, -, h⟩ := except_bind_eq_ok.mp h
  split at h
  · cases h
  obtain ⟨name, -, h⟩ := except_bind_eq_ok.mp h
  obtain ⟨-, -, h⟩ := except_bind_eq_ok.mp h
  split at h
  · cases h
  obtain ⟨nextOffset, hnext, h⟩ := except_bind_eq_ok.mp h
  obtain ⟨hash, -, h⟩ := except_bind_eq_ok.mp h
  cases h
  have hle := le_of_skipStreams hnext
  refine ⟨?_, show offset < nextOffset by omega⟩
  unfold readBytes at hbytes
  split at hbytes
  · cases hbytes
  split at hbytes
  · omega
  · cases hbytes

/-! ## Offsets -/

theorem Reached.lt {metadata : Bytes} {walked : Nat → Prop} {first offset : Nat}
    (h : Reached metadata walked first offset) :
    offset < metadata.length := by
  induction h with
  | first hentry =>
    exact (readDentry_forward hentry).1
  | next _ _ _ ih =>
    exact ih

/-- Only finitely many offsets can be led to. -/
theorem finite_leads
    (metadata : Bytes) (walked : Nat → Prop) (offset : Nat) :
    {o | ReflTransGen (Leads metadata walked) offset o}.Finite := by
  refine ((Set.finite_lt_nat metadata.length).insert offset).subset fun o ho => ?_
  cases ho with
  | refl =>
    exact .inl rfl
  | tail _ hleads =>
    obtain ⟨dentry, -, -, hreached⟩ := hleads
    exact .inr hreached.lt

theorem acc_leads_iff
    (metadata : Bytes) (walked : Nat → Prop) (offset : Nat) :
    Acc (Function.swap (Leads metadata walked)) offset ↔ Acyclic metadata walked offset :=
  acc_iff_no_cycle (finite_leads metadata walked offset)

/-! ## The walk ends if the offsets do not lead back -/

section Ends

variable (createDir : List Component → Bool) (lookupByHash : Bytes → Option ResEntry)
  (includePaths : Option (List Text)) (metadata : Bytes)

/-- From some depth on, the recursion ends, whatever the paths and what was collected. -/
def Ends (offset : Nat) : Prop :=
  ∃ least, ∀ depth ≥ least, ∀ outputPath relativePath found,
    collectTasks createDir lookupByHash includePaths metadata depth offset outputPath relativePath
      found ≠ none

variable {createDir lookupByHash includePaths metadata} {walked : Nat → Prop} {offset : Nat}

theorem Ends.exists_run
    (h : Ends createDir lookupByHash includePaths metadata offset)
    (outputPath relativePath : Text) (found : Collected) :
    ∃ depth, collectTasks createDir lookupByHash includePaths metadata depth offset outputPath
      relativePath found ≠ none := by
  obtain ⟨least, hleast⟩ := h
  exact ⟨least, hleast least (Nat.le_refl _) outputPath relativePath found⟩

/-- A loop whose calls end, ends, since it moves forward. -/
theorem loop_ends
    (hwalked : ∀ depth o outputPath relativePath found result,
      collectTasks createDir lookupByHash includePaths metadata depth o outputPath relativePath
        found = some (.ok result) → walked o)
    (first : Nat)
    (h : ∀ o, Reached metadata walked first o →
      Ends createDir lookupByHash includePaths metadata o) :
    ∃ least, ∀ depth ≥ least, ∀ rounds ≥ least, ∀ outputPath relativePath found,
      collectChildren metadata (fun child => collectTasks createDir lookupByHash includePaths
        metadata depth child outputPath relativePath) rounds first found ≠ none := by
  -- the distance of the entry from the end of the metadata falls
  induction hleft : metadata.length - first using Nat.strong_induction_on generalizing first with
  | _ left ih =>
    rcases hentry : readDentry metadata first with e | _ | entry
    · refine ⟨1, fun depth _ rounds hrounds outputPath relativePath found => ?_⟩
      obtain ⟨rounds, rfl⟩ := Nat.exists_eq_succ_of_ne_zero (Nat.ne_zero_of_lt hrounds)
      simp [collectChildren, hentry]
    · refine ⟨1, fun depth _ rounds hrounds outputPath relativePath found => ?_⟩
      obtain ⟨rounds, rfl⟩ := Nat.exists_eq_succ_of_ne_zero (Nat.ne_zero_of_lt hrounds)
      simp [collectChildren, hentry]
    · obtain ⟨hinside, hforward⟩ := readDentry_forward hentry
      obtain ⟨least, hleast⟩ := h first (.first hentry)
      -- behind an entry that is not walked over the loop does not come
      obtain ⟨least', hleast'⟩ : ∃ least', walked first → ∀ depth ≥ least', ∀ rounds ≥ least',
          ∀ outputPath relativePath found, collectChildren metadata (fun child =>
            collectTasks createDir lookupByHash includePaths metadata depth child outputPath
              relativePath) rounds entry.nextOffset found ≠ none := by
        by_cases hfirst : walked first
        · obtain ⟨least', hleast'⟩ := ih (metadata.length - entry.nextOffset) (by omega)
            entry.nextOffset (fun o ho => h o (.next hentry hfirst ho)) rfl
          exact ⟨least', fun _ => hleast'⟩
        · exact ⟨0, fun hyes => absurd hyes hfirst⟩
      refine ⟨max least (least' + 1), fun depth hdepth rounds hrounds outputPath relativePath
        found => ?_⟩
      obtain ⟨rounds, rfl⟩ : ∃ k, rounds = k + 1 := ⟨rounds - 1, by omega⟩
      obtain ⟨r, hr⟩ := Option.ne_none_iff_exists'.mp
        (hleast depth (by omega) outputPath relativePath found)
      rcases r with e | result
      · simp [collectChildren, hentry, hr]
      · simp only [collectChildren, hentry, hr]
        exact hleast' (hwalked _ _ _ _ _ _ hr) depth (by omega) rounds (by omega) _ _ result

/-- A call ends if those for the entries that it leads to do. -/
theorem ends_of_leads
    (hwalked : ∀ depth o outputPath relativePath found result,
      collectTasks createDir lookupByHash includePaths metadata depth o outputPath relativePath
        found = some (.ok result) → walked o)
    (h : ∀ child, Leads metadata walked offset child →
      Ends createDir lookupByHash includePaths metadata child) :
    Ends createDir lookupByHash includePaths metadata offset := by
  rcases hentry : readDentry metadata offset with e | _ | dentry
  · refine ⟨1, fun depth hdepth outputPath relativePath found => ?_⟩
    obtain ⟨depth, rfl⟩ := Nat.exists_eq_succ_of_ne_zero (Nat.ne_zero_of_lt hdepth)
    simp [collectTasks, hentry]
  · refine ⟨1, fun depth hdepth outputPath relativePath found => ?_⟩
    obtain ⟨depth, rfl⟩ := Nat.exists_eq_succ_of_ne_zero (Nat.ne_zero_of_lt hdepth)
    simp [collectTasks, hentry]
  · obtain ⟨least, hleast⟩ : ∃ least, dentry.subdirOffset ≠ 0 → ∀ depth ≥ least,
        ∀ rounds ≥ least, ∀ outputPath relativePath found,
          collectChildren metadata (fun child => collectTasks createDir lookupByHash includePaths
            metadata depth child outputPath relativePath) rounds dentry.subdirOffset found ≠
              none := by
      by_cases hsubdir : dentry.subdirOffset = 0
      · exact ⟨0, fun hne => absurd hsubdir hne⟩
      · obtain ⟨least, hleast⟩ := loop_ends hwalked dentry.subdirOffset
          fun o ho => h o ⟨dentry, hentry, hsubdir, ho⟩
        exact ⟨least, fun _ => hleast⟩
    refine ⟨least + 1, fun depth hdepth outputPath relativePath found => ?_⟩
    obtain ⟨depth, rfl⟩ : ∃ k, depth = k + 1 := ⟨depth - 1, by omega⟩
    rw [collectTasks, hentry]
    dsimp only
    split
    · exact Option.some_ne_none _
    · split
      next hdescend =>
        exact hleast hdescend.1 depth (by omega) depth (by omega) _ _ _
      next =>
        exact Option.some_ne_none _

theorem ends_of_acyclic
    (hwalked : ∀ depth o outputPath relativePath found result,
      collectTasks createDir lookupByHash includePaths metadata depth o outputPath relativePath
        found = some (.ok result) → walked o)
    (h : Acyclic metadata walked offset) :
    Ends createDir lookupByHash includePaths metadata offset := by
  rw [← acc_leads_iff] at h
  induction h with
  | intro offset _ ih =>
    exact ends_of_leads hwalked ih

end Ends

/-! ## The walk for everything -/

section Everything

variable {createDir : List Component → Bool} {lookupByHash : Bytes → Option ResEntry}
  {metadata : Bytes} {depth rounds first offset : Nat} {outputPath relativePath : Text}
  {found : Collected} {collect : Nat → Collected → Option (Except Failure Collected)}

/-- Without a list of paths, every directory is entered. -/
theorem collectTasks_of_entry {dentry : Dentry}
    (hcreate : ∀ dir, createDir dir = true)
    (hentry : readDentry metadata offset = .ok (some dentry)) :
    ∃ found₁, collectTasks createDir lookupByHash none metadata (depth + 1) offset outputPath
        relativePath found =
      if dentry.subdirOffset ≠ 0 then
        collectChildren metadata (fun child => collectTasks createDir lookupByHash none metadata
          depth child (entryPath outputPath dentry) (entryPath relativePath dentry)) depth
          dentry.subdirOffset found₁
      else some (.ok found₁) := by
  obtain ⟨found₁, hwrite⟩ : ∃ found₁, (if dentry.name = [] then Except.ok found
      else writeEntry createDir lookupByHash none dentry (join outputPath dentry.name)
        (entryPath relativePath dentry) found) = .ok found₁ := by
    split
    · exact ⟨_, rfl⟩
    · exact writeEntry_succeeds hcreate _ _ _ _
  refine ⟨found₁, ?_⟩
  rw [collectTasks, hentry]
  simp only [hwrite, shouldDescend, and_true]

theorem listed_of_collectChildren {result : Collected}
    (hcollect : ∀ child found result, collect child found = some (.ok result) →
      Finishes metadata child)
    (h : collectChildren metadata collect rounds first found = some (.ok result)) :
    Listed metadata first := by
  induction rounds generalizing first found with
  | zero =>
    cases h
  | succ rounds ih =>
    rw [collectChildren] at h
    rcases hentry : readDentry metadata first with e | _ | dentry
    · simp [hentry] at h
    · exact .done hentry
    · rw [hentry] at h
      rcases hfirst : collect first found with _ | e | found₁
      · simp [hfirst] at h
      · simp [hfirst] at h
      · obtain ⟨_, hentry', hbelow⟩ := hcollect first _ _ hfirst
        cases hentry.symm.trans hentry'
        simp only [hfirst] at h
        exact .entry hentry (hbelow dentry rfl) (ih h)

/-- What is collected without an error can be read. -/
theorem finishes_of_collectTasks {result : Collected}
    (hcreate : ∀ dir, createDir dir = true)
    (h : collectTasks createDir lookupByHash none metadata depth offset outputPath relativePath
      found = some (.ok result)) :
    Finishes metadata offset := by
  induction depth generalizing offset outputPath relativePath found result with
  | zero =>
    cases h
  | succ depth ih =>
    rcases hentry : readDentry metadata offset with e | _ | dentry
    · simp [collectTasks, hentry] at h
    · exact ⟨none, hentry, by simp⟩
    · refine ⟨some dentry, hentry, ?_⟩
      rintro _ ⟨⟩ hsubdir
      obtain ⟨found₁, heq⟩ := collectTasks_of_entry hcreate hentry
      rw [heq, if_pos hsubdir] at h
      exact listed_of_collectChildren (fun _ _ _ => ih) h

theorem Listed.collectChildren
    (hlisted : Listed metadata first)
    (hcollect : ∀ child found, Finishes metadata child → collect child found ≠ none →
      ∃ result, collect child found = some (.ok result))
    (h : Wim.collectChildren metadata collect rounds first found ≠ none) :
    ∃ result, Wim.collectChildren metadata collect rounds first found = some (.ok result) := by
  induction rounds generalizing first found with
  | zero =>
    exact absurd rfl h
  | succ rounds ih =>
    rw [Wim.collectChildren] at h ⊢
    cases hlisted with
    | done hdone =>
      exact ⟨found, by rw [hdone]⟩
    | @entry _ dentry hentry hbelow hnext =>
      rw [hentry] at h ⊢
      obtain ⟨found₁, hfirst⟩ := hcollect first found
        ⟨_, hentry, by rintro _ ⟨⟩; exact hbelow⟩ (fun hnone => by simp [hnone] at h)
      simp only [hfirst] at h ⊢
      exact ih hnext h

/-- What can be read is collected without an error wherever the recursion ends. -/
theorem Finishes.collectTasks
    (hcreate : ∀ dir, createDir dir = true)
    (hfinishes : Finishes metadata offset)
    (h : Wim.collectTasks createDir lookupByHash none metadata depth offset outputPath relativePath
      found ≠ none) :
    ∃ result, Wim.collectTasks createDir lookupByHash none metadata depth offset outputPath
      relativePath found = some (.ok result) := by
  induction depth generalizing offset outputPath relativePath found with
  | zero =>
    exact absurd rfl h
  | succ depth ih =>
    obtain ⟨_ | dentry, hentry, hbelow⟩ := hfinishes
    · exact ⟨found, by rw [Wim.collectTasks, hentry]⟩
    · obtain ⟨found₁, heq⟩ := collectTasks_of_entry hcreate hentry
      rw [heq] at h ⊢
      split at h
      next hsubdir =>
        rw [if_pos hsubdir]
        exact (hbelow dentry rfl hsubdir).collectChildren (fun _ _ => ih) h
      next hsubdir =>
        exact ⟨found₁, if_neg hsubdir⟩

/-- A loop that ends has come to the end of each call it makes. -/
theorem collect_of_loop
    (hcollect : ∀ child found, Finishes metadata child → collect child found ≠ none →
      ∃ result, collect child found = some (.ok result))
    (hreached : Reached metadata (Finishes metadata) first offset)
    (h : collectChildren metadata collect rounds first found ≠ none) :
    ∃ found, collect offset found ≠ none := by
  induction hreached generalizing rounds found with
  | @first offset _ hentry =>
    refine ⟨found, fun hnone => ?_⟩
    cases rounds with
    | zero =>
      exact h rfl
    | succ rounds =>
      simp [collectChildren, hentry, hnone] at h
  | @next before _ dentry hentry hwalked _ ih =>
    cases rounds with
    | zero =>
      exact absurd rfl h
    | succ rounds =>
      rw [collectChildren, hentry] at h
      obtain ⟨found₁, hfirst⟩ := hcollect before found hwalked
        (fun hnone => by simp [hnone] at h)
      simp only [hfirst] at h
      exact ih h

/-- From an offset at which the recursion ends there is no infinite chain of offsets. -/
theorem acc_of_collectTasks
    (hcreate : ∀ dir, createDir dir = true)
    (h : collectTasks createDir lookupByHash none metadata depth offset outputPath relativePath
      found ≠ none) :
    Acc (Function.swap (Leads metadata (Finishes metadata))) offset := by
  induction depth generalizing offset outputPath relativePath found with
  | zero =>
    exact absurd rfl h
  | succ depth ih =>
    refine .intro offset fun child hchild => ?_
    obtain ⟨dentry, hentry, hsubdir, hreached⟩ := hchild
    obtain ⟨found₁, heq⟩ := collectTasks_of_entry hcreate hentry
    rw [heq, if_pos hsubdir] at h
    obtain ⟨found₂, hends⟩ := collect_of_loop (fun _ _ hfinishes => hfinishes.collectTasks hcreate)
      hreached h
    exact ih hends

end Everything

/-- A root without a name, and a directory `a` in it. -/
def smallMetadata : Bytes :=
  List.replicate 8 0 ++ dentryBytes [] 0x10 120 ++ List.replicate 8 0 ++ dentryBytes [0x61] 0x10 0 ++
    List.replicate 8 0

theorem reached_smallMetadata {walked : Nat → Prop} {offset : Nat}
    (h : Reached smallMetadata walked 120 offset) :
    offset = 120 := by
  have hentry : readDentry smallMetadata 120 =
      .ok (some ⟨['a'], 0x10, List.replicate 20 0, 0, 232⟩) := by decide +kernel
  have hend : readDentry smallMetadata 232 = .ok none := by decide +kernel
  cases h with
  | first =>
    rfl
  | next hentry' _ hrest =>
    cases hentry.symm.trans hentry'
    cases hrest with
    | first hend' =>
      cases hend.symm.trans hend'
    | next hend' =>
      cases hend.symm.trans hend'

/-- The root leads to the directory, and the directory to nothing. -/
theorem acyclic_smallMetadata
    (walked : Nat → Prop) :
    Acyclic smallMetadata walked 8 := by
  have hroot : readDentry smallMetadata 8 =
      .ok (some ⟨[], 0x10, List.replicate 20 0, 120, 112⟩) := by decide +kernel
  have hinner : readDentry smallMetadata 120 =
      .ok (some ⟨['a'], 0x10, List.replicate 20 0, 0, 232⟩) := by decide +kernel
  have hlast : ∀ o, ¬ Leads smallMetadata walked 120 o := by
    rintro o ⟨dentry, hentry, hsubdir, -⟩
    cases hinner.symm.trans hentry
    exact hsubdir rfl
  have hfirst : ∀ o, Leads smallMetadata walked 8 o → o = 120 := by
    rintro o ⟨dentry, hentry, -, hreached⟩
    cases hroot.symm.trans hentry
    exact reached_smallMetadata hreached
  rw [← acc_leads_iff]
  refine .intro 8 fun o ho => ?_
  rw [hfirst o ho]
  exact .intro 120 fun o ho => absurd ho (hlast o)

/-- An entry without a name whose first child is the entry itself. -/
def selfMetadata : Bytes :=
  List.replicate 8 0 ++ dentryBytes [] 0 8

end Wim
end Theos
