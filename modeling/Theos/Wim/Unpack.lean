import Theos.Base.Writers
import Theos.Wim.Containment
import Theos.Wim.Resources

/-!
# Unpacking an image

`unpack_wim` reads the header and the table of resources, finds the metadata of the first image
in it, collects the files to write and then has them written by several threads at once.  A
resource is found by its hash; of several entries of the table with the same hash it is the
last one.

The threads share nothing but the file system: each task empties its file and writes it piece
by piece.  `fileOf` says which file a path leads to, so that links and file systems that do not
distinguish letters are covered.  Only the contents of files are modelled: the directories
above them, and that they can be created, are those that `collect_tasks` has asked for.

## Main results

* `extract_order_free_iff`: when the outcome is the same in every interleaving of the threads.
* `unpack_wim_writes_image`: each file of the image that is to be written has the contents that
  its hash stands for, and no other file is touched.
-/

namespace Theos
namespace Wim

open Base UnixPath

/-! ## The code -/

/-- The errors of `unpack_wim` before the first file is written; `lookupTable` and `metadata` are
`Wim` errors with the messages "failed to read lookup table" and "failed to read image
metadata". -/
inductive UnpackError where
  | binRead
  | wim (message : String)
  | lookupTable (error : ResourceError)
  | metadata (error : ResourceError)
  | collect (failure : Failure)
deriving DecidableEq, Repr

def ResEntry.isMetadata (res : ResEntry) : Bool :=
  res.flags &&& 0x02 ≠ 0

structure WimHeader where
  imageTag : Bytes
  compressionSize : Nat
  imageCount : Nat
  offsetTable : ResEntry
deriving DecidableEq, Repr

structure LookupEntry where
  resEntry : ResEntry
  hash : Bytes
deriving DecidableEq, Repr

def readResEntry (bytes : Bytes) (position : Nat) : ResEntry where
  sizeFlags := ofLE (slice bytes position 8)
  offset := ofLE (slice bytes (position + 8) 8)
  originalSize := ofLE (slice bytes (position + 16) 8)

/-- `wim.read_le::<WimHeader>()`; the padding at the end is skipped without being read. -/
def readHeader (wim : Bytes) : Option WimHeader :=
  if wim.length < 148 then none
  else some {
    imageTag := slice wim 0 8
    compressionSize := ofLE (slice wim 20 4)
    imageCount := ofLE (slice wim 44 4)
    offsetTable := readResEntry wim 48 }

/-- The loop that reads the table of resources. -/
def readLookupTable (data : Bytes) : Nat → Nat → Option (List LookupEntry)
  | 0, _ => some []
  | count + 1, position => do
    if data.length < position + 50 then none
    else
      let rest ← readLookupTable data count (position + 50)
      some (⟨readResEntry data position, slice data (position + 30) 20⟩ :: rest)

/-- What `unpack_wim` knows of an image when it starts to collect. -/
structure Image where
  chunkSize : Nat
  lookupTable : List LookupEntry
  metadata : Bytes
  start : Nat
deriving DecidableEq, Repr

/-- `MSWIM` and three zeros. -/
def imageTag : Bytes := [0x4d, 0x53, 0x57, 0x49, 0x4d, 0, 0, 0]

def orFailure {α : Type} : Except Failure α → Rust UnpackError α
  | .ok a => .ok a
  | .error failure => Rust.err (.collect failure)

/-- `unpack_wim` up to the collecting. -/
def openImage (wim : Bytes) : Rust UnpackError Image := do
  let header ← Rust.okOr .binRead (readHeader wim)
  if header.imageTag ≠ imageTag then Rust.err (.wim "Not a valid MSWIM file")
  else
    let lookupData ← Rust.mapErr .lookupTable
      (readResource wim header.offsetTable header.compressionSize)
    let lookupTable ← Rust.okOr .binRead
      (readLookupTable lookupData (header.offsetTable.originalSize / 50) 0)
    if header.imageCount = 0 then Rust.err (.wim "No images in WIM")
    else
      let metadataRes ← Rust.okOr (.wim "Metadata not found")
        (lookupTable.find? (·.resEntry.isMetadata))
      let metadata ← Rust.mapErr .metadata
        (readResource wim metadataRes.resEntry header.compressionSize)
      let securitySize ← orFailure (readU32 metadata 0)
      let start ← orFailure (alignU64 securitySize 8)
      .ok ⟨header.compressionSize, lookupTable, metadata, start⟩

/-- `lookup_by_hash`: a later entry takes the place of an earlier one. -/
def Image.lookupByHash (image : Image) (hash : Bytes) : Option ResEntry :=
  (image.lookupTable.findRev? fun entry => !entry.resEntry.isMetadata && entry.hash = hash).map
    (·.resEntry)

/-- The output directory is created, and the files to write are collected. -/
def Image.collect (image : Image) (createDir : List Component → Bool)
    (includePaths : Option (List Text)) (output : Text) (depth : Nat) :
    Option (Except Failure Collected) :=
  match createDirAll createDir (components output) ⟨[], []⟩ with
  | .error failure => some (.error failure)
  | .ok found =>
    collectTasks createDir image.lookupByHash includePaths image.metadata depth image.start
      output [] found

/-! ## Extracting -/

section

variable {κ : Type} (fileOf : Text → κ) (wim : Bytes) (chunkSize : Nat)

/-- The data of a task, if it can be read. -/
def blobOf (task : ExtractTask) : Bytes :=
  (readResource wim task.resEntry chunkSize).toOption.getD []

def jobOf (task : ExtractTask) : Writers.Job κ UInt8 :=
  ⟨fileOf task.path, blobOf wim chunkSize task⟩

/-- Tasks for the same file have the same data. -/
def SameData (tasks : List ExtractTask) : Prop :=
  ∀ task ∈ tasks, ∀ task' ∈ tasks, fileOf task.path = fileOf task'.path →
    readResource wim task.resEntry chunkSize = readResource wim task'.resEntry chunkSize

variable {fileOf wim chunkSize} {tasks : List ExtractTask}

theorem blobOf_eq {task : ExtractTask} {data : Bytes}
    (h : readResource wim task.resEntry chunkSize = .ok data) :
    blobOf wim chunkSize task = data := by
  rw [blobOf, h]
  rfl

theorem agree_iff_sameData
    (hread : ∀ task ∈ tasks, ∃ data, readResource wim task.resEntry chunkSize = .ok data) :
    Writers.Agree (tasks.map (jobOf fileOf wim chunkSize)) ↔
      SameData fileOf wim chunkSize tasks := by
  constructor
  · intro h task htask task' htask' hfile
    obtain ⟨i, hi⟩ := List.mem_iff_getElem?.mp htask
    obtain ⟨i', hi'⟩ := List.mem_iff_getElem?.mp htask'
    obtain ⟨data, hdata⟩ := hread task htask
    obtain ⟨data', hdata'⟩ := hread task' htask'
    have heq : blobOf wim chunkSize task = blobOf wim chunkSize task' :=
      h i i' _ _ (by rw [List.getElem?_map, hi]; rfl) (by rw [List.getElem?_map, hi']; rfl) hfile
    rw [blobOf_eq hdata, blobOf_eq hdata'] at heq
    rw [hdata, hdata', heq]
  · intro h i i' job job' hjob hjob' hfile
    rw [List.getElem?_map] at hjob hjob'
    obtain ⟨task, htask, rfl⟩ := Option.map_eq_some_iff.mp hjob
    obtain ⟨task', htask', rfl⟩ := Option.map_eq_some_iff.mp hjob'
    rw [jobOf, jobOf, blobOf, blobOf, h task (List.mem_of_getElem? htask) task'
      (List.mem_of_getElem? htask') hfile]

variable [DecidableEq κ]

variable (fileOf wim chunkSize) in
/-- `try_for_each_init` with `extract_blob_to_path` returned `Ok`: the data of every task
could be read, and the threads have written all of it, in some interleaving. -/
def Extracts (tasks : List ExtractTask) (files files' : κ → Option Bytes) : Prop :=
  (∀ task ∈ tasks, ∃ data, readResource wim task.resEntry chunkSize = .ok data) ∧
    ∃ ops s,
      Run (Writers.Step 0 (tasks.map (jobOf fileOf wim chunkSize))) (Writers.start files) ops s ∧
        Writers.Finished (tasks.map (jobOf fileOf wim chunkSize)) s ∧ s.files = files'

/-- However the threads interleave, the outcome is the same, exactly if there are no two tasks
for one file with different data. -/
theorem extract_order_free_iff
    (hread : ∀ task ∈ tasks, ∃ data, readResource wim task.resEntry chunkSize = .ok data)
    (files : κ → Option Bytes) :
    (∀ files₁ files₂, Extracts fileOf wim chunkSize tasks files files₁ →
      Extracts fileOf wim chunkSize tasks files files₂ → files₁ = files₂) ↔
      SameData fileOf wim chunkSize tasks := by
  rw [← agree_iff_sameData hread, ← Writers.files_unique_iff 0 files]
  constructor
  · intro h ops ops' s s' hrun hdone hrun' hdone'
    exact h _ _ ⟨hread, ops, s, hrun, hdone, rfl⟩ ⟨hread, ops', s', hrun', hdone', rfl⟩
  · rintro h _ _ ⟨-, ops, s, hrun, hdone, rfl⟩ ⟨-, ops', s', hrun', hdone', rfl⟩
    exact h ops ops' s s' hrun hdone hrun' hdone'

/-- Two files of one byte, whose paths differ in the case of a letter. -/
def caseTasks : List ExtractTask :=
  [⟨['a'], ⟨0, 0, 1⟩, ['a']⟩, ⟨['A'], ⟨0, 1, 1⟩, ['A']⟩]

/-- Where this does not make two files, the threads decide which of them is left. -/
theorem extract_order_free_iff_cases :
    ¬ ∀ files₁ files₂ : Text → Option Bytes,
      Extracts lower [1, 2] 1 caseTasks (fun _ => none) files₁ →
        Extracts lower [1, 2] 1 caseTasks (fun _ => none) files₂ → files₁ = files₂ := by
  have hread : ∀ task ∈ caseTasks, ∃ data, readResource [1, 2] task.resEntry 1 = .ok data :=
    List.forall_mem_cons.mpr ⟨⟨[1], by decide +kernel⟩,
      List.forall_mem_cons.mpr ⟨⟨[2], by decide +kernel⟩, by simp⟩⟩
  intro h
  have hsame := (extract_order_free_iff hread _).mp h
  exact absurd (hsame _ (.head _) _ (.tail _ (.head _)) (by decide)) (by decide +kernel)

theorem Extracts.files {files files' : κ → Option Bytes}
    (h : Extracts fileOf wim chunkSize tasks files files')
    (hsame : SameData fileOf wim chunkSize tasks) :
    (∀ task ∈ tasks, ∃ data, readResource wim task.resEntry chunkSize = .ok data ∧
      files' (fileOf task.path) = some data) ∧
      ∀ file, (∀ task ∈ tasks, fileOf task.path ≠ file) → files' file = files file := by
  obtain ⟨hread, ops, s, hrun, hdone, rfl⟩ := h
  obtain ⟨hdata, hother⟩ :=
    Writers.files_of_finished ((agree_iff_sameData hread).mpr hsame) hrun hdone
  constructor
  · intro task htask
    obtain ⟨data, heq⟩ := hread task htask
    obtain ⟨i, hi⟩ := List.mem_iff_getElem?.mp htask
    have hfile := hdata i (jobOf fileOf wim chunkSize task) (by rw [List.getElem?_map, hi]; rfl)
    exact ⟨data, heq, by rw [← blobOf_eq heq]; exact hfile⟩
  · intro file hfile
    refine hother file ?_
    rw [List.forall_mem_map]
    exact hfile

end

/-! ## The whole image -/

section

variable {κ : Type} [DecidableEq κ]

/-- `unpack_wim` returned `Ok`, and the files were these before and after. -/
def Unpacks (fileOf : Text → κ) (wim : Bytes) (includePaths : Option (List Text)) (output : Text)
    (files files' : κ → Option Bytes) : Prop :=
  ∃ image createDir depth collected, openImage wim = .ok image ∧
    image.collect createDir includePaths output depth = some (.ok collected) ∧
    Extracts fileOf wim image.chunkSize collected.tasks files files'

/-- The tasks are those of the entries that the walk comes to. -/
theorem Image.tasks_of_collect {image : Image} {createDir : List Component → Bool}
    {includePaths : Option (List Text)} {output : Text} {depth depth' : Nat}
    {collected : Collected} {visits : List Visit}
    (hcollect : image.collect createDir includePaths output depth = some (.ok collected))
    (hwalk : walk image.metadata includePaths depth' image.start [] = some (.ok visits)) :
    collected.tasks = visits.filterMap (taskOf image.lookupByHash includePaths output) := by
  rw [Image.collect] at hcollect
  split at hcollect
  next => cases hcollect
  next found hfound =>
    obtain ⟨visits', hwalk', hwrite⟩ := (collectTasks_eq_ok depth image.start [] _ _).mp hcollect
    have heq : visits' = visits := by
      have h := walk_of_le (Nat.le_max_right depth depth') hwalk
      rw [walk_of_le (Nat.le_max_left depth depth') hwalk'] at h
      cases h
      rfl
    rw [(writeVisits_eq_ok hwrite).1, createDirAll_eq_ok hfound, List.nil_append, heq]

/-- When `unpack_wim` has returned `Ok`, each file of the image that was asked for and whose hash
is in the table of resources has the contents of the resource with this hash, in whatever
order the threads have worked, and no other file has changed.  This holds if no two entries for
one file have different contents. -/
theorem unpack_wim_writes_image {fileOf : Text → κ} {wim : Bytes}
    {includePaths : Option (List Text)} {output : Text} {files files' : κ → Option Bytes}
    {image : Image} {depth : Nat} {visits : List Visit}
    (h : Unpacks fileOf wim includePaths output files files') (hopen : openImage wim = .ok image)
    (hwalk : walk image.metadata includePaths depth image.start [] = some (.ok visits))
    (hsame : SameData fileOf wim image.chunkSize
      (visits.filterMap (taskOf image.lookupByHash includePaths output))) :
    (∀ visit ∈ visits, visit.2.name ≠ [] → isDirectory visit.2 = false →
      shouldExtract (joinAll [] visit.1) includePaths = true →
      ∀ resEntry, image.lookupByHash visit.2.hash = some resEntry →
        ∃ data, readResource wim resEntry image.chunkSize = .ok data ∧
          files' (fileOf (joinAll output visit.1)) = some data) ∧
      ∀ file, (∀ visit ∈ visits, visit.2.name ≠ [] → isDirectory visit.2 = false →
        shouldExtract (joinAll [] visit.1) includePaths = true →
        (image.lookupByHash visit.2.hash).isSome → fileOf (joinAll output visit.1) ≠ file) →
        files' file = files file := by
  obtain ⟨_, createDir, depth', collected, hopen', hcollect, hextracts⟩ := h
  cases hopen.symm.trans hopen'
  rw [image.tasks_of_collect hcollect hwalk] at hextracts
  obtain ⟨hdata, hother⟩ := hextracts.files hsame
  constructor
  · intro visit hvisit hname hdir hextract resEntry hlookup
    exact hdata _ (List.mem_filterMap.mpr ⟨visit, hvisit,
      taskOf_eq_some.mpr ⟨hname, hdir, hextract, resEntry, hlookup, rfl⟩⟩)
  · intro file hfile
    refine hother file fun task htask => ?_
    obtain ⟨visit, hvisit, htask⟩ := List.mem_filterMap.mp htask
    obtain ⟨hname, hdir, hextract, resEntry, hlookup, rfl⟩ := taskOf_eq_some.mp htask
    exact hfile visit hvisit hname hdir hextract (by rw [hlookup]; rfl)

/-- An entry of the table of resources. -/
def lookupBytes (res : ResEntry) (hash : Bytes) : Bytes :=
  toLE 8 res.sizeFlags ++ toLE 8 res.offset ++ toLE 8 res.originalSize ++ toLE 2 1 ++ toLE 4 1 ++
    hash

/-- An image with the file `b`, stored as it is: the header, the file, the table of resources
and the metadata. -/
def sampleWim : Bytes :=
  let header := imageTag ++ toLE 4 208 ++ toLE 4 0x10d00 ++ toLE 4 0 ++ toLE 4 32768 ++
    List.replicate 16 0 ++ toLE 2 1 ++ toLE 2 1 ++ toLE 4 1 ++
    (toLE 8 100 ++ toLE 8 150 ++ toLE 8 100) ++ List.replicate 76 0
  header ++ [0x68, 0x69] ++
    (lookupBytes ⟨2 * 2 ^ 56 + 232, 250, 232⟩ (List.replicate 20 1) ++
      lookupBytes ⟨2, 148, 2⟩ (List.replicate 20 0)) ++
    (toLE 4 8 ++ toLE 4 0 ++ dentryBytes [] 0x10 112 ++ dentryBytes [98] 0x20 0 ++ toLE 8 0)

def sampleImage : Image where
  chunkSize := 32768
  lookupTable := [⟨⟨2 * 2 ^ 56 + 232, 250, 232⟩, List.replicate 20 1⟩,
    ⟨⟨2, 148, 2⟩, List.replicate 20 0⟩]
  metadata := toLE 4 8 ++ toLE 4 0 ++ dentryBytes [] 0x10 112 ++ dentryBytes [98] 0x20 0 ++
    toLE 8 0
  start := 8

theorem unpack_wim_writes_image_sample :
    ∃ files' : Text → Option Bytes,
      Unpacks id sampleWim none ['o'] (fun _ => none) files' ∧
        files' ['o', '/', 'b'] = some [0x68, 0x69] := by
  have hopen : openImage sampleWim = .ok sampleImage := by decide +kernel
  have hwalk : walk sampleImage.metadata none 3 sampleImage.start [] =
      some (.ok [([], ⟨[], 0x10, List.replicate 20 0, 112, 112⟩),
        ([['b']], ⟨['b'], 0x20, List.replicate 20 0, 0, 224⟩)]) := by
    decide +kernel
  have hcollect : sampleImage.collect (fun _ => true) none ['o'] 3 =
      some (.ok ⟨[⟨['o', '/', 'b'], ⟨2, 148, 2⟩, ['b']⟩], [[.normal ['o']], [.normal ['o']]]⟩) := by
    decide +kernel
  have hread : readResource sampleWim ⟨2, 148, 2⟩ 32768 = .ok [0x68, 0x69] := by decide +kernel
  obtain ⟨ops, s, hrun, hdone, -⟩ := Writers.exists_run_last 0 (fun _ => none)
    (rfl : [jobOf id sampleWim 32768 ⟨['o', '/', 'b'], ⟨2, 148, 2⟩, ['b']⟩][0]? = some _)
  have hunpacks : Unpacks id sampleWim none ['o'] (fun _ => none) s.files :=
    ⟨sampleImage, _, 3, _, hopen, hcollect,
      List.forall_mem_singleton.mpr ⟨_, hread⟩, ops, s, hrun, hdone, rfl⟩
  obtain ⟨data, hdata, hfile⟩ := (unpack_wim_writes_image hunpacks hopen hwalk
    (List.forall_mem_singleton.mpr (List.forall_mem_singleton.mpr fun _ => rfl))).1 _
      (.tail _ (.head _)) (by decide) (by decide) rfl ⟨2, 148, 2⟩ (by decide +kernel)
  cases hread.symm.trans hdata
  exact ⟨s.files, hunpacks, hfile⟩

end

end Wim
end Theos
