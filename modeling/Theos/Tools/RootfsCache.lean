import Mathlib.Data.Nat.Digits.Defs
import Mathlib.Data.List.DropRight
import Mathlib.Logic.Function.Basic
import Theos.Base.Endian
import Theos.Base.StampedSlot
import Theos.Base.Text

/-!
# The root file system that is built once

`tools/run.rs` boots the kernel with an image that it makes from a Windows ISO: `wimunpack`
extracts the files of a list into a staging directory, the first program is put into it, and
`mkrootfs` packs it.  The staging directory and the image are kept for later runs, each with a
manifest that holds a signature of what it was made from.  A run whose signature is the same
uses what is there.

The two programs are functions here, of their own bytes and of what they are given.  A run of
one of them may fail and leave something behind.
-/

namespace Theos
namespace Tools

open Base

abbrev Text := List Char

/-! ## Inputs -/

/-- A file with its metadata. -/
structure File (α : Type) where
  path : Text
  len : Nat
  secs : Nat
  nanos : Nat
  content : α

inductive RootfsProfile where
  | windows
  | windowsReal
deriving DecidableEq

/-- What is to be built. -/
structure Job where
  profile : RootfsProfile
  iso : File Bytes
  includeList : File Text
  rootfsSizeMib : Text
  mkrootfs : File Bytes
  wimunpack : File Bytes
  nativeInit : File Bytes
  child : File Bytes
  ntdll : File Bytes

/-! ## Signatures -/

def decimal (n : Nat) : Text := Nat.toDigits 10 n

def fileSignature {α : Type} (f : File α) : Text :=
  f.path ++ ':' :: (decimal f.len ++ ':' :: (decimal f.secs ++ ':' :: decimal f.nanos))

/-- A line without its end. -/
def entry (key value : Text) : Text :=
  key ++ '=' :: value

def signatureOf (entries : List Text) : Text :=
  entries.flatMap fun e => e ++ ['\n']

def RootfsProfile.name : RootfsProfile → Text
  | .windows => "windows".toList
  | .windowsReal => "windows-real".toList

def extractEntries (job : Job) : List Text :=
  [entry "profile".toList job.profile.name, entry "iso".toList (fileSignature job.iso),
    entry "include_list".toList (fileSignature job.includeList),
    entry "wimunpack".toList (fileSignature job.wimunpack)]

def rootfsExtractSignature (job : Job) : Text :=
  signatureOf (extractEntries job)

def buildEntries (job : Job) : List Text :=
  [entry "profile".toList job.profile.name, entry "iso".toList (fileSignature job.iso),
    entry "include_list".toList (fileSignature job.includeList),
    entry "rootfs_size_mib".toList job.rootfsSizeMib,
    entry "mkrootfs".toList (fileSignature job.mkrootfs)] ++
  match job.profile with
  | .windows => [entry "init".toList (fileSignature job.nativeInit),
    entry "child".toList (fileSignature job.child), entry "ntdll".toList (fileSignature job.ntdll)]
  | .windowsReal => [entry "overlay".toList "windows-real".toList]

def rootfsBuildSignature (job : Job) : Text :=
  signatureOf (buildEntries job)

/-! ## Staging -/

/-- The files and directories under the staging directory. -/
structure Tree where
  file : Text → Option Bytes
  dir : Text → Bool

def Tree.put (t : Tree) (path : Text) (content : Bytes) : Tree :=
  { t with file := Function.update t.file path (some content) }

/-- `exists`, of a path under the directory. -/
def Tree.exists (t : Tree) (path : Text) : Bool :=
  (t.file path).isSome || t.dir path

/-- `lines`, which ends a line at `\n` or `\r\n`. -/
def lines (text : Text) : List Text :=
  let parts := text.splitOn '\n'
  (if parts.getLast? = some [] then parts.dropLast else parts).map fun part =>
    if part.getLast? = some '\r' then part.dropLast else part

def trim (text : Text) : Text :=
  (text.dropWhile Char.isWhitespace).rdropWhile Char.isWhitespace

def readIncludeManifestPaths (contents : Text) : List Text :=
  (((lines contents).map trim).filter fun l => l ≠ [] ∧ l.head? ≠ some '#').map fun l =>
    l.map fun c => if c = '\\' then '/' else c

def stagingContainsPaths (t : Tree) (expected : List Text) : Bool :=
  expected.all t.exists

def initPath : Text := "Windows/System32/init.exe".toList
def childPath : Text := "Windows/System32/child.exe".toList
def ntdllPath : Text := "Windows/System32/ntdll.dll".toList
def autochkPath : Text := "Windows/System32/autochk.exe".toList

def installNativeInitToDir (job : Job) (t : Tree) : Tree :=
  let made : Tree := { t with
    dir := fun path => path = "Windows".toList || path = "Windows/System32".toList || t.dir path }
  ((made.put initPath job.nativeInit.content).put childPath job.child.content).put ntdllPath
    job.ntdll.content

def installWindowsRealInitToDir (staging : Text) (t : Tree) : Except Text Tree :=
  match t.file autochkPath with
  | some autochk => .ok (t.put initPath autochk)
  | none =>
    .error ("ROOTFS_PROFILE=windows-real requires ".toList ++ staging ++ '/' :: autochkPath ++
      " in staged rootfs".toList)

def installInit (staging : Text) (job : Job) (t : Tree) : Except Text Tree :=
  match job.profile with
  | .windows => .ok (installNativeInitToDir job t)
  | .windowsReal => installWindowsRealInitToDir staging t

/-! ## A run -/

/-- The programs that a run calls, and where the staging directory is. -/
structure Programs (Image : Type) where
  staging : Text
  unpack : (wimunpack iso : Bytes) → (includeList : Text) → Tree
  du : Tree → Nat
  pack : (mkrootfs : Bytes) → Tree → (sizeMib : Text) → Image

/-- Which program fails, with what it leaves and its message. -/
inductive Failure (Image : Type) where
  | none
  | unpack (left : Option Tree) (message : Text)
  | pack (left : Option Image) (message : Text)

structure Disk (Image : Type) where
  staging : Slot Text Tree
  image : Slot Text Image

def Disk.empty {Image : Type} : Disk Image := ⟨.empty, .empty⟩

section

variable {Image : Type} (p : Programs Image)

def unpacked (job : Job) : Tree :=
  p.unpack job.wimunpack.content job.iso.content job.includeList.content

def prepareRootfsStaging (job : Job) (failure : Failure Image) (slot : Slot Text Tree) :
    Except Text Tree × Slot Text Tree :=
  let expected := readIncludeManifestPaths job.includeList.content
  let signature := rootfsExtractSignature job
  match (slot.lookup signature).filter (stagingContainsPaths · expected) with
  | some t => (.ok t, slot)
  | none =>
    match failure with
    | .unpack left message => (.error message, slot.spoil left)
    | _ => (.ok (unpacked p job), .fill signature (unpacked p job))

/-- The lower bound is never reached. -/
def resolveRootfsSizeMib (usedMib : Nat) : Text :=
  let size := usedMib + usedMib / 4 + 256
  decimal (if size < 64 then 64 else size)

def buildRootfsFromDir (job : Job) (t : Tree) : Image :=
  p.pack job.mkrootfs.content t
    (if job.rootfsSizeMib = [] then resolveRootfsSizeMib (p.du t) else job.rootfsSizeMib)

/-- What `main` does once it knows what to build: the image it boots, or an error. -/
def run (job : Job) (failure : Failure Image) (d : Disk Image) : Except Text Image × Disk Image :=
  let signature := rootfsBuildSignature job
  match d.image.lookup signature with
  | some image => (.ok image, d)
  | none =>
    match prepareRootfsStaging p job failure d.staging with
    | (.error message, staging) => (.error message, { d with staging })
    | (.ok t, staging) =>
      match installInit p.staging job t with
      | .error message => (.error message, { d with staging })
      | .ok t =>
        let staging := staging.spoil (some t)
        match failure with
        | .pack left message => (.error message, ⟨staging, d.image.spoil left⟩)
        | _ =>
          let image := buildRootfsFromDir p job t
          (.ok image, ⟨staging, .fill signature image⟩)

variable {p}

/-! ## Histories -/

theorem run_of_hit {job : Job} {failure : Failure Image} {d : Disk Image} {image : Image}
    (h : d.image.lookup (rootfsBuildSignature job) = some image) :
    run p job failure d = (.ok image, d) := by
  simp only [run, h]

/-- The image that was booted is the one that is kept. -/
theorem lookup_of_run_ok {job : Job} {d : Disk Image} {image : Image}
    (h : (run p job .none d).1 = .ok image) :
    (run p job .none d).2.image.lookup (rootfsBuildSignature job) = some image := by
  cases hlookup : d.image.lookup (rootfsBuildSignature job) with
  | some image' =>
    rw [run_of_hit hlookup] at h ⊢
    cases h
    exact hlookup
  | none =>
    revert h
    simp only [run, hlookup]
    split
    · exact nofun
    · split
      · exact nofun
      · intro h
        cases h
        exact Slot.lookup_fill _ _

/-- A run that would have built an image, if packing had not failed. -/
theorem run_of_pack_failure {job : Job} {d : Disk Image} {image : Image} {left : Option Image}
    {message : Text}
    (hmiss : d.image.lookup (rootfsBuildSignature job) = none)
    (h : (run p job .none d).1 = .ok image) :
    ∃ staging, run p job (.pack left message) d =
      (.error message, ⟨staging, d.image.spoil left⟩) := by
  have hprepare : prepareRootfsStaging p job (.pack left message) d.staging =
      prepareRootfsStaging p job .none d.staging := rfl
  revert h
  simp only [run, hmiss, hprepare]
  cases hstaging : prepareRootfsStaging p job .none d.staging with
  | mk outcome staging =>
    cases outcome with
    | error e => exact nofun
    | ok t =>
      dsimp only
      cases installInit p.staging job t with
      | error e => exact nofun
      | ok t' => exact fun _ => ⟨_, rfl⟩

/-- A build that fails keeps the manifest of the build before it.  When the inputs of that one
come back, whatever the failed build has left is booted. -/
theorem broken_image_booted {job other : Job} {d : Disk Image} {image image' : Image}
    (left : Image) (message : Text)
    (hsignature : rootfsBuildSignature other ≠ rootfsBuildSignature job)
    (hjob : (run p job .none d).1 = .ok image)
    (hother : (run p other .none (run p job .none d).2).1 = .ok image') :
    let failed := run p other (.pack (some left) message) (run p job .none d).2
    failed.1 = .error message ∧ (run p job .none failed.2).1 = .ok left := by
  have hkept := lookup_of_run_ok hjob
  have hmiss : (run p job .none d).2.image.lookup (rootfsBuildSignature other) = none := by
    have hstamp := (Slot.lookup_eq_some_iff.mp hkept).1
    rw [Slot.lookup, hstamp, if_neg fun heq => hsignature (Option.some.inj heq).symm]
  obtain ⟨staging, hfailed⟩ := @run_of_pack_failure _ _ _ _ _ (some left) message hmiss hother
  have hspoilt := @Slot.lookup_spoil _ _ _ _ _ _ left hkept
  intro failed
  have hfailed' : failed = _ := hfailed
  rw [hfailed']
  exact ⟨rfl, congrArg Prod.fst (run_of_hit hspoilt)⟩

/-! ## Two programs and a few files -/

/-- `wimunpack` writes one file with its own version, and the image is that file. -/
def versionPrograms : Programs (Option Bytes) where
  staging := ".rootfs-staging".toList
  unpack := fun wimunpack _ _ => ⟨Function.update (fun _ => none) autochkPath (some wimunpack),
    fun _ => false⟩
  du := fun _ => 1
  pack := fun _ t _ => t.file initPath

def sampleFile {α : Type} (path : Text) (len : Nat) (content : α) : File α where
  path := path
  len := len
  secs := 1
  nanos := 0
  content := content

def sampleJob (size : Text) (wimunpack : Bytes) : Job where
  profile := .windowsReal
  iso := sampleFile "win.iso".toList 3 [1, 2, 3]
  includeList := sampleFile "list.txt".toList 0 []
  rootfsSizeMib := size
  mkrootfs := sampleFile "mkrootfs".toList 1 [7]
  wimunpack := sampleFile "wimunpack".toList wimunpack.length wimunpack
  nativeInit := sampleFile "init.exe".toList 0 []
  child := sampleFile "child.exe".toList 0 []
  ntdll := sampleFile "ntdll.dll".toList 0 []

theorem broken_image_booted_half :
    let failed := run versionPrograms (sampleJob ['8'] [1]) (.pack (some (some [0])) [])
      (run versionPrograms (sampleJob ['9'] [1]) .none .empty).2
    (run versionPrograms (sampleJob ['9'] [1]) .none failed.2).1 = .ok (some [0]) :=
  (broken_image_booted (some [0]) [] (by decide) rfl rfl).2

end

end Tools
end Theos
