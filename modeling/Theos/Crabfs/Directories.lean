import Theos.Crabfs.Reader

/-!
# Listing a directory and looking up a name

`list_dir_entries` and `find_dir_entry` scan the two formats of a directory in four loops of
their own.  The loop that looks for a name takes the same steps as the one that lists the
names, but it compares the stored bytes, while the names in the list have gone through
`from_utf8_lossy`.  If that changes nothing, the lookup is a search in the list.
-/

namespace Theos
namespace Crabfs

open Base Rust

theorem bytesEqLoop_iff {left right : Bytes}
    (h : left.length = right.length) :
    bytesEqLoop left right = true ↔ left = right := by
  induction left generalizing right with
  | nil =>
    obtain rfl := List.length_eq_zero_iff.mp h.symm
    simp [bytesEqLoop]
  | cons a left ih =>
    cases right with
    | nil =>
      simp at h
    | cons b right =>
      rw [bytesEqLoop]
      split
      next hne =>
        simp [hne]
      next heq =>
        rw [ih (Nat.succ.inj h), not_not.mp heq, List.cons.injEq, and_iff_right rfl]

theorem bytesEq_iff
    {left right : Bytes} :
    bytesEq left right = true ↔ left = right := by
  rw [bytesEq]
  split
  next hne =>
    simp only [Bool.false_eq_true, false_iff]
    rintro rfl
    exact hne rfl
  next heq =>
    exact bytesEqLoop_iff (not_not.mp heq)

/-! ## The first entry of a name -/

/-- The inode number and the type of the first entry with a name. -/
def lookup (entries : List DirEntry) (target : Bytes) : Option (UInt64 × UInt8) :=
  (entries.find? (·.name == target)).map fun entry => (entry.ino, entry.ftype)

theorem lookup_cons
    (entry : DirEntry) (entries : List DirEntry) (target : Bytes) :
    lookup (entry :: entries) target =
      if entry.name = target then some (entry.ino, entry.ftype) else lookup entries target := by
  rw [lookup, lookup, List.find?_cons]
  by_cases h : entry.name = target
  · rw [beq_iff_eq.mpr h, if_pos h]
    rfl
  · rw [beq_eq_false_iff_ne.mpr h, if_neg h]

theorem lookup_dotEntries_append
    (self parent : UInt64) (entries : List DirEntry) (target : Bytes) :
    lookup (dotEntries self parent ++ entries) target =
      if target = dot then some (self, 2)
      else if target = dotDot then some (parent, 2)
      else lookup entries target := by
  simp only [dotEntries, List.cons_append, List.nil_append, lookup_cons, @eq_comm _ dot,
    @eq_comm _ dotDot]

/-! ## The names as they are stored -/

/-- The names of `n` entries in an inode. -/
def sfNames (data : Bytes) (i8count : UInt8) (hasFtype : Bool) : (n pos : Nat) → List Bytes
  | 0, _ => []
  | n + 1, pos =>
    match DirSfEntry.parse (data.drop pos) i8count hasFtype with
    | .ok (entry, consumed) =>
      slice data (pos + 3) entry.namelen.toNat ::
        sfNames data i8count hasFtype n (pos + consumed)
    | .error _ => []

/-- The names of `n` entries in an extent. -/
def extentNames (data : Bytes) : (n pos : Nat) → List Bytes
  | 0, _ => []
  | n + 1, pos =>
    let nameLen := (u16At data (pos + 9)).toNat
    slice data (pos + 11) nameLen :: extentNames data n (pos + 11 + nameLen)

/-- The names that a directory stores. -/
def storedNames (dev : Device) (sb : Superblock) (ino : UInt64) : List Bytes :=
  match readDirInode dev sb ino with
  | .error _ => []
  | .ok (inode, scratch) =>
    match inode.format with
    | .local =>
      let data := scratch.drop 176
      match DirSfHeader.parse data with
      | .error _ => []
      | .ok (hdr, pos) =>
        sfNames data hdr.i8count (sb.hasIncompatFeature xfsSbFeatIncompatFtype)
          hdr.count.toNat pos
    | .extents =>
      match readExtentPayload dev sb inode scratch inode.fileSize with
      | .error _ => []
      | .ok data =>
        if isExtentDir data then extentNames data (u32At data 8).toNat 20 else []
    | _ => []

/-! ## The loops -/

/-- The name of an entry that is parsed lies in the buffer. -/
theorem DirSfEntry.parse_eq_ok
    {bytes : Bytes} {i8count : UInt8} {hasFtype : Bool} {entry : DirSfEntry} {consumed : Nat}
    (h : DirSfEntry.parse bytes i8count hasFtype = .ok (entry, consumed)) :
    3 + entry.namelen.toNat ≤ bytes.length ∧
      entry.name = Utf8.lossy (slice bytes 3 entry.namelen.toNat) := by
  simp only [parse, bind_eq_ok, orPanic_eq_ok_iff] at h
  obtain ⟨_, -, namelen, -, offset, -, _, -, name, hname, ftype, -, inumber, -, h⟩ := h
  cases h
  obtain ⟨hle, rfl⟩ := sliceAt_eq_some hname
  exact ⟨hle, rfl⟩

theorem slice_drop
    (data : Bytes) (pos off len : Nat) :
    slice (data.drop pos) off len = slice data (pos + off) len := by
  rw [slice, slice, List.drop_drop]

theorem findSfEntry_of_list
    {data : Bytes} {i8count : UInt8} {hasFtype : Bool} {n pos : Nat} {entries : List DirEntry}
    (target : Bytes) (hlist : listSfEntries data i8count hasFtype n pos = .ok entries)
    (hvalid : ∀ name ∈ sfNames data i8count hasFtype n pos, Utf8.Valid name) :
    findSfEntry data i8count hasFtype target n pos = .ok (lookup entries target) := by
  induction n generalizing pos entries with
  | zero =>
    cases hlist
    rfl
  | succ n ih =>
    simp only [listSfEntries, bind_eq_ok, orPanic_eq_ok_iff, parsed_eq_ok_iff] at hlist
    obtain ⟨bytes, hbytes, ⟨entry, consumed⟩, hparse, rest, hrest, hentries⟩ := hlist
    cases hentries
    obtain ⟨hpos, rfl⟩ := dropFrom_eq_some hbytes
    rw [sfNames, hparse] at hvalid
    obtain ⟨hname, hnames⟩ := List.forall_mem_cons.mp hvalid
    obtain ⟨hle, hentry⟩ := DirSfEntry.parse_eq_ok hparse
    rw [List.length_drop] at hle
    rw [slice_drop, Utf8.lossy_of_valid hname] at hentry
    rw [findSfEntry, hbytes, orPanic_some, ok_bind, hparse]
    simp only [parsed, mapErr_ok, ok_bind]
    rw [sliceAt_of_le (by omega), orPanic_some, ok_bind, ← hentry, lookup_cons]
    simp only [bytesEq_iff]
    split
    next =>
      rfl
    next =>
      exact ih hrest hnames

theorem findExtentEntry_of_list {data : Bytes} {n pos : Nat} {entries : List DirEntry}
    (target : Bytes) (hlist : listExtentEntries data n pos = .ok entries)
    (hvalid : ∀ name ∈ extentNames data n pos, Utf8.Valid name) :
    findExtentEntry data target n pos = .ok (lookup entries target) := by
  induction n generalizing pos entries with
  | zero =>
    cases hlist
    rfl
  | succ n ih =>
    simp only [listExtentEntries, bind_eq_ok, orPanic_eq_ok_iff, parsed_eq_ok_iff] at hlist
    obtain ⟨_, hlen, ino, hino, ftype, hftype, nameLen, hnameLen, _, hlen', name, hname, rest, hrest,
      hentries⟩ := hlist
    cases hentries
    obtain ⟨hle, rfl⟩ := sliceAt_eq_some hname
    have hstored : u16At data (pos + 9) = nameLen := by
      have hle' := requireLen_eq_ok_iff.mp hlen
      rw [beU16_of_le (by omega)] at hnameLen
      exact Option.some.inj hnameLen
    rw [extentNames, hstored] at hvalid
    obtain ⟨hvalidName, hnames⟩ := List.forall_mem_cons.mp hvalid
    rw [findExtentEntry, hlen, hino, hftype, hnameLen]
    simp only [parsed, mapErr_ok, orPanic_some, ok_bind]
    rw [hlen', mapErr_ok, ok_bind, hname, orPanic_some, ok_bind, lookup_cons,
      Utf8.lossy_of_valid hvalidName]
    simp only [bytesEq_iff]
    split
    next =>
      rfl
    next =>
      exact ih hrest hnames

theorem findExtentDirEntry_of_list {data : Bytes} {ino : UInt64} {entries : List DirEntry}
    (target : Bytes) (hlist : parseExtentDirEntries data ino = .ok entries)
    (hvalid : ∀ name ∈ extentNames data (u32At data 8).toNat 20, Utf8.Valid name) :
    findExtentDirEntry data ino target = .ok (lookup entries target) := by
  rw [parseExtentDirEntries] at hlist
  rw [findExtentDirEntry]
  split at hlist
  next =>
    cases hlist
  next hlength =>
    rw [if_neg hlength, beU32_of_le (by omega), beU64_of_le (by omega)]
    rw [beU32_of_le (by omega), beU64_of_le (by omega)] at hlist
    simp only [orPanic_some, ok_bind] at hlist ⊢
    obtain ⟨rest, hrest, hentries⟩ := bind_eq_ok.mp hlist
    cases hentries
    rw [lookup_dotEntries_append]
    split
    next =>
      rfl
    next =>
      split
      next =>
        rfl
      next =>
        exact findExtentEntry_of_list target hrest hvalid

/-- A directory that is listed with itself and its parent first. -/
theorem findDirEntry_of_dotEntries {dev : Device} {sb : Superblock} {dirIno parent : UInt64}
    {list : List DirEntry} (target : Bytes)
    (hlist : listDirEntries dev sb dirIno = .ok (dotEntries dirIno parent ++ list))
    (hvalid : ∀ name ∈ storedNames dev sb dirIno, Utf8.Valid name) :
    findDirEntry dev sb dirIno target = .ok (lookup (dotEntries dirIno parent ++ list) target) := by
  rw [listDirEntries, bind_eq_ok] at hlist
  obtain ⟨⟨inode, scratch⟩, hinode, hlist⟩ := hlist
  rw [storedNames, hinode] at hvalid
  rw [findDirEntry, hinode, ok_bind]
  dsimp only at hlist hvalid ⊢
  cases hformat : inode.format with
  | «local» =>
    simp only [hformat] at hlist hvalid ⊢
    simp only [bind_eq_ok, orPanic_eq_ok_iff, parsed_eq_ok_iff] at hlist
    obtain ⟨data, hdata, ⟨hdr, pos⟩, hhdr, rest, hrest, hentries⟩ := hlist
    obtain ⟨-, rfl⟩ := dropFrom_eq_some hdata
    rw [hhdr] at hvalid
    rw [← Except.ok.inj hentries, hdata, orPanic_some, ok_bind, hhdr, parsed, mapErr_ok, ok_bind,
      lookup_dotEntries_append]
    dsimp only
    split
    next =>
      rfl
    next =>
      split
      next =>
        rfl
      next =>
        exact findSfEntry_of_list target hrest hvalid
  | extents =>
    simp only [hformat] at hlist hvalid ⊢
    obtain ⟨data, hdata, hlist⟩ := bind_eq_ok.mp hlist
    rw [hdata] at hvalid
    rw [hdata, ok_bind]
    dsimp only at hvalid
    split at hlist
    next hdir =>
      rw [if_pos hdir] at hvalid ⊢
      exact findExtentDirEntry_of_list target hlist hvalid
    next hdir =>
      have hdots := lookup_dotEntries_append dirIno dirIno [] target
      rw [List.append_nil] at hdots
      rw [if_neg hdir, ← Except.ok.inj hlist, hdots]
      by_cases hdot : target = dot
      · simp [hdot]
      · by_cases hdotDot : target = dotDot
        · simp [hdotDot]
        · simp [hdot, hdotDot, lookup]
  | dev | btree | uuid =>
    simp only [hformat] at hlist
    cases hlist

/-- A directory is listed with itself and its parent first, or it has no entries at all. -/
theorem listDirEntries_cases {dev : Device} {sb : Superblock} {dirIno : UInt64}
    {entries : List DirEntry} (hlist : listDirEntries dev sb dirIno = .ok entries) :
    (∃ parent list, entries = dotEntries dirIno parent ++ list) ∨
      entries = [] ∧ ∀ target, findDirEntry dev sb dirIno target = .ok none := by
  rw [listDirEntries, bind_eq_ok] at hlist
  obtain ⟨⟨inode, scratch⟩, hinode, hlist⟩ := hlist
  dsimp only at hlist
  cases hformat : inode.format with
  | «local» =>
    simp only [hformat] at hlist
    simp only [bind_eq_ok, orPanic_eq_ok_iff, parsed_eq_ok_iff] at hlist
    obtain ⟨data, -, ⟨hdr, pos⟩, -, rest, -, hentries⟩ := hlist
    exact .inl ⟨hdr.parent, rest, (Except.ok.inj hentries).symm⟩
  | extents =>
    simp only [hformat] at hlist
    obtain ⟨data, -, hlist⟩ := bind_eq_ok.mp hlist
    split at hlist
    next =>
      rw [parseExtentDirEntries] at hlist
      split at hlist
      next =>
        cases hlist
      next =>
        simp only [bind_eq_ok] at hlist
        obtain ⟨count, -, parent, -, rest, -, hentries⟩ := hlist
        exact .inl ⟨parent, rest, (Except.ok.inj hentries).symm⟩
    next =>
      exact .inl ⟨dirIno, [], (Except.ok.inj hlist).symm⟩
  | dev | btree | uuid =>
    simp only [hformat] at hlist
    refine .inr ⟨(Except.ok.inj hlist).symm, fun target => ?_⟩
    rw [findDirEntry, hinode, ok_bind]
    simp only [hformat]

/-- **A lookup is a search in the list.**  Whatever the device holds: if a directory can be
listed and the names that it stores are valid UTF-8, `find_dir_entry` returns the first entry
of the list that has the name, or nothing if there is none. -/
theorem find_is_lookup_in_list (dev : Device) (sb : Superblock) (dirIno : UInt64) (target : Bytes)
    (entries : List DirEntry) (hlist : listDirEntries dev sb dirIno = .ok entries)
    (hvalid : ∀ name ∈ storedNames dev sb dirIno, Utf8.Valid name) :
    findDirEntry dev sb dirIno target = .ok (lookup entries target) := by
  rcases listDirEntries_cases hlist with ⟨parent, list, rfl⟩ | ⟨rfl, hnone⟩
  · exact findDirEntry_of_dotEntries target hlist hvalid
  · rw [hnone]
    rfl

/-- The directory of inode 0 on a device that starts with its record: an entry `a` in the
inode itself. -/
theorem find_is_lookup_in_list_of_one_entry :
    ∃ dev sb, listDirEntries dev sb 0 = .ok [⟨0, dot, 2⟩, ⟨5, dotDot, 2⟩, ⟨9, [0x61], 0⟩] ∧
      findDirEntry dev sb 0 [0x61] = .ok (some (9, 0)) ∧
      findDirEntry dev sb 0 [0x62] = .ok none := by
  let record : Bytes :=
    [0x49, 0x4e, 0x41, 0xed, 3, 1] ++ List.replicate 170 0 ++
      [1, 0, 0, 0, 0, 5, 1, 0, 0, 0x61, 0, 0, 0, 9]
  let dev : Device := Device.ofImage record
  let sb : Superblock :=
    { (default : Superblock) with blockSize := 512, agCount := 1, inodeSize := 190 }
  have hlist : listDirEntries dev sb 0 =
      .ok [⟨0, dot, 2⟩, ⟨5, dotDot, 2⟩, ⟨9, [0x61], 0⟩] := by
    decide +kernel
  have hnames : storedNames dev sb 0 = [[0x61]] := by
    decide +kernel
  have hvalid : ∀ name ∈ storedNames dev sb 0, Utf8.Valid name := by
    rw [hnames]
    intro name hname
    rw [List.mem_singleton.mp hname]
    exact Utf8.valid_of_ascii (by decide +kernel)
  exact ⟨dev, sb, hlist, find_is_lookup_in_list dev sb 0 [0x61] _ hlist hvalid,
    find_is_lookup_in_list dev sb 0 [0x62] _ hlist hvalid⟩

end Crabfs
end Theos
