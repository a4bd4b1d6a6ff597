import Theos.Lzx.WindowBounds
import Theos.Wim.Tasks

/-!
# The resources of a WIM file

`read_resource` reads a resource that is stored as it is, or as a table of
offsets and compressed chunks.  The table has one entry less than there are
chunks: the last bound comes from the size of the resource.  A chunk whose
stored size is its own size is not decompressed.

All numbers come from the file.  `ResourceSafe` says which of them do not make
`read_resource` panic.
-/

namespace Theos
namespace Wim

open Base

/-! ## The code -/

/-- The errors of `read_resource`; an `io` error is that of `read_exact`. -/
inductive ResourceError where
  | io
  | binRead
  | wim (message : String)
  | decompression (error : Lzx.Error)
deriving DecidableEq, Repr

namespace ResEntry

def flags (res : ResEntry) : Nat :=
  res.sizeFlags / 2 ^ 56 % 2 ^ 8

def isCompressed (res : ResEntry) : Bool :=
  res.flags &&& 0x04 ≠ 0

def compressedSize (res : ResEntry) : Nat :=
  res.sizeFlags % 2 ^ 56

end ResEntry

/-- A vector for `len` items of `size` bytes, which may not take more than `isize::MAX` bytes. -/
def allocate (len size : Nat) : Rust ResourceError Unit :=
  if len * size < 2 ^ 63 then .ok () else Rust.panic

/-- The bytes at a position of the file. -/
def readExact (wim : Bytes) (position len : Nat) : Option Bytes :=
  if len ≤ wim.length - position then some (slice wim position len) else none

/-- The loop that reads the chunk table. -/
def readTable (wim : Bytes) (entrySize : Nat) : Nat → Nat → Rust ResourceError (List Nat)
  | 0, _ => .ok []
  | count + 1, position => do
    let entry ← Rust.okOr .binRead (readExact wim position entrySize)
    let rest ← readTable wim entrySize count (position + entrySize)
    .ok (ofLE entry :: rest)

def entrySize (originalSize : Nat) : Nat :=
  if 0x100000000 < originalSize then 8 else 4

/-- `(original_size + chunk_size - 1) / chunk_size`. -/
def countChunks (originalSize chunkSize : Nat) : Rust ResourceError Nat := do
  let sum ← Rust.orPanic (addU 64 originalSize chunkSize)
  let rounded ← Rust.orPanic (subU sum 1)
  if chunkSize = 0 then Rust.panic else .ok (rounded / chunkSize)

def outChunkSize (originalSize chunkSize numChunks i : Nat) : Nat :=
  if i = numChunks - 1 then
    if originalSize % chunkSize = 0 then chunkSize else originalSize % chunkSize
  else chunkSize

/-- The body of the loop over the chunks, from the two bounds of the chunk on. -/
def readChunk (wim : Bytes) (offset tableLen previous cumulative outSize : Nat) :
    Rust ResourceError Bytes := do
  let size ← Rust.orPanic (subU cumulative previous)
  allocate size 1
  let start ← Rust.orPanic (addU 64 offset tableLen)
  let position ← Rust.orPanic (addU 64 start previous)
  let data ← Rust.okOr .io (readExact wim position size)
  if size = outSize then .ok data
  else Rust.mapErr .decompression (Lzx.inflate data outSize)

/-- The numbers that do not change in the loop over the chunks. -/
structure Chunks where
  wim : Bytes
  offset : Nat
  originalSize : Nat
  chunkSize : Nat
  numChunks : Nat
  table : List Nat
  tableLen : Nat
  dataLen : Nat

def Chunks.cumulativeSize (c : Chunks) (i : Nat) : Option Nat :=
  if i = c.numChunks - 1 then some c.dataLen else c.table[i]?

def Chunks.outSize (c : Chunks) (i : Nat) : Nat :=
  outChunkSize c.originalSize c.chunkSize c.numChunks i

/-- The loop over the chunks, with the number of chunks that are left. -/
def readChunks (c : Chunks) : Nat → Nat → Nat → Bytes → Rust ResourceError Bytes
  | 0, _, _, output => .ok output
  | count + 1, i, previous, output => do
    let cumulative ← Rust.orPanic (c.cumulativeSize i)
    let chunk ← readChunk c.wim c.offset c.tableLen previous cumulative (c.outSize i)
    readChunks c count (i + 1) cumulative (output ++ chunk)

def readPlain (wim : Bytes) (res : ResEntry) : Rust ResourceError Bytes := do
  allocate res.originalSize 1
  Rust.okOr .io (readExact wim res.offset res.originalSize)

def readCompressed (wim : Bytes) (res : ResEntry) (chunkSize : Nat) :
    Rust ResourceError Bytes := do
  let numChunks ← countChunks res.originalSize chunkSize
  allocate (numChunks - 1) 8
  let table ← readTable wim (entrySize res.originalSize) (numChunks - 1) res.offset
  allocate res.originalSize 1
  let tableLen ← Rust.orPanic (mulU 64 (numChunks - 1) (entrySize res.originalSize))
  let dataLen ← Rust.okOr (.wim "Compressed resource size smaller than table")
    (subU res.compressedSize tableLen)
  readChunks ⟨wim, res.offset, res.originalSize, chunkSize, numChunks, table, tableLen, dataLen⟩
    numChunks 0 0 []

/-- Whether the bytes of the resource are stored as they are. -/
def ResEntry.isPlain (res : ResEntry) : Bool :=
  !res.isCompressed || res.compressedSize = res.originalSize

def readResource (wim : Bytes) (res : ResEntry) (chunkSize : Nat) : Rust ResourceError Bytes :=
  if res.isPlain then readPlain wim res else readCompressed wim res chunkSize

/-! ## Chunks -/

namespace Chunks

variable (c : Chunks)

/-- The end of a chunk in the data behind the table. -/
def bound (i : Nat) : Nat :=
  if i = c.numChunks - 1 then c.dataLen else c.table.getD i 0

/-- The start of a chunk in the data behind the table. -/
def start : Nat → Nat
  | 0 => 0
  | i + 1 => c.bound i

def read (i : Nat) : Rust ResourceError Bytes :=
  readChunk c.wim c.offset c.tableLen (c.start i) (c.bound i) (c.outSize i)

/-- The table has an entry for every chunk but the last. -/
def HasTable : Prop :=
  c.table.length = c.numChunks - 1

/-- The bounds of a chunk are in order, its position is a number of the machine, and its bytes
hold no block that ends past the window of the decoder. -/
def Safe (i : Nat) : Prop :=
  c.start i ≤ c.bound i ∧ c.bound i - c.start i < 2 ^ 63 ∧
    c.offset + c.tableLen + c.start i < 2 ^ 64 ∧
    ∀ data, readExact c.wim (c.offset + c.tableLen + c.start i) (c.bound i - c.start i) =
        some data →
      c.bound i - c.start i ≠ c.outSize i → ¬ Lzx.Overruns data (c.outSize i)

variable {c : Chunks} {i : Nat}

theorem cumulativeSize_eq (htable : c.HasTable) (hi : i < c.numChunks) :
    c.cumulativeSize i = some (c.bound i) := by
  rw [cumulativeSize, bound]
  split
  · rfl
  · have hlt : i < c.table.length := by
      rw [htable]
      omega
    rw [List.getElem?_eq_getElem hlt, List.getD_eq_getElem?_getD, List.getElem?_eq_getElem hlt,
      Option.getD_some]

end Chunks

theorem allocate_ne_panic
    (len size : Nat) :
    allocate len size ≠ Rust.panic ↔ len * size < 2 ^ 63 := by
  rw [allocate]
  split
  · exact iff_of_true (by simp [Rust.panic]) ‹_›
  · exact iff_of_false (by simp) ‹_›

theorem Chunks.read_ne_panic
    (c : Chunks) (i : Nat) :
    c.read i ≠ Rust.panic ↔ c.Safe i := by
  unfold Chunks.read readChunk Chunks.Safe
  simp only [Rust.bind_ne_panic, Rust.orPanic_ne_panic, Rust.orPanic_eq_ok_iff, allocate_ne_panic,
    subU_eq_some_iff, addU_eq_some_iff, Rust.okOr_eq_ok_iff]
  constructor
  · rintro ⟨⟨size, hle, rfl⟩, h⟩
    obtain ⟨halloc, h⟩ := h _ ⟨hle, rfl⟩
    obtain ⟨⟨a, ha, rfl⟩, h⟩ := h () (if_pos halloc)
    obtain ⟨⟨position, hposition, rfl⟩, h⟩ := h _ ⟨ha, rfl⟩
    obtain ⟨-, h⟩ := h _ ⟨hposition, rfl⟩
    refine ⟨hle, by omega, hposition, fun data hdata hne => ?_⟩
    have hchunk := h data hdata
    rwa [if_neg hne, Rust.mapErr_ne_panic, Ne, Lzx.inflate_eq_panic_iff] at hchunk
  · rintro ⟨hle, halloc, hposition, h⟩
    refine ⟨⟨_, hle, rfl⟩, ?_⟩
    rintro size ⟨-, rfl⟩
    refine ⟨by omega, fun _ _ => ⟨⟨_, by omega, rfl⟩, ?_⟩⟩
    rintro a ⟨-, rfl⟩
    refine ⟨⟨_, hposition, rfl⟩, ?_⟩
    rintro position ⟨-, rfl⟩
    refine ⟨Rust.okOr_ne_panic _ _, fun data hdata => ?_⟩
    split
    · simp [Rust.panic]
    · rw [Rust.mapErr_ne_panic, Ne, Lzx.inflate_eq_panic_iff]
      exact h data hdata ‹_›

/-- A chunk that is read has the size it should have. -/
theorem Chunks.length_of_read {c : Chunks} {i : Nat} {chunk : Bytes} (h : c.read i = .ok chunk) :
    chunk.length = c.outSize i := by
  unfold Chunks.read readChunk at h
  simp only [Rust.bind_eq_ok, Rust.orPanic_eq_ok_iff, subU_eq_some_iff, Rust.okOr_eq_ok_iff] at h
  obtain ⟨size, ⟨-, rfl⟩, -, -, -, -, position, -, data, hdata, hchunk⟩ := h
  split at hchunk
  · cases hchunk
    unfold readExact at hdata
    split at hdata
    · cases hdata
      simp only [slice, List.length_take, List.length_drop]
      omega
    · cases hdata
  · rw [Rust.mapErr_eq_ok_iff] at hchunk
    exact Lzx.length_of_inflate hchunk

section Loop

variable {c : Chunks} {count i : Nat} {output : Bytes}

theorem readChunks_succ (htable : c.HasTable) (hi : i < c.numChunks) :
    readChunks c (count + 1) i (c.start i) output =
      (c.read i >>= fun chunk =>
        readChunks c count (i + 1) (c.start (i + 1)) (output ++ chunk)) := by
  rw [readChunks, Chunks.cumulativeSize_eq htable hi]
  rfl

/-- The loop panics at the first chunk that is not safe, if it gets there. -/
theorem readChunks_ne_panic (htable : c.HasTable) (hcount : i + count = c.numChunks) :
    readChunks c count i (c.start i) output ≠ Rust.panic ↔
      ∀ j, i ≤ j → j < c.numChunks →
        (∀ k, i ≤ k → k < j → ∃ chunk, c.read k = .ok chunk) → c.Safe j := by
  induction count generalizing i output with
  | zero =>
    refine iff_of_true (by simp [readChunks, Rust.panic]) fun j hij hj => ?_
    omega
  | succ count ih =>
    rw [readChunks_succ htable (by omega), Rust.bind_ne_panic, c.read_ne_panic]
    constructor
    · rintro ⟨hsafe, hrest⟩ j hij hj hread
      rcases Nat.eq_or_lt_of_le hij with rfl | hlt
      · exact hsafe
      · obtain ⟨chunk, hchunk⟩ := hread i (le_refl i) hlt
        have hlater := (ih (by omega)).mp (hrest chunk hchunk)
        exact hlater j hlt hj fun k hk hkj => hread k (by omega) hkj
    · intro h
      refine ⟨h i (le_refl i) (by omega) fun k hk hki => by omega, fun chunk hchunk => ?_⟩
      refine (ih (by omega)).mpr fun j hij hj hread => h j (by omega) hj fun k hk hkj => ?_
      rcases Nat.eq_or_lt_of_le hk with rfl | hlt
      · exact ⟨chunk, hchunk⟩
      · exact hread k hlt hkj

theorem length_of_readChunks {result : Bytes} (htable : c.HasTable)
    (hcount : i + count = c.numChunks)
    (h : readChunks c count i (c.start i) output = .ok result) :
    result.length = output.length + if count = 0 then 0
      else (count - 1) * c.chunkSize + c.outSize (c.numChunks - 1) := by
  induction count generalizing i output with
  | zero =>
    cases h
    rfl
  | succ count ih =>
    rw [readChunks_succ htable (by omega), Rust.bind_eq_ok] at h
    obtain ⟨chunk, hchunk, hrest⟩ := h
    have hlength := Chunks.length_of_read hchunk
    rw [ih (by omega) hrest, List.length_append, hlength, if_neg (Nat.succ_ne_zero count)]
    rcases Nat.eq_zero_or_pos count with rfl | hpos
    · rw [if_pos rfl, show c.numChunks - 1 = i by omega]
      omega
    · have hfull : c.outSize i = c.chunkSize := if_neg (by omega)
      obtain ⟨m, rfl⟩ : ∃ m, count = m + 1 := ⟨count - 1, by omega⟩
      rw [if_neg (by omega), hfull, Nat.add_sub_cancel, Nat.add_sub_cancel, Nat.succ_mul]
      omega

end Loop

/-- The sizes of the chunks add up. -/
theorem sum_outChunkSize {originalSize chunkSize numChunks : Nat} (hsize : 0 < chunkSize)
    (hn : numChunks = (originalSize + chunkSize - 1) / chunkSize) :
    (if numChunks = 0 then 0
      else (numChunks - 1) * chunkSize +
        outChunkSize originalSize chunkSize numChunks (numChunks - 1)) = originalSize := by
  have hdiv := Nat.div_add_mod originalSize chunkSize
  have hmod := Nat.mod_lt originalSize hsize
  obtain ⟨q, hq⟩ : ∃ q, q = originalSize / chunkSize := ⟨_, rfl⟩
  rw [← hq] at hdiv
  rw [outChunkSize, if_pos rfl]
  by_cases hr : originalSize % chunkSize = 0
  · have hnq : numChunks = q := by
      rw [hn, show originalSize + chunkSize - 1 = (chunkSize - 1) + chunkSize * q by omega,
        Nat.add_mul_div_left _ _ hsize, Nat.div_eq_of_lt (by omega), Nat.zero_add]
    rw [hr, Nat.add_zero] at hdiv
    rw [if_pos hr, hnq]
    rcases q with - | q
    · rw [if_pos rfl, ← hdiv, Nat.mul_zero]
    · rw [if_neg (Nat.succ_ne_zero q), Nat.add_sub_cancel, ← hdiv, Nat.mul_succ, Nat.mul_comm]
  · have hnq : numChunks = q + 1 := by
      rw [hn, show originalSize + chunkSize - 1 =
        (originalSize % chunkSize - 1) + chunkSize * (q + 1) by rw [Nat.mul_succ]; omega,
        Nat.add_mul_div_left _ _ hsize, Nat.div_eq_of_lt (by omega), Nat.zero_add]
    rw [if_neg hr, hnq, if_neg (Nat.succ_ne_zero q), Nat.add_sub_cancel, Nat.mul_comm]
    exact hdiv

/-! ## The numbers that make it panic -/

theorem countChunks_ne_panic
    (originalSize chunkSize : Nat) :
    countChunks originalSize chunkSize ≠ Rust.panic ↔
      originalSize + chunkSize < 2 ^ 64 ∧ 0 < chunkSize := by
  unfold countChunks
  simp only [Rust.bind_ne_panic, Rust.orPanic_ne_panic, Rust.orPanic_eq_ok_iff,
    addU_eq_some_iff, subU_eq_some_iff]
  constructor
  · rintro ⟨⟨sum, hsum, rfl⟩, h⟩
    obtain ⟨⟨rounded, hrounded, rfl⟩, h⟩ := h _ ⟨hsum, rfl⟩
    refine ⟨hsum, Nat.pos_of_ne_zero fun hzero => h _ ⟨hrounded, rfl⟩ (if_pos hzero)⟩
  · rintro ⟨hsum, hpos⟩
    refine ⟨⟨_, hsum, rfl⟩, ?_⟩
    rintro sum ⟨-, rfl⟩
    refine ⟨⟨_, by omega, rfl⟩, fun rounded _ => ?_⟩
    rw [if_neg hpos.ne']
    simp [Rust.panic]

theorem countChunks_eq_ok_iff
    (originalSize chunkSize numChunks : Nat) :
    countChunks originalSize chunkSize = .ok numChunks ↔
      originalSize + chunkSize < 2 ^ 64 ∧ 0 < chunkSize ∧
        numChunks = (originalSize + chunkSize - 1) / chunkSize := by
  unfold countChunks
  simp only [Rust.bind_eq_ok, Rust.orPanic_eq_ok_iff, addU_eq_some_iff, subU_eq_some_iff]
  constructor
  · rintro ⟨_, ⟨hsum, rfl⟩, _, ⟨-, rfl⟩, h⟩
    split at h
    · cases h
    · cases h
      exact ⟨hsum, by omega, rfl⟩
  · rintro ⟨hsum, hpos, rfl⟩
    exact ⟨_, ⟨hsum, rfl⟩, _, ⟨by omega, rfl⟩, if_neg hpos.ne'⟩

theorem readTable_ne_panic
    (wim : Bytes) (entrySize count position : Nat) :
    readTable wim entrySize count position ≠ Rust.panic := by
  induction count generalizing position with
  | zero =>
    simp [readTable, Rust.panic]
  | succ count ih =>
    rw [readTable, Rust.bind_ne_panic]
    refine ⟨Rust.okOr_ne_panic _ _, fun entry _ => ?_⟩
    rw [Rust.bind_ne_panic]
    exact ⟨ih _, fun rest _ => by simp [Rust.panic]⟩

theorem length_of_readTable {wim : Bytes} {entrySize count position : Nat} {table : List Nat}
    (h : readTable wim entrySize count position = .ok table) :
    table.length = count := by
  induction count generalizing position table with
  | zero =>
    cases h
    rfl
  | succ count ih =>
    rw [readTable, Rust.bind_eq_ok] at h
    obtain ⟨entry, -, h⟩ := h
    rw [Rust.bind_eq_ok] at h
    obtain ⟨rest, hrest, h⟩ := h
    cases h
    rw [List.length_cons, ih hrest]

/-- The chunks of a compressed resource with a given table. -/
def ResEntry.chunks (res : ResEntry) (wim : Bytes) (chunkSize : Nat) (table : List Nat) :
    Chunks where
  wim := wim
  offset := res.offset
  originalSize := res.originalSize
  chunkSize := chunkSize
  numChunks := (res.originalSize + chunkSize - 1) / chunkSize
  table := table
  tableLen := ((res.originalSize + chunkSize - 1) / chunkSize - 1) * entrySize res.originalSize
  dataLen := res.compressedSize -
    ((res.originalSize + chunkSize - 1) / chunkSize - 1) * entrySize res.originalSize

/-- The numbers of a compressed resource do not make it panic.  The table and the chunks count
only if they are come to: the table can be read, and so can the chunks before. -/
def CompressedSafe (wim : Bytes) (res : ResEntry) (chunkSize : Nat) : Prop :=
  res.originalSize + chunkSize < 2 ^ 64 ∧ 0 < chunkSize ∧
    ((res.originalSize + chunkSize - 1) / chunkSize - 1) * 8 < 2 ^ 63 ∧
    ∀ table, readTable wim (entrySize res.originalSize)
        ((res.originalSize + chunkSize - 1) / chunkSize - 1) res.offset = .ok table →
      res.originalSize < 2 ^ 63 ∧
        ((res.chunks wim chunkSize table).tableLen ≤ res.compressedSize →
          ∀ i < (res.chunks wim chunkSize table).numChunks,
            (∀ k < i, ∃ chunk, (res.chunks wim chunkSize table).read k = .ok chunk) →
            (res.chunks wim chunkSize table).Safe i)

def ResourceSafe (wim : Bytes) (res : ResEntry) (chunkSize : Nat) : Prop :=
  if res.isPlain then res.originalSize < 2 ^ 63 else CompressedSafe wim res chunkSize

theorem readPlain_ne_panic
    (wim : Bytes) (res : ResEntry) :
    readPlain wim res ≠ Rust.panic ↔ res.originalSize < 2 ^ 63 := by
  rw [readPlain, Rust.bind_ne_panic, allocate_ne_panic, Nat.mul_one]
  exact and_iff_left fun _ _ => Rust.okOr_ne_panic _ _

theorem entrySize_le
    (originalSize : Nat) :
    entrySize originalSize ≤ 8 := by
  unfold entrySize
  split <;> decide

theorem readCompressed_ne_panic
    (wim : Bytes) (res : ResEntry) (chunkSize : Nat) :
    readCompressed wim res chunkSize ≠ Rust.panic ↔ CompressedSafe wim res chunkSize := by
  unfold readCompressed CompressedSafe
  simp only [Rust.bind_ne_panic, countChunks_ne_panic, countChunks_eq_ok_iff, allocate_ne_panic,
    Rust.orPanic_ne_panic, Rust.orPanic_eq_ok_iff, mulU_eq_some_iff, subU_eq_some_iff,
    Rust.okOr_eq_ok_iff]
  constructor
  · rintro ⟨⟨hsum, hpos⟩, h⟩
    obtain ⟨halloc, h⟩ := h _ ⟨hsum, hpos, rfl⟩
    obtain ⟨-, h⟩ := h () (if_pos halloc)
    refine ⟨hsum, hpos, halloc, fun table htable => ?_⟩
    obtain ⟨hsize, h⟩ := h table htable
    obtain ⟨⟨tableLen, hmul, rfl⟩, h⟩ := h () (if_pos hsize)
    obtain ⟨-, h⟩ := h _ ⟨hmul, rfl⟩
    refine ⟨by omega, fun hle i hi hread => ?_⟩
    have hloop := h _ ⟨hle, rfl⟩
    have hsafe := (readChunks_ne_panic (c := res.chunks wim chunkSize table)
      (length_of_readTable htable) (Nat.zero_add _)).mp hloop
    exact hsafe i (Nat.zero_le i) hi fun k _ hk => hread k hk
  · rintro ⟨hsum, hpos, halloc, h⟩
    refine ⟨⟨hsum, hpos⟩, ?_⟩
    rintro numChunks ⟨-, -, rfl⟩
    refine ⟨halloc, fun _ _ => ⟨readTable_ne_panic _ _ _ _, fun table htable => ?_⟩⟩
    obtain ⟨hsize, hsafe⟩ := h table htable
    have hmul : ((res.originalSize + chunkSize - 1) / chunkSize - 1) *
        entrySize res.originalSize < 2 ^ 64 := by
      have hle := Nat.mul_le_mul_left ((res.originalSize + chunkSize - 1) / chunkSize - 1)
        (entrySize_le res.originalSize)
      omega
    refine ⟨by omega, fun _ _ => ⟨⟨_, hmul, rfl⟩, ?_⟩⟩
    rintro tableLen ⟨-, rfl⟩
    refine ⟨Rust.okOr_ne_panic _ _, ?_⟩
    rintro dataLen ⟨hle, rfl⟩
    exact (readChunks_ne_panic (c := res.chunks wim chunkSize table)
      (length_of_readTable htable) (Nat.zero_add _)).mpr
      fun j _ hj hread => hsafe hle j hj fun k hk => hread k (Nat.zero_le k) hk

theorem length_of_readResource {wim : Bytes} {res : ResEntry} {chunkSize : Nat} {output : Bytes}
    (h : readResource wim res chunkSize = .ok output) :
    output.length = res.originalSize := by
  unfold readResource at h
  split at h
  · rw [readPlain, Rust.bind_eq_ok] at h
    obtain ⟨-, -, h⟩ := h
    rw [Rust.okOr_eq_ok_iff, readExact] at h
    split at h
    · cases h
      simp only [slice, List.length_take, List.length_drop]
      omega
    · cases h
  · unfold readCompressed at h
    simp only [Rust.bind_eq_ok, countChunks_eq_ok_iff, Rust.orPanic_eq_ok_iff, mulU_eq_some_iff,
      subU_eq_some_iff, Rust.okOr_eq_ok_iff] at h
    obtain ⟨_, ⟨-, hpos, rfl⟩, -, -, table, htable, -, -, _, ⟨-, rfl⟩, _, ⟨-, rfl⟩, hloop⟩ := h
    have hlength := length_of_readChunks (c := res.chunks wim chunkSize table)
      (length_of_readTable htable) (Nat.zero_add _) hloop
    rw [hlength, List.length_nil, Nat.zero_add]
    exact sum_outChunkSize hpos rfl

/-- `read_resource` returns, with the right number of bytes if it succeeds, exactly for the
numbers that are safe. -/
theorem readResource_returns_iff
    (wim : Bytes) (res : ResEntry) (chunkSize : Nat) :
    (readResource wim res chunkSize ≠ Rust.panic ∧
      ∀ output, readResource wim res chunkSize = .ok output →
        output.length = res.originalSize) ↔
      ResourceSafe wim res chunkSize := by
  rw [and_iff_left fun output h => length_of_readResource h, readResource, ResourceSafe]
  split
  · exact readPlain_ne_panic wim res
  · exact readCompressed_ne_panic wim res chunkSize

/-- A chunk size of zero divides by zero, and offsets that fall underflow. -/
theorem zero_chunk_size_panics :
    readResource [] ⟨4 * 2 ^ 56, 0, 1⟩ 0 = Rust.panic ∧
      readResource [1, 0, 0, 0, 0, 0, 0, 0, 65] ⟨4 * 2 ^ 56 + 9, 0, 3⟩ 1 = Rust.panic := by
  constructor <;> decide +kernel

end Wim
end Theos
