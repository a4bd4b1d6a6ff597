import Theos.Wim.Resources

/-!
# Compressed resources as they are written

`layout` is the inverse of `read_resource`: the table of the ends of all chunks
but the last, and the chunks, each as it is or compressed.  Whatever is chosen
for each chunk, the resource is read back.
-/

namespace Theos
namespace Wim

open Base

/-- The end of the stored chunk `i` in the data. -/
def endOf (stored : List Bytes) (i : Nat) : Nat :=
  (stored.take (i + 1)).flatten.length

/-- The entries of the table. -/
def ends (stored : List Bytes) : List Nat :=
  (List.range (stored.length - 1)).map (endOf stored)

/-- A resource of the given stored chunks. -/
def layout (width : Nat) (stored : List Bytes) : Bytes :=
  ((ends stored).map (toLE width)).flatten ++ stored.flatten

/-- What may be stored for a chunk: its bytes, or others that are decompressed to them. -/
def Stores (chunk bytes : Bytes) : Prop :=
  bytes = chunk ∨
    bytes.length ≠ chunk.length ∧ Lzx.inflate bytes chunk.length = .ok chunk

/-- The chunks of `data`, one by one, are stored as `stored`. -/
structure StoredAs (data : Bytes) (chunkSize : Nat) (stored : List Bytes) : Prop where
  count : stored.length = (data.length + chunkSize - 1) / chunkSize
  chunk : ∀ i bytes, stored[i]? = some bytes → Stores (slice data (i * chunkSize) chunkSize) bytes

/-- The resource is in the file at the place, and with the sizes, of its entry. -/
structure Placed (wim : Bytes) (res : ResEntry) (data : Bytes) (stored : List Bytes) : Prop where
  file : ∃ front back, wim = front ++ layout (entrySize data.length) stored ++ back ∧
    front.length = res.offset
  compressed : res.isCompressed = true
  original : res.originalSize = data.length
  size : res.compressedSize = (layout (entrySize data.length) stored).length
  /-- Every entry fits. -/
  fits : ∀ n ∈ ends stored, n < 256 ^ entrySize data.length
  /-- The file has positions of 64 bits, and the data fits into memory. -/
  file_lt : wim.length < 2 ^ 64
  data_lt : data.length < 2 ^ 63

theorem length_ends
    (stored : List Bytes) :
    (ends stored).length = stored.length - 1 := by
  rw [ends, List.length_map, List.length_range]

theorem length_flatten_toLE
    (width : Nat) (ns : List Nat) :
    ((ns.map (toLE width)).flatten).length = ns.length * width := by
  induction ns with
  | nil =>
    rw [List.map_nil, List.flatten_nil, List.length_nil, List.length_nil, Nat.zero_mul]
  | cons n ns ih =>
    rw [List.map_cons, List.flatten_cons, List.length_append, length_toLE, ih, List.length_cons,
      Nat.succ_mul, Nat.add_comm]

theorem readExact_append {front bytes back : Bytes} {position len : Nat}
    (hposition : front.length = position) (hlen : bytes.length = len) :
    readExact (front ++ bytes ++ back) position len = some bytes := by
  subst hposition hlen
  rw [readExact, if_pos, List.append_assoc, slice, List.drop_left, List.take_left]
  simp only [List.length_append]
  omega

/-- A chunk whose bytes are in the file. -/
theorem readChunk_of_bytes {wim bytes : Bytes} {offset tableLen previous : Nat}
    (hread : readExact wim (offset + tableLen + previous) bytes.length = some bytes)
    (hsmall : bytes.length < 2 ^ 63) (hposition : offset + tableLen + previous < 2 ^ 64)
    (outSize : Nat) :
    readChunk wim offset tableLen previous (previous + bytes.length) outSize =
      if bytes.length = outSize then .ok bytes
      else Rust.mapErr .decompression (Lzx.inflate bytes outSize) := by
  rw [readChunk, subU, if_pos (Nat.le_add_right _ _), Nat.add_sub_cancel_left, Rust.orPanic_some,
    Rust.ok_bind, allocate, if_pos (by omega), Rust.ok_bind, addU, if_pos (by omega),
    Rust.orPanic_some, Rust.ok_bind, addU, if_pos hposition, Rust.orPanic_some, Rust.ok_bind,
    hread, Rust.okOr_some, Rust.ok_bind]

/-- The table is read back. -/
theorem readTable_toLE {front back : Bytes} {width position : Nat} (ns : List Nat)
    (hfits : ∀ n ∈ ns, n < 256 ^ width) (hposition : front.length = position) :
    readTable (front ++ (ns.map (toLE width)).flatten ++ back) width ns.length position =
      .ok ns := by
  induction ns generalizing front position with
  | nil =>
    rfl
  | cons n ns ih =>
    rw [List.forall_mem_cons] at hfits
    have hentry : readExact (front ++ ((n :: ns).map (toLE width)).flatten ++ back) position
        width = some (toLE width n) := by
      rw [List.map_cons, List.flatten_cons, ← List.append_assoc, List.append_assoc _ _ back]
      exact readExact_append hposition (length_toLE width n)
    have hrest : readTable (front ++ ((n :: ns).map (toLE width)).flatten ++ back) width
        ns.length (position + width) = .ok ns := by
      rw [List.map_cons, List.flatten_cons, ← List.append_assoc]
      refine ih hfits.2 ?_
      rw [List.length_append, length_toLE, hposition]
    rw [List.length_cons, readTable, hentry, Rust.okOr_some, Rust.ok_bind, hrest, Rust.ok_bind,
      ofLE_toLE, Nat.mod_eq_of_lt hfits.1]

section

variable {wim data : Bytes} {res : ResEntry} {chunkSize : Nat} {stored : List Bytes}

theorem StoredAs.numChunks (hstored : StoredAs data chunkSize stored)
    (hplaced : Placed wim res data stored) (table : List Nat) :
    (res.chunks wim chunkSize table).numChunks = stored.length := by
  rw [hstored.count, ← hplaced.original]
  rfl

/-- The bounds in the table are the ends of the stored chunks. -/
theorem bound_eq (hstored : StoredAs data chunkSize stored) (hplaced : Placed wim res data stored)
    {i : Nat} (hi : i < stored.length) :
    (res.chunks wim chunkSize (ends stored)).bound i = endOf stored i := by
  have hn := hstored.numChunks hplaced (ends stored)
  rw [Chunks.bound, hn]
  split
  · have hdata : (res.chunks wim chunkSize (ends stored)).dataLen =
        res.compressedSize - (stored.length - 1) * entrySize res.originalSize := by
      rw [← hn]
      rfl
    rw [hdata, hplaced.size, layout, List.length_append, length_flatten_toLE, length_ends,
      hplaced.original, Nat.add_sub_cancel_left, endOf, List.take_of_length_le (by omega)]
  · have hlt : i < (ends stored).length := by
      rw [length_ends]
      omega
    change (ends stored).getD i 0 = endOf stored i
    rw [List.getD_eq_getElem?_getD, List.getElem?_eq_getElem hlt, Option.getD_some]
    simp only [ends, List.getElem_map, List.getElem_range]

theorem start_eq (hstored : StoredAs data chunkSize stored) (hplaced : Placed wim res data stored)
    {i : Nat} (hi : i < stored.length) :
    (res.chunks wim chunkSize (ends stored)).start i = (stored.take i).flatten.length := by
  cases i with
  | zero =>
    rfl
  | succ i =>
    exact bound_eq hstored hplaced (by omega)

/-- The size of a chunk of the data. -/
theorem length_chunk (hsize : 0 < chunkSize) (hstored : StoredAs data chunkSize stored)
    (hplaced : Placed wim res data stored) {i : Nat} (hi : i < stored.length) :
    (slice data (i * chunkSize) chunkSize).length =
      (res.chunks wim chunkSize (ends stored)).outSize i := by
  have hout : (res.chunks wim chunkSize (ends stored)).outSize i =
      outChunkSize data.length chunkSize stored.length i := by
    rw [Chunks.outSize, hstored.numChunks hplaced, ← hplaced.original]
    rfl
  have hsum := sum_outChunkSize hsize hstored.count
  rw [if_neg (by omega)] at hsum
  have hlast := Nat.mod_lt data.length hsize
  rw [hout, slice, List.length_take, List.length_drop]
  by_cases heq : i = stored.length - 1
  · have hle : outChunkSize data.length chunkSize stored.length i ≤ chunkSize := by
      rw [outChunkSize, if_pos heq]
      split <;> omega
    rw [← heq] at hsum
    omega
  · have hfull : outChunkSize data.length chunkSize stored.length i = chunkSize := if_neg heq
    have hmul : (i + 1) * chunkSize ≤ (stored.length - 1) * chunkSize :=
      Nat.mul_le_mul_right _ (by omega)
    rw [Nat.succ_mul] at hmul
    omega

/-- Every chunk is read back. -/
theorem read_eq (hsize : 0 < chunkSize) (hstored : StoredAs data chunkSize stored)
    (hplaced : Placed wim res data stored) {i : Nat} (hi : i < stored.length) :
    (res.chunks wim chunkSize (ends stored)).read i =
      .ok (slice data (i * chunkSize) chunkSize) := by
  have hget := List.getElem?_eq_getElem hi
  obtain ⟨bytes, hbytes⟩ : ∃ bytes, stored[i]? = some bytes := ⟨_, hget⟩
  obtain ⟨front, back, hwim, hfront⟩ := hplaced.file
  have htableLen : (res.chunks wim chunkSize (ends stored)).tableLen =
      ((ends stored).map (toLE (entrySize data.length))).flatten.length := by
    rw [length_flatten_toLE, length_ends, hstored.count, ← hplaced.original]
    rfl
  have hend : endOf stored i = (stored.take i).flatten.length + bytes.length := by
    rw [endOf, List.take_add_one, hbytes, Option.toList_some, List.flatten_append,
      List.length_append, List.flatten_singleton]
  -- the file, cut around the stored bytes of the chunk
  have hcut : wim = (front ++ ((ends stored).map (toLE (entrySize data.length))).flatten ++
      (stored.take i).flatten) ++ bytes ++ ((stored.drop (i + 1)).flatten ++ back) := by
    have hflatten : stored.flatten =
        (stored.take i).flatten ++ bytes ++ (stored.drop (i + 1)).flatten := by
      conv_lhs => rw [← List.take_append_drop (i + 1) stored, List.flatten_append,
        List.take_add_one, hbytes, Option.toList_some, List.flatten_append,
        List.flatten_singleton]
    rw [hwim, layout, hflatten]
    simp only [List.append_assoc]
  have hlt := hplaced.file_lt
  have hfit : res.offset + (res.chunks wim chunkSize (ends stored)).tableLen +
      (stored.take i).flatten.length + bytes.length ≤ wim.length := by
    have hlength := congrArg List.length hcut
    simp only [List.length_append] at hlength
    omega
  have hsmall : bytes.length < 2 ^ 63 := by
    have hle : bytes.length ≤ (layout (entrySize data.length) stored).length := by
      rw [layout, List.length_append]
      have := List.Sublist.length_le (List.sublist_flatten_of_mem (List.mem_of_getElem? hbytes))
      omega
    have hmod : res.compressedSize < 2 ^ 56 := Nat.mod_lt _ (Nat.two_pow_pos 56)
    rw [hplaced.size] at hmod
    omega
  have hread : readExact wim (res.offset + (res.chunks wim chunkSize (ends stored)).tableLen +
      (stored.take i).flatten.length) bytes.length = some bytes := by
    rw [htableLen, hcut]
    refine readExact_append ?_ rfl
    rw [List.length_append, List.length_append, hfront]
  rw [Chunks.read, bound_eq hstored hplaced hi, start_eq hstored hplaced hi,
    ← length_chunk hsize hstored hplaced hi, hend]
  refine (readChunk_of_bytes hread hsmall (by omega) _).trans ?_
  rcases hstored.chunk i bytes hbytes with hraw | ⟨hne, hinflate⟩
  · rw [if_pos (congrArg List.length hraw), hraw]
  · rw [if_neg hne, hinflate, Rust.mapErr_ok]

theorem readChunks_eq (hsize : 0 < chunkSize) (hstored : StoredAs data chunkSize stored)
    (hplaced : Placed wim res data stored) {count i : Nat} (hcount : i + count = stored.length) :
    readChunks (res.chunks wim chunkSize (ends stored)) count i
      ((res.chunks wim chunkSize (ends stored)).start i) (data.take (i * chunkSize)) =
        .ok data := by
  have hn := hstored.numChunks hplaced (ends stored)
  have htable : (res.chunks wim chunkSize (ends stored)).HasTable := by
    rw [Chunks.HasTable, hn]
    exact length_ends stored
  induction count generalizing i with
  | zero =>
    have hsum := sum_outChunkSize hsize hstored.count
    have hle : data.length ≤ i * chunkSize := by
      have hout : outChunkSize data.length chunkSize stored.length (stored.length - 1) ≤
          chunkSize := by
        have := Nat.mod_lt data.length hsize
        rw [outChunkSize]
        split <;> [split; skip] <;> omega
      rw [show i = stored.length by omega]
      split at hsum
      · omega
      · obtain ⟨m, hm⟩ : ∃ m, stored.length = m + 1 := ⟨stored.length - 1, by omega⟩
        rw [hm, Nat.add_sub_cancel] at hsum
        rw [hm, Nat.add_sub_cancel] at hout
        rw [hm, Nat.succ_mul]
        omega
    rw [readChunks, List.take_of_length_le hle]
  | succ count ih =>
    rw [readChunks_succ htable (by omega), read_eq hsize hstored hplaced (by omega), Rust.ok_bind,
      slice, ← List.take_add, ← Nat.succ_mul]
    exact ih (by omega)

/-- A resource that is written chunk by chunk is read back. -/
theorem readResource_layout (hsize : 1 ≤ chunkSize ∧ chunkSize ≤ 32768)
    (hstored : StoredAs data chunkSize stored) (hplaced : Placed wim res data stored)
    (hne : (layout (entrySize data.length) stored).length ≠ data.length) :
    readResource wim res chunkSize = .ok data := by
  have hplain : ¬res.isPlain = true := by
    rw [ResEntry.isPlain, hplaced.compressed, hplaced.size, hplaced.original]
    simpa using hne
  have hdata := hplaced.data_lt
  have hcount : countChunks res.originalSize chunkSize = .ok stored.length := by
    rw [countChunks_eq_ok_iff, hplaced.original]
    exact ⟨by omega, hsize.1, hstored.count⟩
  have hlayout : (stored.length - 1) * entrySize data.length ≤ res.compressedSize := by
    rw [hplaced.size, layout, List.length_append, length_flatten_toLE, length_ends]
    omega
  have hmod : res.compressedSize < 2 ^ 56 := Nat.mod_lt _ (Nat.two_pow_pos 56)
  have hentries : stored.length - 1 ≤ res.compressedSize := by
    have hpos : 1 ≤ entrySize data.length := by
      unfold entrySize
      split <;> decide
    exact le_trans (Nat.le_mul_of_pos_right _ hpos) hlayout
  obtain ⟨front, back, hwim, hfront⟩ := hplaced.file
  have htable : readTable wim (entrySize res.originalSize) (stored.length - 1) res.offset =
      .ok (ends stored) := by
    rw [hplaced.original, hwim, layout, ← length_ends, ← List.append_assoc,
      List.append_assoc _ _ back]
    exact readTable_toLE (ends stored) hplaced.fits hfront
  have hloop := readChunks_eq hsize.1 hstored hplaced (Nat.zero_add stored.length)
  rw [Nat.zero_mul, List.take_zero] at hloop
  rw [readResource, if_neg hplain, readCompressed, hcount, Rust.ok_bind, allocate,
    if_pos (by omega), Rust.ok_bind, htable, Rust.ok_bind, allocate,
    if_pos (by rw [hplaced.original]; omega), Rust.ok_bind, mulU,
    if_pos (by rw [hplaced.original]; omega), Rust.orPanic_some, Rust.ok_bind, subU,
    if_pos (by rw [hplaced.original]; exact hlayout), Rust.okOr_some, Rust.ok_bind]
  rw [← hloop, ← hstored.numChunks hplaced (ends stored)]
  rfl

end

/-- Three bytes in chunks of two: the first as it is, the other as a block of one byte. -/
theorem readResource_layout_two :
    readResource ([9, 2, 0, 0, 0, 1, 2] ++
        [0, 0x60, 0, 0x10, 1, 0, 0, 0, 1, 0, 0, 0, 1, 0, 0, 0, 3])
      ⟨4 * 2 ^ 56 + 23, 1, 3⟩ 2 = .ok [1, 2, 3] := by
  let block : Bytes := [0, 0x60, 0, 0x10, 1, 0, 0, 0, 1, 0, 0, 0, 1, 0, 0, 0, 3]
  have hinflate : Lzx.inflate block 1 = .ok [3] := by
    decide +kernel
  have hstored : StoredAs [1, 2, 3] 2 [[1, 2], block] := by
    refine ⟨by decide, fun i bytes h => ?_⟩
    match i, h with
    | 0, h => exact Or.inl (Option.some.inj h).symm
    | 1, h =>
      obtain rfl := Option.some.inj h
      exact Or.inr ⟨by decide, hinflate⟩
  have hplaced : Placed ([9, 2, 0, 0, 0, 1, 2] ++ block) ⟨4 * 2 ^ 56 + 23, 1, 3⟩ [1, 2, 3]
      [[1, 2], block] :=
    ⟨⟨[9], [], by decide, rfl⟩, by decide, rfl, by decide, by decide, by decide, by decide⟩
  exact readResource_layout (by decide) hstored hplaced (by decide)

end Wim
end Theos
