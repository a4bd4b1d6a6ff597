import Theos.Udf.Reader

/-!
# The reader is a cursor over the file

A `FileReader` finds its place in a list of extents anew for every piece of a read.
`Cursor` is what it stands for: a position in the bytes of the file, which are
those of the extents one after the other, cut to the length of the file.  Over all
sequences of calls the two answer alike (`reader_is_cursor`).

Of the image it is asked that the bytes of the file are in it.  The length of an extent is a
field of 30 bits; up to 2^63 the running sum over the extents does not overflow.
-/

namespace Theos
namespace Udf

open Base Rust

/-! ## Calls and answers -/

inductive Call where
  | read (want : Nat)
  | seek (pos : SeekFrom)

inductive Answer where
  | read (result : Rust IoError Bytes)
  | seek (result : Rust IoError Nat)

def FileReader.perform (image : Image) (reader : FileReader) : Call → Answer × FileReader
  | .read want =>
    let (result, reader) := reader.read image want
    (.read result, reader)
  | .seek pos =>
    let (result, reader) := reader.seek pos
    (.seek result, reader)

/-- The answers to some calls, and the reader after them. -/
def FileReader.run (image : Image) (reader : FileReader) : List Call → List Answer × FileReader
  | [] => ([], reader)
  | call :: calls =>
    let (answer, reader) := reader.perform image call
    let (answers, reader) := reader.run image calls
    (answer :: answers, reader)

/-! ## The cursor -/

/-- A position in the bytes of a file. -/
structure Cursor where
  content : Bytes
  pos : Nat

namespace Cursor

/-- Where a seek leads to, as a number that may be negative. -/
def target (c : Cursor) : SeekFrom → Int
  | .start p => p.toNat
  | .current p => c.pos + p.toInt
  | .end p => c.content.length + p.toInt

def perform (c : Cursor) : Call → Answer × Cursor
  | .read want =>
    let data := (c.content.drop c.pos).take want
    (.read (.ok data), { c with pos := c.pos + data.length })
  | .seek pos =>
    if 0 ≤ c.target pos ∧ c.target pos ≤ c.content.length then
      (.seek (.ok (c.target pos).toNat), { c with pos := (c.target pos).toNat })
    else (.seek (err .invalidInput), c)

def run (c : Cursor) : List Call → List Answer × Cursor
  | [] => ([], c)
  | call :: calls =>
    let (answer, c) := c.perform call
    let (answers, c) := c.run calls
    (answer :: answers, c)

/-- The sum that a call makes fits into an `i64`. -/
def SumFits (c : Cursor) : Call → Prop
  | .seek (.current p) => -2 ^ 63 ≤ (c.pos : Int) + p.toInt ∧ (c.pos : Int) + p.toInt < 2 ^ 63
  | .seek (.end p) =>
    -2 ^ 63 ≤ (c.content.length : Int) + p.toInt ∧ (c.content.length : Int) + p.toInt < 2 ^ 63
  | _ => True

/-- So do all sums of a sequence of calls. -/
def SumsFit (c : Cursor) : List Call → Prop
  | [] => True
  | call :: calls => c.SumFits call ∧ (c.perform call).2.SumsFit calls

instance decidableSumFits (c : Cursor) : (call : Call) → Decidable (c.SumFits call)
  | .read _ => inferInstanceAs (Decidable True)
  | .seek (.start _) => inferInstanceAs (Decidable True)
  | .seek (.current _) => inferInstanceAs (Decidable (_ ∧ _))
  | .seek (.end _) => inferInstanceAs (Decidable (_ ∧ _))

instance decidableSumsFit : (c : Cursor) → (calls : List Call) → Decidable (c.SumsFit calls)
  | _, [] => inferInstanceAs (Decidable True)
  | c, call :: calls =>
    have := decidableSumsFit (c.perform call).2 calls
    inferInstanceAs (Decidable (_ ∧ _))

end Cursor

/-! ## The bytes of extents -/

def totalLen (extents : List (Nat × Nat)) : Nat :=
  (extents.map Prod.snd).sum

/-- The bytes of extents, one after the other. -/
def extentBytes (image : Image) (extents : List (Nat × Nat)) : Bytes :=
  extents.flatMap fun extent => slice image.content extent.1 extent.2

/-- The extents hold a file of `len` bytes, all of which are in the image. -/
structure Holds (image : Image) (extents : List (Nat × Nat)) (len : Nat) : Prop where
  enough : len ≤ totalLen extents
  small : len < 2 ^ 63
  short : ∀ extent ∈ extents, extent.2 ≤ 2 ^ 63
  inImage : ∀ front extent back, extents = front ++ extent :: back → ∀ i < extent.2,
    totalLen front + i < len → extent.1 + i < image.content.length

/-- A place in a list of extents: the extents before it, the extent it is in, and the offset
there. -/
structure Place where
  front : List (Nat × Nat)
  extent : Nat × Nat
  back : List (Nat × Nat)
  offset : Nat

/-- The place of a position. -/
structure Place.At (place : Place) (extents : List (Nat × Nat)) (position : Nat) : Prop where
  extents_eq : extents = place.front ++ place.extent :: place.back
  position_eq : totalLen place.front + place.offset = position
  offset_lt : place.offset < place.extent.2

theorem totalLen_append
    (front back : List (Nat × Nat)) :
    totalLen (front ++ back) = totalLen front + totalLen back := by
  simp [totalLen]

theorem totalLen_cons
    (extent : Nat × Nat) (extents : List (Nat × Nat)) :
    totalLen (extent :: extents) = extent.2 + totalLen extents := by
  simp [totalLen]

theorem extentBytes_append (image : Image)
    (front back : List (Nat × Nat)) :
    extentBytes image (front ++ back) = extentBytes image front ++ extentBytes image back := by
  simp [extentBytes]

theorem extentBytes_cons (image : Image)
    (extent : Nat × Nat) (extents : List (Nat × Nat)) :
    extentBytes image (extent :: extents) =
      slice image.content extent.1 extent.2 ++ extentBytes image extents := by
  simp [extentBytes]

/-- The running sum finds the place of a position. -/
theorem locateExtent_eq {position : Nat} (hsmall : position < 2 ^ 63)
    {extents : List (Nat × Nat)} {base : Nat}
    (hshort : ∀ extent ∈ extents, extent.2 ≤ 2 ^ 63)
    (hlow : base ≤ position)
    (hhigh : position < base + totalLen extents) :
    ∃ place : Place, place.At extents (position - base) ∧
      locateExtent position extents base = .ok (some (place.extent, place.offset)) := by
  induction extents generalizing base with
  | nil =>
    simp [totalLen] at hhigh
    omega
  | cons extent extents ih =>
    obtain ⟨start, len⟩ := extent
    obtain ⟨hfirst, hrest⟩ := List.forall_mem_cons.mp hshort
    dsimp only at hfirst
    rw [totalLen_cons] at hhigh
    rw [locateExtent, plus_eq (by omega), ok_bind]
    by_cases hin : position < base + len
    · rw [if_pos hin, minus_eq hlow, ok_bind]
      exact ⟨⟨[], (start, len), extents, position - base⟩,
        ⟨rfl, by simp [totalLen], by dsimp only; omega⟩, rfl⟩
    · rw [if_neg hin]
      obtain ⟨place, hat, hplace⟩ := ih hrest (show base + len ≤ position by omega) (by omega)
      have hposition := hat.position_eq
      refine ⟨⟨(start, len) :: place.front, place.extent, place.back, place.offset⟩,
        ⟨?_, ?_, hat.offset_lt⟩, hplace⟩
      · rw [hat.extents_eq, List.cons_append]
      · show totalLen ((start, len) :: place.front) + place.offset = position - base
        rw [totalLen_cons]
        omega

namespace Holds

variable {image : Image} {extents : List (Nat × Nat)} {len position : Nat} {place : Place}

/-- Extents that are in the image as a whole. -/
theorem length_extentBytes {front : List (Nat × Nat)}
    (h : ∀ extent ∈ front, ∀ i < extent.2, extent.1 + i < image.content.length) :
    (extentBytes image front).length = totalLen front := by
  induction front with
  | nil =>
    rfl
  | cons extent front ih =>
    obtain ⟨hfirst, hfront⟩ := List.forall_mem_cons.mp h
    have hlength : (slice image.content extent.1 extent.2).length = extent.2 := by
      by_cases hzero : extent.2 = 0
      · simp [slice, hzero]
      · have hlast := hfirst (extent.2 - 1) (by omega)
        exact length_slice (by omega)
    rw [extentBytes_cons, List.length_append, hlength, ih hfront, totalLen_cons]

/-- Extents that are in the image as a whole hold a file of every length up to theirs. -/
theorem of_forall (henough : len ≤ totalLen extents) (hsmall : len < 2 ^ 63)
    (h : ∀ extent ∈ extents, extent.1 + extent.2 ≤ image.content.length) :
    Holds image extents len where
  enough := henough
  small := hsmall
  short extent hextent := by
    have hin := h extent hextent
    have hlength := image.length_lt
    omega
  inImage front extent back heq i hi _ := by
    have hin := h extent (by rw [heq]; simp)
    omega

/-- All extents before a place in the file are such. -/
theorem length_front (h : Holds image extents len) (hat : place.At extents position)
    (hposition : position < len) :
    (extentBytes image place.front).length = totalLen place.front := by
  refine length_extentBytes fun extent hextent i hi => ?_
  obtain ⟨before, after, heq⟩ := List.append_of_mem hextent
  have hplace := hat.position_eq
  rw [heq, totalLen_append, totalLen_cons] at hplace
  refine h.inImage before extent (after ++ place.extent :: place.back) ?_ i hi (by omega)
  rw [hat.extents_eq, heq, List.append_assoc, List.cons_append]

/-- A piece of the file, from a place on and within its extent, is a piece of the image. -/
theorem slice_extentBytes (h : Holds image extents len) (hat : place.At extents position)
    {chunk : Nat} (hchunk : 0 < chunk)
    (hextent : place.offset + chunk ≤ place.extent.2)
    (hlen : position + chunk ≤ len) :
    slice (extentBytes image extents) position chunk =
        slice image.content (place.extent.1 + place.offset) chunk ∧
      place.extent.1 + place.offset + chunk ≤ image.content.length := by
  have hplace := hat.position_eq
  have hlast := h.inImage place.front place.extent place.back hat.extents_eq
    (place.offset + chunk - 1) (by omega) (by omega)
  have hfront := h.length_front hat (by omega)
  have hlong : place.offset + chunk ≤
      (slice image.content place.extent.1 place.extent.2).length := by
    simp only [slice, List.length_take, List.length_drop]
    omega
  refine ⟨?_, by omega⟩
  rw [← hplace, hat.extents_eq, extentBytes_append, ← hfront, slice_append_right,
    extentBytes_cons, slice_append_left hlong, slice_slice hextent]

theorem exists_place (h : Holds image extents len)
    (hposition : position < len) :
    ∃ place : Place, place.At extents position ∧
      locateExtent position extents 0 = .ok (some (place.extent, place.offset)) := by
  have hsmall := h.small
  have henough := h.enough
  exact locateExtent_eq (by omega) h.short (Nat.zero_le _) (by omega)

theorem le_length_extentBytes
    (h : Holds image extents len) :
    len ≤ (extentBytes image extents).length := by
  by_cases hzero : len = 0
  · omega
  · obtain ⟨place, hat, -⟩ := h.exists_place (show len - 1 < len by omega)
    have hlt := hat.offset_lt
    obtain ⟨hread, hin⟩ := h.slice_extentBytes hat Nat.one_pos (by omega) (by omega)
    have hlength := congrArg List.length hread
    rw [length_slice hin] at hlength
    simp only [slice, List.length_take, List.length_drop] at hlength
    omega

end Holds

/-! ## Reading -/

section Reading

variable {image : Image} {reader : FileReader}

theorem nextChunk_eq {len : Nat} (h : Holds image reader.extents len) {remaining : Nat}
    (hremaining : 0 < remaining)
    (hlen : reader.pos + remaining ≤ len) :
    ∃ position chunk, nextChunk reader remaining = .ok (position, chunk) ∧ 0 < chunk ∧
      chunk ≤ remaining ∧ position + chunk ≤ image.content.length ∧
      slice image.content position chunk =
        slice (extentBytes image reader.extents) reader.pos chunk := by
  obtain ⟨⟨front, ⟨start, extentLen⟩, back, offset⟩, hat, hplace⟩ :=
    h.exists_place (show reader.pos < len by omega)
  have hlt : offset < extentLen := hat.offset_lt
  have hsmall := image.length_lt
  have hread := h.slice_extentBytes hat
    (show 0 < min remaining (extentLen - offset) by omega) (by dsimp only; omega) (by omega)
  have hin : start + offset + min remaining (extentLen - offset) ≤ image.content.length := hread.2
  refine ⟨start + offset, min remaining (extentLen - offset), ?_,
    by omega, by omega, hin, hread.1.symm⟩
  rw [nextChunk, hplace, ok_bind, okOr_some, ok_bind]
  dsimp only
  rw [minus_eq (by omega), ok_bind, plus_eq (by omega), ok_bind, if_pos (by omega)]
  rfl

/-- The loop reads what is asked for, piece by piece. -/
theorem readLoop_eq {len : Nat} (h : Holds image reader.extents len) {remaining : Nat}
    (hlen : reader.pos + remaining ≤ len) (out : Bytes) :
    readLoop image reader remaining out =
      (.ok (out ++ slice (extentBytes image reader.extents) reader.pos remaining),
        { reader with pos := reader.pos + remaining }) := by
  induction remaining using Nat.strong_induction_on generalizing reader out with
  | _ remaining ih =>
  rw [readLoop]
  by_cases hzero : remaining = 0
  · rw [if_pos hzero, hzero]
    simp [slice]
  · obtain ⟨position, chunk, hnext, hpos, hle, hin, hread⟩ :=
      nextChunk_eq h (by omega) hlen
    have hlength : (slice image.content position chunk).length = chunk := length_slice hin
    have hmoved :
        Holds image ({ reader with pos := reader.pos + chunk } : FileReader).extents len := h
    have hrest := ih (remaining - chunk) (by omega) hmoved (by dsimp only; omega)
      (out ++ slice image.content position chunk)
    have hsplit := slice_add (extentBytes image reader.extents) reader.pos chunk
      (remaining - chunk)
    rw [Nat.add_sub_cancel' hle] at hsplit
    rw [if_neg hzero, hnext]
    dsimp only
    rw [hlength, if_neg (by omega), hrest, hread, hsplit, List.append_assoc]
    dsimp only
    rw [Nat.add_assoc, Nat.add_sub_cancel' hle]

end Reading

/-! ## The reader and the cursor -/

/-- The bytes of the file that extents hold. -/
def fileBytes (image : Image) (extents : List (Nat × Nat)) (len : Nat) : Bytes :=
  (extentBytes image extents).take len

theorem length_fileBytes {image : Image} {extents : List (Nat × Nat)} {len : Nat}
    (h : Holds image extents len) :
    (fileBytes image extents len).length = len := by
  rw [fileBytes, List.length_take, Nat.min_eq_left h.le_length_extentBytes]

/-- What a reader stands for. -/
def FileReader.cursor (image : Image) (reader : FileReader) : Cursor where
  content := fileBytes image reader.extents reader.len
  pos := reader.pos

/-- A reader in the middle of its file. -/
structure FileReader.Valid (image : Image) (reader : FileReader) : Prop where
  holds : Holds image reader.extents reader.len
  pos_le : reader.pos ≤ reader.len

section Calls

variable {image : Image} {reader : FileReader}

theorem slice_extentBytes_eq {pos n : Nat} (extents : List (Nat × Nat)) {len : Nat}
    (h : pos + n ≤ len) :
    slice (extentBytes image extents) pos n = slice (fileBytes image extents len) pos n := by
  rw [fileBytes, slice, slice, List.drop_take, List.take_take, Nat.min_eq_left (by omega)]

/-- A read is a read of the cursor. -/
theorem read_eq (h : reader.Valid image) (want : Nat) :
    reader.read image want =
      (.ok (((reader.cursor image).content.drop reader.pos).take want),
        { reader with pos := reader.pos + min want (reader.len - reader.pos) }) := by
  have hlength := length_fileBytes h.holds
  have hle := h.pos_le
  rw [FileReader.read]
  split
  next hend =>
    have hdrop : (reader.cursor image).content.drop reader.pos = [] :=
      List.drop_eq_nil_of_le (by rw [FileReader.cursor, hlength]; exact hend)
    rw [hdrop, Nat.sub_eq_zero_of_le hend]
    simp
  next =>
    have hfits : reader.pos + min want (reader.len - reader.pos) ≤ reader.len := by omega
    rw [readLoop_eq h.holds hfits, List.nil_append, slice_extentBytes_eq _ hfits, slice]
    congr 2
    by_cases hwant : want ≤ reader.len - reader.pos
    · rw [Nat.min_eq_left hwant]
      rfl
    · have hall : ((fileBytes image reader.extents reader.len).drop reader.pos).length =
          reader.len - reader.pos := by
        rw [List.length_drop, hlength]
      rw [Nat.min_eq_right (by omega), List.take_of_length_le (by omega)]
      exact (List.take_of_length_le (hall.trans_le (by omega))).symm

theorem seekSum_eq {n : Nat} {p : Int64} (hn : n < 2 ^ 63)
    (hfits : -2 ^ 63 ≤ (n : Int) + p.toInt ∧ (n : Int) + p.toInt < 2 ^ 63) :
    seekSum n p = .ok (((n : Int) + p.toInt) % 2 ^ 64).toNat := by
  rw [seekSum, if_pos hn, if_pos hfits]

/-- The end of a seek, once its target is known.  One before the start is far behind the end as an
unsigned number. -/
theorem seek_of_target (h : reader.len < 2 ^ 63) {t : Int}
    (ht : -2 ^ 63 ≤ t ∧ t < 2 ^ 64) :
    (if reader.len < (t % 2 ^ 64).toNat then ((err .invalidInput : Rust IoError Nat), reader)
      else (.ok (t % 2 ^ 64).toNat, { reader with pos := (t % 2 ^ 64).toNat })) =
    if 0 ≤ t ∧ t ≤ reader.len then (.ok t.toNat, { reader with pos := t.toNat })
    else (err .invalidInput, reader) := by
  by_cases hin : 0 ≤ t ∧ t ≤ reader.len
  · have hnat : (t % 2 ^ 64).toNat = t.toNat := by omega
    rw [if_pos hin, hnat, if_neg (by omega)]
  · rw [if_neg hin, if_pos (by omega)]

/-- A seek is a seek of the cursor. -/
theorem seek_eq (h : reader.Valid image) {pos : SeekFrom}
    (hfits : (reader.cursor image).SumFits (.seek pos)) :
    reader.seek pos =
      if 0 ≤ (reader.cursor image).target pos ∧ (reader.cursor image).target pos ≤ reader.len then
        (.ok ((reader.cursor image).target pos).toNat,
          { reader with pos := ((reader.cursor image).target pos).toNat })
      else (err .invalidInput, reader) := by
  have hsmall := h.holds.small
  have hle := h.pos_le
  have hlength : (reader.cursor image).content.length = reader.len := length_fileBytes h.holds
  cases pos with
  | start p =>
    have hp := p.toNat_lt
    have hnat : ((p.toNat : Int) % 2 ^ 64).toNat = p.toNat := by omega
    have htarget := @seek_of_target reader hsmall p.toNat (by omega)
    rw [hnat] at htarget
    exact htarget
  | current p =>
    rw [FileReader.seek, seekSum_eq (show reader.pos < 2 ^ 63 by omega) hfits]
    exact seek_of_target hsmall ⟨hfits.1, hfits.2.trans (by norm_num)⟩
  | «end» p =>
    rw [Cursor.SumFits, hlength] at hfits
    rw [FileReader.seek, Cursor.target, hlength, seekSum_eq hsmall hfits]
    exact seek_of_target hsmall ⟨hfits.1, hfits.2.trans (by norm_num)⟩

/-- A call keeps a reader valid, and is answered as by the cursor. -/
theorem perform_eq (h : reader.Valid image) {call : Call}
    (hfits : (reader.cursor image).SumFits call) :
    (reader.perform image call).1 = ((reader.cursor image).perform call).1 ∧
      (reader.perform image call).2.Valid image ∧
      (reader.perform image call).2.cursor image = ((reader.cursor image).perform call).2 := by
  have hlength : (reader.cursor image).content.length = reader.len := length_fileBytes h.holds
  cases call with
  | read want =>
    have hle := h.pos_le
    have hread : (((reader.cursor image).content.drop reader.pos).take want).length =
        min want (reader.len - reader.pos) := by
      rw [List.length_take, List.length_drop, hlength]
    rw [FileReader.perform, read_eq h, Cursor.perform]
    refine ⟨rfl, ⟨h.holds, ?_⟩, ?_⟩
    · dsimp only
      omega
    · dsimp only
      rw [show (reader.cursor image).pos = reader.pos from rfl, hread]
      rfl
  | seek pos =>
    rw [FileReader.perform, seek_eq h hfits, Cursor.perform, hlength]
    by_cases hin : 0 ≤ (reader.cursor image).target pos ∧
        (reader.cursor image).target pos ≤ reader.len
    · rw [if_pos hin, if_pos hin]
      refine ⟨rfl, ⟨h.holds, ?_⟩, rfl⟩
      dsimp only
      omega
    · rw [if_neg hin, if_neg hin]
      exact ⟨rfl, h, rfl⟩

/-- So are the calls of a sequence. -/
theorem run_eq (h : reader.Valid image) {calls : List Call}
    (hfits : (reader.cursor image).SumsFit calls) :
    (reader.run image calls).1 = ((reader.cursor image).run calls).1 ∧
      (reader.run image calls).2.Valid image ∧
      (reader.run image calls).2.cursor image = ((reader.cursor image).run calls).2 := by
  induction calls generalizing reader with
  | nil =>
    exact ⟨rfl, h, rfl⟩
  | cons call calls ih =>
    obtain ⟨hanswer, hvalid, hcursor⟩ := perform_eq h hfits.1
    obtain ⟨hanswers, hvalids, hcursors⟩ := ih hvalid (by rw [hcursor]; exact hfits.2)
    refine ⟨?_, hvalids, ?_⟩
    · rw [FileReader.run, Cursor.run]
      dsimp only
      rw [hanswer, hanswers, hcursor]
    · rw [Cursor.run]
      dsimp only
      rw [← hcursor]
      exact hcursors

end Calls

/-- A new reader of a file and the cursor at the start of its bytes give the same answers to
every sequence of calls, and are at the same position afterwards. -/
theorem reader_is_cursor (image : Image) (extents : List (Nat × Nat)) (len : Nat)
    (h : Holds image extents len) (calls : List Call)
    (hfits : (Cursor.mk (fileBytes image extents len) 0).SumsFit calls) :
    ((FileReader.mk extents len 0).run image calls).1 =
        ((Cursor.mk (fileBytes image extents len) 0).run calls).1 ∧
      ((FileReader.mk extents len 0).run image calls).2.pos =
        ((Cursor.mk (fileBytes image extents len) 0).run calls).2.pos := by
  have hvalid : (FileReader.mk extents len 0).Valid image := ⟨h, Nat.zero_le _⟩
  obtain ⟨hanswers, -, hcursor⟩ := run_eq hvalid hfits
  exact ⟨hanswers, congrArg Cursor.pos hcursor⟩

/-- Four bytes; the file is the last of them and the first two. -/
def fourBytes : Image where
  content := [1, 2, 3, 4]
  length_lt := by decide

/-- A read across the two extents, a seek before the start and one back by two, and a read. -/
def someCalls : List Call :=
  [.read 2, .seek (.current (-3)), .seek (.end (-2)), .read 9]

theorem reader_is_cursor_fourBytes :
    ((FileReader.mk [(3, 1), (0, 2)] 3 0).run fourBytes someCalls).1 =
      [.read (.ok [4, 1]), .seek (err .invalidInput), .seek (.ok 1), .read (.ok [1, 2])] := by
  have hholds : Holds fourBytes [(3, 1), (0, 2)] 3 :=
    Holds.of_forall (by decide) (by decide) (by decide)
  exact (reader_is_cursor fourBytes [(3, 1), (0, 2)] 3 hholds someCalls (by decide)).1

end Udf
end Theos
