import Theos.Udf.Reader

/-!
# Directories and their encoding

A directory is a sequence of file identifier descriptors, each padded to four bytes.
`Descriptor` has an identifier and everything else that its bytes hold; the parser
does not look at the rest of the tag, at the implementation use and at the padding, which
may be any bytes.  `parse_directory_entries` reads the identifiers back from
the encoding of any list of descriptors (`parseDirectoryEntries_encode`).
-/

namespace Theos
namespace Udf

open Base Rust

/-! ## Names -/

/-- The units of a character in UTF-16. -/
def utf16Units (c : Char) : List Nat :=
  if c.toNat < 0x10000 then [c.toNat]
  else [0xD800 + (c.toNat - 0x10000) / 0x400, 0xDC00 + (c.toNat - 0x10000) % 0x400]

/-- The bytes that a name may be encoded as. -/
inductive NameCoding : Text → Bytes → Prop
  | empty : NameCoding [] []
  | narrow (name : Text) (h : ∀ c ∈ name, c.toNat < 256) :
    NameCoding name (8 :: name.map fun c => UInt8.ofNat c.toNat)
  | wide (name : Text) : NameCoding name (16 :: (name.flatMap utf16Units).flatMap (toBE 2))

/-- A character is not a surrogate. -/
theorem toNat_not_surrogate (c : Char) : c.toNat < 0xD800 ∨ 0xDFFF < c.toNat ∧ c.toNat < 0x110000 :=
  c.valid

theorem fromUtf16Lossy_plain {u : Nat} (h : u < 0xD800 ∨ 0xDFFF < u) (rest : List Nat) :
    Wim.fromUtf16Lossy (u :: rest) = Char.ofNat u :: Wim.fromUtf16Lossy rest := by
  cases rest with
  | nil => exact if_pos h
  | cons low rest => rw [Wim.fromUtf16Lossy, if_pos h]

/-- A text is read back from its units. -/
theorem fromUtf16Lossy_flatMap
    (text : Text) :
    Wim.fromUtf16Lossy (text.flatMap utf16Units) = text := by
  induction text with
  | nil =>
    rfl
  | cons c text ih =>
    have hvalid := toNat_not_surrogate c
    rw [List.flatMap_cons, utf16Units]
    split
    next hbmp =>
      rw [List.singleton_append, fromUtf16Lossy_plain (by omega), Char.ofNat_toNat, ih]
    next hbmp =>
      rw [List.cons_append, List.singleton_append, Wim.fromUtf16Lossy, if_neg (by omega),
        if_pos (by omega), ih]
      have hpair : 0x10000 + (0xD800 + (c.toNat - 0x10000) / 0x400 - 0xD800) * 0x400 +
          (0xDC00 + (c.toNat - 0x10000) % 0x400 - 0xDC00) = c.toNat := by omega
      rw [hpair, Char.ofNat_toNat]

theorem utf16Units_lt {c : Char} : ∀ u ∈ utf16Units c, u < 2 ^ 16 := by
  have hvalid := toNat_not_surrogate c
  rw [utf16Units]
  split
  · simp
    omega
  · simp
    omega

/-- So are units from their bytes. -/
theorem utf16BeUnits_flatMap {units : List Nat}
    (h : ∀ u ∈ units, u < 2 ^ 16) :
    utf16BeUnits (units.flatMap (toBE 2)) = units := by
  induction units with
  | nil =>
    rfl
  | cons u units ih =>
    obtain ⟨hfirst, hrest⟩ := List.forall_mem_cons.mp h
    have hbytes : toBE 2 u = [UInt8.ofNat (u / 256), UInt8.ofNat u] := rfl
    rw [List.flatMap_cons, hbytes, List.cons_append, List.singleton_append, utf16BeUnits, ih hrest]
    congr 1
    simp
    omega

theorem length_flatMap_toBE
    (units : List Nat) :
    (units.flatMap (toBE 2)).length = 2 * units.length := by
  simp [List.length_flatMap, Nat.mul_comm]

/-- Every coding of a name is decoded to it. -/
theorem decodeDstring_of_coding {name : Text} {bytes : Bytes}
    (h : NameCoding name bytes) :
    decodeDstring bytes = .ok name := by
  cases h with
  | empty =>
    rfl
  | narrow name h =>
    have hmap :
        (name.map fun c => UInt8.ofNat c.toNat).map (fun b => Char.ofNat b.toNat) = name := by
      rw [List.map_map]
      refine (List.map_congr_left fun c hc => ?_).trans (List.map_id name)
      have hc := h c hc
      simp [Nat.mod_eq_of_lt hc]
    rw [decodeDstring, if_pos rfl, hmap]
  | wide name =>
    have hunits : ∀ u ∈ name.flatMap utf16Units, u < 2 ^ 16 := by
      intro u hu
      obtain ⟨c, -, hc⟩ := List.mem_flatMap.mp hu
      exact utf16Units_lt u hc
    rw [decodeDstring, if_neg (by decide), if_pos rfl, length_flatMap_toBE, if_neg (by omega),
      utf16BeUnits_flatMap hunits, fromUtf16Lossy_flatMap]

/-! ## Descriptors -/

/-- What the bytes of a file identifier descriptor hold. -/
structure DescriptorFields where
  identifier : FileIdentifier
  /-- Version, checksum, serial number and CRC of the tag. -/
  tag : Bytes
  /-- Location of the tag, and version of the file. -/
  location : Bytes
  icbUse : Bytes
  implementationUse : Bytes
  fileId : Bytes
  padding : Bytes
  crcCoversPadding : Bool

namespace DescriptorFields

/-- The length without the padding. -/
def len (d : DescriptorFields) : Nat :=
  38 + d.implementationUse.length + d.fileId.length

/-- The length that the tag tells. -/
def toldLen (d : DescriptorFields) : Nat :=
  if d.crcCoversPadding then d.len + d.padding.length else d.len

/-- The part of fixed size. -/
def header (d : DescriptorFields) : Bytes :=
  toLE 2 tagidFileIdentifier.toNat ++ d.tag ++ toLE 2 (d.toldLen - 16) ++ d.location ++
    [d.identifier.characteristics] ++ [UInt8.ofNat d.fileId.length] ++
    toLE 4 d.identifier.icb.len.toNat ++ toLE 4 d.identifier.icb.lba.toNat ++
    toLE 2 d.identifier.icb.partition.toNat ++ d.icbUse ++ toLE 2 d.implementationUse.length

def encode (d : DescriptorFields) : Bytes :=
  d.header ++ d.implementationUse ++ d.fileId ++ d.padding

end DescriptorFields

/-- A file identifier descriptor. -/
structure Descriptor extends DescriptorFields where
  coding : NameCoding identifier.name fileId
  length_tag : tag.length = 8
  length_location : location.length = 6
  length_icbUse : icbUse.length = 6
  length_implementationUse : implementationUse.length < 2 ^ 16
  length_fileId : fileId.length < 2 ^ 8
  length_padding : toDescriptorFields.len + padding.length = alignUp toDescriptorFields.len
  toldLen_lt : toDescriptorFields.toldLen < 16 + 2 ^ 16

/-- A list of descriptors. -/
def encodeAll (descriptors : List Descriptor) : Bytes :=
  descriptors.flatMap fun d => d.encode

/-- What the parser looks at, in a descriptor at an offset. -/
structure Descriptor.At (d : Descriptor) (data : Bytes) (offset : Nat) : Prop where
  tag : slice data offset 2 = toLE 2 tagidFileIdentifier.toNat
  crcLen : slice data (offset + 10) 2 = toLE 2 (d.toldLen - 16)
  characteristics : slice data (offset + 18) 1 = [d.identifier.characteristics]
  fileIdLen : slice data (offset + 19) 1 = [UInt8.ofNat d.fileId.length]
  icbLen : slice data (offset + 20) 4 = toLE 4 d.identifier.icb.len.toNat
  icbLba : slice data (offset + 20 + 4) 4 = toLE 4 d.identifier.icb.lba.toNat
  icbPartition : slice data (offset + 20 + 8) 2 = toLE 2 d.identifier.icb.partition.toNat
  impUseLen : slice data (offset + 36) 2 = toLE 2 d.implementationUse.length
  fileId : slice data (offset + 38 + d.implementationUse.length) d.fileId.length = d.fileId
  inside : offset + alignUp d.toldLen ≤ data.length

namespace Descriptor

variable (d : Descriptor)

theorem length_header : d.header.length = 38 := by
  simp [DescriptorFields.header, d.length_tag, d.length_location, d.length_icbUse]

/-- Both lengths that a tag may tell are padded to the length of the encoding. -/
theorem length_encode : d.encode.length = alignUp d.toldLen := by
  have hpadding := d.length_padding
  have hlen : d.encode.length = d.len + d.padding.length := by
    simp only [DescriptorFields.encode, List.length_append, d.length_header, DescriptorFields.len]
  rw [hlen, DescriptorFields.toldLen]
  split
  · rw [hpadding, alignUp, alignUp]
    omega
  · exact hpadding

/-- The encoding behind other bytes. -/
theorem encode_at (front back : Bytes) :
    d.At (front ++ (d.encode ++ back)) front.length := by
  have hskip : ∀ off len, slice (front ++ (d.encode ++ back)) (front.length + off) len =
      slice (d.encode ++ back) off len := slice_append_right front _
  have hlength := d.length_encode
  refine ⟨hskip 0 2 |>.trans ?_, hskip 10 2 |>.trans ?_, hskip 18 1 |>.trans ?_,
    hskip 19 1 |>.trans ?_, hskip 20 4 |>.trans ?_, hskip 24 4 |>.trans ?_, hskip 28 2 |>.trans ?_,
    hskip 36 2 |>.trans ?_, ?_, ?_⟩
  case refine_9 =>
    rw [Nat.add_assoc, hskip, ← d.length_header, DescriptorFields.encode, List.append_assoc,
      List.append_assoc, List.append_assoc, slice_append_right,
      slice_append_skip le_rfl, Nat.sub_self, slice_append_here rfl]
  case refine_10 =>
    simp only [List.length_append]
    omega
  all_goals
    simp (disch := simp [d.length_tag, d.length_location, d.length_icbUse]) only
      [DescriptorFields.encode, DescriptorFields.header, List.append_assoc, slice_append_here,
      slice_append_skip, length_toLE, d.length_tag, d.length_location, d.length_icbUse,
      List.length_singleton, Nat.reduceSub]

end Descriptor

/-! ## Fields are read back -/

section Fields

variable {data : Bytes} {offset : Nat}

theorem add_le_of_slice {len : Nat} (hlen : 0 < len)
    (h : (slice data offset len).length = len) :
    offset + len ≤ data.length := by
  simp only [slice, List.length_take, List.length_drop] at h
  omega

theorem readLE_of_slice {width n : Nat} (hsmall : data.length < 2 ^ 63) (hwidth : 0 < width)
    (h : slice data offset width = toLE width n)
    (hn : n < 256 ^ width) :
    readLE width data offset = .ok n := by
  have hin : offset + width ≤ data.length := add_le_of_slice hwidth (by rw [h, length_toLE])
  rw [readLE, plus_eq (by omega), ok_bind, if_pos hin, h, ofLE_toLE, Nat.mod_eq_of_lt hn]

theorem readU16_of_slice {n : UInt16} (hsmall : data.length < 2 ^ 63)
    (h : slice data offset 2 = toLE 2 n.toNat) :
    readU16 data offset = .ok n := by
  rw [readU16, readLE_of_slice hsmall (by decide) h n.toNat_lt, ok_bind, UInt16.ofNat_toNat]
  rfl

theorem readU32_of_slice {n : UInt32} (hsmall : data.length < 2 ^ 63)
    (h : slice data offset 4 = toLE 4 n.toNat) :
    readU32 data offset = .ok n := by
  rw [readU32, readLE_of_slice hsmall (by decide) h n.toNat_lt, ok_bind, UInt32.ofNat_toNat]
  rfl

theorem readLongAd_of_slice {ad : LongAd} (hsmall : data.length < 2 ^ 63)
    (hlen : slice data offset 4 = toLE 4 ad.len.toNat)
    (hlba : slice data (offset + 4) 4 = toLE 4 ad.lba.toNat)
    (hpartition : slice data (offset + 8) 2 = toLE 2 ad.partition.toNat) :
    readLongAd data offset = .ok ad := by
  rw [readLongAd, readU32_of_slice hsmall hlen, ok_bind, readU32_of_slice hsmall hlba, ok_bind,
    readU16_of_slice hsmall hpartition, ok_bind]
  rfl

theorem index_of_slice {b : UInt8}
    (h : slice data offset 1 = [b]) :
    index data offset = .ok b := by
  have hget := getElem?_slice data offset 1 0
  rw [h, if_pos Nat.one_pos, Nat.add_zero] at hget
  rw [index, ← hget]
  rfl

theorem range_of_slice {len : Nat} {bytes : Bytes} (h : slice data offset len = bytes)
    (hin : offset + len ≤ data.length) :
    range data offset (offset + len) = .ok bytes := by
  rw [range, if_pos ⟨by omega, hin⟩, Nat.add_sub_cancel_left, h, orPanic_some]

end Fields

/-! ## The parser -/

/-- A round over a descriptor. -/
theorem directoryRound_of_at {d : Descriptor} {data : Bytes} {offset : Nat}
    (hsmall : data.length < 2 ^ 63)
    (h : d.At data offset) :
    directoryRound data offset = .ok (some (d.identifier, offset + d.encode.length)) := by
  have htold := d.toldLen_lt
  have hfileId := d.length_fileId
  have himpUse := d.length_implementationUse
  have hinside := h.inside
  have halign := le_alignUp d.toldLen
  have hlen : d.len = 38 + d.implementationUse.length + d.fileId.length := rfl
  have hle : d.len ≤ d.toldLen := by
    rw [DescriptorFields.toldLen]
    split <;> omega
  have hcrcLen : (UInt16.ofNat (d.toldLen - 16)).toNat = d.toldLen - 16 :=
    UInt16.toNat_ofNat_of_lt' (show d.toldLen - 16 < 2 ^ 16 by omega)
  have hidLen : (UInt8.ofNat d.fileId.length).toNat = d.fileId.length :=
    UInt8.toNat_ofNat_of_lt' hfileId
  have huseLen : (UInt16.ofNat d.implementationUse.length).toNat = d.implementationUse.length :=
    UInt16.toNat_ofNat_of_lt' himpUse
  have hcrc := h.crcLen
  have huse := h.impUseLen
  rw [← hcrcLen] at hcrc
  rw [← huseLen] at huse
  rw [directoryRound, plus_eq (by omega), ok_bind, if_neg (by omega),
    readU16_of_slice hsmall h.tag, ok_bind, if_neg (by decide), if_neg (by decide),
    readU16_of_slice hsmall hcrc, ok_bind, hcrcLen, plus_eq (by omega), ok_bind,
    Nat.add_sub_cancel' (by omega), plus_eq (by omega), ok_bind, if_neg (by omega),
    index_of_slice h.characteristics, ok_bind, index_of_slice h.fileIdLen, ok_bind,
    readLongAd_of_slice hsmall h.icbLen h.icbLba h.icbPartition, ok_bind,
    readU16_of_slice hsmall huse, ok_bind, huseLen, plus_eq (by omega), ok_bind, hidLen,
    plus_eq (by omega), ok_bind, if_neg (by omega), range_of_slice h.fileId (by omega), ok_bind,
    decodeDstring_of_coding d.coding, ok_bind, plus_eq (by omega), ok_bind, d.length_encode]
  rfl

/-- A round over zeros. -/
theorem directoryRound_zeros {front : Bytes} {zeros : Nat}
    (hsmall : (front ++ List.replicate zeros 0).length < 2 ^ 63) :
    directoryRound (front ++ List.replicate zeros 0) front.length = .ok none := by
  have hlength : (front ++ List.replicate zeros (0 : UInt8)).length = front.length + zeros := by
    simp
  rw [directoryRound, plus_eq (by omega), ok_bind]
  split
  · rfl
  next hlong =>
    have htag : slice (front ++ List.replicate zeros (0 : UInt8)) front.length 2 =
        toLE 2 (0 : UInt16).toNat := by
      rw [slice_append_skip le_rfl, Nat.sub_self, slice, List.drop_zero, List.take_replicate,
        Nat.min_eq_left (by omega)]
      rfl
    rw [readU16_of_slice hsmall htag, ok_bind, if_pos rfl]
    rfl

theorem directoryLoop_of_none {data : Bytes} {offset : Nat}
    (h : directoryRound data offset = .ok none) :
    directoryLoop data offset = .ok [] := by
  rw [directoryLoop]
  split
  · simp_all
  · rfl
  · simp_all

theorem directoryLoop_of_some {data : Bytes} {offset next : Nat} {fid : FileIdentifier}
    (h : directoryRound data offset = .ok (some (fid, next))) :
    directoryLoop data offset = (do
      let rest ← directoryLoop data next
      return fid :: rest) := by
  rw [directoryLoop]
  split
  · simp_all
  · simp_all
  · simp_all

/-- The loop, from descriptors to the end. -/
theorem directoryLoop_encode (descriptors : List Descriptor) (front : Bytes) (zeros : Nat)
    (hsmall : (front ++ (encodeAll descriptors ++ List.replicate zeros 0)).length < 2 ^ 63) :
    directoryLoop (front ++ (encodeAll descriptors ++ List.replicate zeros 0)) front.length =
      .ok (descriptors.map fun d => d.identifier) := by
  induction descriptors generalizing front with
  | nil =>
    exact directoryLoop_of_none (directoryRound_zeros hsmall)
  | cons d descriptors ih =>
    have hencode : encodeAll (d :: descriptors) = d.encode ++ encodeAll descriptors := rfl
    rw [hencode, List.append_assoc] at hsmall ⊢
    rw [directoryLoop_of_some (directoryRound_of_at hsmall (d.encode_at front _))]
    rw [← List.append_assoc front] at hsmall ⊢
    rw [← List.length_append, ih (front ++ d.encode) hsmall, ok_bind]
    rfl

/-- A round leads on inside the data, so that rounds come to an end. -/
theorem wellFounded_round (data : Bytes) :
    WellFounded fun next offset => ∃ fid, directoryRound data offset = .ok (some (fid, next)) := by
  refine Subrelation.wf ?_ (measure fun offset => data.length - offset).wf
  rintro next offset ⟨fid, hround⟩
  have hlt := lt_of_directoryRound hround
  show data.length - next < data.length - offset
  omega

/-- The parser gives back the identifiers of every directory, and it goes on forever on no
bytes. -/
theorem parseDirectoryEntries_encode (descriptors : List Descriptor) (zeros : Nat)
    (hsmall : (encodeAll descriptors ++ List.replicate zeros 0).length < 2 ^ 63) :
    parseDirectoryEntries (encodeAll descriptors ++ List.replicate zeros 0) =
        .ok (descriptors.map fun d => d.identifier) ∧
      ∀ data, WellFounded fun next offset =>
        ∃ fid, directoryRound data offset = .ok (some (fid, next)) :=
  ⟨directoryLoop_encode descriptors [] zeros hsmall, wellFounded_round⟩

/-- A name in eight bits per character, with two bytes of padding that the CRC covers. -/
def narrowDescriptor : Descriptor where
  identifier := ⟨"abc".toList, ⟨2048, 3, 0⟩, 0⟩
  tag := [2, 0, 0, 0, 0, 0, 0, 0]
  location := [0, 0, 0, 0, 1, 0]
  icbUse := [0, 0, 0, 0, 0, 0]
  implementationUse := []
  fileId := [8, 97, 98, 99]
  padding := [0, 0]
  crcCoversPadding := true
  coding := .narrow "abc".toList (List.forall_iff_forall_mem.mp (by decide))
  length_tag := rfl
  length_location := rfl
  length_icbUse := rfl
  length_implementationUse := by decide
  length_fileId := by decide
  length_padding := rfl
  toldLen_lt := by decide

/-- A name in sixteen, with a surrogate pair, and an implementation use. -/
def wideDescriptor : Descriptor where
  identifier := ⟨[Char.ofNat 0x1F600], ⟨2048, 4, 0⟩, 2⟩
  tag := [2, 0, 0, 0, 0, 0, 0, 0]
  location := [0, 0, 0, 0, 1, 0]
  icbUse := [0, 0, 0, 0, 0, 0]
  implementationUse := [7, 7]
  fileId := [16, 0xD8, 0x3D, 0xDE, 0x00]
  padding := [0, 0, 0]
  crcCoversPadding := false
  coding := .wide [Char.ofNat 0x1F600]
  length_tag := rfl
  length_location := rfl
  length_icbUse := rfl
  length_implementationUse := by decide
  length_fileId := by decide
  length_padding := rfl
  toldLen_lt := by decide

theorem parseDirectoryEntries_encode_two :
    parseDirectoryEntries (encodeAll [narrowDescriptor, wideDescriptor] ++
        List.replicate 50 0) =
      .ok [⟨"abc".toList, ⟨2048, 3, 0⟩, 0⟩, ⟨[Char.ofNat 0x1F600], ⟨2048, 4, 0⟩, 2⟩] :=
  (parseDirectoryEntries_encode [narrowDescriptor, wideDescriptor] 50 (by decide +kernel)).1

end Udf
end Theos
