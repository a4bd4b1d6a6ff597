import Theos.Base.Rust
import Theos.Regf.Termination

/-!
# The parser stays inside the hive

`Hive.lean` models what the parser returns.  Here its functions are written down
once more with every index, slice and sum as the machine carries it out: an index
or a slice out of range and a 64-bit overflow are panics, and `checked_add` gives
an error.  Each of these functions returns what the one without the checks
returns (`walkKey_eq`, `parse_eq_lifted`), at every depth of the recursion and for
every string of bytes, so that no check ever fails.

The bounds come from the widths of the fields: an offset has 32 bits, so that the
start and the end of a cell are below 2^34, and the number of entries of a list
has 16 or 32 bits.
-/

namespace Theos
namespace Regf

open Base Rust

/-- A result of the functions that do not panic. -/
def lifted {α : Type} : Except Error α → Rust Error α
  | .ok a => .ok a
  | .error e => err e

/-! ## The functions with their checks -/

namespace Checked

/-- `bytes[i]`. -/
def index (bytes : Bytes) (i : Nat) : Rust Error UInt8 :=
  orPanic bytes[i]?

/-- `&bytes[start..stop]`. -/
def range (bytes : Bytes) (start stop : Nat) : Rust Error Bytes :=
  orPanic (if start ≤ stop ∧ stop ≤ bytes.length then some (slice bytes start (stop - start))
    else none)

def readBytes (input : Bytes) (offset len : Nat) : Rust Error Bytes := do
  let stop ← okOr .unexpectedEof (addU 64 offset len)
  okOr .unexpectedEof
    (if stop ≤ input.length then some (slice input offset (stop - offset)) else none)

def readU16 (input : Bytes) (offset : Nat) : Rust Error Nat := do
  let bytes ← readBytes input offset 2
  let b0 ← index bytes 0
  let b1 ← index bytes 1
  .ok (ofLE [b0, b1])

def readU32 (input : Bytes) (offset : Nat) : Rust Error Nat := do
  let bytes ← readBytes input offset 4
  let b0 ← index bytes 0
  let b1 ← index bytes 1
  let b2 ← index bytes 2
  let b3 ← index bytes 3
  .ok (ofLE [b0, b1, b2, b3])

def readI32Abs (input : Bytes) (offset : Nat) : Rust Error Nat := do
  let n ← readU32 input offset
  .ok (if n < 2 ^ 31 then n else 2 ^ 32 - n)

/-- The units of `count` pairs of bytes. -/
def utf16Units : Nat → Bytes → Rust Error (List Nat)
  | 0, _ => .ok []
  | count + 1, bytes => do
    let pair := bytes.take 2
    let b0 ← index pair 0
    let b1 ← index pair 1
    let rest ← utf16Units count (bytes.drop 2)
    .ok ((b0.toNat + 256 * b1.toNat) :: rest)

def decodeUtf16le (bytes : Bytes) : Rust Error Text :=
  if bytes.length % 2 ≠ 0 then err .unsupportedEncoding
  else do
    let units ← utf16Units (bytes.length / 2) bytes
    lifted (decodeUtf16 units)

def decodeName (compressed : Bool) (bytes : Bytes) : Rust Error Text :=
  if compressed then .ok (decodeAscii bytes) else decodeUtf16le bytes

def cellPayload (bytes : Bytes) (relOffset : Nat) : Rust Error Bytes := do
  let abs ← okOr .unexpectedEof (addU 64 0x1000 relOffset)
  let cellSize ← readI32Abs bytes abs
  if cellSize < 4 then err .invalidHive
  else do
    let start ← orPanic (addU 64 abs 4)
    let stop ← okOr .unexpectedEof (addU 64 abs cellSize)
    if bytes.length < stop ∨ stop < start then err .unexpectedEof
    else range bytes start stop

def readValueData (bytes : Bytes) (dataLenRaw dataOffset : Nat) : Rust Error Bytes :=
  let dataLen := dataLenRaw % 2 ^ 31
  if dataLen = 0 then .ok []
  else if 2 ^ 31 ≤ dataLenRaw then range (toLE 4 dataOffset) 0 (min dataLen 4)
  else do
    let payload ← cellPayload bytes dataOffset
    range payload 0 (min dataLen payload.length)

def valueName (vk : Bytes) (nameLen flags : Nat) : Rust Error Text :=
  if nameLen = 0 then .ok []
  else do
    let name ← readBytes vk 0x18 nameLen
    decodeName (flags % 2 = 1) name

def readValue (bytes : Bytes) (valueOffset : Nat) : Rust Error (Option (Text × Value)) := do
  let vk ← cellPayload bytes valueOffset
  if vk.length < 0x18 then .ok none
  else do
    let tag ← range vk 0 2
    if tag ≠ vkTag then .ok none
    else do
      let nameLen ← readU16 vk 0x02
      let dataLenRaw ← readU32 vk 0x04
      let dataOffset ← readU32 vk 0x08
      let ty ← readU32 vk 0x0c
      let flags ← readU16 vk 0x10
      let name ← valueName vk nameLen flags
      let data ← readValueData bytes dataLenRaw dataOffset
      .ok (some (name, ⟨ty, data⟩))

def extractLoop (bytes list : Bytes) (keyPath : Text) : Nat → Nat → Hive → Rust Error Hive
  | 0, _, hive => .ok hive
  | count + 1, i, hive => do
    let pos ← orPanic (mulU 64 i 4)
    let valueOffset ← readU32 list pos
    match ← readValue bytes valueOffset with
    | none => extractLoop bytes list keyPath count (i + 1) hive
    | some (name, value) =>
      extractLoop bytes list keyPath count (i + 1) (hive.insertValue keyPath name value)

def extractValues (bytes : Bytes) (nk : NkMeta) (keyPath : Text) (hive : Hive) :
    Rust Error Hive :=
  if nk.valueCount = 0 ∨ nk.valueListOffset = offsetNone then .ok hive
  else do
    let list ← cellPayload bytes nk.valueListOffset
    let size ← orPanic (mulU 64 nk.valueCount 4)
    if list.length < size then err .unexpectedEof
    else extractLoop bytes list keyPath nk.valueCount 0 hive

/-- `0x04 + i * stride`. -/
def entryOffset (stride i : Nat) : Rust Error Nat := do
  let below ← orPanic (mulU 64 i stride)
  orPanic (addU 64 0x04 below)

def readOffsets (payload : Bytes) (stride : Nat) : Nat → Nat → Rust Error (List Nat)
  | 0, _ => .ok []
  | count + 1, i => do
    let pos ← entryOffset stride i
    let offset ← readU32 payload pos
    let rest ← readOffsets payload stride count (i + 1)
    .ok (offset :: rest)

def readSubkeyList (bytes : Bytes) (listOffset : Nat) : Rust Error SubkeyList := do
  let payload ← cellPayload bytes listOffset
  if payload.length < 4 then err .unexpectedEof
  else do
    let sig ← range payload 0 2
    let count ← readU16 payload 0x02
    if sig = liTag then do
      let offsets ← readOffsets payload 4 count 0
      .ok (.leaf offsets)
    else if sig = lfTag ∨ sig = lhTag then do
      let offsets ← readOffsets payload 8 count 0
      .ok (.leaf offsets)
    else if sig = riTag then .ok (.index payload count)
    else .ok (.leaf [])

/-- What a recursive function answers; `none` when the depth is not enough. -/
abbrev Outcome (α : Type) := Option (Rust Error α)

/-- The loop over an index, from its `i`-th entry on. -/
def indexLoop (offsetsOf : Nat → Outcome (List Nat)) (payload : Bytes) :
    Nat → Nat → Outcome (List Nat)
  | 0, _ => some (.ok [])
  | count + 1, i =>
    match entryOffset 4 i >>= readU32 payload with
    | .error e => some (.error e)
    | .ok child =>
      match offsetsOf child with
      | none => none
      | some (.error e) => some (.error e)
      | some (.ok out) =>
        (indexLoop offsetsOf payload count (i + 1)).map fun rest => rest.map (out ++ ·)

def subkeyOffsets (bytes : Bytes) : Nat → Nat → Outcome (List Nat)
  | 0, _ => none
  | depth + 1, listOffset =>
    match readSubkeyList bytes listOffset with
    | .error e => some (.error e)
    | .ok (.leaf offsets) => some (.ok offsets)
    | .ok (.index payload count) => indexLoop (subkeyOffsets bytes depth) payload count 0

def keyName (cell : Bytes) (nameLen flags : Nat) : Rust Error Text :=
  if nameLen = 0 then .ok []
  else do
    let name ← readBytes cell 0x4c nameLen
    decodeName (flags / 0x20 % 2 = 1) name

def readKey (bytes : Bytes) (keyOffset : Nat) : Rust Error (NkMeta × Text) := do
  let cell ← cellPayload bytes keyOffset
  if cell.length < 0x4c then err .invalidHive
  else do
    let tag ← range cell 0 2
    if tag ≠ nkTag then err .invalidHive
    else do
      let flags ← readU16 cell 0x02
      let subkeyCount ← readU32 cell 0x14
      let subkeyListOffset ← readU32 cell 0x1c
      let valueCount ← readU32 cell 0x24
      let valueListOffset ← readU32 cell 0x28
      let nameLen ← readU16 cell 0x48
      let name ← keyName cell nameLen flags
      .ok (⟨flags, subkeyCount, subkeyListOffset, valueCount, valueListOffset⟩, name)

def walkLoop (walk : Nat → Hive → Outcome Hive) : List Nat → Hive → Outcome Hive
  | [], hive => some (.ok hive)
  | offset :: rest, hive =>
    match walk offset hive with
    | some (.ok hive) => walkLoop walk rest hive
    | stopped => stopped

def walkKey (bytes : Bytes) : Nat → Nat → Text → Hive → Outcome Hive
  | 0, _, _, _ => none
  | depth + 1, keyOffset, path, hive =>
    match readKey bytes keyOffset with
    | .error e => some (.error e)
    | .ok (nk, keyName) =>
      let nextPath := joinPath path keyName
      match extractValues bytes nk nextPath (hive.ensureKey nextPath) with
      | .error e => some (.error e)
      | .ok hive =>
        if nk.subkeyCount = 0 ∨ nk.subkeyListOffset = offsetNone then some (.ok hive)
        else
          match subkeyOffsets bytes depth nk.subkeyListOffset with
          | none => none
          | some (.error e) => some (.error e)
          | some (.ok offsets) =>
            walkLoop (fun offset hive => walkKey bytes depth offset nextPath hive)
              offsets hive

def rootCellOffset (bytes : Bytes) : Rust Error Nat :=
  if bytes.length < 0x1000 + 0x28 then err .unexpectedEof
  else do
    let tag ← range bytes 0 4
    if tag ≠ [0x72, 0x65, 0x67, 0x66] then err .invalidHive
    else readU32 bytes 0x24

def parse (bytes : Bytes) (depth : Nat) : Outcome Hive :=
  match rootCellOffset bytes with
  | .error e => some (.error e)
  | .ok root => walkKey bytes depth root [] .empty

end Checked

/-! ## Reading -/

section Lifted

variable {α β : Type}

@[simp] theorem lifted_ok
    (a : α) :
    lifted (.ok a) = .ok a := rfl

@[simp] theorem lifted_error
    (e : Error) :
    (lifted (.error e) : Rust Error α) = err e := rfl

theorem lifted_ne_panic
    (x : Except Error α) :
    lifted x ≠ Rust.panic := by
  cases x with
  | error e =>
    simp [err, Rust.panic]
  | ok a =>
    simp [Rust.panic]

/-- A computation and its lifting go on alike, if they do so from what was read. -/
theorem lifted_bind_congr {x : Except Error α} {f : α → Except Error β} {g : α → Rust Error β}
    (h : ∀ a, x = .ok a → g a = lifted (f a)) :
    lifted x >>= g = lifted (x >>= f) := by
  cases x with
  | error e =>
    rfl
  | ok a =>
    exact h a rfl

end Lifted

theorem length_of_readBytes {input bytes : Bytes} {offset len : Nat}
    (h : readBytes input offset len = .ok bytes) :
    bytes.length = len := by
  rw [readBytes] at h
  split at h
  next hle =>
    cases h
    exact length_slice hle
  next =>
    cases h

theorem readU16_lt {input : Bytes} {offset n : Nat}
    (h : readU16 input offset = .ok n) :
    n < 2 ^ 16 := by
  rw [readU16] at h
  cases hread : readBytes input offset 2 with
  | error e =>
    rw [hread] at h
    cases h
  | ok bytes =>
    rw [hread] at h
    cases h
    have hlt := ofLE_lt bytes
    rwa [length_of_readBytes hread] at hlt

theorem readI32Abs_le {input : Bytes} {offset n : Nat}
    (h : readI32Abs input offset = .ok n) :
    n ≤ 2 ^ 31 := by
  rw [readI32Abs] at h
  cases hread : readU32 input offset with
  | error e =>
    rw [hread] at h
    cases h
  | ok raw =>
    rw [hread] at h
    have hn : (if raw < 2 ^ 31 then raw else 2 ^ 32 - raw) = n := Except.ok.inj h
    split at hn <;> omega

namespace Checked

theorem range_eq {bytes : Bytes} {start stop : Nat}
    (hle : start ≤ stop)
    (hstop : stop ≤ bytes.length) :
    range bytes start stop = .ok (slice bytes start (stop - start)) := by
  rw [range, if_pos ⟨hle, hstop⟩, orPanic_some]

theorem readBytes_eq {input : Bytes} {offset len : Nat}
    (h : offset + len < 2 ^ 64) :
    readBytes input offset len = lifted (Regf.readBytes input offset len) := by
  rw [readBytes, addU, if_pos h, Regf.readBytes, okOr_some, ok_bind, Nat.add_sub_cancel_left]
  split <;> rfl

theorem readU16_eq {input : Bytes} {offset : Nat}
    (h : offset + 2 < 2 ^ 64) :
    readU16 input offset = lifted (Regf.readU16 input offset) := by
  rw [readU16, readBytes_eq h, Regf.readU16]
  cases hread : Regf.readBytes input offset 2 with
  | error e =>
    rfl
  | ok bytes =>
    have hlength := length_of_readBytes hread
    match bytes, hlength with
    | [b0, b1], _ => rfl

theorem readU32_eq {input : Bytes} {offset : Nat}
    (h : offset + 4 < 2 ^ 64) :
    readU32 input offset = lifted (Regf.readU32 input offset) := by
  rw [readU32, readBytes_eq h, Regf.readU32]
  cases hread : Regf.readBytes input offset 4 with
  | error e =>
    rfl
  | ok bytes =>
    have hlength := length_of_readBytes hread
    rcases bytes with _ | ⟨b0, _ | ⟨b1, _ | ⟨b2, _ | ⟨b3, _ | ⟨b4, bytes⟩⟩⟩⟩⟩
    all_goals first | (simp at hlength; done) | rfl

theorem readI32Abs_eq {input : Bytes} {offset : Nat}
    (h : offset + 4 < 2 ^ 64) :
    readI32Abs input offset = lifted (Regf.readI32Abs input offset) := by
  rw [readI32Abs, readU32_eq h, Regf.readI32Abs]
  cases Regf.readU32 input offset <;> rfl

theorem utf16Units_eq {count : Nat} {bytes : Bytes}
    (h : bytes.length = 2 * count) :
    utf16Units count bytes = .ok (Base.utf16Units bytes) := by
  induction count generalizing bytes with
  | zero =>
    have hnil : bytes = [] := List.eq_nil_of_length_eq_zero h
    rw [hnil]
    rfl
  | succ count ih =>
    match bytes, h with
    | b0 :: b1 :: rest, h =>
      have hrest : utf16Units count rest = .ok (Base.utf16Units rest) :=
        ih (by simp only [List.length_cons] at h; omega)
      show (utf16Units count rest >>= fun units =>
        (.ok ((b0.toNat + 256 * b1.toNat) :: units) : Rust Error (List Nat))) = _
      rw [hrest]
      rfl

theorem decodeName_eq
    (compressed : Bool) (bytes : Bytes) :
    decodeName compressed bytes = lifted (Regf.decodeName compressed bytes) := by
  rw [decodeName, Regf.decodeName]
  split
  · rfl
  · rw [decodeUtf16le, Regf.decodeUtf16le]
    split
    · rfl
    · rw [utf16Units_eq (by omega), ok_bind]

theorem cellPayload_eq {bytes : Bytes} {relOffset : Nat}
    (h : relOffset < 2 ^ 32) :
    cellPayload bytes relOffset = lifted (Regf.cellPayload bytes relOffset) := by
  rw [cellPayload, addU, if_pos (by omega), okOr_some, ok_bind, readI32Abs_eq (by omega),
    Regf.cellPayload]
  cases hsize : Regf.readI32Abs bytes (0x1000 + relOffset) with
  | error e =>
    rfl
  | ok cellSize =>
    have hle := readI32Abs_le hsize
    rw [lifted_ok, ok_bind]
    dsimp only
    split
    · rfl
    next hfour =>
      rw [addU, if_pos (by omega), orPanic_some, ok_bind, addU, if_pos (by omega), okOr_some,
        ok_bind]
      by_cases hlong : bytes.length < 0x1000 + relOffset + cellSize
      · rw [if_pos (.inl hlong), if_pos hlong]
        rfl
      · rw [if_neg (by omega), if_neg hlong, range_eq (by omega) (by omega), lifted_ok,
          Nat.add_sub_add_left]

/-! ## Values -/

theorem readValueData_eq {bytes : Bytes} {dataOffset : Nat} (dataLenRaw : Nat)
    (h : dataOffset < 2 ^ 32) :
    readValueData bytes dataLenRaw dataOffset =
      lifted (Regf.readValueData bytes dataLenRaw dataOffset) := by
  rw [readValueData, Regf.readValueData]
  split
  · rfl
  · split
    · rw [range_eq (Nat.zero_le _) (by rw [length_toLE]; omega)]
      rfl
    · rw [cellPayload_eq h]
      cases Regf.cellPayload bytes dataOffset with
      | error e =>
        rfl
      | ok payload =>
        rw [lifted_ok, ok_bind, range_eq (Nat.zero_le _) (by omega)]
        rfl

theorem valueName_eq {vk : Bytes} {nameLen : Nat} (flags : Nat)
    (h : nameLen < 2 ^ 16) :
    valueName vk nameLen flags = lifted (Regf.valueName vk nameLen flags) := by
  rw [valueName, Regf.valueName]
  split
  · rfl
  · rw [readBytes_eq (by omega)]
    cases Regf.readBytes vk 0x18 nameLen with
    | error e =>
      rfl
    | ok name =>
      exact decodeName_eq _ name

theorem readValue_eq {bytes : Bytes} {valueOffset : Nat}
    (h : valueOffset < 2 ^ 32) :
    readValue bytes valueOffset = lifted (Regf.readValue bytes valueOffset) := by
  rw [readValue, Regf.readValue, cellPayload_eq h]
  refine lifted_bind_congr fun vk _ => ?_
  by_cases hshort : vk.length < 0x18
  · rw [if_pos hshort, if_pos (.inl hshort)]
    rfl
  · rw [if_neg hshort, range_eq (Nat.zero_le 2) (by omega), ok_bind]
    by_cases htag : slice vk 0 2 = vkTag
    · rw [if_neg (not_not.mpr htag), if_neg (by simp [hshort, htag]),
        readU16_eq (by omega), readU32_eq (by omega), readU32_eq (by omega),
        readU32_eq (by omega), readU16_eq (by omega)]
      refine lifted_bind_congr fun nameLen hname => ?_
      refine lifted_bind_congr fun dataLenRaw _ => ?_
      refine lifted_bind_congr fun dataOffset hdata => ?_
      refine lifted_bind_congr fun ty _ => ?_
      refine lifted_bind_congr fun flags _ => ?_
      rw [valueName_eq flags (readU16_lt hname)]
      refine lifted_bind_congr fun name _ => ?_
      rw [readValueData_eq dataLenRaw (readU32_lt hdata)]
      exact lifted_bind_congr fun data _ => rfl
    · rw [if_pos htag, if_pos (.inr htag)]
      rfl

theorem extractLoop_eq {bytes list : Bytes} {keyPath : Text} {count i : Nat}
    (h : i + count < 2 ^ 32) (hive : Hive) :
    extractLoop bytes list keyPath count i hive =
      lifted (Regf.extractLoop bytes list keyPath count i hive) := by
  induction count generalizing i hive with
  | zero =>
    rfl
  | succ count ih =>
    rw [extractLoop, mulU, if_pos (by omega), orPanic_some, ok_bind, readU32_eq (by omega),
      Regf.extractLoop]
    cases hoffset : Regf.readU32 list (i * 4) with
    | error e =>
      rfl
    | ok valueOffset =>
      rw [lifted_ok, ok_bind, readValue_eq (readU32_lt hoffset)]
      dsimp only
      rcases Regf.readValue bytes valueOffset with e | (_ | ⟨name, value⟩)
      · rfl
      · exact ih (by omega) hive
      · exact ih (by omega) _

theorem extractValues_eq {bytes : Bytes} {nk : NkMeta} {keyPath : Text}
    (hcount : nk.valueCount < 2 ^ 32)
    (hlist : nk.valueListOffset < 2 ^ 32) (hive : Hive) :
    extractValues bytes nk keyPath hive = lifted (Regf.extractValues bytes nk keyPath hive) := by
  rw [extractValues, Regf.extractValues]
  split
  · rfl
  · rw [cellPayload_eq hlist]
    cases Regf.cellPayload bytes nk.valueListOffset with
    | error e =>
      rfl
    | ok list =>
      rw [lifted_ok, ok_bind, mulU, if_pos (by omega), orPanic_some, ok_bind]
      dsimp only
      split
      · rfl
      · exact extractLoop_eq (by omega) hive

/-! ## Lists of subkeys -/

theorem entryOffset_eq {stride i : Nat}
    (h : 4 + i * stride < 2 ^ 64) :
    entryOffset stride i = .ok (4 + i * stride) := by
  rw [entryOffset, mulU, if_pos (by omega), orPanic_some, ok_bind, addU, if_pos h, orPanic_some]

theorem readOffsets_eq {payload : Bytes} {stride : Nat} (hstride : stride ≤ 8) {count i : Nat}
    (h : i + count < 2 ^ 32) :
    readOffsets payload stride count i =
      lifted (Regf.readOffsets payload stride count (4 + i * stride)) := by
  induction count generalizing i with
  | zero =>
    rfl
  | succ count ih =>
    have hpos : i * stride ≤ i * 8 := Nat.mul_le_mul_left i hstride
    have hnext : 4 + i * stride + stride = 4 + (i + 1) * stride := by
      rw [Nat.succ_mul]
      omega
    rw [readOffsets, entryOffset_eq (by omega), ok_bind, readU32_eq (by omega),
      Regf.readOffsets]
    cases Regf.readU32 payload (4 + i * stride) with
    | error e =>
      rfl
    | ok offset =>
      rw [lifted_ok, ok_bind, ih (by omega), hnext]
      dsimp only
      cases Regf.readOffsets payload stride count (4 + (i + 1) * stride) <;> rfl

theorem readSubkeyList_eq {bytes : Bytes} {listOffset : Nat}
    (h : listOffset < 2 ^ 32) :
    readSubkeyList bytes listOffset = lifted (Regf.readSubkeyList bytes listOffset) := by
  rw [readSubkeyList, Regf.readSubkeyList, cellPayload_eq h]
  refine lifted_bind_congr fun payload _ => ?_
  split
  · rfl
  · rw [range_eq (Nat.zero_le 2) (by omega), ok_bind, readU16_eq (by omega)]
    refine lifted_bind_congr fun count hcount => ?_
    have hsmall := readU16_lt hcount
    have hleaf : ∀ stride, stride ≤ 8 →
        (readOffsets payload stride count 0 >>= fun offsets =>
          (.ok (.leaf offsets) : Rust Error SubkeyList)) =
        lifted ((Regf.readOffsets payload stride count 0x04).map .leaf) := by
      intro stride hstride
      rw [readOffsets_eq hstride (by omega), Nat.zero_mul, Nat.add_zero]
      cases Regf.readOffsets payload stride count 4 <;> rfl
    dsimp only
    split
    · exact hleaf 4 (by omega)
    · split
      · exact hleaf 8 (by omega)
      · split <;> rfl

theorem indexLoop_eq {checkedOf : Nat → Outcome (List Nat)}
    {offsetsOf : Nat → Regf.Outcome (List Nat)} {payload : Bytes}
    (hcalls : ∀ child, child < 2 ^ 32 → checkedOf child = (offsetsOf child).map lifted)
    {count i : Nat}
    (h : i + count < 2 ^ 32) :
    indexLoop checkedOf payload count i =
      (Regf.indexLoop offsetsOf payload count (4 + i * 4)).map lifted := by
  induction count generalizing i with
  | zero =>
    rfl
  | succ count ih =>
    have hnext : 4 + i * 4 + 4 = 4 + (i + 1) * 4 := by omega
    rw [indexLoop, entryOffset_eq (by omega), ok_bind, readU32_eq (by omega), Regf.indexLoop]
    cases hchild : Regf.readU32 payload (4 + i * 4) with
    | error e =>
      rfl
    | ok child =>
      rw [lifted_ok]
      dsimp only
      rw [hcalls child (readU32_lt hchild)]
      rcases offsetsOf child with _ | (e | out)
      · rfl
      · rfl
      · dsimp only [Option.map_some, lifted_ok]
        rw [ih (by omega), hnext]
        rcases Regf.indexLoop offsetsOf payload count (4 + (i + 1) * 4) with _ | (e | rest) <;> rfl

theorem count_of_readSubkeyList {bytes payload : Bytes} {listOffset count : Nat}
    (h : Regf.readSubkeyList bytes listOffset = .ok (.index payload count)) :
    count < 2 ^ 16 := by
  have hleaf : ∀ read : Except Error (List Nat),
      read.map SubkeyList.leaf ≠ .ok (.index payload count) := by
    rintro (e | read) hread <;> cases hread
  rw [Regf.readSubkeyList] at h
  obtain ⟨cell, -, h⟩ := except_bind_eq_ok.mp h
  split at h
  · cases h
  · obtain ⟨n, hn, h⟩ := except_bind_eq_ok.mp h
    dsimp only at h
    split at h
    · exact absurd h (hleaf _)
    · split at h
      · exact absurd h (hleaf _)
      · split at h
        · cases h
          exact readU16_lt hn
        · cases h

theorem subkeyOffsets_eq {bytes : Bytes} (depth : Nat) {listOffset : Nat}
    (h : listOffset < 2 ^ 32) :
    subkeyOffsets bytes depth listOffset =
      (Regf.subkeyOffsets bytes depth listOffset).map lifted := by
  induction depth generalizing listOffset with
  | zero =>
    rfl
  | succ depth ih =>
    rw [subkeyOffsets, readSubkeyList_eq h, Regf.subkeyOffsets]
    cases hlist : Regf.readSubkeyList bytes listOffset with
    | error e =>
      rfl
    | ok list =>
      cases list with
      | leaf offsets =>
        rfl
      | index payload count =>
        have hcount := count_of_readSubkeyList hlist
        exact indexLoop_eq (fun child hchild => ih hchild) (by omega)

/-! ## Keys -/

theorem keyName_eq {cell : Bytes} {nameLen : Nat} (flags : Nat)
    (h : nameLen < 2 ^ 16) :
    keyName cell nameLen flags = lifted (Regf.keyName cell nameLen flags) := by
  rw [keyName, Regf.keyName]
  split
  · rfl
  · rw [readBytes_eq (by omega)]
    cases Regf.readBytes cell 0x4c nameLen with
    | error e =>
      rfl
    | ok name =>
      exact decodeName_eq _ name

theorem readKey_eq {bytes : Bytes} {keyOffset : Nat}
    (h : keyOffset < 2 ^ 32) :
    readKey bytes keyOffset = lifted (Regf.readKey bytes keyOffset) := by
  rw [readKey, Regf.readKey, cellPayload_eq h]
  refine lifted_bind_congr fun cell _ => ?_
  by_cases hshort : cell.length < 0x4c
  · rw [if_pos hshort, if_pos (.inl hshort)]
    rfl
  · rw [if_neg hshort, range_eq (Nat.zero_le 2) (by omega), ok_bind]
    by_cases htag : slice cell 0 2 = nkTag
    · rw [if_neg (not_not.mpr htag), if_neg (by simp [hshort, htag]),
        readU16_eq (by omega), readU32_eq (by omega), readU32_eq (by omega),
        readU32_eq (by omega), readU32_eq (by omega), readU16_eq (by omega)]
      refine lifted_bind_congr fun flags _ => ?_
      refine lifted_bind_congr fun subkeyCount _ => ?_
      refine lifted_bind_congr fun subkeyListOffset _ => ?_
      refine lifted_bind_congr fun valueCount _ => ?_
      refine lifted_bind_congr fun valueListOffset _ => ?_
      refine lifted_bind_congr fun nameLen hname => ?_
      rw [keyName_eq flags (readU16_lt hname)]
      exact lifted_bind_congr fun name _ => rfl
    · rw [if_pos htag, if_pos (.inr htag)]
      rfl

/-- The fields of a key cell have 32 bits. -/
theorem fields_of_readKey {bytes : Bytes} {keyOffset : Nat} {nk : NkMeta} {name : Text}
    (h : Regf.readKey bytes keyOffset = .ok (nk, name)) :
    nk.subkeyListOffset < 2 ^ 32 ∧ nk.valueCount < 2 ^ 32 ∧ nk.valueListOffset < 2 ^ 32 := by
  rw [Regf.readKey] at h
  obtain ⟨cell, -, h⟩ := except_bind_eq_ok.mp h
  split at h
  · cases h
  · obtain ⟨flags, -, h⟩ := except_bind_eq_ok.mp h
    obtain ⟨subkeyCount, -, h⟩ := except_bind_eq_ok.mp h
    obtain ⟨subkeyListOffset, hlist, h⟩ := except_bind_eq_ok.mp h
    obtain ⟨valueCount, hcount, h⟩ := except_bind_eq_ok.mp h
    obtain ⟨valueListOffset, hvalues, h⟩ := except_bind_eq_ok.mp h
    obtain ⟨nameLen, -, h⟩ := except_bind_eq_ok.mp h
    obtain ⟨decoded, -, h⟩ := except_bind_eq_ok.mp h
    cases h
    exact ⟨readU32_lt hlist, readU32_lt hcount, readU32_lt hvalues⟩

theorem walkLoop_eq {checkedWalk : Nat → Hive → Outcome Hive}
    {walk : Nat → Hive → Regf.Outcome Hive} {offsets : List Nat}
    (h : ∀ offset ∈ offsets, ∀ hive, checkedWalk offset hive = (walk offset hive).map lifted)
    (hive : Hive) :
    walkLoop checkedWalk offsets hive = (Regf.walkLoop walk offsets hive).map lifted := by
  induction offsets generalizing hive with
  | nil =>
    rfl
  | cons offset rest ih =>
    obtain ⟨hfirst, hrest⟩ := List.forall_mem_cons.mp h
    rw [walkLoop, hfirst, Regf.walkLoop]
    rcases walk offset hive with _ | (e | next)
    · rfl
    · rfl
    · exact ih hrest next

theorem walkKey_eq {bytes : Bytes} (depth : Nat) {keyOffset : Nat}
    (h : keyOffset < 2 ^ 32) (path : Text) (hive : Hive) :
    walkKey bytes depth keyOffset path hive =
      (Regf.walkKey bytes depth keyOffset path hive).map lifted := by
  induction depth generalizing keyOffset path hive with
  | zero =>
    rfl
  | succ depth ih =>
    rw [walkKey, readKey_eq h, Regf.walkKey]
    cases hkey : Regf.readKey bytes keyOffset with
    | error e =>
      rfl
    | ok key =>
      obtain ⟨nk, name⟩ := key
      obtain ⟨hlist, hcount, hvalues⟩ := fields_of_readKey hkey
      rw [lifted_ok]
      dsimp only
      rw [extractValues_eq hcount hvalues]
      cases Regf.extractValues bytes nk (joinPath path name)
          (hive.ensureKey (joinPath path name)) with
      | error e =>
        rfl
      | ok filled =>
        rw [lifted_ok]
        dsimp only
        split
        · rfl
        · rw [subkeyOffsets_eq depth hlist]
          cases hoffsets : Regf.subkeyOffsets bytes depth nk.subkeyListOffset with
          | none =>
            rfl
          | some result =>
            cases result with
            | error e =>
              rfl
            | ok offsets =>
              have hsmall := subkeyOffsets_lt hoffsets
              exact walkLoop_eq (fun offset ho hive => ih (hsmall offset ho) _ hive) filled

theorem rootCellOffset_eq
    (bytes : Bytes) :
    rootCellOffset bytes = lifted (Regf.rootCellOffset bytes) := by
  rw [rootCellOffset, Regf.rootCellOffset]
  split
  · rfl
  · rw [range_eq (Nat.zero_le 4) (by omega), ok_bind, readU32_eq (by omega)]
    split <;> rfl

end Checked

/-- The parser with its checks returns what the parser without them returns. -/
theorem parse_eq_lifted
    (bytes : Bytes) (depth : Nat) :
    Checked.parse bytes depth = (parse bytes depth).map lifted := by
  rw [Checked.parse, Checked.rootCellOffset_eq, parse]
  cases hroot : rootCellOffset bytes with
  | error e =>
    rfl
  | ok root =>
    exact Checked.walkKey_eq depth (rootCellOffset_lt hroot) [] .empty

theorem map_lifted_ne_panic {α : Type}
    (x : Outcome α) :
    x.map lifted ≠ some Rust.panic := by
  cases x with
  | none =>
    simp
  | some result =>
    simpa using lifted_ne_panic result

/-- No index, slice or sum of the parser goes wrong: not in the whole of it, and not in a call
of its functions with any offsets, to any depth of the recursion. -/
theorem parser_stays_inside (bytes : Bytes) (depth : Nat) (offset : UInt32) :
    Checked.parse bytes depth ≠ some Rust.panic ∧
    (∀ path hive, Checked.walkKey bytes depth offset.toNat path hive ≠ some Rust.panic) ∧
    Checked.subkeyOffsets bytes depth offset.toNat ≠ some Rust.panic ∧
    (∀ flags subkeyCount subkeyListOffset valueCount : UInt32, ∀ keyPath hive,
      Checked.extractValues bytes ⟨flags.toNat, subkeyCount.toNat, subkeyListOffset.toNat,
        valueCount.toNat, offset.toNat⟩ keyPath hive ≠ Rust.panic) ∧
    (∀ dataLenRaw : UInt32,
      Checked.readValueData bytes dataLenRaw.toNat offset.toNat ≠ Rust.panic) ∧
    Checked.cellPayload bytes offset.toNat ≠ Rust.panic := by
  have hoffset : offset.toNat < 2 ^ 32 := offset.toNat_lt
  refine ⟨?_, fun path hive => ?_, ?_, fun flags _ _ valueCount keyPath hive => ?_,
    fun dataLenRaw => ?_, ?_⟩
  · rw [parse_eq_lifted]
    exact map_lifted_ne_panic _
  · rw [Checked.walkKey_eq depth hoffset]
    exact map_lifted_ne_panic _
  · rw [Checked.subkeyOffsets_eq depth hoffset]
    exact map_lifted_ne_panic _
  · rw [Checked.extractValues_eq valueCount.toNat_lt hoffset]
    exact lifted_ne_panic _
  · rw [Checked.readValueData_eq dataLenRaw.toNat hoffset]
    exact lifted_ne_panic _
  · rw [Checked.cellPayload_eq hoffset]
    exact lifted_ne_panic _

end Regf
end Theos
