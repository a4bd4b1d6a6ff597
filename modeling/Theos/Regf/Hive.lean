import Mathlib.Logic.Function.Basic
import Theos.Base.Endian

/-!
# Registry hives

The model of `lib/regf`: the parser of the registry's file format and the table
of keys and values it fills.  Offsets and sizes come from the file, and the two
recursive functions, over subkeys and over index lists, follow them without a
bound.  Here they take a depth to which they are unfolded, and answer `none`
when it is not enough.
-/

namespace Theos
namespace Regf

open Base

inductive Error where
  | invalidHive
  | unexpectedEof
  | unsupportedEncoding
deriving DecidableEq, Repr

/-- A string, as its characters. -/
abbrev Text := List Char

structure Value where
  ty : Nat
  data : Bytes
deriving DecidableEq, Repr

/-- The values of each key, by normalized path and name. -/
structure Hive where
  keys : Text → Option (Text → Option Value)

/-- What a recursive function answers: nothing if the depth was not enough. -/
abbrev Outcome (α : Type) := Option (Except Error α)

/-! ## The table -/

def normalizeName (name : Text) : Text :=
  (name.map fun c => if c = '/' then '\\' else c).map Char.toLower

namespace Hive

def empty : Hive where
  keys := fun _ => none

/-- The values under a normalized path, or none yet: `entry(..).or_default()`. -/
def valuesAt (hive : Hive) (key : Text) : Text → Option Value :=
  (hive.keys key).getD fun _ => none

def insertValue (hive : Hive) (keyPath valueName : Text) (value : Value) : Hive where
  keys := Function.update hive.keys (normalizeName keyPath)
    (some (Function.update (hive.valuesAt (normalizeName keyPath)) (normalizeName valueName)
      (some value)))

def ensureKey (hive : Hive) (keyPath : Text) : Hive where
  keys := Function.update hive.keys (normalizeName keyPath)
    (some (hive.valuesAt (normalizeName keyPath)))

end Hive

/-! ## Reading -/

def readBytes (input : Bytes) (offset len : Nat) : Except Error Bytes :=
  if offset + len ≤ input.length then .ok (slice input offset len)
  else .error .unexpectedEof

def readU16 (input : Bytes) (offset : Nat) : Except Error Nat :=
  (readBytes input offset 2).map ofLE

def readU32 (input : Bytes) (offset : Nat) : Except Error Nat :=
  (readBytes input offset 4).map ofLE

/-- `read_i32(..).unsigned_abs()`. -/
def readI32Abs (input : Bytes) (offset : Nat) : Except Error Nat :=
  (readU32 input offset).map fun n => if n < 2 ^ 31 then n else 2 ^ 32 - n

/-- One character for each byte. -/
def decodeAscii (bytes : Bytes) : Text :=
  bytes.map fun b => Char.ofNat b.toNat

/-- `char::decode_utf16`, with an unpaired surrogate as an error. -/
def decodeUtf16 : List Nat → Except Error Text
  | [] => .ok []
  | u :: rest =>
    if u < 0xD800 ∨ 0xDFFF < u then (decodeUtf16 rest).map (Char.ofNat u :: ·)
    else if 0xDC00 ≤ u then .error .unsupportedEncoding
    else
      match rest with
      | [] => .error .unsupportedEncoding
      | low :: rest =>
        if 0xDC00 ≤ low ∧ low ≤ 0xDFFF then
          (decodeUtf16 rest).map
            (Char.ofNat (0x10000 + (u - 0xD800) * 0x400 + (low - 0xDC00)) :: ·)
        else .error .unsupportedEncoding

def decodeUtf16le (bytes : Bytes) : Except Error Text :=
  if bytes.length % 2 ≠ 0 then .error .unsupportedEncoding
  else decodeUtf16 (utf16Units bytes)

/-- A name, as one byte or two bytes for each character. -/
def decodeName (compressed : Bool) (bytes : Bytes) : Except Error Text :=
  if compressed then .ok (decodeAscii bytes) else decodeUtf16le bytes

/-- The content of the cell at an offset from the first hive bin. -/
def cellPayload (bytes : Bytes) (relOffset : Nat) : Except Error Bytes :=
  let abs := 0x1000 + relOffset
  match readI32Abs bytes abs with
  | .error e => .error e
  | .ok cellSize =>
    if cellSize < 4 then .error .invalidHive
    else if bytes.length < abs + cellSize then .error .unexpectedEof
    else .ok (slice bytes (abs + 4) (cellSize - 4))

/-! ## Values -/

/-- The fields of a key cell. -/
structure NkMeta where
  flags : Nat
  subkeyCount : Nat
  subkeyListOffset : Nat
  valueCount : Nat
  valueListOffset : Nat
deriving DecidableEq, Repr

def offsetNone : Nat := 2 ^ 32 - 1

def readValueData (bytes : Bytes) (dataLenRaw dataOffset : Nat) : Except Error Bytes :=
  let dataLen := dataLenRaw % 2 ^ 31
  if dataLen = 0 then .ok []
  else if 2 ^ 31 ≤ dataLenRaw then .ok ((toLE 4 dataOffset).take (min dataLen 4))
  else
    match cellPayload bytes dataOffset with
    | .error e => .error e
    | .ok payload => .ok (payload.take (min dataLen payload.length))

def nkTag : Bytes := [0x6e, 0x6b]

def vkTag : Bytes := [0x76, 0x6b]

/-- The name of a value, from its cell. -/
def valueName (vk : Bytes) (nameLen flags : Nat) : Except Error Text :=
  if nameLen = 0 then .ok []
  else
    match readBytes vk 0x18 nameLen with
    | .error e => .error e
    | .ok name => decodeName (flags % 2 = 1) name

/-- The value in a cell; `none` if the cell is passed over. -/
def readValue (bytes : Bytes) (valueOffset : Nat) : Except Error (Option (Text × Value)) := do
  let vk ← cellPayload bytes valueOffset
  if vk.length < 0x18 ∨ slice vk 0 2 ≠ vkTag then .ok none
  else
    let nameLen ← readU16 vk 0x02
    let dataLenRaw ← readU32 vk 0x04
    let dataOffset ← readU32 vk 0x08
    let ty ← readU32 vk 0x0c
    let flags ← readU16 vk 0x10
    let name ← valueName vk nameLen flags
    let data ← readValueData bytes dataLenRaw dataOffset
    .ok (some (name, ⟨ty, data⟩))

/-- The loop of `extract_values`, from index `i` on. -/
def extractLoop (bytes list : Bytes) (keyPath : Text) : Nat → Nat → Hive → Except Error Hive
  | 0, _, hive => .ok hive
  | count + 1, i, hive =>
    match readU32 list (i * 4) with
    | .error e => .error e
    | .ok valueOffset =>
      match readValue bytes valueOffset with
      | .error e => .error e
      | .ok none => extractLoop bytes list keyPath count (i + 1) hive
      | .ok (some (name, value)) =>
        extractLoop bytes list keyPath count (i + 1) (hive.insertValue keyPath name value)

def extractValues (bytes : Bytes) (nk : NkMeta) (keyPath : Text) (hive : Hive) :
    Except Error Hive :=
  if nk.valueCount = 0 ∨ nk.valueListOffset = offsetNone then .ok hive
  else
    match cellPayload bytes nk.valueListOffset with
    | .error e => .error e
    | .ok list =>
      if list.length < nk.valueCount * 4 then .error .unexpectedEof
      else extractLoop bytes list keyPath nk.valueCount 0 hive

/-! ## Lists of subkeys -/

/-- A list cell: the offsets of subkeys, or an index of further lists. -/
inductive SubkeyList where
  | leaf (offsets : List Nat)
  | index (payload : Bytes) (count : Nat)
deriving DecidableEq

/-- `count` offsets, each `stride` bytes after the one before it. -/
def readOffsets (payload : Bytes) (stride : Nat) : Nat → Nat → Except Error (List Nat)
  | 0, _ => .ok []
  | count + 1, pos =>
    match readU32 payload pos with
    | .error e => .error e
    | .ok offset => (readOffsets payload stride count (pos + stride)).map (offset :: ·)

def liTag : Bytes := [0x6c, 0x69]

def lfTag : Bytes := [0x6c, 0x66]

def lhTag : Bytes := [0x6c, 0x68]

def riTag : Bytes := [0x72, 0x69]

/-- `subkey_offsets` up to its recursion. -/
def readSubkeyList (bytes : Bytes) (listOffset : Nat) : Except Error SubkeyList := do
  let payload ← cellPayload bytes listOffset
  if payload.length < 4 then .error .unexpectedEof
  else
    let count ← readU16 payload 0x02
    let sig := slice payload 0 2
    if sig = liTag then (readOffsets payload 4 count 0x04).map .leaf
    else if sig = lfTag ∨ sig = lhTag then (readOffsets payload 8 count 0x04).map .leaf
    else if sig = riTag then .ok (.index payload count)
    else .ok (.leaf [])

/-- The loop over an index: the offsets of each list in turn. -/
def indexLoop (offsetsOf : Nat → Outcome (List Nat)) (payload : Bytes) :
    Nat → Nat → Outcome (List Nat)
  | 0, _ => some (.ok [])
  | count + 1, pos =>
    match readU32 payload pos with
    | .error e => some (.error e)
    | .ok child =>
      match offsetsOf child with
      | none => none
      | some (.error e) => some (.error e)
      | some (.ok out) =>
        (indexLoop offsetsOf payload count (pos + 4)).map fun rest => rest.map (out ++ ·)

def subkeyOffsets (bytes : Bytes) : Nat → Nat → Outcome (List Nat)
  | 0, _ => none
  | depth + 1, listOffset =>
    match readSubkeyList bytes listOffset with
    | .error e => some (.error e)
    | .ok (.leaf offsets) => some (.ok offsets)
    | .ok (.index payload count) => indexLoop (subkeyOffsets bytes depth) payload count 0x04

/-! ## Keys -/

/-- The name of a key, from its cell. -/
def keyName (cell : Bytes) (nameLen flags : Nat) : Except Error Text :=
  if nameLen = 0 then .ok []
  else
    match readBytes cell 0x4c nameLen with
    | .error e => .error e
    | .ok name => decodeName (flags / 0x20 % 2 = 1) name

/-- The fields and the name of a key cell. -/
def readKey (bytes : Bytes) (keyOffset : Nat) : Except Error (NkMeta × Text) := do
  let cell ← cellPayload bytes keyOffset
  if cell.length < 0x4c ∨ slice cell 0 2 ≠ nkTag then .error .invalidHive
  else
    let flags ← readU16 cell 0x02
    let subkeyCount ← readU32 cell 0x14
    let subkeyListOffset ← readU32 cell 0x1c
    let valueCount ← readU32 cell 0x24
    let valueListOffset ← readU32 cell 0x28
    let nameLen ← readU16 cell 0x48
    let name ← keyName cell nameLen flags
    .ok (⟨flags, subkeyCount, subkeyListOffset, valueCount, valueListOffset⟩, name)

/-- The path of a key below a path. -/
def joinPath (path keyName : Text) : Text :=
  if path.isEmpty then keyName
  else if keyName.isEmpty then path
  else path ++ '\\' :: keyName

/-- The loop of `walk_key` over the subkeys. -/
def walkLoop (walk : Nat → Hive → Outcome Hive) : List Nat → Hive → Outcome Hive
  | [], hive => some (.ok hive)
  | offset :: rest, hive =>
    match walk offset hive with
    | some (.ok hive) => walkLoop walk rest hive
    | stopped => stopped

def walkKey (bytes : Bytes) : Nat → Nat → Text → Hive → Outcome Hive
  | 0, _, _, _ => none
  | depth + 1, keyOffset, path, hive =>
    match readKey bytes keyOffset with
    | .error e => some (.error e)
    | .ok (nk, keyName) =>
      let nextPath := joinPath path keyName
      match extractValues bytes nk nextPath (hive.ensureKey nextPath) with
      | .error e => some (.error e)
      | .ok hive =>
        if nk.subkeyCount = 0 ∨ nk.subkeyListOffset = offsetNone then some (.ok hive)
        else
          match subkeyOffsets bytes depth nk.subkeyListOffset with
          | none => none
          | some (.error e) => some (.error e)
          | some (.ok offsets) =>
            walkLoop (fun offset hive => walkKey bytes depth offset nextPath hive)
              offsets hive

/-- `Parser::new`: the offset of the root cell. -/
def rootCellOffset (bytes : Bytes) : Except Error Nat :=
  if bytes.length < 0x1000 + 0x28 then .error .unexpectedEof
  else if slice bytes 0 4 ≠ [0x72, 0x65, 0x67, 0x66] then .error .invalidHive
  else readU32 bytes 0x24

/-- `Hive::parse` to a given depth of calls. -/
def parse (bytes : Bytes) (depth : Nat) : Outcome Hive :=
  match rootCellOffset bytes with
  | .error e => some (.error e)
  | .ok root => walkKey bytes depth root [] .empty

end Regf
end Theos
