import Theos.Base.Endian
import Theos.Base.Fuelled
import Theos.Lzx.CallTranslation
import Theos.Lzx.Huffman

/-!
# The LZX decoder

The decoder of `lib/wim_lzx/lib.rs`: a reader of 16-bit little-endian words from
the top bit down, the trees that a block sends as changes of those of the block
before, the blocks, and the loop of `decompress` over them.

The `while` loops take fuel; a run that uses it up has not ended.
-/

namespace Theos
namespace Lzx

open Base
open Fuelled

inductive Error where
  | corrupt
  | unexpectedEof (context : String)
      (byteOffset bitCount blockStart blockType blockSize : Nat)
  | chunkTooLarge (size : Nat)
deriving DecidableEq, Repr

structure Decoder where
  input : Bytes
  byteOffset : Nat
  bitCount : Nat
  bitBuffer : Nat
  unaligned : Bool
  lru : Fin 3 → Nat
  mainlens : List Nat
  lenlens : List Nat
  /-- Only the first `windowSize` bytes are there. -/
  window : Nat → UInt8
  currentBlockStart : Nat
  currentBlockType : Nat
  currentBlockSize : Nat

def windowSize : Nat := 32768
def maxBlockSize : Nat := 32768
def mainCodeCount : Nat := 496
def mainCodeSplit : Nat := 256
def lenCodeCount : Nat := 249

def verbatimBlock : Nat := 1
def alignedOffsetBlock : Nat := 2
def uncompressedBlock : Nat := 3

def footerBits : List Nat :=
  [0, 0, 0, 0, 1, 1, 2, 2, 3, 3, 4, 4, 5, 5, 6, 6, 7, 7, 8, 8, 9, 9, 10, 10,
    11, 11, 12, 12, 13, 13, 14]

def basePosition : List Nat :=
  [0, 1, 2, 3, 4, 6, 8, 12, 16, 24, 32, 48, 64, 96, 128, 192, 256, 384, 512,
    768, 1024, 1536, 2048, 3072, 4096, 6144, 8192, 12288, 16384, 24576, 32768]

abbrev Action := Fuelled Decoder Error

namespace Decoder

def new (input : Bytes) : Decoder where
  input := input
  byteOffset := 0
  bitCount := 0
  bitBuffer := 0
  unaligned := false
  lru := fun _ => 1
  mainlens := List.replicate mainCodeCount 0
  lenlens := List.replicate lenCodeCount 0
  window := fun _ => 0
  currentBlockStart := 0
  currentBlockType := 0
  currentBlockSize := 0

def unexpectedEof (context : String) (d : Decoder) : Error :=
  .unexpectedEof context d.byteOffset d.bitCount d.currentBlockStart d.currentBlockType
    d.currentBlockSize

end Decoder

/-! ## Bits -/

def corrupt {α : Type} : Action α :=
  err fun _ => .corrupt

def ensureAtLeast (bytes : Nat) : Action Unit := do
  let d ← get
  if d.input.length - d.byteOffset < bytes then
    err (Decoder.unexpectedEof "input buffer")
  else pure ()

def tryFeed : Action Bool := do
  let d ← get
  if d.input.length - d.byteOffset < 2 then pure false
  else
    let shift ← orPanic (subU 16 d.bitCount)
    modify fun d => { d with
      bitBuffer := d.bitBuffer ||| ofLE (slice d.input d.byteOffset 2) <<< shift
      bitCount := d.bitCount + 16
      byteOffset := d.byteOffset + 2 }
    pure true

/-- `self.bit_buffer <<= n; self.bit_count -= n`. -/
def dropBits (n : Nat) : Action Unit := do
  let d ← get
  let bitBuffer ← orPanic (shlU 32 d.bitBuffer n)
  let bitCount ← orPanic (subU d.bitCount n)
  modify fun d => { d with bitBuffer := bitBuffer, bitCount := bitCount }

/-- The bits of the buffer are enough, or a word is read. -/
def feedFor (n : Nat) : Action Unit := do
  let d ← get
  if d.bitCount < n then
    let fed ← tryFeed
    if fed then pure () else err (Decoder.unexpectedEof "get_bits")
  else pure ()

def getBits (n : Nat) : Action Nat :=
  if n = 0 then pure 0
  else do
    feedFor n
    let d ← get
    let shift ← orPanic (subU 32 n)
    let value ← orPanic (shrU 32 d.bitBuffer shift)
    dropBits n
    pure (value % 2 ^ 16)

/-- The word that `get_code` reads if fewer than 16 bits are left, if there is one. -/
def feedCode : Action Unit := do
  let d ← get
  if d.bitCount < 16 then
    let _ ← tryFeed
    pure ()
  else pure ()

/-- The entry that the next bits lead to. -/
def lookupCode (h : Huffman) : Action Nat := do
  let d ← get
  let code ← orPanic h.table[d.bitBuffer / 2 ^ 23]?
  if code < 2 ^ 9 then
    if h.maxbits ≤ 9 then corrupt
    else
      let shift ← orPanic (subU 32 (h.maxbits - 9))
      let suffix ← orPanic (shrU 32 (d.bitBuffer * 2 ^ 9 % 2 ^ 32) shift)
      let row ← orPanic h.extra[code]?
      orPanic row[suffix]?
  else pure code

def getCode (h : Huffman) : Action Nat :=
  if h.maxbits = 0 then corrupt
  else do
    feedCode
    let code ← lookupCode h
    let d ← get
    if d.bitCount < code / 2 ^ 9 % 2 ^ 8 then
      err (Decoder.unexpectedEof "huffman code tail")
    else
      dropBits (code / 2 ^ 9 % 2 ^ 8)
      pure (code % 2 ^ 9)

/-! ## Trees -/

/-- `build_table(..).ok_or(Error::Corrupt)?`. -/
def tableOf (codelens : List Nat) : Action Huffman := do
  let result ← orPanic (buildTable codelens)
  match result with
  | some h => pure h
  | none => corrupt

/-- The loop that reads a fixed number of lengths. -/
def readLengths (bits : Nat) : Nat → Action (List Nat)
  | 0 => pure []
  | count + 1 => do
    let length ← getBits bits
    let rest ← readLengths bits count
    pure (length :: rest)

/-- `(lens[i] + 17 - delta) % 17`. -/
def applyDelta (lens : List Nat) (i delta : Nat) : Action Nat := do
  let length ← orPanic lens[i]?
  let sum ← orPanic (addU 8 length 17)
  let difference ← orPanic (subU sum delta)
  pure (difference % 17)

/-- One round of the loop of `read_tree`: the lengths and the next index. -/
def readTreeRound (pretree : Huffman) (lens : List Nat) (i : Nat) : Action (List Nat × Nat) := do
  let code ← getCode pretree
  let c := code % 2 ^ 8
  if c ≤ 16 then
    let length ← applyDelta lens i c
    pure (lens.set i length, i + 1)
  else if c = 17 then
    let bits ← getBits 4
    if lens.length < i + (bits + 4) then corrupt
    else pure (splice lens i (List.replicate (bits + 4) 0), i + (bits + 4))
  else if c = 18 then
    let bits ← getBits 5
    if lens.length < i + (bits + 20) then corrupt
    else pure (splice lens i (List.replicate (bits + 20) 0), i + (bits + 20))
  else if c = 19 then
    let bits ← getBits 1
    if lens.length < i + (bits + 4) then corrupt
    else
      let code ← getCode pretree
      let delta := code % 2 ^ 8
      if 16 < delta then corrupt
      else
        let length ← applyDelta lens i delta
        pure (splice lens i (List.replicate (bits + 4) length), i + (bits + 4))
  else corrupt

def readTreeLoop (pretree : Huffman) : Nat → List Nat → Nat → Action (List Nat)
  | 0, _, _ => unfinished
  | fuel + 1, lens, i =>
    if i < lens.length then do
      let next ← readTreeRound pretree lens i
      readTreeLoop pretree fuel next.1 next.2
    else pure lens

def readTree (fuel : Nat) (lens : List Nat) : Action (List Nat) := do
  let pretreeLen ← readLengths 4 20
  let pretree ← tableOf pretreeLen
  readTreeLoop pretree fuel lens 0

def readAlignedTree (readAligned : Bool) : Action (Option Huffman) :=
  if readAligned then do
    let alignedLen ← readLengths 3 8
    let h ← tableOf alignedLen
    pure (some h)
  else pure none

def readMainTree (fuel : Nat) : Action Huffman := do
  let d ← get
  let mainPrefix ← readTree fuel (d.mainlens.take mainCodeSplit)
  modify fun d => { d with mainlens := mainPrefix ++ d.mainlens.drop mainCodeSplit }
  let d ← get
  let mainSuffix ← readTree fuel (d.mainlens.drop mainCodeSplit)
  modify fun d => { d with mainlens := d.mainlens.take mainCodeSplit ++ mainSuffix }
  let d ← get
  tableOf d.mainlens

def readLengthTree (fuel : Nat) : Action Huffman := do
  let d ← get
  let lenLens ← readTree fuel d.lenlens
  modify fun d => { d with lenlens := lenLens }
  tableOf lenLens

def readTrees (fuel : Nat) (readAligned : Bool) : Action (Huffman × Huffman × Option Huffman) := do
  let aligned ← readAlignedTree readAligned
  let main ← readMainTree fuel
  let length ← readLengthTree fuel
  pure (main, length, aligned)

/-! ## Blocks -/

def skipPadding : Action Unit := do
  let d ← get
  if d.unaligned then
    ensureAtLeast 1
    modify fun d => { d with byteOffset := d.byteOffset + 1, unaligned := false }
  else pure ()

def readBlockSize : Action Nat := do
  let full ← getBits 1
  if full ≠ 0 then pure maxBlockSize
  else
    let size ← getBits 16
    if maxBlockSize < size then corrupt else pure size

/-- The part of the header of an uncompressed block behind its size. -/
def readOffsets : Action Unit := do
  let d ← get
  let _ ← getBits (if d.bitCount = 0 then 16 else d.bitCount)
  ensureAtLeast 12
  modify fun d => { d with
    lru := fun k => ofLE (slice d.input (d.byteOffset + 4 * k) 4) % 2 ^ 16
    byteOffset := d.byteOffset + 12 }

def readBlockHeader : Action (Nat × Nat) := do
  skipPadding
  let blockType ← getBits 3
  let blockSize ← readBlockSize
  if blockType = verbatimBlock ∨ blockType = alignedOffsetBlock then pure (blockType, blockSize)
  else if blockType = uncompressedBlock then
    readOffsets
    pure (blockType, blockSize)
  else corrupt

def readWindow (i : Nat) : Action UInt8 := do
  let d ← get
  if i < windowSize then pure (d.window i) else panic

def writeWindow (i : Nat) (byte : UInt8) : Action Unit :=
  if i < windowSize then modify fun d => { d with window := Function.update d.window i byte }
  else panic

/-- The footer of a match offset: its verbatim and its aligned bits. -/
def readFooter (haligned : Option Huffman) (offsetBits : Nat) : Action (Nat × Nat) :=
  if 0 < offsetBits then
    match haligned with
    | some aligned =>
      if 3 ≤ offsetBits then do
        let bits ← getBits (offsetBits - 3)
        let verbatimBits ← orPanic (mulU 16 bits 8)
        let alignedBits ← getCode aligned
        pure (verbatimBits, alignedBits)
      else do
        let bits ← getBits offsetBits
        pure (bits, 0)
    | none => do
      let bits ← getBits offsetBits
      pure (bits, 0)
  else pure (0, 0)

def readMatchOffset (haligned : Option Huffman) (slot : Nat) : Action Nat := do
  if h : slot < 3 then
    let d ← get
    modify fun d => { d with
      lru := Function.update (Function.update d.lru ⟨slot, h⟩ (d.lru 0)) 0 (d.lru ⟨slot, h⟩) }
    pure (d.lru ⟨slot, h⟩)
  else
    let offsetBits ← orPanic footerBits[slot]?
    let footer ← readFooter haligned offsetBits
    let base ← orPanic basePosition[slot]?
    -- three wrapping operations on 16 bits
    let offset := (base + footer.1 + footer.2 + (2 ^ 16 - 2)) % 2 ^ 16
    modify fun d => { d with lru := ![offset, d.lru 0, d.lru 1] }
    pure offset

/-- The loop that copies a match. -/
def copyMatch (matchoffset : Nat) : Nat → Nat → Action Unit
  | 0, _ => pure ()
  | count + 1, i => do
    let byte ← readWindow (i - matchoffset)
    writeWindow i byte
    copyMatch matchoffset count (i + 1)

/-- `matchlen`, with the length symbol that follows the greatest length header. -/
def readMatchLength (hlength : Huffman) (header : Nat) : Action Nat :=
  if header = 7 then do
    let extra ← getCode hlength
    pure (header + extra + 2)
  else pure (header + 2)

/-- One round of the loop of `read_compressed_block`: the next index. -/
def readToken (stop : Nat) (hmain hlength : Huffman) (haligned : Option Huffman) (i : Nat) :
    Action Nat := do
  let main ← getCode hmain
  if main < 256 then
    writeWindow i (UInt8.ofNat main)
    pure (i + 1)
  else if footerBits.length ≤ (main - 256) / 8 then corrupt
  else
    let matchlen ← readMatchLength hlength ((main - 256) % 8)
    let matchoffset ← readMatchOffset haligned ((main - 256) / 8)
    if matchoffset = 0 ∨ i < matchoffset ∨ stop < i + matchlen then corrupt
    else
      copyMatch matchoffset matchlen i
      pure (i + matchlen)

/-- The loop of `read_compressed_block`: the index it ends at. -/
def readTokens (stop : Nat) (hmain hlength : Huffman) (haligned : Option Huffman) :
    Nat → Nat → Action Nat
  | 0, _ => unfinished
  | fuel + 1, i =>
    if i < stop then do
      let next ← readToken stop hmain hlength haligned i
      readTokens stop hmain hlength haligned fuel next
    else pure i

def readUncompressed (start size : Nat) : Action Nat := do
  modify fun d => { d with unaligned := d.unaligned || size % 2 == 1 }
  let d ← get
  if d.input.length - d.byteOffset < size then
    err (Decoder.unexpectedEof "uncompressed block payload")
  else if windowSize < start + size then panic
  else
    modify fun d => { d with
      window := fun i =>
        if start ≤ i ∧ i < start + size then
          (slice d.input d.byteOffset size).getD (i - start) 0
        else d.window i
      byteOffset := d.byteOffset + size }
    pure size

def readBlock (fuel start : Nat) : Action Nat := do
  let header ← readBlockHeader
  modify fun d => { d with
    currentBlockStart := start
    currentBlockType := header.1
    currentBlockSize := header.2 }
  if header.1 = uncompressedBlock then readUncompressed start header.2
  else
    let trees ← readTrees fuel (header.1 == alignedOffsetBlock)
    let i ← readTokens (start + header.2) trees.1 trees.2.1 trees.2.2 fuel start
    pure (i - start)

/-- The loop of `decompress`, with fuel for itself and for the loops inside. -/
def readBlocks (fuel uncompressedSize : Nat) : Nat → Nat → Action Unit
  | 0, _ => unfinished
  | rounds + 1, written =>
    if written < uncompressedSize then do
      let size ← readBlock fuel written
      readBlocks fuel uncompressedSize rounds (written + size)
    else pure ()

def decompress (fuel : Nat) (chunk : Bytes) (uncompressedSize : Nat) :
    Option (Rust Error Bytes) :=
  if windowSize < uncompressedSize then some (Rust.err (.chunkTooLarge uncompressedSize))
  else
    match readBlocks fuel uncompressedSize fuel 0 (Decoder.new chunk) with
    | none => none
    | some (.error e) => some (.error e)
    | some (.ok ((), decoder)) =>
      some (.ok (decodeE8 ((List.range uncompressedSize).map decoder.window) 0))

end Lzx
end Theos
