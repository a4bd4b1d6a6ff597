import Mathlib.Logic.Relation
import Theos.Lzx.Termination

/-!
# Where decompression leaves the window

`read_block_header` compares the size of a block with that of the window, not
with what earlier blocks have left of it.  A block may so end past the window,
and a write there panics.  Nothing else does.

`Overruns` says when it comes to that, by the tokens and blocks that have been
read before: an uncompressed block whose bytes are all there, or a token, ends
past the window.

## Main results

* `readTokens_panics_iff`, `readBlock_panics_iff`, `readBlocks_panics_iff`: the
  three levels of the decoder.
* `inflate_safe_iff`: decompression returns, with the length asked for, exactly
  if there is no overrun.
-/

namespace Theos
namespace Lzx

open Base
open Fuelled
open Relation (ReflTransGen)
open Decoder

/-! ## Tokens -/

section Tokens

variable {stop i : Nat} {d : Decoder} {hmain hlength : Huffman} {haligned : Option Huffman}

theorem writeWindow_panics
    (hi : windowSize ≤ i)
    (byte : UInt8) (d : Decoder) :
    Panics (writeWindow i byte) d := by
  rw [writeWindow, if_neg (by omega)]
  rfl

theorem copyMatch_panics {offset length : Nat}
    (hlength : 0 < length)
    (h : windowSize < i + length)
    (d : Decoder) :
    Panics (copyMatch offset length i) d := by
  induction length generalizing i d with
  | zero =>
    omega
  | succ length ih =>
    rw [copyMatch]
    by_cases hread : i - offset < windowSize
    · have hbyte : readWindow (i - offset) d = some (.ok (d.window (i - offset), d)) := by
        rw [readWindow, get_bind, if_pos hread]
        rfl
      rw [bind_panics_of_ok hbyte]
      by_cases hi : i < windowSize
      · have hwrite : writeWindow i (d.window (i - offset)) d = some (.ok ((), { d with
            window := Function.update d.window i (d.window (i - offset)) })) := by
          rw [writeWindow, if_pos hi]
          rfl
        rw [bind_panics_of_ok hwrite]
        exact ih (by omega) (by omega) _
      · exact bind_panics_iff.mpr (Or.inl (writeWindow_panics (by omega) _ d))
    · refine bind_panics_iff.mpr (Or.inl ?_)
      rw [readWindow, Panics, get_bind, if_neg hread]
      rfl

/-- Writing a token panics exactly if it ends past the window. -/
theorem writeToken_panics_iff {t : Token}
    (ht : 0 < t.length)
    (hd : d.Sound) :
    Panics (writeToken i t) d ↔ windowSize < i + t.length := by
  constructor
  · intro hpanics
    by_contra hle
    have hends : Ends (windowSize < windowSize) (writeToken i t) d fun _ d' => Later d d' :=
      writeToken_ends (by omega) hd
    exact (hends.mono (lt_irrefl windowSize) fun _ _ => id).not_panics hpanics
  · intro h
    cases t with
    | literal byte =>
      exact writeWindow_panics (Nat.le_of_lt_succ h) byte d
    | copy offset length =>
      exact copyMatch_panics ht h d

end Tokens

/-- They were built from code lengths. -/
structure Trees.Built (trees : Trees) : Prop where
  main : IsTable trees.main
  length : IsTable trees.length
  aligned : ∀ h, trees.aligned = some h → IsTable h

/-- A round of the loop over the tokens of a block that ends at `stop`. -/
def TokenStep (stop : Nat) (trees : Trees) (p q : Nat × Decoder) : Prop :=
  p.1 < stop ∧ readToken stop trees.main trees.length trees.aligned p.1 p.2 = some (.ok q)

/-- The token that is read next ends past the window. -/
def TokenOverruns (stop : Nat) (trees : Trees) (p : Nat × Decoder) : Prop :=
  p.1 < stop ∧ ∃ t d', windowSize < p.1 + Token.length t ∧
    parseToken stop trees.main trees.length trees.aligned p.1 p.2 = some (.ok (t, d'))

section Blocks

variable {stop i fuel start : Nat} {d : Decoder} {trees : Trees}

theorem readToken_panics_iff
    (htrees : trees.Built)
    (hi : i < stop)
    (hd : d.Sound) :
    Panics (readToken stop trees.main trees.length trees.aligned i) d ↔
      TokenOverruns stop trees (i, d) := by
  have hparse := parseToken_ends htrees.main htrees.length htrees.aligned hi hd
  rw [readToken_eq, bind_panics_iff, or_iff_right hparse.not_panics]
  constructor
  · rintro ⟨t, d', ht, hpanics⟩
    obtain ⟨hfits, hlater⟩ := hparse.of_ok ht
    rcases bind_panics_iff.mp hpanics with hwrite | ⟨_, _, -, hpure⟩
    · exact ⟨hi, t, d', (writeToken_panics_iff hfits.length_pos hlater.sound).mp hwrite, ht⟩
    · cases hpure
  · rintro ⟨-, t, d', hlt, ht⟩
    obtain ⟨hfits, hlater⟩ := hparse.of_ok ht
    have hwrite := (writeToken_panics_iff hfits.length_pos hlater.sound).mpr hlt
    exact ⟨t, d', ht, bind_panics_iff.mpr (Or.inl hwrite)⟩

/-- The loop over the tokens panics exactly if it comes to one that ends past the window. -/
theorem readTokens_panics_iff
    (htrees : trees.Built)
    (hfuel : stop - i < fuel)
    (hi : i ≤ stop)
    (hd : d.Sound) :
    Panics (readTokens stop trees.main trees.length trees.aligned fuel i) d ↔
      ∃ q, ReflTransGen (TokenStep stop trees) (i, d) q ∧ TokenOverruns stop trees q := by
  induction fuel generalizing i d with
  | zero =>
    omega
  | succ fuel ih =>
    rw [readTokens]
    by_cases hlt : i < stop
    · have hends := readToken_ends htrees.main htrees.length htrees.aligned hlt hd
      rw [if_pos hlt, bind_panics_iff, readToken_panics_iff htrees hlt hd]
      constructor
      · rintro (hover | ⟨next, d', hstep, hpanics⟩)
        · exact ⟨(i, d), .refl, hover⟩
        · obtain ⟨hnext, hle, hlater⟩ := hends.of_ok hstep
          obtain ⟨q, hrun, hover⟩ := (ih (by omega) hle hlater.sound).mp hpanics
          exact ⟨q, .head ⟨hlt, hstep⟩ hrun, hover⟩
      · rintro ⟨q, hrun, hover⟩
        rcases hrun.cases_head with rfl | ⟨⟨next, d'⟩, ⟨-, hstep⟩, hrest⟩
        · exact Or.inl hover
        · obtain ⟨hnext, hle, hlater⟩ := hends.of_ok hstep
          exact Or.inr ⟨next, d', hstep, (ih (by omega) hle hlater.sound).mpr ⟨q, hrest, hover⟩⟩
    · rw [if_neg hlt]
      constructor
      · intro hpanics
        cases hpanics
      · rintro ⟨q, hrun, hover⟩
        -- at the end of the block there is no round and no token
        rcases hrun.cases_head with rfl | ⟨_, ⟨hlt', -⟩, -⟩
        · exact absurd hover.1 hlt
        · exact absurd hlt' hlt

end Blocks

/-! ## Blocks -/

/-- The state in which the contents of a block are read. -/
def Decoder.enter (d : Decoder) (start type size : Nat) : Decoder :=
  { d with currentBlockStart := start, currentBlockType := type, currentBlockSize := size }

/-- The block that is read next ends past the window, or one of its tokens does. -/
inductive BlockOverruns (fuel start : Nat) (d : Decoder) : Prop
  | uncompressed {size : Nat} {d' : Decoder} :
      readBlockHeader d = some (.ok ((uncompressedBlock, size), d')) →
      size ≤ d'.input.length - d'.byteOffset → windowSize < start + size →
      BlockOverruns fuel start d
  | compressed {type size : Nat} {d₁ d₂ : Decoder} {trees : Trees} {q : Nat × Decoder} :
      readBlockHeader d = some (.ok ((type, size), d₁)) → type ≠ uncompressedBlock →
      readTrees fuel (type == alignedOffsetBlock) (d₁.enter start type size) =
        some (.ok ((trees.main, trees.length, trees.aligned), d₂)) →
      ReflTransGen (TokenStep (start + size) trees) (start, d₂) q →
      TokenOverruns (start + size) trees q →
      BlockOverruns fuel start d

/-- A round of the loop over the blocks. -/
def BlockStep (fuel uncompressedSize : Nat) (p q : Nat × Decoder) : Prop :=
  p.1 < uncompressedSize ∧
    ∃ size, q.1 = p.1 + size ∧ readBlock fuel p.1 p.2 = some (.ok (size, q.2))

/-- The decoder comes to a block that ends past the window. -/
def Overruns (chunk : Bytes) (uncompressedSize : Nat) : Prop :=
  uncompressedSize ≤ windowSize ∧
    ∃ p, ReflTransGen (BlockStep (enoughFuel chunk) uncompressedSize) (0, new chunk) p ∧
      p.1 < uncompressedSize ∧ BlockOverruns (enoughFuel chunk) p.1 p.2

section Decompress

variable {fuel start size type : Nat} {d : Decoder}

theorem readUncompressed_of_room (hbytes : ¬d.input.length - d.byteOffset < size)
    (hroom : ¬windowSize < start + size) :
    readUncompressed start size d = some (.ok (size, { d with
      unaligned := d.unaligned || size % 2 == 1
      window := fun i =>
        if start ≤ i ∧ i < start + size then (slice d.input d.byteOffset size).getD (i - start) 0
        else d.window i
      byteOffset := d.byteOffset + size })) := by
  rw [readUncompressed, modify_bind, get_bind, if_neg hroom]
  dsimp only
  split
  · exact absurd ‹_› hbytes
  · rfl

theorem readUncompressed_panics_iff :
    Panics (readUncompressed start size) d ↔
      size ≤ d.input.length - d.byteOffset ∧ windowSize < start + size := by
  rw [readUncompressed, Panics, modify_bind, get_bind]
  dsimp only
  split
  · refine iff_of_false (fun h => ?_) fun h => by omega
    cases h
  · split
    · exact iff_of_true rfl ⟨by omega, ‹_›⟩
    · refine iff_of_false (fun h => ?_) fun h => by omega
      cases h

theorem readCompressed_panics_iff
    (hfuel : maxBlockSize < fuel)
    (hsize : size ≤ maxBlockSize)
    (hd : d.Sound)
    (readAligned : Bool) :
    Panics (do
      let trees ← readTrees fuel readAligned
      let i ← readTokens (start + size) trees.1 trees.2.1 trees.2.2 fuel start
      pure (i - start)) d ↔
      ∃ (trees : Trees) (d' : Decoder) (q : Nat × Decoder),
        readTrees fuel readAligned d =
          some (.ok ((trees.main, trees.length, trees.aligned), d')) ∧
        ReflTransGen (TokenStep (start + size) trees) (start, d') q ∧
        TokenOverruns (start + size) trees q := by
  have hends := readTrees_ends (lt_of_le_of_lt (by decide) hfuel) hd readAligned
  have htokens : ∀ (trees : Trees) (d' : Decoder),
      readTrees fuel readAligned d = some (.ok ((trees.main, trees.length, trees.aligned), d')) →
      (Panics (readTokens (start + size) trees.main trees.length trees.aligned fuel start) d' ↔
        ∃ q, ReflTransGen (TokenStep (start + size) trees) (start, d') q ∧
          TokenOverruns (start + size) trees q) := by
    intro trees d' h
    obtain ⟨hmain, hlength, haligned, hlater⟩ := hends.of_ok h
    exact readTokens_panics_iff ⟨hmain, hlength, haligned⟩ (by omega) (Nat.le_add_right _ _)
      hlater.sound
  rw [bind_panics_iff, or_iff_right hends.not_panics]
  constructor
  · rintro ⟨⟨main, length, aligned⟩, d', h, hpanics⟩
    rcases bind_panics_iff.mp hpanics with hloop | ⟨_, _, -, hpure⟩
    · obtain ⟨q, hrun, hover⟩ := (htokens ⟨main, length, aligned⟩ d' h).mp hloop
      exact ⟨⟨main, length, aligned⟩, d', q, h, hrun, hover⟩
    · cases hpure
  · rintro ⟨trees, d', q, h, hrun, hover⟩
    have hloop := (htokens trees d' h).mpr ⟨q, hrun, hover⟩
    exact ⟨_, d', h, bind_panics_iff.mpr (Or.inl hloop)⟩

/-- The contents of a block behind its header. -/
theorem readBlock_of_header {d' : Decoder}
    (h : readBlockHeader d = some (.ok ((type, size), d'))) :
    readBlock fuel start d =
      (if type = uncompressedBlock then readUncompressed start size
        else do
          let trees ← readTrees fuel (type == alignedOffsetBlock)
          let i ← readTokens (start + size) trees.1 trees.2.1 trees.2.2 fuel start
          pure (i - start)) (d'.enter start type size) := by
  rw [readBlock, bind_of_ok h, modify_bind]
  rfl

/-- A block panics exactly if it, or one of its tokens, ends past the window. -/
theorem readBlock_panics_iff
    (hfuel : maxBlockSize < fuel)
    (hd : d.Sound) :
    Panics (readBlock fuel start) d ↔ BlockOverruns fuel start d := by
  have hheader := readBlockHeader_ends hd
  have hsound : ∀ {type size d'}, readBlockHeader d = some (.ok ((type, size), d')) →
      size ≤ maxBlockSize ∧ (d'.enter start type size).Sound := fun h =>
    ⟨(hheader.of_ok h).1, { (hheader.of_ok h).2.1 with }⟩
  constructor
  · intro hpanics
    rcases bind_panics_iff.mp hpanics with h | ⟨⟨type, size⟩, d', h, -⟩
    · exact absurd h hheader.not_panics
    · obtain ⟨hsize, hd'⟩ := hsound h
      rw [Panics, readBlock_of_header h] at hpanics
      by_cases htype : type = uncompressedBlock
      · subst htype
        rw [if_pos rfl] at hpanics
        obtain ⟨hfits, hover⟩ := readUncompressed_panics_iff.mp hpanics
        exact .uncompressed h hfits hover
      · rw [if_neg htype] at hpanics
        obtain ⟨trees, d₂, q, htrees, hrun, hover⟩ :=
          (readCompressed_panics_iff hfuel hsize hd' _).mp hpanics
        exact .compressed h htype htrees hrun hover
  · intro hover
    cases hover with
    | uncompressed h hfits hover =>
      rw [Panics, readBlock_of_header h, if_pos rfl]
      exact readUncompressed_panics_iff.mpr ⟨hfits, hover⟩
    | compressed h htype htrees hrun hover =>
      obtain ⟨hsize, hd'⟩ := hsound h
      rw [Panics, readBlock_of_header h, if_neg htype]
      exact (readCompressed_panics_iff hfuel hsize hd' _).mpr ⟨_, _, _, htrees, hrun, hover⟩

/-- The loop over the blocks panics exactly if it comes to one that ends past the window. -/
theorem readBlocks_panics_iff {rounds : Nat}
    (hfuel : maxBlockSize < fuel)
    (hrounds : d.bitsLeft < rounds)
    (hd : d.Sound)
    (uncompressedSize written : Nat) :
    Panics (readBlocks fuel uncompressedSize rounds written) d ↔
      ∃ p, ReflTransGen (BlockStep fuel uncompressedSize) (written, d) p ∧
        p.1 < uncompressedSize ∧ BlockOverruns fuel p.1 p.2 := by
  induction rounds generalizing written d with
  | zero =>
    omega
  | succ rounds ih =>
    rw [readBlocks]
    by_cases hlt : written < uncompressedSize
    · have hends : Ends (windowSize < written + maxBlockSize) (readBlock fuel written) d
          fun _ d' => d'.Sound ∧ d'.bitsLeft < d.bitsLeft := readBlock_ends hfuel hd
      rw [if_pos hlt, bind_panics_iff, readBlock_panics_iff hfuel hd]
      constructor
      · rintro (hover | ⟨size, d', hstep, hpanics⟩)
        · exact ⟨(written, d), .refl, hlt, hover⟩
        · obtain ⟨hd', hbits⟩ := hends.of_ok hstep
          obtain ⟨p, hrun, hover⟩ := (ih (by omega) hd' _).mp hpanics
          exact ⟨p, .head ⟨hlt, size, rfl, hstep⟩ hrun, hover⟩
      · rintro ⟨p, hrun, hover⟩
        rcases hrun.cases_head with rfl | ⟨⟨_, d'⟩, ⟨-, size, hnext, hstep⟩, hrest⟩
        · exact Or.inl hover.2
        · obtain ⟨hd', hbits⟩ := hends.of_ok hstep
          subst hnext
          exact Or.inr ⟨size, d', hstep, (ih (by omega) hd' _).mpr ⟨p, hrest, hover⟩⟩
    · rw [if_neg hlt]
      constructor
      · intro hpanics
        cases hpanics
      · rintro ⟨p, hrun, hover⟩
        rcases hrun.cases_head with rfl | ⟨_, ⟨hlt', -⟩, -⟩
        · exact absurd hover.1 hlt
        · exact absurd hlt' hlt

end Decompress

/-- `decompress` panics exactly if the decoder comes to a block that ends past the window. -/
theorem inflate_eq_panic_iff (chunk : Bytes) (uncompressedSize : Nat) :
    inflate chunk uncompressedSize = Rust.panic ↔ Overruns chunk uncompressedSize := by
  have hpanics := readBlocks_panics_iff (maxBlockSize_lt_enoughFuel chunk)
    (bitsLeft_lt_enoughFuel chunk) (new_sound chunk) uncompressedSize 0
  obtain ⟨result, hresult⟩ := exists_readBlocks chunk uncompressedSize
  rw [inflate, Overruns, ← hpanics]
  unfold decompress
  by_cases hsize : windowSize < uncompressedSize
  · rw [if_pos hsize]
    refine iff_of_false (fun h => ?_) fun h => absurd h.1 (by omega)
    cases h
  · rw [if_neg hsize, Panics, and_iff_right (Nat.le_of_not_lt hsize), hresult]
    rcases result with e | ⟨⟨⟩, decoder⟩ <;> simp [Rust.panic]

/-- Decompression returns, and a result has the length asked for, exactly if the decoder does
not come to a block that ends past the window. -/
theorem inflate_safe_iff (chunk : Bytes) (uncompressedSize : Nat) :
    (inflate chunk uncompressedSize ≠ Rust.panic ∧
      ∀ output, inflate chunk uncompressedSize = .ok output →
        output.length = uncompressedSize) ↔ ¬Overruns chunk uncompressedSize := by
  rw [← inflate_eq_panic_iff]
  exact and_iff_left fun output h => length_of_inflate h

/-! ## Two blocks -/

/-- Two uncompressed blocks, of one byte and of the full size, up to the bytes of the second. -/
def twoHeaders : Bytes :=
  [0, 0x60, 0, 0x10, 0, 0, 0, 0, 0, 0, 0, 0, 0, 0, 0, 0, 0, 0,
    0, 0x70, 0, 0, 0, 0, 0, 0, 0, 0, 0, 0, 0, 0]

/-- The part of a state that reading bits looks at. -/
structure ReadsAt (input : Bytes) (byteOffset bitCount bitBuffer : Nat) (unaligned : Bool)
    (d : Decoder) : Prop where
  input : d.input = input
  byteOffset : d.byteOffset = byteOffset
  bitCount : d.bitCount = bitCount
  bitBuffer : d.bitBuffer = bitBuffer
  unaligned : d.unaligned = unaligned
  valid : d.Valid

namespace ReadsAt

variable {input : Bytes} {byteOffset bitCount bitBuffer : Nat} {unaligned : Bool} {d : Decoder}

theorem getBits_of_count
    (h : ReadsAt input byteOffset bitCount bitBuffer unaligned d)
    (n value next : Nat)
    (hpos : 0 < n)
    (hn : n ≤ bitCount)
    (hvalue : bitBuffer / 2 ^ (32 - n) % 2 ^ 16 = value)
    (hnext : bitBuffer * 2 ^ n % 2 ^ 32 = next) :
    ∃ d', getBits n d = some (.ok (value, d')) ∧
      ReadsAt input byteOffset (bitCount - n) next unaligned d' := by
  have hn' : n ≤ d.bitCount := by rwa [h.bitCount]
  refine ⟨d.skip n, ?_, h.input, h.byteOffset, ?_, ?_, h.unaligned, h.valid.skip hn'⟩
  · rw [Decoder.getBits_of_count hpos hn' h.valid, h.bitBuffer, hvalue]
  · rw [skip, h.bitCount]
  · rw [skip, h.bitBuffer, hnext]

theorem getBits_of_word
    (h : ReadsAt input byteOffset bitCount bitBuffer unaligned d)
    (word : Bytes) (n value next : Nat)
    (hcount : bitCount < n)
    (hn : n ≤ 16)
    (hword : ¬input.length - byteOffset < 2)
    (hslice : slice input byteOffset 2 = word)
    (hvalue : (bitBuffer ||| ofLE word <<< (16 - bitCount)) / 2 ^ (32 - n) % 2 ^ 16 = value)
    (hnext : (bitBuffer ||| ofLE word <<< (16 - bitCount)) * 2 ^ n % 2 ^ 32 = next) :
    ∃ d', getBits n d = some (.ok (value, d')) ∧
      ReadsAt input (byteOffset + 2) (bitCount + 16 - n) next unaligned d' := by
  have hcount' : d.bitCount < n := by rwa [h.bitCount]
  have hword' : ¬d.input.length - d.byteOffset < 2 := by rwa [h.input, h.byteOffset]
  have hbuffer : d.feed.bitBuffer = bitBuffer ||| ofLE word <<< (16 - bitCount) := by
    rw [feed, h.bitBuffer, h.input, h.byteOffset, h.bitCount, hslice]
  have hvalid : d.feed.Valid := h.valid.feed (by omega)
  refine ⟨d.feed.skip n, ?_, h.input, ?_, ?_, ?_, h.unaligned, hvalid.skip ?_⟩
  · rw [Decoder.getBits_of_word hcount' hn hword' h.valid, hbuffer, hvalue]
  · rw [skip, feed, h.byteOffset]
  · rw [skip, feed, h.bitCount]
  · rw [skip, hbuffer, hnext]
  · exact le_trans hn (Nat.le_add_left 16 d.bitCount)

/-- The three repeat offsets behind the padding. -/
theorem readOffsets
    (h : ReadsAt input byteOffset bitCount 0 unaligned d)
    (hpos : 0 < bitCount)
    (hbytes : ¬input.length - byteOffset < 12) :
    ∃ d', Lzx.readOffsets d = some (.ok ((), d')) ∧
      ReadsAt input (byteOffset + 12) 0 0 unaligned d' := by
  obtain ⟨d₁, hpadding, h₁⟩ := h.getBits_of_count bitCount 0 0 hpos (le_refl _)
    (by rw [Nat.zero_div, Nat.zero_mod]) (by rw [Nat.zero_mul, Nat.zero_mod])
  have hensure : ensureAtLeast 12 d₁ = some (.ok ((), d₁)) := by
    rw [ensureAtLeast, get_bind, h₁.input, h₁.byteOffset, if_neg hbytes]
    rfl
  refine ⟨{ d₁ with
    lru := fun k => ofLE (slice d₁.input (d₁.byteOffset + 4 * k) 4) % 2 ^ 16
    byteOffset := d₁.byteOffset + 12 }, ?_, h₁.input, congrArg (· + 12) h₁.byteOffset,
    h₁.bitCount.trans (Nat.sub_self _), h₁.bitBuffer, h₁.unaligned,
    ⟨h₁.valid.count_lt, h₁.valid.buffer_lt, h₁.valid.low⟩⟩
  rw [Lzx.readOffsets, get_bind, h.bitCount, if_neg hpos.ne', bind_of_ok hpadding,
    bind_of_ok hensure]
  rfl

end ReadsAt

section TwoBlocks

variable (payload : Bytes)

theorem le_length_twoHeaders :
    32 ≤ (twoHeaders ++ payload).length := by
  rw [List.length_append]
  exact Nat.le_add_right 32 _

/-- The header of the block of one byte. -/
theorem readBlockHeader_first :
    ∃ d, readBlockHeader (new (twoHeaders ++ payload)) = some (.ok ((uncompressedBlock, 1), d)) ∧
      ReadsAt (twoHeaders ++ payload) 16 0 0 false d := by
  have hlength := le_length_twoHeaders payload
  have h₀ : ReadsAt (twoHeaders ++ payload) 0 0 0 false (new (twoHeaders ++ payload)) :=
    ⟨rfl, rfl, rfl, rfl, rfl, new_valid _⟩
  have hskip : skipPadding (new (twoHeaders ++ payload)) =
      some (.ok ((), new (twoHeaders ++ payload))) := rfl
  obtain ⟨d₁, htype, h₁⟩ := h₀.getBits_of_word [0, 0x60] 3 3 0
    (by decide) (by decide) (by omega) rfl (by decide) (by decide)
  obtain ⟨d₂, hfull, h₂⟩ := h₁.getBits_of_count 1 0 0
    (by decide) (by decide) (by decide) (by decide)
  obtain ⟨d₃, hsize, h₃⟩ := h₂.getBits_of_word [0, 0x10] 16 1 0
    (by decide) (by decide) (by omega) rfl (by decide) (by decide)
  obtain ⟨d₄, hoffsets, h₄⟩ := h₃.readOffsets (by decide) (by omega)
  have hblockSize : readBlockSize d₁ = some (.ok (1, d₃)) := by
    rw [readBlockSize, bind_of_ok hfull, if_neg (by decide), bind_of_ok hsize, if_neg (by decide)]
    rfl
  refine ⟨d₄, ?_, h₄⟩
  rw [readBlockHeader, bind_of_ok hskip, bind_of_ok htype, bind_of_ok hblockSize,
    if_neg (by decide), if_pos (by decide), bind_of_ok hoffsets]
  rfl

/-- The block of one byte. -/
theorem readBlock_first (fuel : Nat) :
    ∃ d, readBlock fuel 0 (new (twoHeaders ++ payload)) = some (.ok (1, d)) ∧
      ReadsAt (twoHeaders ++ payload) 17 0 0 true d := by
  have hlength := le_length_twoHeaders payload
  obtain ⟨d, hheader, h⟩ := readBlockHeader_first payload
  have hbytes : ¬(d.enter 0 uncompressedBlock 1).input.length -
      (d.enter 0 uncompressedBlock 1).byteOffset < 1 := by
    rw [Decoder.enter, h.input, h.byteOffset]
    omega
  have hrun := readUncompressed_of_room hbytes (show ¬windowSize < 0 + 1 by decide)
  rw [readBlock_of_header hheader, if_pos rfl, hrun]
  exact ⟨_, rfl, h.input, congrArg (· + 1) h.byteOffset, h.bitCount, h.bitBuffer,
    Bool.or_true _, ⟨h.valid.count_lt, h.valid.buffer_lt, h.valid.low⟩⟩

/-- The header of the block of full size. -/
theorem readBlockHeader_second {d : Decoder}
    (h : ReadsAt (twoHeaders ++ payload) 17 0 0 true d) :
    ∃ d', readBlockHeader d = some (.ok ((uncompressedBlock, maxBlockSize), d')) ∧
      ReadsAt (twoHeaders ++ payload) 32 0 0 false d' := by
  have hlength := le_length_twoHeaders payload
  obtain ⟨d₀, hskip, h₀⟩ : ∃ d₀, skipPadding d = some (.ok ((), d₀)) ∧
      ReadsAt (twoHeaders ++ payload) 18 0 0 false d₀ := by
    have hensure : ensureAtLeast 1 d = some (.ok ((), d)) := by
      rw [ensureAtLeast, get_bind, h.input, h.byteOffset, if_neg (by omega)]
      rfl
    refine ⟨{ d with byteOffset := d.byteOffset + 1, unaligned := false }, ?_, h.input,
      congrArg (· + 1) h.byteOffset, h.bitCount, h.bitBuffer, rfl,
      ⟨h.valid.count_lt, h.valid.buffer_lt, h.valid.low⟩⟩
    rw [skipPadding, get_bind, if_pos h.unaligned, bind_of_ok hensure]
    rfl
  obtain ⟨d₁, htype, h₁⟩ := h₀.getBits_of_word [0, 0x70] 3 3 0x80000000
    (by decide) (by decide) (by omega) rfl (by decide) (by decide)
  obtain ⟨d₂, hfull, h₂⟩ := h₁.getBits_of_count 1 1 0
    (by decide) (by decide) (by decide) (by decide)
  obtain ⟨d₃, hoffsets, h₃⟩ := h₂.readOffsets (by decide) (by omega)
  have hblockSize : readBlockSize d₁ = some (.ok (maxBlockSize, d₂)) := by
    rw [readBlockSize, bind_of_ok hfull, if_pos (by decide)]
    rfl
  refine ⟨d₃, ?_, h₃⟩
  rw [readBlockHeader, bind_of_ok hskip, bind_of_ok htype, bind_of_ok hblockSize,
    if_neg (by decide), if_pos (by decide), bind_of_ok hoffsets]
  rfl

end TwoBlocks

/-- The second block is written from the second byte on and ends behind the window. -/
theorem second_block_panics :
    inflate (twoHeaders ++ List.replicate 32768 0) 2 = Rust.panic := by
  obtain ⟨d, hblock, h⟩ := readBlock_first (List.replicate 32768 0)
    (enoughFuel (twoHeaders ++ List.replicate 32768 0))
  obtain ⟨d', hheader, h'⟩ := readBlockHeader_second (List.replicate 32768 0) h
  rw [inflate_eq_panic_iff]
  refine ⟨by decide, (1, d), .single ⟨Nat.two_pos, 1, rfl, hblock⟩, Nat.one_lt_two,
    .uncompressed hheader ?_ (Nat.lt_add_of_pos_left Nat.one_pos)⟩
  rw [h'.input, h'.byteOffset, List.length_append, List.length_replicate]
  decide

end Lzx
end Theos
