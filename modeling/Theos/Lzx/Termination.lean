import Theos.Lzx.BitStream
import Theos.Lzx.Tokens

/-!
# Decompression ends

Every block header takes four bits at least, and no step of the decoder gives
bits back, so the loop over the blocks ends, also over blocks of size zero.  The
loops inside a block move an index forward.

`Decoder.Sound` is what every state of a run keeps: a valid bit buffer, and code
lengths of at most 16 in the two trees.  Under it nothing panics but a write to
the window past its end, and that only in a block whose end is past it.
-/

namespace Theos
namespace Lzx

open Base
open Fuelled

/-- Code lengths as the decoder keeps them between blocks. -/
def CodeLengths (count : Nat) (lens : List Nat) : Prop :=
  lens.length = count ∧ ∀ l ∈ lens, l ≤ 16

namespace Decoder

structure Sound (d : Decoder) : Prop extends Valid d where
  mainlens : CodeLengths mainCodeCount d.mainlens
  lenlens : CodeLengths lenCodeCount d.lenlens

/-- The number of bits that are left, in the buffer and in whole words. -/
def bitsLeft (d : Decoder) : Nat :=
  d.bitCount + 16 * ((d.input.length - d.byteOffset) / 2)

/-- A later state of a run. -/
structure Later (d d' : Decoder) : Prop where
  sound : d'.Sound
  bits : d'.bitsLeft ≤ d.bitsLeft

theorem Later.refl {d : Decoder} (hd : d.Sound) :
    Later d d :=
  ⟨hd, le_refl _⟩

theorem Later.trans {d d' d'' : Decoder} (h : Later d d') (h' : Later d' d'') :
    Later d d'' :=
  ⟨h'.sound, le_trans h'.bits h.bits⟩

theorem codeLengths_replicate
    (count : Nat) :
    CodeLengths count (List.replicate count 0) :=
  ⟨List.length_replicate, fun l hl => by rw [List.eq_of_mem_replicate hl]; omega⟩

theorem new_sound
    (input : Bytes) :
    (new input).Sound :=
  { new_valid input with
    mainlens := codeLengths_replicate _
    lenlens := codeLengths_replicate _ }

variable {d : Decoder} {n : Nat}

theorem Sound.feed (hd : d.Sound) (hcount : d.bitCount ≤ 15) :
    d.feed.Sound :=
  { hd.toValid.feed hcount with
    mainlens := hd.mainlens
    lenlens := hd.lenlens }

theorem Sound.skip (hd : d.Sound) (hn : n ≤ d.bitCount) :
    (d.skip n).Sound :=
  { hd.toValid.skip hn with
    mainlens := hd.mainlens
    lenlens := hd.lenlens }

theorem bitsLeft_feed (h : ¬d.input.length - d.byteOffset < 2) :
    d.feed.bitsLeft = d.bitsLeft := by
  have hcount : d.feed.bitCount = d.bitCount + 16 := rfl
  have hoffset : d.feed.byteOffset = d.byteOffset + 2 := rfl
  have hinput : d.feed.input = d.input := rfl
  rw [bitsLeft, bitsLeft, hcount, hoffset, hinput]
  omega

theorem bitsLeft_skip (hn : n ≤ d.bitCount) :
    (d.skip n).bitsLeft + n = d.bitsLeft := by
  have hcount : (d.skip n).bitCount = d.bitCount - n := rfl
  have hinput : (d.skip n).input = d.input := rfl
  have hoffset : (d.skip n).byteOffset = d.byteOffset := rfl
  rw [bitsLeft, bitsLeft, hcount, hinput, hoffset]
  omega

end Decoder

open Decoder

section

variable {d : Decoder} {n : Nat}

/-! ## Bits -/

theorem tryFeed_ends (hd : d.Sound) (hcount : d.bitCount ≤ 15) :
    Ends False tryFeed d fun fed d' => d'.Sound ∧ d'.bitsLeft = d.bitsLeft ∧
      (fed = true → 16 ≤ d'.bitCount) := by
  by_cases h : d.input.length - d.byteOffset < 2
  · exact ends_of_ok (tryFeed_of_short h) ⟨hd, rfl, fun hfed => absurd hfed (by decide)⟩
  · exact ends_of_ok (tryFeed_of_word h (by omega))
      ⟨hd.feed hcount, bitsLeft_feed h, fun _ => Nat.le_add_left 16 d.bitCount⟩

theorem dropBits_ends (hd : d.Sound) (hn : n ≤ d.bitCount) :
    Ends False (dropBits n) d fun _ d' => d'.Sound ∧ d'.bitsLeft + n = d.bitsLeft :=
  ends_of_ok (dropBits_eq hn hd.toValid) ⟨hd.skip hn, bitsLeft_skip hn⟩

theorem feedFor_ends (hd : d.Sound) (hn : n ≤ 16 ∨ n ≤ d.bitCount) :
    Ends False (feedFor n) d fun _ d' =>
      d'.Sound ∧ d'.bitsLeft = d.bitsLeft ∧ n ≤ d'.bitCount := by
  refine ends_get_bind ?_
  split
  · refine Ends.bind (tryFeed_ends hd (by omega)) ?_
    rintro fed d₁ ⟨hd₁, hbits, hfed⟩
    split
    · exact ends_pure ⟨hd₁, hbits, by have := hfed ‹_›; omega⟩
    · exact ends_err _
  · exact ends_pure ⟨hd, rfl, by omega⟩

/-- `get_bits` takes the number of bits it is asked for. -/
theorem getBits_ends (hd : d.Sound) (hn : n ≤ 16 ∨ n ≤ d.bitCount) :
    Ends False (getBits n) d fun value d' =>
      d'.Sound ∧ d'.bitsLeft + n = d.bitsLeft ∧ value < 2 ^ n := by
  unfold getBits
  split
  · rename_i h
    exact ends_pure ⟨hd, by omega, Nat.two_pow_pos n⟩
  · refine Ends.bind (feedFor_ends hd hn) ?_
    rintro - d₁ ⟨hd₁, hbits, hcount⟩
    have hlt := hd₁.count_lt
    refine ends_get_bind ?_
    refine ends_orPanic_bind (if_pos (by omega)) ?_
    refine ends_orPanic_bind (if_pos (by omega)) ?_
    refine Ends.bind (dropBits_ends hd₁ hcount) ?_
    rintro - d₂ ⟨hd₂, hbits₂⟩
    refine ends_pure ⟨hd₂, by omega, lt_of_le_of_lt (Nat.mod_le _ _) ?_⟩
    rw [Nat.shiftRight_eq_div_pow, Nat.div_lt_iff_lt_mul (Nat.two_pow_pos _), ← Nat.pow_add,
      Nat.add_sub_cancel' (by omega)]
    exact hd₁.buffer_lt

theorem feedCode_ends (hd : d.Sound) :
    Ends False feedCode d fun _ d' => d'.Sound ∧ d'.bitsLeft = d.bitsLeft := by
  refine ends_get_bind ?_
  split
  · refine Ends.bind (tryFeed_ends hd (by omega)) ?_
    rintro fed d₁ ⟨hd₁, hbits, -⟩
    exact ends_pure ⟨hd₁, hbits⟩
  · exact ends_pure ⟨hd, rfl⟩

/-- What `build_table` returns: a table without codes, or one for lengths that use up the
code space. -/
inductive IsTable : Huffman → Prop
  | empty {h : Huffman} : h.maxbits = 0 → IsTable h
  | complete {codelens : List Nat} {s : Filling} :
      codelens.length ≤ 512 → (∀ l ∈ codelens, l ≤ 16) → Complete codelens →
      Filled codelens (maxLength codelens) codelens.length s → IsTable s.huffman

theorem tableOf_ends {codelens : List Nat} (hlength : codelens.length ≤ 512)
    (d : Decoder) :
    Ends False (tableOf codelens) d fun h d' => IsTable h ∧ d' = d := by
  have hresult : ∃ result, buildTable codelens = some result ∧
      ∀ h, result = some h → IsTable h := by
    by_cases h16 : ∀ l ∈ codelens, l ≤ 16
    · by_cases hcomplete : Complete codelens
      · obtain ⟨s, hs, hfilled⟩ := buildTable_of_complete h16 hcomplete
        refine ⟨_, hs, ?_⟩
        rintro _ ⟨⟩
        exact IsTable.complete hlength h16 hcomplete hfilled
      · have hany : ¬codelens.any (16 < ·) = true := by
          simpa using h16
        have hkraft : codeAfter codelens (maxLength codelens) ≠ 2 ^ maxLength codelens := by
          rwa [codeAfter_eq_kraft, Ne, ← complete_iff_kraft]
        rw [buildTable, if_neg hany, if_pos hkraft]
        split
        · refine ⟨_, rfl, ?_⟩
          rintro _ ⟨⟩
          exact IsTable.empty rfl
        · exact ⟨none, rfl, by simp⟩
    · have hany : codelens.any (16 < ·) = true := by
        simpa using h16
      exact ⟨none, if_pos hany, by simp⟩
  obtain ⟨result, hbuild, hresult⟩ := hresult
  refine ends_orPanic_bind hbuild ?_
  cases result with
  | none =>
    exact ends_err _
  | some h =>
    exact ends_pure ⟨hresult h rfl, rfl⟩

/-- Whatever the buffer holds, it starts with the code of some symbol. -/
theorem lookupCode_complete {codelens : List Nat} {s : Filling} (hlength : codelens.length ≤ 512)
    (h16 : ∀ l ∈ codelens, l ≤ 16) (hcomplete : Complete codelens)
    (hs : Filled codelens (maxLength codelens) codelens.length s) (hd : d.Valid) :
    ∃ code, lookupCode s.huffman d = some (.ok (code, d)) := by
  have hmax16 : maxLength codelens ≤ 16 := foldl_max_le (Nat.zero_le _) h16
  have hwindow : d.bitBuffer / 2 ^ (32 - maxLength codelens) <
      kraft codelens (maxLength codelens) := by
    rw [(complete_iff_kraft codelens).mp hcomplete, Nat.div_lt_iff_lt_mul (Nat.two_pow_pos _),
      ← Nat.pow_add, Nat.add_sub_cancel' (by omega)]
    exact hd.buffer_lt
  obtain ⟨i, l, hi, hl, hlmax, hcode⟩ := exists_symbol_of_lt_kraft hwindow
  have hbuffer : d.bitBuffer / 2 ^ (32 - l) = canonicalCode codelens i := by
    rw [← hcode, Nat.div_div_eq_div_mul, ← Nat.pow_add]
    congr 2
    omega
  by_cases h9 : l ≤ 9
  · exact ⟨_, lookupCode_of_short hs hlength hi hl h9 hbuffer⟩
  · exact ⟨_, lookupCode_of_long hs hlength hmax16 hd hi (by omega) hbuffer⟩

theorem getCode_ends {h : Huffman} (hh : IsTable h) (hd : d.Sound) :
    Ends False (getCode h) d fun _ d' => Later d d' := by
  unfold getCode
  cases hh with
  | empty hzero =>
    rw [if_pos hzero]
    exact ends_err _
  | complete hlength h16 hcomplete hs =>
    have hmaxbits := hs.maxbits ▸ hcomplete.maxLength_pos.ne'
    rw [if_neg hmaxbits]
    refine Ends.bind (feedCode_ends hd) ?_
    rintro - d₁ ⟨hd₁, hbits₁⟩
    obtain ⟨code, hlookup⟩ := lookupCode_complete hlength h16 hcomplete hs hd₁.toValid
    refine ends_bind_of_ok hlookup ?_
    refine ends_get_bind ?_
    split
    · exact ends_err _
    · refine Ends.bind (dropBits_ends hd₁ (by omega)) ?_
      rintro - d₂ ⟨hd₂, hbits₂⟩
      exact ends_pure ⟨hd₂, by omega⟩

/-! ## Trees -/

theorem later_of_getBits {d' : Decoder} (h : d'.Sound ∧ d'.bitsLeft + n = d.bitsLeft) :
    Later d d' :=
  ⟨h.1, by omega⟩

theorem readLengths_ends {bits : Nat} (hbits : bits ≤ 16) (count : Nat) (hd : d.Sound) :
    Ends False (readLengths bits count) d fun lens d' => lens.length = count ∧ Later d d' := by
  induction count generalizing d with
  | zero =>
    exact ends_pure ⟨rfl, Later.refl hd⟩
  | succ count ih =>
    refine Ends.bind (getBits_ends hd (Or.inl hbits)) ?_
    rintro length d₁ ⟨hd₁, hbits₁, -⟩
    refine Ends.bind (ih hd₁) ?_
    rintro rest d₂ ⟨hrest, hlater⟩
    exact ends_pure ⟨by rw [List.length_cons, hrest],
      (later_of_getBits ⟨hd₁, hbits₁⟩).trans hlater⟩

variable {lens : List Nat} {i count : Nat}

theorem applyDelta_ends {delta : Nat} (hlens : CodeLengths count lens) (hi : i < count)
    (hdelta : delta ≤ 16) (d : Decoder) :
    Ends False (applyDelta lens i delta) d fun length d' => length ≤ 16 ∧ d' = d := by
  obtain ⟨hlength, hle⟩ := hlens
  have hget := List.getElem?_eq_getElem (show i < lens.length by omega)
  have hle' := hle _ (List.mem_of_getElem? hget)
  refine ends_orPanic_bind hget ?_
  refine ends_orPanic_bind (if_pos (by omega)) ?_
  refine ends_orPanic_bind (if_pos (by omega)) ?_
  exact ends_pure ⟨by omega, rfl⟩

theorem CodeLengths.set {length : Nat} (hlens : CodeLengths count lens) (hlength : length ≤ 16) :
    CodeLengths count (lens.set i length) := by
  refine ⟨by rw [List.length_set, hlens.1], fun l hl => ?_⟩
  rcases List.mem_or_eq_of_mem_set hl with hmem | rfl
  · exact hlens.2 l hmem
  · exact hlength

theorem CodeLengths.fill {length run : Nat} (hlens : CodeLengths count lens)
    (hlength : length ≤ 16) (hrun : ¬lens.length < i + run) :
    CodeLengths count (splice lens i (List.replicate run length)) := by
  refine ⟨?_, fun l hl => ?_⟩
  · rw [length_splice (by rw [List.length_replicate]; omega), hlens.1]
  · rw [splice, List.mem_append, List.mem_append] at hl
    rcases hl with (hl | hl) | hl
    · exact hlens.2 l (List.mem_of_mem_take hl)
    · rw [List.eq_of_mem_replicate hl]
      exact hlength
    · exact hlens.2 l (List.mem_of_mem_drop hl)

/-- What a round of `read_tree` leaves. -/
def Advanced (count i : Nat) (d : Decoder) (next : List Nat × Nat) (d' : Decoder) : Prop :=
  CodeLengths count next.1 ∧ i < next.2 ∧ Later d d'

theorem readTreeRound_ends {pretree : Huffman} (hpretree : IsTable pretree)
    (hlens : CodeLengths count lens) (hi : i < count) (hd : d.Sound) :
    Ends False (readTreeRound pretree lens i) d (Advanced count i d) := by
  -- a run of zeros, whose length is read with `bits` bits
  have hzeros : ∀ d₁, Later d d₁ → ∀ bits least, bits ≤ 16 → 0 < least →
      Ends False (getBits bits >>= fun value =>
        if lens.length < i + (value + least) then corrupt
        else pure (splice lens i (List.replicate (value + least) 0), i + (value + least)))
        d₁ (Advanced count i d) := by
    intro d₁ hlater bits least hbits hleast
    refine Ends.bind (getBits_ends hlater.sound (Or.inl hbits)) ?_
    rintro value d₂ ⟨hd₂, hbits₂, -⟩
    split
    · exact ends_err _
    · exact ends_pure ⟨hlens.fill (Nat.zero_le _) ‹_›, by omega,
        hlater.trans (later_of_getBits ⟨hd₂, hbits₂⟩)⟩
  refine Ends.bind (getCode_ends hpretree hd) ?_
  intro code d₁ hlater
  dsimp only
  split
  · refine Ends.bind (applyDelta_ends hlens hi ‹_› d₁) ?_
    rintro length _ ⟨hlength, rfl⟩
    exact ends_pure ⟨hlens.set hlength, Nat.lt_succ_self i, hlater⟩
  split
  · exact hzeros d₁ hlater 4 4 (by decide) (by decide)
  split
  · exact hzeros d₁ hlater 5 20 (by decide) (by decide)
  split
  · refine Ends.bind (getBits_ends hlater.sound (Or.inl (by decide))) ?_
    rintro bits d₂ ⟨hd₂, hbits₂, -⟩
    have hlater₂ := hlater.trans (later_of_getBits ⟨hd₂, hbits₂⟩)
    split
    · exact ends_err _
    refine Ends.bind (getCode_ends hpretree hd₂) ?_
    intro code d₃ hlater₃
    split
    · exact ends_err _
    refine Ends.bind (applyDelta_ends hlens hi (by omega) d₃) ?_
    rintro length _ ⟨hlength, rfl⟩
    exact ends_pure ⟨hlens.fill hlength ‹_›, by omega, hlater₂.trans hlater₃⟩
  · exact ends_err _

theorem readTreeLoop_ends {pretree : Huffman} (hpretree : IsTable pretree) {fuel : Nat}
    (hfuel : count - i < fuel) (hlens : CodeLengths count lens) (hd : d.Sound) :
    Ends False (readTreeLoop pretree fuel lens i) d fun lens' d' =>
      CodeLengths count lens' ∧ Later d d' := by
  -- the distance of the index from the end falls with the fuel
  induction fuel generalizing lens i d with
  | zero =>
    omega
  | succ fuel ih =>
    rw [readTreeLoop, hlens.1]
    split
    · refine Ends.bind (readTreeRound_ends hpretree hlens ‹_› hd) ?_
      rintro ⟨lens₁, i₁⟩ d₁ ⟨hlens₁, hi₁, hlater⟩
      dsimp only at hlens₁ hi₁
      refine (ih (by omega) hlens₁ hlater.sound).imp ?_
      rintro lens₂ d₂ ⟨hlens₂, hlater₂⟩
      exact ⟨hlens₂, hlater.trans hlater₂⟩
    · exact ends_pure ⟨hlens, Later.refl hd⟩

theorem readTree_ends {fuel : Nat} (hfuel : count < fuel) (hlens : CodeLengths count lens)
    (hd : d.Sound) :
    Ends False (readTree fuel lens) d fun lens' d' => CodeLengths count lens' ∧ Later d d' := by
  refine Ends.bind (readLengths_ends (by decide) 20 hd) ?_
  rintro pretreeLen d₁ ⟨hlength, hlater⟩
  refine Ends.bind (tableOf_ends (by omega) d₁) ?_
  rintro pretree _ ⟨hpretree, rfl⟩
  refine (readTreeLoop_ends hpretree (by omega) hlens hlater.sound).imp ?_
  rintro lens' d₂ ⟨hlens', hlater'⟩
  exact ⟨hlens', hlater.trans hlater'⟩

theorem CodeLengths.take (hlens : CodeLengths count lens) (hi : i ≤ count) :
    CodeLengths i (lens.take i) :=
  ⟨by rw [List.length_take, hlens.1]; omega, fun l hl => hlens.2 l (List.mem_of_mem_take hl)⟩

theorem CodeLengths.drop (hlens : CodeLengths count lens) :
    CodeLengths (count - i) (lens.drop i) :=
  ⟨by rw [List.length_drop, hlens.1], fun l hl => hlens.2 l (List.mem_of_mem_drop hl)⟩

theorem CodeLengths.append {count' : Nat} {lens' : List Nat} (h : CodeLengths count lens)
    (h' : CodeLengths count' lens') :
    CodeLengths (count + count') (lens ++ lens') := by
  refine ⟨by rw [List.length_append, h.1, h'.1], fun l hl => ?_⟩
  rcases List.mem_append.mp hl with hl | hl
  · exact h.2 l hl
  · exact h'.2 l hl

theorem readMainTree_ends {fuel : Nat} (hfuel : mainCodeSplit < fuel) (hd : d.Sound) :
    Ends False (readMainTree fuel) d fun h d' => IsTable h ∧ Later d d' := by
  refine ends_get_bind ?_
  refine Ends.bind (readTree_ends hfuel (hd.mainlens.take (by decide)) hd) ?_
  rintro mainFirst d₁ ⟨hfirst, hlater₁⟩
  have hmain := hfirst.append (hlater₁.sound.mainlens.drop (i := mainCodeSplit))
  refine ends_modify_bind (ends_get_bind ?_)
  have hsound₂ : { d₁ with
      mainlens := mainFirst ++ d₁.mainlens.drop mainCodeSplit }.Sound :=
    { hlater₁.sound with mainlens := hmain }
  refine Ends.bind (readTree_ends (lt_of_le_of_lt (by decide) hfuel)
    (hsound₂.mainlens.drop (i := mainCodeSplit)) hsound₂) ?_
  rintro mainLast d₃ ⟨hlast, hlater₃⟩
  have hmain₃ := (hlater₃.sound.mainlens.take (i := mainCodeSplit) (by decide)).append hlast
  refine ends_modify_bind (ends_get_bind ?_)
  have hsound₄ : { d₃ with
      mainlens := d₃.mainlens.take mainCodeSplit ++ mainLast }.Sound :=
    { hlater₃.sound with mainlens := hmain₃ }
  have hlength := hsound₄.mainlens.1.le.trans (show mainCodeCount ≤ 512 by decide)
  refine (tableOf_ends hlength _).imp ?_
  rintro h d₄ ⟨htable, hd₄⟩
  exact ⟨htable, hd₄ ▸ hsound₄, hd₄ ▸ le_trans hlater₃.bits hlater₁.bits⟩

theorem readLengthTree_ends {fuel : Nat} (hfuel : lenCodeCount < fuel) (hd : d.Sound) :
    Ends False (readLengthTree fuel) d fun h d' => IsTable h ∧ Later d d' := by
  refine ends_get_bind ?_
  refine Ends.bind (readTree_ends hfuel hd.lenlens hd) ?_
  rintro lenLens d₁ ⟨hlens, hlater⟩
  refine ends_modify_bind ?_
  have hlength := hlens.1.le.trans (show lenCodeCount ≤ 512 by decide)
  refine (tableOf_ends hlength _).imp ?_
  rintro h d₂ ⟨htable, hd₂⟩
  exact ⟨htable, hd₂ ▸ { hlater.sound with lenlens := hlens }, hd₂ ▸ hlater.bits⟩

theorem readAlignedTree_ends (hd : d.Sound)
    (readAligned : Bool) :
    Ends False (readAlignedTree readAligned) d fun aligned d' =>
      (∀ h, aligned = some h → IsTable h) ∧ Later d d' := by
  unfold readAlignedTree
  split
  · refine Ends.bind (readLengths_ends (by decide) 8 hd) ?_
    rintro alignedLen d₁ ⟨hlength, hlater⟩
    refine Ends.bind (tableOf_ends (by omega) d₁) ?_
    rintro h _ ⟨htable, rfl⟩
    exact ends_pure ⟨fun h' heq => Option.some.inj heq ▸ htable, hlater⟩
  · exact ends_pure ⟨fun h heq => (Option.some_ne_none h heq.symm).elim, Later.refl hd⟩

theorem readTrees_ends {fuel : Nat} (hfuel : mainCodeSplit < fuel) (hd : d.Sound)
    (readAligned : Bool) :
    Ends False (readTrees fuel readAligned) d fun trees d' =>
      IsTable trees.1 ∧ IsTable trees.2.1 ∧ (∀ h, trees.2.2 = some h → IsTable h) ∧
        Later d d' := by
  refine Ends.bind (readAlignedTree_ends hd readAligned) ?_
  rintro aligned d₁ ⟨haligned, hlater₁⟩
  refine Ends.bind (readMainTree_ends hfuel hlater₁.sound) ?_
  rintro main d₂ ⟨hmain, hlater₂⟩
  refine Ends.bind (readLengthTree_ends (lt_of_le_of_lt (by decide) hfuel) hlater₂.sound) ?_
  rintro length d₃ ⟨hlength, hlater₃⟩
  exact ends_pure ⟨hmain, hlength, haligned, hlater₁.trans (hlater₂.trans hlater₃)⟩

/-! ## Blocks -/

/-- A change of fields that neither the buffer nor the trees are among. -/
theorem Later.of_eq {d d' : Decoder} (hd : d.Sound) (hcount : d'.bitCount = d.bitCount)
    (hbuffer : d'.bitBuffer = d.bitBuffer) (hmain : d'.mainlens = d.mainlens)
    (hlen : d'.lenlens = d.lenlens) (hinput : d'.input = d.input)
    (hoffset : d.byteOffset ≤ d'.byteOffset) :
    Later d d' := by
  refine ⟨⟨⟨?_, ?_, ?_⟩, ?_, ?_⟩, ?_⟩
  · exact hcount ▸ hd.count_lt
  · exact hbuffer ▸ hd.buffer_lt
  · rw [hcount, hbuffer]
    exact hd.low
  · exact hmain ▸ hd.mainlens
  · exact hlen ▸ hd.lenlens
  · rw [bitsLeft, bitsLeft, hcount, hinput]
    omega

theorem ensureAtLeast_ends (bytes : Nat) (d : Decoder) :
    Ends False (ensureAtLeast bytes) d fun _ d' => d' = d := by
  refine ends_get_bind ?_
  split
  · exact ends_err _
  · exact ends_pure rfl

theorem skipPadding_ends (hd : d.Sound) :
    Ends False skipPadding d fun _ d' => Later d d' := by
  refine ends_get_bind ?_
  split
  · refine Ends.bind (ensureAtLeast_ends 1 d) ?_
    rintro - _ rfl
    exact ends_modify (Later.of_eq hd rfl rfl rfl rfl rfl (Nat.le_succ _))
  · exact ends_pure (Later.refl hd)

theorem readBlockSize_ends (hd : d.Sound) :
    Ends False readBlockSize d fun size d' => size ≤ maxBlockSize ∧ Later d d' := by
  refine Ends.bind (getBits_ends hd (Or.inl (by decide))) ?_
  rintro full d₁ ⟨hd₁, hbits₁, -⟩
  have hlater₁ := later_of_getBits ⟨hd₁, hbits₁⟩
  split
  · exact ends_pure ⟨le_refl _, hlater₁⟩
  · refine Ends.bind (getBits_ends hd₁ (Or.inl (by decide))) ?_
    rintro size d₂ ⟨hd₂, hbits₂, -⟩
    split
    · exact ends_err _
    · exact ends_pure ⟨by omega, hlater₁.trans (later_of_getBits ⟨hd₂, hbits₂⟩)⟩

theorem readOffsets_ends (hd : d.Sound) :
    Ends False readOffsets d fun _ d' => Later d d' := by
  refine ends_get_bind ?_
  have hn : (if d.bitCount = 0 then 16 else d.bitCount) ≤ 16 ∨
      (if d.bitCount = 0 then 16 else d.bitCount) ≤ d.bitCount := by
    split <;> omega
  refine Ends.bind (getBits_ends hd hn) ?_
  rintro - d₁ ⟨hd₁, hbits₁, -⟩
  refine Ends.bind (ensureAtLeast_ends 12 d₁) ?_
  rintro - _ rfl
  exact ends_modify ((later_of_getBits ⟨hd₁, hbits₁⟩).trans
    (Later.of_eq hd₁ rfl rfl rfl rfl rfl (Nat.le_add_right _ 12)))

/-- A block header takes bits. -/
theorem readBlockHeader_ends (hd : d.Sound) :
    Ends False readBlockHeader d fun header d' =>
      header.2 ≤ maxBlockSize ∧ d'.Sound ∧ d'.bitsLeft < d.bitsLeft := by
  refine Ends.bind (skipPadding_ends hd) ?_
  intro _ d₁ hlater₁
  refine Ends.bind (getBits_ends hlater₁.sound (Or.inl (by decide))) ?_
  rintro blockType d₂ ⟨hd₂, hbits₂, -⟩
  refine Ends.bind (readBlockSize_ends hd₂) ?_
  rintro size d₃ ⟨hsize, hlater₃⟩
  have hlt : d₃.bitsLeft < d.bitsLeft := by
    have := hlater₁.bits
    have := hlater₃.bits
    omega
  split
  · exact ends_pure ⟨hsize, hlater₃.sound, hlt⟩
  split
  · refine Ends.bind (readOffsets_ends hlater₃.sound) ?_
    intro _ d₄ hlater₄
    exact ends_pure ⟨hsize, hlater₄.sound, lt_of_le_of_lt hlater₄.bits hlt⟩
  · exact ends_err _

section Window

variable {stop : Nat} {hmain hlength : Huffman} {haligned : Option Huffman}

theorem writeWindow_ends (hi : i < stop) (byte : UInt8) (hd : d.Sound) :
    Ends (windowSize < stop) (writeWindow i byte) d fun _ d' => Later d d' := by
  unfold writeWindow
  split
  · exact ends_modify (Later.of_eq hd rfl rfl rfl rfl rfl (le_refl _))
  · exact ends_panic (by omega)

theorem copyMatch_ends {matchoffset length : Nat} (hi : i + length ≤ stop) (hd : d.Sound) :
    Ends (windowSize < stop) (copyMatch matchoffset length i) d fun _ d' => Later d d' := by
  induction length generalizing i d with
  | zero =>
    exact ends_pure (Later.refl hd)
  | succ length ih =>
    rw [copyMatch]
    refine Ends.bind (Q := fun _ d' => d' = d) ?_ ?_
    · refine ends_get_bind ?_
      split
      · exact ends_pure rfl
      · exact ends_panic (by omega)
    rintro byte _ rfl
    refine Ends.bind (writeWindow_ends (by omega) byte hd) ?_
    intro _ d₁ hlater
    exact (ih (by omega) hlater.sound).imp fun _ _ => hlater.trans

theorem readFooter_ends (hhaligned : ∀ h, haligned = some h → IsTable h) (hd : d.Sound)
    {offsetBits : Nat} (hbits : offsetBits ≤ 16) :
    Ends False (readFooter haligned offsetBits) d fun _ d' => Later d d' := by
  unfold readFooter
  split
  · cases haligned with
    | none =>
      refine Ends.bind (getBits_ends hd (Or.inl hbits)) ?_
      rintro bits d₁ ⟨hd₁, hbits₁, -⟩
      exact ends_pure (later_of_getBits ⟨hd₁, hbits₁⟩)
    | some aligned =>
      dsimp only
      split
      · refine Ends.bind (getBits_ends hd (Or.inl (by omega))) ?_
        rintro bits d₁ ⟨hd₁, hbits₁, hlt⟩
        have hmul : bits * 8 < 2 ^ 16 := by
          have hle : 2 ^ (offsetBits - 3) ≤ 2 ^ 13 :=
            Nat.pow_le_pow_right (by decide) (by omega)
          omega
        refine ends_orPanic_bind (if_pos hmul) ?_
        refine Ends.bind (getCode_ends (hhaligned aligned rfl) hd₁) ?_
        intro code d₂ hlater₂
        exact ends_pure ((later_of_getBits ⟨hd₁, hbits₁⟩).trans hlater₂)
      · refine Ends.bind (getBits_ends hd (Or.inl hbits)) ?_
        rintro bits d₁ ⟨hd₁, hbits₁, -⟩
        exact ends_pure (later_of_getBits ⟨hd₁, hbits₁⟩)
  · exact ends_pure (Later.refl hd)

theorem footerBits_le :
    ∀ bits ∈ footerBits, bits ≤ 16 := by
  simp [footerBits]

theorem readMatchOffset_ends (hhaligned : ∀ h, haligned = some h → IsTable h) (hd : d.Sound)
    {slot : Nat} (hslot : slot < footerBits.length) :
    Ends False (readMatchOffset haligned slot) d fun _ d' => Later d d' := by
  unfold readMatchOffset
  split
  · exact ends_get_bind (ends_modify_bind
      (ends_pure (Later.of_eq hd rfl rfl rfl rfl rfl (le_refl _))))
  · have hbits := List.getElem?_eq_getElem hslot
    have hbase := List.getElem?_eq_getElem (show slot < basePosition.length from hslot)
    refine ends_orPanic_bind hbits ?_
    have hfooter := footerBits_le _ (List.mem_of_getElem? hbits)
    refine Ends.bind (readFooter_ends hhaligned hd hfooter) ?_
    intro footer d₁ hlater
    refine ends_orPanic_bind hbase ?_
    exact ends_modify_bind
      (ends_pure (hlater.trans (Later.of_eq hlater.sound rfl rfl rfl rfl rfl (le_refl _))))

theorem readMatchLength_ends (hh : IsTable hlength) (hd : d.Sound) (header : Nat) :
    Ends False (readMatchLength hlength header) d fun length d' => 0 < length ∧ Later d d' := by
  unfold readMatchLength
  split
  · refine Ends.bind (getCode_ends hh hd) ?_
    intro extra d₁ hlater
    exact ends_pure ⟨by omega, hlater⟩
  · exact ends_pure ⟨by omega, Later.refl hd⟩

/-- Reading a token does not panic, and what is read fits the block. -/
theorem parseToken_ends (hhmain : IsTable hmain) (hhlength : IsTable hlength)
    (hhaligned : ∀ h, haligned = some h → IsTable h) (hi : i < stop) (hd : d.Sound) :
    Ends False (parseToken stop hmain hlength haligned i) d fun t d' =>
      t.Fits i stop ∧ Later d d' := by
  refine Ends.bind (getCode_ends hhmain hd) ?_
  intro main d₁ hlater₁
  split
  · exact ends_pure ⟨hi, hlater₁⟩
  split
  · exact ends_err _
  refine Ends.bind (readMatchLength_ends hhlength hlater₁.sound _) ?_
  rintro matchlen d₂ ⟨hpos, hlater₂⟩
  refine Ends.bind (readMatchOffset_ends hhaligned hlater₂.sound (by omega)) ?_
  intro matchoffset d₃ hlater₃
  split
  · exact ends_err _
  · exact ends_pure ⟨⟨by omega, by omega, hpos, by omega⟩, hlater₁.trans (hlater₂.trans hlater₃)⟩

theorem writeToken_ends {t : Token} (hi : i + t.length ≤ stop) (hd : d.Sound) :
    Ends (windowSize < stop) (writeToken i t) d fun _ d' => Later d d' := by
  cases t with
  | literal byte =>
    exact writeWindow_ends hi byte hd
  | copy offset length =>
    exact copyMatch_ends hi hd

/-- A token moves the index forward, not past the end of the block. -/
theorem readToken_ends (hhmain : IsTable hmain) (hhlength : IsTable hlength)
    (hhaligned : ∀ h, haligned = some h → IsTable h) (hi : i < stop) (hd : d.Sound) :
    Ends (windowSize < stop) (readToken stop hmain hlength haligned i) d fun next d' =>
      i < next ∧ next ≤ stop ∧ Later d d' := by
  rw [readToken_eq]
  refine Ends.bind (parseToken_ends hhmain hhlength hhaligned hi hd).allow ?_
  rintro t d₁ ⟨hfits, hlater₁⟩
  refine Ends.bind (writeToken_ends hfits.end_le hlater₁.sound) ?_
  intro _ d₂ hlater₂
  exact ends_pure ⟨Nat.lt_add_of_pos_right hfits.length_pos, hfits.end_le, hlater₁.trans hlater₂⟩

theorem readTokens_ends (hhmain : IsTable hmain) (hhlength : IsTable hlength)
    (hhaligned : ∀ h, haligned = some h → IsTable h) {fuel : Nat} (hfuel : stop - i < fuel)
    (hi : i ≤ stop) (hd : d.Sound) :
    Ends (windowSize < stop) (readTokens stop hmain hlength haligned fuel i) d fun last d' =>
      last = stop ∧ Later d d' := by
  -- the distance of the index from the end falls with the fuel
  induction fuel generalizing i d with
  | zero =>
    omega
  | succ fuel ih =>
    rw [readTokens]
    split
    · refine Ends.bind (readToken_ends hhmain hhlength hhaligned ‹_› hd) ?_
      rintro next d₁ ⟨hlt, hle, hlater⟩
      refine (ih (by omega) hle hlater.sound).imp ?_
      rintro last d₂ ⟨hlast, hlater₂⟩
      exact ⟨hlast, hlater.trans hlater₂⟩
    · exact ends_pure ⟨by omega, Later.refl hd⟩

end Window

theorem readUncompressed_ends {start size : Nat} (hd : d.Sound) :
    Ends (windowSize < start + size) (readUncompressed start size) d fun written d' =>
      written = size ∧ Later d d' := by
  refine ends_modify_bind (ends_get_bind ?_)
  split
  · exact ends_err _
  split
  · exact ends_panic ‹_›
  · exact ends_modify_bind
      (ends_pure ⟨rfl, Later.of_eq hd rfl rfl rfl rfl rfl (Nat.le_add_right _ _)⟩)

/-- A block takes bits, and only one whose end is past that of the window panics. -/
theorem readBlock_ends {fuel start : Nat} (hfuel : maxBlockSize < fuel) (hd : d.Sound) :
    Ends (windowSize < start + maxBlockSize) (readBlock fuel start) d fun _ d' =>
      d'.Sound ∧ d'.bitsLeft < d.bitsLeft := by
  refine Ends.bind (readBlockHeader_ends hd).allow ?_
  rintro ⟨blockType, size⟩ d₁ ⟨hsize, hd₁, hlt⟩
  dsimp only at hsize
  refine ends_modify_bind ?_
  have hlater₂ : Later d₁ { d₁ with
      currentBlockStart := start
      currentBlockType := blockType
      currentBlockSize := size } :=
    Later.of_eq hd₁ rfl rfl rfl rfl rfl (le_refl _)
  split
  · refine (readUncompressed_ends hlater₂.sound).mono (fun h => by omega) ?_
    rintro written d₃ ⟨-, hlater₃⟩
    exact ⟨hlater₃.sound, lt_of_le_of_lt (hlater₂.trans hlater₃).bits hlt⟩
  · refine Ends.bind (readTrees_ends (lt_of_le_of_lt (by decide) hfuel) hlater₂.sound _).allow ?_
    rintro trees d₃ ⟨hmain, hlength, haligned, hlater₃⟩
    have hlater₂₃ := hlater₂.trans hlater₃
    refine Ends.bind ((readTokens_ends hmain hlength haligned (by omega) (Nat.le_add_right _ _)
      hlater₃.sound).mono (fun h => by dsimp only at h; omega) fun _ _ => id) ?_
    rintro last d₄ ⟨-, hlater₄⟩
    exact ends_pure ⟨hlater₄.sound, lt_of_le_of_lt (hlater₂₃.trans hlater₄).bits hlt⟩

theorem readBlocks_ends {fuel rounds : Nat} (hfuel : maxBlockSize < fuel)
    (hrounds : d.bitsLeft < rounds) (hd : d.Sound) (uncompressedSize written : Nat) :
    Ends True (readBlocks fuel uncompressedSize rounds written) d fun _ _ => True := by
  -- every round takes bits, whatever size its block has
  induction rounds generalizing written d with
  | zero =>
    omega
  | succ rounds ih =>
    rw [readBlocks]
    split
    · refine Ends.bind ((readBlock_ends hfuel hd).mono (fun _ => trivial) fun _ _ => id) ?_
      rintro size d₁ ⟨hd₁, hlt⟩
      exact ih (by omega) hd₁ _
    · exact ends_pure trivial

end

/-! ## More fuel -/

section Fuel

variable {fuel fuel' : Nat}

theorem readTreeLoop_extends (h : fuel ≤ fuel') (pretree : Huffman) (lens : List Nat) (i : Nat) :
    Extends (readTreeLoop pretree fuel lens i) (readTreeLoop pretree fuel' lens i) := by
  induction fuel generalizing fuel' lens i with
  | zero =>
    exact unfinished_extends _
  | succ fuel ih =>
    obtain ⟨fuel', rfl⟩ : ∃ k, fuel' = k + 1 := ⟨fuel' - 1, by omega⟩
    rw [readTreeLoop, readTreeLoop]
    refine extends_ite (Extends.bind (Extends.refl _) fun next => ?_) (Extends.refl _)
    exact ih (by omega) next.1 next.2

theorem readTree_extends (h : fuel ≤ fuel') (lens : List Nat) :
    Extends (readTree fuel lens) (readTree fuel' lens) :=
  Extends.bind (Extends.refl _) fun _ => Extends.bind (Extends.refl _) fun pretree =>
    readTreeLoop_extends h pretree lens 0

theorem readTrees_extends (h : fuel ≤ fuel') (readAligned : Bool) :
    Extends (readTrees fuel readAligned) (readTrees fuel' readAligned) := by
  have hmain : Extends (readMainTree fuel) (readMainTree fuel') :=
    Extends.bind (Extends.refl _) fun _ => Extends.bind (readTree_extends h _) fun _ =>
      Extends.bind (Extends.refl _) fun _ => Extends.bind (Extends.refl _) fun _ =>
        Extends.bind (readTree_extends h _) fun _ => Extends.refl _
  have hlength : Extends (readLengthTree fuel) (readLengthTree fuel') :=
    Extends.bind (Extends.refl _) fun _ =>
      Extends.bind (readTree_extends h _) fun _ => Extends.refl _
  exact Extends.bind (Extends.refl _) fun _ => Extends.bind hmain fun _ =>
    Extends.bind hlength fun _ => Extends.refl _

theorem readTokens_extends (h : fuel ≤ fuel') (stop : Nat) (hmain hlength : Huffman)
    (haligned : Option Huffman) (i : Nat) :
    Extends (readTokens stop hmain hlength haligned fuel i)
      (readTokens stop hmain hlength haligned fuel' i) := by
  induction fuel generalizing fuel' i with
  | zero =>
    exact unfinished_extends _
  | succ fuel ih =>
    obtain ⟨fuel', rfl⟩ : ∃ k, fuel' = k + 1 := ⟨fuel' - 1, by omega⟩
    rw [readTokens, readTokens]
    exact extends_ite (Extends.bind (Extends.refl _) fun next => ih (by omega) next)
      (Extends.refl _)

theorem readBlock_extends (h : fuel ≤ fuel') (start : Nat) :
    Extends (readBlock fuel start) (readBlock fuel' start) := by
  refine Extends.bind (Extends.refl _) fun header => Extends.bind (Extends.refl _) fun _ => ?_
  refine extends_ite (Extends.refl _) (Extends.bind (readTrees_extends h _) fun trees => ?_)
  exact Extends.bind (readTokens_extends h _ _ _ _ _) fun _ => Extends.refl _

theorem readBlocks_extends {rounds rounds' : Nat} (h : fuel ≤ fuel') (hrounds : rounds ≤ rounds')
    (uncompressedSize written : Nat) :
    Extends (readBlocks fuel uncompressedSize rounds written)
      (readBlocks fuel' uncompressedSize rounds' written) := by
  induction rounds generalizing rounds' written with
  | zero =>
    exact unfinished_extends _
  | succ rounds ih =>
    obtain ⟨rounds', rfl⟩ : ∃ k, rounds' = k + 1 := ⟨rounds' - 1, by omega⟩
    rw [readBlocks, readBlocks]
    exact extends_ite (Extends.bind (readBlock_extends h _) fun size => ih (by omega) _)
      (Extends.refl _)

end Fuel

/-- Fuel that is enough for every loop. -/
def enoughFuel (chunk : Bytes) : Nat :=
  8 * chunk.length + maxBlockSize + 1

theorem bitsLeft_lt_enoughFuel (chunk : Bytes) :
    (Decoder.new chunk).bitsLeft < enoughFuel chunk := by
  have hleft : (Decoder.new chunk).bitsLeft = 0 + 16 * ((chunk.length - 0) / 2) := rfl
  rw [hleft, enoughFuel]
  omega

theorem maxBlockSize_lt_enoughFuel (chunk : Bytes) :
    maxBlockSize < enoughFuel chunk := by
  rw [enoughFuel]
  omega

theorem exists_readBlocks (chunk : Bytes) (uncompressedSize : Nat) :
    ∃ result, readBlocks (enoughFuel chunk) uncompressedSize (enoughFuel chunk) 0
      (Decoder.new chunk) = some result := by
  have hends := readBlocks_ends (maxBlockSize_lt_enoughFuel chunk)
    (bitsLeft_lt_enoughFuel chunk) (Decoder.new_sound chunk) uncompressedSize 0
  rcases hrun : readBlocks (enoughFuel chunk) uncompressedSize (enoughFuel chunk) 0
    (Decoder.new chunk) with _ | result
  · have houtcome := hends.outcome
    rw [hrun] at houtcome
    exact houtcome.elim
  · exact ⟨result, rfl⟩

/-- Decompression ends on every input, with a result that more fuel does not change. -/
theorem decompress_ends (chunk : Bytes) (uncompressedSize : Nat) :
    ∃ result, ∀ k, decompress (enoughFuel chunk + k) chunk uncompressedSize = some result := by
  unfold decompress
  by_cases hsize : windowSize < uncompressedSize
  · exact ⟨_, fun k => if_pos hsize⟩
  · obtain ⟨result, hresult⟩ := exists_readBlocks chunk uncompressedSize
    have hmore : ∀ k, readBlocks (enoughFuel chunk + k) uncompressedSize (enoughFuel chunk + k) 0
        (Decoder.new chunk) = some result := fun k =>
      readBlocks_extends (Nat.le_add_right _ k) (Nat.le_add_right _ k) _ _ _ _ hresult
    rcases result with e | ⟨⟨⟩, decoder⟩
    · exact ⟨.error e, fun k => by rw [if_neg hsize, hmore k]⟩
    · exact ⟨_, fun k => by rw [if_neg hsize, hmore k]⟩

/-- `decompress` itself, without fuel. -/
def inflate (chunk : Bytes) (uncompressedSize : Nat) : Rust Error Bytes :=
  -- the fuel is enough, so the last case does not arise
  match decompress (enoughFuel chunk) chunk uncompressedSize with
  | some result => result
  | none => Rust.panic

theorem length_of_inflate {chunk output : Bytes} {uncompressedSize : Nat}
    (h : inflate chunk uncompressedSize = .ok output) :
    output.length = uncompressedSize := by
  rw [inflate] at h
  split at h
  next result hdecompress =>
    subst h
    unfold decompress at hdecompress
    split at hdecompress
    · cases hdecompress
    · split at hdecompress <;> cases hdecompress
      rw [length_decodeE8, List.length_map, List.length_range]
  next =>
    cases h

end Lzx
end Theos
