import Theos.Lzx.Decoder

/-!
# The bits of the input and the codes in them

The unread bits of a decoder are those in its buffer, from the top, and then
those of the words that are left of the input.  Reading a word into the buffer
leaves them alone, and `get_bits` and `get_code` take from their front.

`getCode_of_code` is the lookup: if the unread bits start with the canonical code
of a symbol, the two tables lead to its entry.
-/

namespace Theos
namespace Lzx

open Base
open Fuelled

/-- The bits of the whole words of a string of bytes. -/
def wordBits : Bytes → List Bool
  | low :: high :: rest => toBits 16 (ofLE [low, high]) ++ wordBits rest
  | _ => []

namespace Decoder

def unread (d : Decoder) : List Bool :=
  toBits d.bitCount (d.bitBuffer / 2 ^ (32 - d.bitCount)) ++
    wordBits (d.input.drop d.byteOffset)

/-- The buffer holds `bitCount` bits, and zeros below them. -/
structure Valid (d : Decoder) : Prop where
  count_lt : d.bitCount < 32
  buffer_lt : d.bitBuffer < 2 ^ 32
  low : 2 ^ (32 - d.bitCount) ∣ d.bitBuffer

/-- The state after a word has been read into the buffer. -/
def feed (d : Decoder) : Decoder :=
  { d with
    bitBuffer := d.bitBuffer ||| ofLE (slice d.input d.byteOffset 2) <<< (16 - d.bitCount)
    bitCount := d.bitCount + 16
    byteOffset := d.byteOffset + 2 }

/-- The state after `n` bits have been taken. -/
def skip (d : Decoder) (n : Nat) : Decoder :=
  { d with bitBuffer := d.bitBuffer * 2 ^ n % 2 ^ 32, bitCount := d.bitCount - n }

variable {d : Decoder} {n : Nat}

theorem new_valid
    (input : Bytes) :
    (new input).Valid :=
  ⟨Nat.zero_lt_succ 31, Nat.two_pow_pos 32, dvd_zero _⟩

/-! ## Words -/

theorem tryFeed_of_short
    (h : d.input.length - d.byteOffset < 2) :
    tryFeed d = some (.ok (false, d)) := by
  rw [tryFeed, get_bind, if_pos h]
  rfl

theorem tryFeed_of_word (h : ¬d.input.length - d.byteOffset < 2)
    (hcount : d.bitCount ≤ 16) :
    tryFeed d = some (.ok (true, d.feed)) := by
  rw [tryFeed, get_bind, if_neg h, subU, if_pos hcount]
  rfl

/-- The next word of the input. -/
theorem exists_word (h : ¬d.input.length - d.byteOffset < 2) :
    ∃ low high rest, d.input.drop d.byteOffset = low :: high :: rest ∧
      slice d.input d.byteOffset 2 = [low, high] ∧ d.input.drop (d.byteOffset + 2) = rest := by
  rcases hdrop : d.input.drop d.byteOffset with - | ⟨low, - | ⟨high, rest⟩⟩
  · have := congrArg List.length hdrop
    simp only [List.length_drop, List.length_nil] at this
    omega
  · have := congrArg List.length hdrop
    simp only [List.length_drop, List.length_cons, List.length_nil] at this
    omega
  · refine ⟨low, high, rest, rfl, by rw [slice, hdrop]; rfl, ?_⟩
    rw [← List.drop_drop, hdrop]
    rfl

theorem wordBits_of_short (h : d.input.length - d.byteOffset < 2) :
    wordBits (d.input.drop d.byteOffset) = [] := by
  have hlength : (d.input.drop d.byteOffset).length < 2 := by
    rwa [List.length_drop]
  rcases hdrop : d.input.drop d.byteOffset with - | ⟨low, - | ⟨high, rest⟩⟩
  · rfl
  · rfl
  · rw [hdrop] at hlength
    simp only [List.length_cons] at hlength
    omega

theorem word_lt
    (input : Bytes) (off : Nat) :
    ofLE (slice input off 2) < 2 ^ 16 := by
  have hlength : (slice input off 2).length ≤ 2 := List.length_take_le _ _
  calc ofLE (slice input off 2)
      < 256 ^ (slice input off 2).length := ofLE_lt _
    _ ≤ 256 ^ 2 := Nat.pow_le_pow_right (by decide) hlength
    _ = 2 ^ 16 := by decide

theorem Valid.feed_buffer (hd : d.Valid) (hcount : d.bitCount ≤ 15) :
    d.feed.bitBuffer = 2 ^ (16 - d.bitCount) *
      (2 ^ 16 * (d.bitBuffer / 2 ^ (32 - d.bitCount)) + ofLE (slice d.input d.byteOffset 2)) := by
  have hword := word_lt d.input d.byteOffset
  have hpow : 2 ^ (32 - d.bitCount) = 2 ^ (16 - d.bitCount) * 2 ^ 16 := by
    rw [← Nat.pow_add]
    congr 1
    omega
  have hshift : ofLE (slice d.input d.byteOffset 2) <<< (16 - d.bitCount) <
      2 ^ (32 - d.bitCount) := by
    rw [Nat.shiftLeft_eq, hpow, Nat.mul_comm]
    exact Nat.mul_lt_mul_of_pos_left hword (Nat.two_pow_pos _)
  have hor := Nat.two_pow_add_eq_or_of_lt hshift (d.bitBuffer / 2 ^ (32 - d.bitCount))
  rw [Nat.mul_div_cancel' hd.low] at hor
  rw [feed, ← hor, Nat.shiftLeft_eq, Nat.mul_comm _ (2 ^ (16 - d.bitCount)), Nat.mul_add,
    ← Nat.mul_assoc, ← hpow, Nat.mul_div_cancel' hd.low]

theorem Valid.feed (hd : d.Valid) (hcount : d.bitCount ≤ 15) :
    d.feed.Valid := by
  have hbuffer := hd.feed_buffer hcount
  have hcount' : d.feed.bitCount = d.bitCount + 16 := rfl
  refine ⟨by omega, ?_, ?_⟩
  · refine Nat.or_lt_two_pow hd.buffer_lt ?_
    rw [Nat.shiftLeft_eq]
    calc _ < 2 ^ 16 * 2 ^ (16 - d.bitCount) :=
          Nat.mul_lt_mul_of_pos_right (word_lt _ _) (Nat.two_pow_pos _)
      _ ≤ 2 ^ 16 * 2 ^ 16 := Nat.mul_le_mul_left _ (Nat.pow_le_pow_right (by decide) (by omega))
  · rw [hbuffer, hcount', show 32 - (d.bitCount + 16) = 16 - d.bitCount by omega]
    exact dvd_mul_right _ _

/-- A word is only moved from the input to the buffer. -/
theorem Valid.unread_feed (hd : d.Valid) (hcount : d.bitCount ≤ 15)
    (h : ¬d.input.length - d.byteOffset < 2) :
    d.feed.unread = d.unread := by
  obtain ⟨low, high, rest, hdrop, hslice, hrest⟩ := exists_word h
  have hword := word_lt d.input d.byteOffset
  rw [hslice] at hword
  have hcount' : d.feed.bitCount = d.bitCount + 16 := rfl
  have hinput : d.feed.input.drop d.feed.byteOffset = rest := hrest
  rw [unread, unread, hinput, hcount', hd.feed_buffer hcount, hdrop, wordBits, hslice,
    show 32 - (d.bitCount + 16) = 16 - d.bitCount by omega,
    Nat.mul_div_cancel_left _ (Nat.two_pow_pos _), toBits_add, List.append_assoc,
    ← toBits_mod (le_refl 16), Nat.mul_add_mod, Nat.mod_eq_of_lt hword,
    Nat.mul_add_div (Nat.two_pow_pos _), Nat.div_eq_of_lt hword, Nat.add_zero]

/-! ## Taking bits -/

theorem dropBits_eq (hn : n ≤ d.bitCount) (hd : d.Valid) :
    dropBits n d = some (.ok ((), d.skip n)) := by
  have hlt := hd.count_lt
  rw [dropBits, get_bind, shlU, if_pos (by omega), orPanic_some_bind, subU, if_pos hn,
    orPanic_some_bind, Nat.shiftLeft_eq]
  rfl

/-- `get_bits` where the buffer holds the bits. -/
theorem getBits_of_count (hpos : 0 < n) (hn : n ≤ d.bitCount) (hd : d.Valid) :
    getBits n d = some (.ok (d.bitBuffer / 2 ^ (32 - n) % 2 ^ 16, d.skip n)) := by
  have hlt := hd.count_lt
  have hfeed : feedFor n d = some (.ok ((), d)) := by
    rw [feedFor, get_bind, if_neg (by omega)]
    rfl
  rw [getBits, if_neg hpos.ne', bind_of_ok hfeed, get_bind, subU, if_pos (by omega),
    orPanic_some_bind, shrU, if_pos (by omega), orPanic_some_bind, bind_of_ok (dropBits_eq hn hd),
    Nat.shiftRight_eq_div_pow]
  rfl

/-- `get_bits` where it has to read a word. -/
theorem getBits_of_word (hcount : d.bitCount < n) (hn : n ≤ 16)
    (hword : ¬d.input.length - d.byteOffset < 2) (hd : d.Valid) :
    getBits n d = some (.ok (d.feed.bitBuffer / 2 ^ (32 - n) % 2 ^ 16, d.feed.skip n)) := by
  have hcount' : d.feed.bitCount = d.bitCount + 16 := rfl
  have hfeed : feedFor n d = some (.ok ((), d.feed)) := by
    rw [feedFor, get_bind, if_pos hcount, bind_of_ok (tryFeed_of_word hword (by omega))]
    rfl
  have hfeed' : feedFor n d.feed = some (.ok ((), d.feed)) := by
    rw [feedFor, get_bind, if_neg (by omega)]
    rfl
  rw [← getBits_of_count (by omega) (by omega) (hd.feed (by omega)), getBits, if_neg (by omega),
    bind_of_ok hfeed, bind_of_ok hfeed']

theorem skip_buffer (hn : n ≤ 32) :
    (d.skip n).bitBuffer = d.bitBuffer % 2 ^ (32 - n) * 2 ^ n := by
  have hpow : 2 ^ 32 = 2 ^ (32 - n) * 2 ^ n := by
    rw [← Nat.pow_add, Nat.sub_add_cancel hn]
  rw [skip, hpow, Nat.mul_mod_mul_right]

theorem Valid.skip (hd : d.Valid) (hn : n ≤ d.bitCount) :
    (d.skip n).Valid := by
  have hlt := hd.count_lt
  refine ⟨lt_of_le_of_lt (Nat.sub_le _ _) hlt, Nat.mod_lt _ (Nat.two_pow_pos 32), ?_⟩
  have hcount : (d.skip n).bitCount = d.bitCount - n := rfl
  rw [skip_buffer (by omega), hcount, show 32 - (d.bitCount - n) = 32 - d.bitCount + n by omega,
    Nat.pow_add]
  refine Nat.mul_dvd_mul_right ?_ _
  exact (Nat.dvd_mod_iff (pow_dvd_pow 2 (by omega))).mpr hd.low

/-- The unread bits start with those that are taken. -/
theorem Valid.unread_eq (hd : d.Valid) (hn : n ≤ d.bitCount) :
    d.unread = toBits n (d.bitBuffer / 2 ^ (32 - n)) ++ (d.skip n).unread := by
  have hlt := hd.count_lt
  obtain ⟨rest, hrest⟩ : ∃ rest, d.bitCount = n + rest := ⟨d.bitCount - n, by omega⟩
  have hcount : (d.skip n).bitCount = rest := by
    rw [Decoder.skip, hrest, Nat.add_sub_cancel_left]
  have hpow : 2 ^ (32 - n) = 2 ^ (32 - d.bitCount) * 2 ^ rest := by
    rw [← Nat.pow_add]
    congr 1
    omega
  have hskip : (d.skip n).bitBuffer / 2 ^ (32 - rest) =
      d.bitBuffer / 2 ^ (32 - d.bitCount) % 2 ^ rest := by
    rw [skip_buffer (by omega), show 32 - rest = 32 - d.bitCount + n by omega, Nat.pow_add,
      Nat.mul_div_mul_right _ _ (Nat.two_pow_pos n), hpow, Nat.mod_mul_right_div_self]
  have hbits : toBits d.bitCount (d.bitBuffer / 2 ^ (32 - d.bitCount)) =
      toBits n (d.bitBuffer / 2 ^ (32 - n)) ++
        toBits rest (d.bitBuffer / 2 ^ (32 - d.bitCount)) := by
    conv_lhs => rw [hrest, toBits_add, ← hrest, Nat.div_div_eq_div_mul, ← hpow]
  rw [unread, unread, hcount, hskip, toBits_mod (le_refl rest), hbits, List.append_assoc]
  rfl

/-! ## Reading -/

/-- From `d` to `d'` the bits are read: they were next, and words are read whole.  What else the
decoder keeps may change. -/
structure Advances (d : Decoder) (bits : List Bool) (d' : Decoder) : Prop where
  valid : d'.Valid
  unread : d.unread = bits ++ d'.unread
  parity : (d'.input.length - d'.byteOffset) % 2 = (d.input.length - d.byteOffset) % 2
  input : d'.input = d.input
  unaligned : d'.unaligned = d.unaligned

/-- The bits are read and nothing else changes. -/
structure Reads (d : Decoder) (bits : List Bool) (d' : Decoder) : Prop extends
    Advances d bits d' where
  lru : d'.lru = d.lru
  mainlens : d'.mainlens = d.mainlens
  lenlens : d'.lenlens = d.lenlens
  window : d'.window = d.window

section

variable {d₁ d₂ : Decoder} {bits bits₁ : List Bool}

theorem Advances.trans (h : Advances d bits d₁) (h₁ : Advances d₁ bits₁ d₂) :
    Advances d (bits ++ bits₁) d₂ :=
  ⟨h₁.valid, by rw [h.unread, h₁.unread, List.append_assoc], h₁.parity.trans h.parity,
    h₁.input.trans h.input, h₁.unaligned.trans h.unaligned⟩

theorem Reads.refl (hd : d.Valid) :
    Reads d [] d :=
  { valid := hd, unread := rfl, parity := rfl, input := rfl, unaligned := rfl, lru := rfl,
    mainlens := rfl, lenlens := rfl, window := rfl }

theorem Reads.trans (h : Reads d bits d₁) (h₁ : Reads d₁ bits₁ d₂) :
    Reads d (bits ++ bits₁) d₂ :=
  { h.toAdvances.trans h₁.toAdvances with
    lru := h₁.lru.trans h.lru
    mainlens := h₁.mainlens.trans h.mainlens
    lenlens := h₁.lenlens.trans h.lenlens
    window := h₁.window.trans h.window }

end

theorem Valid.reads_feed (hd : d.Valid) (hcount : d.bitCount ≤ 15)
    (h : ¬d.input.length - d.byteOffset < 2) :
    Reads d [] d.feed := by
  refine ⟨⟨hd.feed hcount, (hd.unread_feed hcount h).symm, ?_, rfl, rfl⟩, rfl, rfl, rfl, rfl⟩
  have hoffset : d.feed.byteOffset = d.byteOffset + 2 := rfl
  have hinput : d.feed.input = d.input := rfl
  rw [hoffset, hinput]
  omega

theorem Valid.reads_skip (hd : d.Valid) (hn : n ≤ d.bitCount) :
    Reads d (toBits n (d.bitBuffer / 2 ^ (32 - n))) (d.skip n) :=
  ⟨⟨hd.skip hn, hd.unread_eq hn, rfl, rfl, rfl⟩, rfl, rfl, rfl, rfl⟩

/-- Bits in the buffer that the unread bits start with. -/
theorem Valid.buffer_eq {v : Nat} (hd : d.Valid) (hn : n ≤ d.bitCount) (hv : v < 2 ^ n)
    (h : toBits n v <+: d.unread) :
    d.bitBuffer / 2 ^ (32 - n) = v := by
  have hlt := hd.count_lt
  have hquotient : d.bitBuffer / 2 ^ (32 - n) < 2 ^ n := by
    rw [Nat.div_lt_iff_lt_mul (Nat.two_pow_pos _), ← Nat.pow_add, Nat.add_sub_cancel' (by omega)]
    exact hd.buffer_lt
  rw [hd.unread_eq hn] at h
  have hbits : toBits n v = toBits n (d.bitBuffer / 2 ^ (32 - n)) :=
    (List.prefix_of_prefix_length_le h (List.prefix_append _ _)
      (by rw [length_toBits, length_toBits])).eq_of_length
        (by rw [length_toBits, length_toBits])
  have hmod := mod_eq_of_toBits_eq hbits
  rw [Nat.mod_eq_of_lt hv, Nat.mod_eq_of_lt hquotient] at hmod
  exact hmod.symm

/-! ## Codes -/

/-- After `get_code` has looked for a word, its longest code is in the buffer, or all that is
left is. -/
theorem feedCode_eq (hd : d.Valid) :
    ∃ d', feedCode d = some (.ok ((), d')) ∧ Reads d [] d' ∧
      (d'.bitCount < 16 → d'.unread.length = d'.bitCount) := by
  by_cases hcount : d.bitCount < 16
  · by_cases hshort : d.input.length - d.byteOffset < 2
    · refine ⟨d, ?_, Reads.refl hd, fun _ => ?_⟩
      · rw [feedCode, get_bind, if_pos hcount, bind_of_ok (tryFeed_of_short hshort)]
        rfl
      · rw [unread, wordBits_of_short hshort, List.append_nil, length_toBits]
    · refine ⟨d.feed, ?_, hd.reads_feed (by omega) hshort, fun h => ?_⟩
      · rw [feedCode, get_bind, if_pos hcount, bind_of_ok (tryFeed_of_word hshort (by omega))]
        rfl
      · have hcount' : d.feed.bitCount = d.bitCount + 16 := rfl
        omega
  · refine ⟨d, ?_, Reads.refl hd, fun h => absurd h hcount⟩
    rw [feedCode, get_bind, if_neg hcount]
    rfl

/-- The buffer starts with a code that the unread bits start with. -/
theorem Valid.buffer_eq_code {code l : Nat} (hd : d.Valid) (hl : l ≤ 16) (hcode : code < 2 ^ l)
    (hshort : d.bitCount < 16 → d.unread.length = d.bitCount)
    (h : toBits l code <+: d.unread) :
    l ≤ d.bitCount ∧ d.bitBuffer / 2 ^ (32 - l) = code := by
  have hcount : l ≤ d.bitCount := by
    have hlength := h.length_le
    rw [length_toBits] at hlength
    omega
  exact ⟨hcount, hd.buffer_eq hcount hcode h⟩

end Decoder

section Lookup

variable {codelens : List Nat} {s : Filling} {d : Decoder} {i l : Nat}

/-- The table is indexed by the first nine bits of the buffer. -/
theorem lookupCode_of_short (hs : Filled codelens (maxLength codelens) codelens.length s)
    (hlength : codelens.length ≤ 512) (hi : codelens[i]? = some l) (hpos : 0 < l) (h9 : l ≤ 9)
    (hbuffer : d.bitBuffer / 2 ^ (32 - l) = canonicalCode codelens i) :
    lookupCode s.huffman d = some (.ok (l * 512 + i, d)) := by
  have hilt := (List.getElem?_eq_some_iff.mp hi).1
  have hindex : d.bitBuffer / 2 ^ 23 / 2 ^ (9 - l) = canonicalCode codelens i := by
    rw [Nat.div_div_eq_div_mul, ← Nat.pow_add, show 23 + (9 - l) = 32 - l by omega, hbuffer]
  have hread := hs.short i l hilt hi hpos h9 _ hindex
  rw [entry_eq (by omega)] at hread
  rw [lookupCode, get_bind, hread, orPanic_some_bind, if_neg (by omega)]
  rfl

/-- The extra table of the first nine bits is indexed by the bits behind them. -/
theorem lookupCode_of_long (hs : Filled codelens (maxLength codelens) codelens.length s)
    (hlength : codelens.length ≤ 512) (h16 : maxLength codelens ≤ 16)
    (hd : d.Valid) (hi : codelens[i]? = some l) (h9 : 9 < l)
    (hbuffer : d.bitBuffer / 2 ^ (32 - l) = canonicalCode codelens i) :
    lookupCode s.huffman d = some (.ok (l * 512 + i, d)) := by
  have hilt := (List.getElem?_eq_some_iff.mp hi).1
  have hmax : l ≤ maxLength codelens := le_maxLength (List.mem_of_getElem? hi)
  have hhead : kraft codelens 9 ≤ d.bitBuffer / 2 ^ 23 := by
    have hcore := kraft_mul_le_canonicalCode hi h9
    have hsplit : d.bitBuffer / 2 ^ 23 = canonicalCode codelens i / 2 ^ (l - 9) := by
      rw [← hbuffer, Nat.div_div_eq_div_mul, ← Nat.pow_add, show 32 - l + (l - 9) = 23 by omega]
    rw [hsplit, Nat.le_div_iff_mul_le (Nat.two_pow_pos _)]
    exact hcore
  have hhead' : d.bitBuffer / 2 ^ 23 < 512 := by
    rw [Nat.div_lt_iff_lt_mul (Nat.two_pow_pos _)]
    exact hd.buffer_lt
  have htable := hs.heads (by omega) _ hhead hhead'
  -- the window of the longest code, whose two parts are the two indices
  obtain ⟨x, hx⟩ : ∃ x, x = d.bitBuffer / 2 ^ (32 - maxLength codelens) := ⟨_, rfl⟩
  have hwindow : x / 2 ^ (maxLength codelens - l) = canonicalCode codelens i := by
    rw [hx, Nat.div_div_eq_div_mul, ← Nat.pow_add, ← hbuffer]
    congr 2
    omega
  have hfirst : x / 2 ^ (maxLength codelens - 9) = d.bitBuffer / 2 ^ 23 := by
    rw [hx, Nat.div_div_eq_div_mul, ← Nat.pow_add]
    congr 2
    omega
  have hsecond : d.bitBuffer * 2 ^ 9 % 2 ^ 32 / 2 ^ (32 - (maxLength codelens - 9)) =
      x % 2 ^ (maxLength codelens - 9) := by
    have hpow : 2 ^ 23 = 2 ^ (32 - maxLength codelens) * 2 ^ (maxLength codelens - 9) := by
      rw [← Nat.pow_add]
      congr 1
      omega
    rw [show (2 : Nat) ^ 32 = 2 ^ 23 * 2 ^ 9 by decide, Nat.mul_mod_mul_right,
      show 32 - (maxLength codelens - 9) = (32 - maxLength codelens) + 9 by omega, Nat.pow_add,
      Nat.mul_div_mul_right _ _ (Nat.two_pow_pos 9), hpow, Nat.mod_mul_right_div_self, hx]
  have hread := hs.long i l hilt hi h9 x hwindow
  rw [entry_eq (by omega), hfirst, Option.bind_eq_some_iff] at hread
  obtain ⟨row, hrow, hentry⟩ := hread
  rw [lookupCode, get_bind, htable, orPanic_some_bind, if_pos (by omega), hs.maxbits,
    if_neg (by omega), subU, if_pos (by omega), orPanic_some_bind, shrU, if_pos (by omega),
    orPanic_some_bind, hrow, orPanic_some_bind, Nat.shiftRight_eq_div_pow, hsecond, hentry]
  rfl

/-- `get_code` returns the symbol whose code comes next. -/
theorem getCode_of_code (hs : Filled codelens (maxLength codelens) codelens.length s)
    (hcomplete : Complete codelens) (hlength : codelens.length ≤ 512)
    (h16 : ∀ l ∈ codelens, l ≤ 16) (hi : codelens[i]? = some l) (hpos : 0 < l) (hd : d.Valid)
    (hcode : toBits l (canonicalCode codelens i) <+: d.unread) :
    ∃ d', getCode s.huffman d = some (.ok (i, d')) ∧
      Decoder.Reads d (toBits l (canonicalCode codelens i)) d' := by
  have hilt := (List.getElem?_eq_some_iff.mp hi).1
  have hl16 := h16 l (List.mem_of_getElem? hi)
  have hmax16 : maxLength codelens ≤ 16 := foldl_max_le (Nat.zero_le _) h16
  have hlt : canonicalCode codelens i < 2 ^ l :=
    lt_of_lt_of_le (canonicalCode_lt hi hpos) (kraft_le_two_pow
      ((complete_iff_kraft codelens).mp hcomplete) (le_maxLength (List.mem_of_getElem? hi)))
  obtain ⟨d₁, hfeed, hreads, hshort⟩ := Decoder.feedCode_eq hd
  have hvalid := hreads.valid
  rw [hreads.unread, List.nil_append] at hcode
  obtain ⟨hcount, hbuffer⟩ := hvalid.buffer_eq_code hl16 hlt hshort hcode
  have hlookup : lookupCode s.huffman d₁ = some (.ok (l * 512 + i, d₁)) := by
    by_cases h9 : l ≤ 9
    · exact lookupCode_of_short hs hlength hi hpos h9 hbuffer
    · exact lookupCode_of_long hs hlength hmax16 hvalid hi (by omega) hbuffer
  have hskip := hreads.trans (hvalid.reads_skip hcount)
  rw [hbuffer, List.nil_append] at hskip
  refine ⟨d₁.skip l, ?_, hskip⟩
  have hbits : (l * 512 + i) / 2 ^ 9 % 2 ^ 8 = l := by omega
  have hsymbol : (l * 512 + i) % 2 ^ 9 = i := by omega
  have hmaxbits : s.huffman.maxbits ≠ 0 := by
    rw [hs.maxbits]
    exact hcomplete.maxLength_pos.ne'
  rw [getCode, if_neg hmaxbits, bind_of_ok hfeed, bind_of_ok hlookup, get_bind, hbits, hsymbol,
    if_neg (by omega), bind_of_ok (Decoder.dropBits_eq hcount hvalid)]
  rfl

end Lookup

/-- Huffman decoding is canonical.  Lengths give a table exactly if all are zero or they use up
the code space, and then the table decodes every canonical code. -/
theorem huffman_canonical {codelens : List Nat} (hlength : codelens.length ≤ 512)
    (h16 : ∀ l ∈ codelens, l ≤ 16) :
    (∃ result, buildTable codelens = some result ∧
      (result.isSome ↔ (∀ l ∈ codelens, l = 0) ∨
        ((codelens.filter (· ≠ 0)).map fun l => (1 / 2 : ℚ) ^ l).sum = 1)) ∧
      (((codelens.filter (· ≠ 0)).map fun l => (1 / 2 : ℚ) ^ l).sum = 1 →
        ∃ h, buildTable codelens = some (some h) ∧
          ∀ i l, codelens[i]? = some l → l ≠ 0 → ∀ d : Decoder, d.Valid →
            toBits l (canonicalCode codelens i) <+: d.unread →
            ∃ d', getCode h d = some (.ok (i, d')) ∧ d'.Valid ∧
              d'.unread = d.unread.drop l) := by
  refine ⟨buildTable_isSome_iff h16, fun hcomplete => ?_⟩
  obtain ⟨s, hbuild, hs⟩ := buildTable_of_complete h16 hcomplete
  refine ⟨s.huffman, hbuild, fun i l hi hl d hd hcode => ?_⟩
  obtain ⟨d', hget, hreads⟩ :=
    getCode_of_code hs hcomplete hlength h16 hi (Nat.pos_of_ne_zero hl) hd hcode
  refine ⟨d', hget, hreads.valid, ?_⟩
  rw [hreads.unread, List.drop_left' (length_toBits l _)]

/-- Three codes, two of them of two bits: the input starts with `10`, the code of symbol 0. -/
theorem huffman_canonical_three :
    [2, 1, 2].length ≤ 512 ∧ (∀ l ∈ [2, 1, 2], l ≤ 16) ∧
      ∃ h, buildTable [2, 1, 2] = some (some h) ∧
        ∃ d', getCode h (Decoder.new [0, 0x80]) = some (.ok (0, d')) ∧
          d'.unread = (Decoder.new [0, 0x80]).unread.drop 2 := by
  have hlength : [2, 1, 2].length ≤ 512 := by decide
  have h16 : ∀ l ∈ [2, 1, 2], l ≤ 16 := by
    simp
  have hcomplete : (([2, 1, 2].filter (· ≠ 0)).map fun l => (1 / 2 : ℚ) ^ l).sum = 1 := by
    norm_num
  refine ⟨hlength, h16, ?_⟩
  obtain ⟨h, hbuild, hdecode⟩ := (huffman_canonical hlength h16).2 hcomplete
  obtain ⟨d', hcode, -, hunread⟩ := hdecode 0 2 rfl (by decide) (Decoder.new [0, 0x80])
    (Decoder.new_valid _) (by decide)
  exact ⟨h, hbuild, d', hcode, hunread⟩

end Lzx
end Theos
