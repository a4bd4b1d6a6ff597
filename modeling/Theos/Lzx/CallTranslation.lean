import Mathlib.Data.Set.Function
import Theos.Base.Endian

/-!
# Translated call targets

`decode_e8` of `lib/wim_lzx/lib.rs`.  The targets of x86 call instructions are stored as absolute
positions; after decompression they are made relative again.  The scan goes over the buffer and
skips the four bytes behind each `0xe8`, whether it rewrites them or not.  So the positions it
comes to depend on bytes only that it does not rewrite: two rewrites with the same scan compose,
and the translation has an inverse because that of one target has.

The scan of the source ends one position later than that of the format: it still rewrites a call
that stands exactly ten bytes before the end.
-/

namespace Theos
namespace Lzx

open Base

/-! ## The code -/

/-- `E8_FILE_SIZE`. -/
def e8FileSize : Int := 12000000

/-- `MAX_E8_OFFSET`. -/
def maxE8Offset : Int := 0x3fffffff

/-- `i32::from_le_bytes`. -/
def ofLEBytes (bytes : Bytes) : Int :=
  if ofLE bytes < 2 ^ 31 then ofLE bytes else ofLE bytes - 2 ^ 32

/-- `to_le_bytes` of an `i32`. -/
def toLEBytes (value : Int) : Bytes :=
  toLE 4 (value % 2 ^ 32).toNat

/-- The target of a call at a position, made relative. -/
def toRelative (currentPtr absolute : Int) : Int :=
  if -currentPtr ≤ absolute ∧ absolute < e8FileSize then
    if 0 ≤ absolute then absolute - currentPtr else absolute + e8FileSize
  else absolute

/-- The loop of `decode_e8` over the buffer from index `i` on, for any rewriting of the targets.
It ends where fewer than `margin` bytes are left. -/
def scan (margin : Nat) (rewrite : Nat → Int → Int) : Nat → Bytes → Bytes
  | _, [] => []
  | i, b :: rest =>
    if rest.length + 1 < margin then b :: rest
    else if b = 0xe8 then
      match rest with
      | b₁ :: b₂ :: b₃ :: b₄ :: rest =>
        b :: toLEBytes (rewrite i (ofLEBytes [b₁, b₂, b₃, b₄])) ++ scan margin rewrite (i + 5) rest
      | rest => b :: rest
    else b :: scan margin rewrite (i + 1) rest

def decodeE8 (buffer : Bytes) (offset : Int) : Bytes :=
  if maxE8Offset < offset ∨ buffer.length < 10 then buffer
  else scan 10 (fun i => toRelative (offset + i)) 0 buffer

/-! ## The format -/

/-- A relative target, made absolute. -/
def toAbsolute (currentPtr relative : Int) : Int :=
  if -currentPtr ≤ relative ∧ relative < e8FileSize then
    if relative < e8FileSize - currentPtr then relative + currentPtr else relative - e8FileSize
  else relative

/-- The inverse rewriting with the same scan. -/
def encodeE8 (buffer : Bytes) : Bytes :=
  scan 10 (fun i => toAbsolute i) 0 buffer

/-- The translation as the format has it: a call is translated if more than ten bytes are left. -/
def referenceE8 (buffer : Bytes) : Bytes :=
  scan 11 (fun i => toRelative i) 0 buffer

/-! ## Targets in bytes -/

/-- The value is an `i32`. -/
def IsI32 (value : Int) : Prop :=
  -2 ^ 31 ≤ value ∧ value < 2 ^ 31

theorem isI32_ofLEBytes
    (b₁ b₂ b₃ b₄ : UInt8) :
    IsI32 (ofLEBytes [b₁, b₂, b₃, b₄]) := by
  have hlt := ofLE_lt [b₁, b₂, b₃, b₄]
  simp only [List.length_cons, List.length_nil] at hlt
  rw [IsI32, ofLEBytes]
  split <;> omega

theorem ofLEBytes_toLEBytes {value : Int}
    (h : IsI32 value) :
    ofLEBytes (toLEBytes value) = value := by
  have hread : ofLE (toLEBytes value) = (value % 2 ^ 32).toNat := by
    rw [toLEBytes, ofLE_toLE, Nat.mod_eq_of_lt (by omega)]
  rw [IsI32] at h
  rw [ofLEBytes, hread]
  split <;> omega

theorem toLEBytes_ofLEBytes
    (b₁ b₂ b₃ b₄ : UInt8) :
    toLEBytes (ofLEBytes [b₁, b₂, b₃, b₄]) = [b₁, b₂, b₃, b₄] := by
  have hlt := ofLE_lt [b₁, b₂, b₃, b₄]
  simp only [List.length_cons, List.length_nil] at hlt
  refine ofLE_injective (length_toLE 4 _) ?_
  rw [toLEBytes, ofLE_toLE, ofLEBytes]
  split <;> omega

theorem exists_toLEBytes
    (value : Int) :
    ∃ b₁ b₂ b₃ b₄, toLEBytes value = [b₁, b₂, b₃, b₄] :=
  ⟨_, _, _, _, rfl⟩

/-! ## Scans -/

section Scan

variable {margin : Nat} {f g : Nat → Int → Int}

theorem scan_of_short {buffer : Bytes} {i : Nat}
    (h : buffer.length < margin) :
    scan margin f i buffer = buffer := by
  cases buffer with
  | nil =>
    rfl
  | cons b rest =>
    unfold scan
    exact if_pos h

theorem scan_of_call {b₁ b₂ b₃ b₄ : UInt8} {rest : Bytes} {i : Nat}
    (h : margin ≤ rest.length + 5) :
    scan margin f i (0xe8 :: b₁ :: b₂ :: b₃ :: b₄ :: rest) =
      0xe8 :: toLEBytes (f i (ofLEBytes [b₁, b₂, b₃, b₄])) ++ scan margin f (i + 5) rest := by
  rw [scan, if_neg (by simpa using h), if_pos rfl]

theorem scan_of_other {b : UInt8} {rest : Bytes} {i : Nat}
    (h : margin ≤ rest.length + 1)
    (hb : b ≠ 0xe8) :
    scan margin f i (b :: rest) = b :: scan margin f (i + 1) rest := by
  conv_lhs => unfold scan
  rw [if_neg (by omega), if_neg hb]

/-- The scan goes over a buffer in steps: it ends, skips a call, or skips a byte. -/
theorem scan_induction (hmargin : 5 ≤ margin) {motive : Nat → Bytes → Prop}
    (short : ∀ i buffer, buffer.length < margin → motive i buffer)
    (call : ∀ i b₁ b₂ b₃ b₄ rest, margin ≤ rest.length + 5 → motive (i + 5) rest →
      motive i (0xe8 :: b₁ :: b₂ :: b₃ :: b₄ :: rest))
    (other : ∀ i b rest, margin ≤ rest.length + 1 → b ≠ 0xe8 → motive (i + 1) rest →
      motive i (b :: rest))
    (i : Nat) (buffer : Bytes) :
    motive i buffer := by
  induction hlen : buffer.length using Nat.strong_induction_on generalizing i buffer with
  | _ n ih =>
    subst hlen
    by_cases hshort : buffer.length < margin
    · exact short i buffer hshort
    match buffer with
    | [] =>
      exact short i [] (Nat.lt_of_lt_of_le (by decide) hmargin)
    | b :: rest =>
      rw [List.length_cons] at hshort
      by_cases hb : b = 0xe8
      · subst hb
        match rest with
        | b₁ :: b₂ :: b₃ :: b₄ :: rest =>
          simp only [List.length_cons] at hshort ih
          exact call i b₁ b₂ b₃ b₄ rest (by omega) (ih rest.length (by omega) (i + 5) rest rfl)
        | [] | [_] | [_, _] | [_, _, _] =>
          simp only [List.length_cons, List.length_nil] at hshort
          omega
      · exact other i b rest (by omega) hb (ih rest.length (by simp) (i + 1) rest rfl)

theorem length_scan (hmargin : 5 ≤ margin)
    (i : Nat) (buffer : Bytes) :
    (scan margin f i buffer).length = buffer.length := by
  induction i, buffer using scan_induction hmargin with
  | short i buffer h =>
    rw [scan_of_short h]
  | call i b₁ b₂ b₃ b₄ rest h ih =>
    rw [scan_of_call h, List.cons_append, List.length_cons, List.length_append, ih, toLEBytes,
      length_toLE]
    simp only [List.length_cons]
    omega
  | other i b rest h hb ih =>
    rw [scan_of_other h hb, List.length_cons, ih, List.length_cons]

theorem length_decodeE8
    (buffer : Bytes) (offset : Int) :
    (decodeE8 buffer offset).length = buffer.length := by
  unfold decodeE8
  split
  · rfl
  · exact length_scan (by decide) 0 buffer

/-- Two scans are one scan with the rewritings composed. -/
theorem scan_scan (hmargin : 5 ≤ margin)
    (i : Nat) (buffer : Bytes)
    (hg : ∀ j < i + buffer.length, ∀ value, IsI32 value → IsI32 (g j value)) :
    scan margin f i (scan margin g i buffer) =
      scan margin (fun i value => f i (g i value)) i buffer := by
  induction i, buffer using scan_induction hmargin with
  | short i buffer h =>
    rw [scan_of_short h, scan_of_short h, scan_of_short h]
  | call i b₁ b₂ b₃ b₄ rest h ih =>
    simp only [List.length_cons] at hg
    have hread := ofLEBytes_toLEBytes (hg i (by omega) _ (isI32_ofLEBytes b₁ b₂ b₃ b₄))
    obtain ⟨c₁, c₂, c₃, c₄, hbytes⟩ := exists_toLEBytes (g i (ofLEBytes [b₁, b₂, b₃, b₄]))
    rw [hbytes] at hread
    rw [scan_of_call h, scan_of_call h, ← ih fun j hj => hg j (by omega), hbytes]
    simp only [List.cons_append, List.nil_append]
    rw [scan_of_call (by rwa [length_scan hmargin]), hread]
    rfl
  | other i b rest h hb ih =>
    rw [List.length_cons] at hg
    rw [scan_of_other h hb, scan_of_other h hb,
      scan_of_other (by rwa [length_scan hmargin]) hb, ih fun j hj => hg j (by omega)]

/-- A rewriting that changes no target in the buffer changes nothing. -/
theorem scan_eq_self (hmargin : 5 ≤ margin)
    (i : Nat) (buffer : Bytes)
    (hf : ∀ j < i + buffer.length, ∀ value, IsI32 value → f j value = value) :
    scan margin f i buffer = buffer := by
  induction i, buffer using scan_induction hmargin with
  | short i buffer h =>
    exact scan_of_short h
  | call i b₁ b₂ b₃ b₄ rest h ih =>
    simp only [List.length_cons] at hf
    rw [scan_of_call h, hf i (by omega) _ (isI32_ofLEBytes ..), toLEBytes_ofLEBytes,
      ih fun j hj => hf j (by omega)]
    rfl
  | other i b rest h hb ih =>
    rw [List.length_cons] at hf
    rw [scan_of_other h hb, ih fun j hj => hf j (by omega)]

end Scan

/-! ## The inverse -/

theorem decodeE8_eq
    (buffer : Bytes) :
    decodeE8 buffer 0 = scan 10 (fun i => toRelative i) 0 buffer := by
  rw [decodeE8]
  split
  next h =>
    exact (scan_of_short (h.resolve_left (by decide))).symm
  next =>
    simp only [Int.zero_add]

theorem toAbsolute_toRelative (i : Nat)
    (value : Int) :
    toAbsolute i (toRelative i value) = value := by
  simp only [toRelative, toAbsolute, e8FileSize]
  split_ifs <;> omega

theorem toRelative_toAbsolute (i : Nat)
    (value : Int) :
    toRelative i (toAbsolute i value) = value := by
  simp only [toRelative, toAbsolute, e8FileSize]
  split_ifs <;> omega

theorem isI32_toRelative {i : Nat} {value : Int}
    (hi : i < 2 ^ 31)
    (h : IsI32 value) :
    IsI32 (toRelative i value) := by
  simp only [IsI32, toRelative, e8FileSize] at *
  split_ifs <;> omega

theorem isI32_toAbsolute {i : Nat} {value : Int}
    (hi : i < 2 ^ 31)
    (h : IsI32 value) :
    IsI32 (toAbsolute i value) := by
  simp only [IsI32, toAbsolute, e8FileSize] at *
  split_ifs <;> omega

theorem encodeE8_decodeE8 {buffer : Bytes}
    (h : buffer.length ≤ 2 ^ 31) :
    encodeE8 (decodeE8 buffer 0) = buffer := by
  rw [decodeE8_eq, encodeE8, scan_scan (by decide) 0 buffer
    fun j hj value => isI32_toRelative (by omega)]
  exact scan_eq_self (by decide) 0 buffer fun j _ value _ => toAbsolute_toRelative j value

theorem decodeE8_encodeE8 {buffer : Bytes}
    (h : buffer.length ≤ 2 ^ 31) :
    decodeE8 (encodeE8 buffer) 0 = buffer := by
  rw [decodeE8_eq, encodeE8, scan_scan (by decide) 0 buffer
    fun j hj value => isI32_toAbsolute (by omega)]
  exact scan_eq_self (by decide) 0 buffer fun j _ value _ => toRelative_toAbsolute j value

/-- **Nothing is lost.**  On the buffers of one length the translation is a bijection, and it undoes
the inverse rewriting with the same scan. -/
theorem decodeE8_bijOn {n : Nat}
    (hn : n ≤ 32768) :
    Set.BijOn (fun buffer => decodeE8 buffer 0) {buffer | buffer.length = n}
        {buffer | buffer.length = n} ∧
      ∀ buffer : Bytes, buffer.length = n → (encodeE8 buffer).length = n ∧
        decodeE8 (encodeE8 buffer) 0 = buffer := by
  have hdecode : ∀ buffer : Bytes, buffer.length = n → (decodeE8 buffer 0).length = n :=
    fun buffer h => by rw [decodeE8_eq, length_scan (by decide), h]
  have hencode : ∀ buffer : Bytes, buffer.length = n → (encodeE8 buffer).length = n :=
    fun buffer h => by rw [encodeE8, length_scan (by decide), h]
  have hinverse : ∀ buffer : Bytes, buffer.length = n → decodeE8 (encodeE8 buffer) 0 = buffer :=
    fun buffer h => decodeE8_encodeE8 (by omega)
  refine ⟨Set.InvOn.bijOn ⟨?_, hinverse⟩ hdecode hencode,
    fun buffer h => ⟨hencode buffer h, hinverse buffer h⟩⟩
  exact fun buffer h => encodeE8_decodeE8 (by rw [show buffer.length = n from h]; omega)

/-- A call in a buffer of eleven bytes. -/
theorem decodeE8_bijOn_eleven :
    (fun buffer => decodeE8 buffer 0) [0, 0xe8, 1, 0, 0, 0, 0, 0, 0, 0, 0] =
        [0, 0xe8, 0, 0, 0, 0, 0, 0, 0, 0, 0] ∧
      Set.BijOn (fun buffer => decodeE8 buffer 0) {buffer | buffer.length = 11}
        {buffer | buffer.length = 11} :=
  ⟨by decide, (decodeE8_bijOn (by decide)).1⟩

/-! ## The end of the scan -/

/-- The calls that the scan of `decode_e8` comes to, with their targets. -/
def calls : Nat → Bytes → List (Nat × Int)
  | _, [] => []
  | i, b :: rest =>
    if rest.length + 1 < 10 then []
    else if b = 0xe8 then
      match rest with
      | b₁ :: b₂ :: b₃ :: b₄ :: rest => (i, ofLEBytes [b₁, b₂, b₃, b₄]) :: calls (i + 5) rest
      | _ => []
    else calls (i + 1) rest

/-- The scan comes to a call exactly ten bytes before the end, not at the start, whose target is
rewritten. -/
def LateCall (buffer : Bytes) : Prop :=
  ∃ call ∈ calls 0 buffer, call.1 + 10 = buffer.length ∧ 0 < call.1 ∧
    -(call.1 : Int) ≤ call.2 ∧ call.2 < e8FileSize

instance (buffer : Bytes) : Decidable (LateCall buffer) :=
  inferInstanceAs (Decidable (∃ call ∈ calls 0 buffer, _))

theorem calls_of_short {buffer : Bytes} {i : Nat}
    (h : buffer.length < 10) :
    calls i buffer = [] := by
  cases buffer with
  | nil =>
    rfl
  | cons b rest =>
    unfold calls
    exact if_pos h

theorem calls_of_call {b₁ b₂ b₃ b₄ : UInt8} {rest : Bytes} {i : Nat}
    (h : 10 ≤ rest.length + 5) :
    calls i (0xe8 :: b₁ :: b₂ :: b₃ :: b₄ :: rest) =
      (i, ofLEBytes [b₁, b₂, b₃, b₄]) :: calls (i + 5) rest := by
  rw [calls, if_neg (by simpa using h), if_pos rfl]

theorem calls_of_other {b : UInt8} {rest : Bytes} {i : Nat}
    (h : 10 ≤ rest.length + 1)
    (hb : b ≠ 0xe8) :
    calls i (b :: rest) = calls (i + 1) rest := by
  conv_lhs => unfold calls
  rw [if_neg (by omega), if_neg hb]

/-- Scans that end one position apart agree unless the last call of the longer one is changed. -/
theorem scan_eq_scan_iff {f : Nat → Int → Int} (i : Nat) (buffer : Bytes)
    (hf : ∀ j < i + buffer.length, ∀ value, IsI32 value → IsI32 (f j value)) :
    scan 10 f i buffer = scan 11 f i buffer ↔
      ∀ call ∈ calls i buffer, call.1 + 10 = i + buffer.length → f call.1 call.2 = call.2 := by
  induction i, buffer using scan_induction (show 5 ≤ 10 by decide) with
  | short i buffer h =>
    rw [scan_of_short h, scan_of_short (by omega), calls_of_short h]
    simp only [List.not_mem_nil, false_implies, implies_true]
  | call i b₁ b₂ b₃ b₄ rest h ih =>
    simp only [List.length_cons] at hf ⊢
    have hvalue := hf i (by omega) _ (isI32_ofLEBytes b₁ b₂ b₃ b₄)
    have hlater : ∀ call : Nat × Int, call.1 + 10 = i + (rest.length + 1 + 1 + 1 + 1 + 1) ↔
        call.1 + 10 = i + 5 + rest.length := fun call => by omega
    rw [scan_of_call h, calls_of_call h, List.forall_mem_cons]
    by_cases hlast : rest.length = 5
    · -- only the longer scan comes to this call
      have hshort : (0xe8 :: b₁ :: b₂ :: b₃ :: b₄ :: rest : Bytes).length < 11 := by
        simp only [List.length_cons]
        omega
      rw [scan_of_short hshort, scan_of_short (by omega), calls_of_short (by omega)]
      simp only [List.cons_append, List.cons.injEq, true_and, List.not_mem_nil, false_implies,
        implies_true, and_true]
      constructor
      · intro heq _
        have hbytes : toLEBytes (f i (ofLEBytes [b₁, b₂, b₃, b₄])) = [b₁, b₂, b₃, b₄] :=
          List.append_cancel_right (heq.trans (rfl : _ = [b₁, b₂, b₃, b₄] ++ rest))
        rw [← ofLEBytes_toLEBytes hvalue, hbytes]
      · intro heq
        rw [heq (by omega), toLEBytes_ofLEBytes]
        rfl
    · rw [scan_of_call (by omega), List.append_cancel_left_eq, ih fun j hj => hf j (by omega)]
      simp only [hlater]
      exact ⟨fun hall => ⟨fun hi => absurd hi (by omega), hall⟩, And.right⟩
  | other i b rest h hb ih =>
    rw [List.length_cons] at hf ⊢
    rw [scan_of_other h hb, calls_of_other h hb]
    by_cases hlast : rest.length = 9
    · have hshort : (b :: rest).length < 11 := by
        rw [List.length_cons]
        omega
      rw [scan_of_short hshort, scan_of_short (by omega), calls_of_short (by omega)]
      simp only [List.not_mem_nil, false_implies, implies_true]
    · rw [scan_of_other (by omega) hb, List.cons_inj_right, ih fun j hj => hf j (by omega)]
      simp only [Nat.add_right_comm i 1, Nat.add_assoc i rest.length]

theorem toRelative_eq_self_iff {i : Nat} {value : Int} :
    toRelative i value = value ↔ ¬ (0 < i ∧ -(i : Int) ≤ value ∧ value < e8FileSize) := by
  simp only [toRelative, e8FileSize]
  split_ifs <;> omega

/-- **The end of the translation.**  The result is that of the format exactly if there is no call
ten bytes before the end that is translated. -/
theorem decodeE8_eq_reference_iff {buffer : Bytes}
    (h : buffer.length ≤ 2 ^ 31) :
    decodeE8 buffer 0 = referenceE8 buffer ↔ ¬ LateCall buffer := by
  rw [decodeE8_eq, referenceE8, scan_eq_scan_iff 0 buffer
    fun j hj value => isI32_toRelative (by omega)]
  simp only [toRelative_eq_self_iff, Nat.zero_add, LateCall, not_exists, not_and, not_lt]

/-- A call at index 1 of eleven bytes is translated by the code. -/
theorem late_call_translated :
    decodeE8 [0, 0xe8, 1, 0, 0, 0, 0, 0, 0, 0, 0] 0 = [0, 0xe8, 0, 0, 0, 0, 0, 0, 0, 0, 0] ∧
      referenceE8 [0, 0xe8, 1, 0, 0, 0, 0, 0, 0, 0, 0] =
        [0, 0xe8, 1, 0, 0, 0, 0, 0, 0, 0, 0] := by
  decide

/-- One byte more behind it, and the results agree. -/
theorem decodeE8_eq_reference_of_room :
    decodeE8 [0, 0xe8, 1, 0, 0, 0, 0, 0, 0, 0, 0, 0] 0 =
      referenceE8 [0, 0xe8, 1, 0, 0, 0, 0, 0, 0, 0, 0, 0] :=
  (decodeE8_eq_reference_iff (by decide)).mpr (by decide)

end Lzx
end Theos
