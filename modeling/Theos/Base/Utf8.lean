import Theos.Base.Buffer

/-!
# UTF-8 with replacements

`String::from_utf8_lossy` copies the characters of a byte string and puts U+FFFD in the
place of each maximal start of a character that is not continued as it has to be.

A first byte says which bytes may follow it, as a list of ranges; a character is complete
when nothing is left of the list.
-/

namespace Theos
namespace Base
namespace Utf8

/-- The bytes from `low` to `high`. -/
structure Range where
  low : UInt8
  high : UInt8

def Range.Has (range : Range) (b : UInt8) : Prop :=
  range.low ≤ b ∧ b ≤ range.high

instance (range : Range) (b : UInt8) : Decidable (range.Has b) :=
  inferInstanceAs (Decidable (_ ∧ _))

/-- Any byte that continues a character. -/
def tail : Range := ⟨0x80, 0xbf⟩

/-- What has to follow the first byte of a character; `none` if no character starts with it. -/
def owed (b : UInt8) : Option (List Range) :=
  if b < 0x80 then some []
  else if b < 0xc2 then none
  else if b < 0xe0 then some [tail]
  else if b = 0xe0 then some [⟨0xa0, 0xbf⟩, tail]
  else if b = 0xed then some [⟨0x80, 0x9f⟩, tail]
  else if b < 0xf0 then some [tail, tail]
  else if b = 0xf0 then some [⟨0x90, 0xbf⟩, tail, tail]
  else if b < 0xf4 then some [tail, tail, tail]
  else if b = 0xf4 then some [⟨0x80, 0x8f⟩, tail, tail]
  else none

/-- The bytes of a string in UTF-8. -/
inductive Valid : Bytes → Prop
  | nil : Valid []
  | char {b : UInt8} {ranges : List Range} {tails rest : Bytes} :
      owed b = some ranges → List.Forall₂ Range.Has ranges tails → Valid rest →
      Valid (b :: (tails ++ rest))

/-- U+FFFD. -/
def replacement : Bytes := [0xef, 0xbf, 0xbd]

/-- The rest of the conversion, when the bytes `seen` of a character have been read and others
are still owed. -/
def lossyLoop : (seen : Bytes) → List Range → Bytes → Bytes
  | seen, [], [] => seen
  | _, _ :: _, [] => replacement
  | seen, [], b :: rest =>
    seen ++
      match owed b with
      | none => replacement ++ lossyLoop [] [] rest
      | some ranges => lossyLoop [b] ranges rest
  | seen, range :: ranges, b :: rest =>
    if range.Has b then lossyLoop (seen ++ [b]) ranges rest
    else
      replacement ++
        match owed b with
        | none => replacement ++ lossyLoop [] [] rest
        | some ranges => lossyLoop [b] ranges rest

/-- `String::from_utf8_lossy`. -/
def lossy (bytes : Bytes) : Bytes :=
  lossyLoop [] [] bytes

/-- A complete character is copied. -/
theorem lossyLoop_nil
    (seen bytes : Bytes) :
    lossyLoop seen [] bytes = seen ++ lossy bytes := by
  cases bytes with
  | nil =>
    simp [lossy, lossyLoop]
  | cons b rest =>
    simp [lossy, lossyLoop]

theorem lossyLoop_tails {ranges : List Range} {tails : Bytes}
    (h : List.Forall₂ Range.Has ranges tails)
    (seen rest : Bytes) :
    lossyLoop seen ranges (tails ++ rest) = lossyLoop (seen ++ tails) [] rest := by
  induction h generalizing seen with
  | nil =>
    rw [List.nil_append, List.append_nil]
  | cons hb _ ih =>
    rw [List.cons_append, lossyLoop, if_pos hb, ih, List.append_assoc, List.singleton_append]

/-- Valid UTF-8 is not changed. -/
theorem lossy_of_valid {bytes : Bytes}
    (h : Valid bytes) :
    lossy bytes = bytes := by
  induction h with
  | nil =>
    rfl
  | @char b ranges tails rest howed htails _ ih =>
    rw [lossy, lossyLoop, howed, List.nil_append]
    dsimp only
    rw [lossyLoop_tails htails, lossyLoop_nil, ih]
    rfl

/-- ASCII is valid UTF-8. -/
theorem valid_of_ascii {bytes : Bytes}
    (h : ∀ b ∈ bytes, b < 0x80) :
    Valid bytes := by
  induction bytes with
  | nil =>
    exact Valid.nil
  | cons b bytes ih =>
    obtain ⟨hb, hbytes⟩ := List.forall_mem_cons.mp h
    exact Valid.char (if_pos hb) List.Forall₂.nil (ih hbytes)

/-- Whether bytes are UTF-8, when others are still owed. -/
def isValidFrom : List Range → Bytes → Bool
  | [], [] => true
  | _ :: _, [] => false
  | [], b :: rest =>
    match owed b with
    | none => false
    | some ranges => isValidFrom ranges rest
  | range :: ranges, b :: rest => range.Has b && isValidFrom ranges rest

/-- `str::from_utf8(bytes).is_ok()`. -/
def isValid (bytes : Bytes) : Bool :=
  isValidFrom [] bytes

theorem isValidFrom_iff {ranges : List Range} {bytes : Bytes} :
    isValidFrom ranges bytes = true ↔
      ∃ tails rest, bytes = tails ++ rest ∧ List.Forall₂ Range.Has ranges tails ∧ Valid rest := by
  induction bytes generalizing ranges with
  | nil =>
    cases ranges with
    | nil => exact iff_of_true rfl ⟨[], [], rfl, .nil, .nil⟩
    | cons range ranges =>
      refine iff_of_false Bool.false_ne_true ?_
      rintro ⟨tails, rest, heq, htails, -⟩
      cases htails
      cases heq
  | cons b bytes ih =>
    cases ranges with
    | nil =>
      rw [isValidFrom]
      constructor
      · intro h
        split at h
        next => cases h
        next ranges howed =>
          obtain ⟨tails, rest, rfl, htails, hrest⟩ := ih.mp h
          exact ⟨[], b :: (tails ++ rest), rfl, .nil, .char howed htails hrest⟩
      · rintro ⟨tails, rest, heq, htails, hrest⟩
        cases htails
        rw [List.nil_append] at heq
        subst heq
        cases hrest with
        | char howed htails hrest =>
          rw [howed]
          exact ih.mpr ⟨_, _, rfl, htails, hrest⟩
    | cons range ranges =>
      rw [isValidFrom, Bool.and_eq_true, decide_eq_true_iff, ih]
      constructor
      · rintro ⟨hb, tails, rest, rfl, htails, hrest⟩
        exact ⟨b :: tails, rest, rfl, .cons hb htails, hrest⟩
      · rintro ⟨tails, rest, heq, htails, hrest⟩
        cases htails with
        | cons hb htails =>
          obtain ⟨rfl, rfl⟩ := List.cons.inj heq
          exact ⟨hb, _, rest, rfl, htails, hrest⟩

theorem isValid_iff {bytes : Bytes} : isValid bytes = true ↔ Valid bytes := by
  rw [isValid, isValidFrom_iff]
  constructor
  · rintro ⟨tails, rest, rfl, htails, hrest⟩
    cases htails
    exact hrest
  · exact fun h => ⟨[], bytes, rfl, .nil, h⟩

end Utf8
end Base
end Theos
