import Mathlib.Data.List.Basic
import Mathlib.Tactic

/-!
# The case of a text

Which characters `to_ascii_lowercase` changes, and that it changes them once.
-/

namespace Theos
namespace Base

/-- Lowering leaves what is no letter as it is. -/
theorem toLower_eq_iff {d : Char} (hd : d.val.toNat < 65 ∨ 90 < d.val.toNat ∧ d.val.toNat < 97)
    (c : Char) :
    c.toLower = d ↔ c = d := by
  delta Char.toLower
  split
  next h =>
    have hlow : 65 ≤ c.val.toNat := UInt32.le_iff_toNat_le.mp h.1
    have hhigh : c.val.toNat ≤ 90 := UInt32.le_iff_toNat_le.mp h.2
    constructor
    · intro heq
      have hval : (c.val.toNat + 32) % 2 ^ 32 = d.val.toNat :=
        congrArg (fun c => c.val.toNat) heq
      omega
    · rintro rfl
      omega
  next =>
    rfl

theorem toLower_toLower
    (c : Char) :
    c.toLower.toLower = c.toLower := by
  by_cases h : c.val ≥ 'A'.val ∧ c.val ≤ 'Z'.val
  · have hlow : 65 ≤ c.val.toNat := UInt32.le_iff_toNat_le.mp h.1
    have hhigh : c.val.toNat ≤ 90 := UInt32.le_iff_toNat_le.mp h.2
    have hval : c.toLower.val.toNat = c.val.toNat + 32 := by
      delta Char.toLower
      rw [dif_pos h]
      show (c.val.toNat + 32) % 2 ^ 32 = _
      omega
    refine dif_neg ?_
    rintro ⟨-, hle⟩
    have hle : c.toLower.val.toNat ≤ 90 := UInt32.le_iff_toNat_le.mp hle
    omega
  · have hself : c.toLower = c := dif_neg h
    rw [hself, hself]

end Base
end Theos
