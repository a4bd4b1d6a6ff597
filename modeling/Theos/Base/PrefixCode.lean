import Mathlib.Algebra.BigOperators.Group.List.Basic
import Mathlib.Algebra.Field.Rat
import Mathlib.Data.Nat.Bitwise
import Mathlib.Tactic.FieldSimp
import Mathlib.Tactic.Push
import Mathlib.Tactic.Ring

/-!
# Bit strings and canonical prefix codes

A list of code lengths, with zero for a symbol that has no code, determines the
canonical code: codes of one length are consecutive numbers in the order of the
symbols, and the first code of a length follows the last one of the length
before, shifted by one bit.  `kraft ls w` is the number of strings of `w` bits
that start with some code of length at most `w`.

Read as an interval of `w`-bit numbers, every code ends before the next one
starts, which is what makes the code prefix-free (`canonicalCode_disjoint`).
-/

namespace Theos
namespace Base

/-! ## Bit strings -/

/-- The low `width` bits of `n`, from the top. -/
def toBits : Nat → Nat → List Bool
  | 0, _ => []
  | width + 1, n => n.testBit width :: toBits width n

@[simp] theorem length_toBits
    (width n : Nat) :
    (toBits width n).length = width := by
  induction width with
  | zero =>
    rfl
  | succ width ih =>
    rw [toBits, List.length_cons, ih]

/-- The high bits and the low bits. -/
theorem toBits_add
    (a b n : Nat) :
    toBits (a + b) n = toBits a (n / 2 ^ b) ++ toBits b n := by
  induction a with
  | zero =>
    rw [Nat.zero_add, toBits, List.nil_append]
  | succ a ih =>
    rw [Nat.succ_add, toBits, toBits, List.cons_append, ih, Nat.testBit_div_two_pow,
      Nat.add_comm a b]

theorem toBits_mod {width v : Nat} (h : width ≤ v)
    (n : Nat) :
    toBits width (n % 2 ^ v) = toBits width n := by
  induction width with
  | zero =>
    rfl
  | succ width ih =>
    rw [toBits, toBits, ih (by omega), Nat.testBit_mod_two_pow, decide_eq_true (by omega),
      Bool.true_and]

theorem mod_eq_of_toBits_eq {width m n : Nat}
    (h : toBits width m = toBits width n) :
    m % 2 ^ width = n % 2 ^ width := by
  induction width with
  | zero =>
    rw [Nat.pow_zero, Nat.mod_one, Nat.mod_one]
  | succ width ih =>
    rw [toBits, toBits, List.cons.injEq, Nat.testBit_eq_decide_div_mod_eq,
      Nat.testBit_eq_decide_div_mod_eq, decide_eq_decide] at h
    have htop : m / 2 ^ width % 2 = n / 2 ^ width % 2 := by omega
    rw [Nat.mod_pow_succ, Nat.mod_pow_succ, ih h.2, htop]

/-! ## The Kraft sum -/

/-- The number of `w`-bit strings that start with a given code of length `l`. -/
def cost (w l : Nat) : Nat :=
  if 0 < l ∧ l ≤ w then 2 ^ (w - l) else 0

/-- The number of `w`-bit strings that start with a code of length at most `w`. -/
def kraft (ls : List Nat) (w : Nat) : Nat :=
  (ls.map (cost w)).sum

theorem cost_succ
    (w l : Nat) :
    cost (w + 1) l = 2 * cost w l + if l = w + 1 then 1 else 0 := by
  unfold cost
  by_cases hw : 0 < l ∧ l ≤ w
  · rw [if_pos hw, if_pos (by omega), if_neg (by omega),
      show w + 1 - l = (w - l) + 1 by omega, Nat.pow_succ]
    omega
  · by_cases hl : l = w + 1
    · rw [if_neg hw, if_pos (by omega), if_pos hl, hl, Nat.sub_self, Nat.pow_zero]
    · rw [if_neg hw, if_neg (by omega), if_neg hl]

theorem kraft_zero
    (ls : List Nat) :
    kraft ls 0 = 0 := by
  have hcost : ∀ x ∈ ls.map (cost 0), x = 0 := by
    intro x hx
    obtain ⟨l, -, rfl⟩ := List.mem_map.mp hx
    exact if_neg (by omega)
  exact List.sum_eq_zero hcost

theorem kraft_succ
    (ls : List Nat) (w : Nat) :
    kraft ls (w + 1) = 2 * kraft ls w + ls.count (w + 1) := by
  induction ls with
  | nil =>
    rfl
  | cons l ls ih =>
    unfold kraft at ih ⊢
    rw [List.map_cons, List.sum_cons, List.map_cons, List.sum_cons, ih, cost_succ,
      List.count_cons]
    simp only [beq_iff_eq]
    omega

theorem kraft_eq_of_pos {l : Nat} (hl : 0 < l)
    (ls : List Nat) :
    kraft ls l = 2 * kraft ls (l - 1) + ls.count l := by
  obtain ⟨l, rfl⟩ : ∃ m, l = m + 1 := ⟨l - 1, by omega⟩
  exact kraft_succ ls l

/-- A wider string that starts with a code still does. -/
theorem kraft_mul_le {v w : Nat} (h : v ≤ w)
    (ls : List Nat) :
    kraft ls v * 2 ^ (w - v) ≤ kraft ls w := by
  induction w, h using Nat.le_induction with
  | base =>
    rw [Nat.sub_self, Nat.pow_zero, Nat.mul_one]
  | succ w hw ih =>
    calc kraft ls v * 2 ^ (w + 1 - v)
        = 2 * (kraft ls v * 2 ^ (w - v)) := by
          rw [show w + 1 - v = (w - v) + 1 by omega, Nat.pow_succ]
          ring
      _ ≤ 2 * kraft ls w := Nat.mul_le_mul_left 2 ih
      _ ≤ kraft ls (w + 1) := by
          rw [kraft_succ]
          omega

/-- With the strings wide enough for every code, the count is Kraft's sum. -/
theorem kraft_eq_sum {w : Nat} (ls : List Nat)
    (h : ∀ l ∈ ls, l ≤ w) :
    (kraft ls w : ℚ) =
      2 ^ w * ((ls.filter (· ≠ 0)).map fun l => (1 / 2 : ℚ) ^ l).sum := by
  induction ls with
  | nil =>
    simp [kraft]
  | cons l ls ih =>
    rw [List.forall_mem_cons] at h
    have hcons : kraft (l :: ls) w = cost w l + kraft ls w := by
      rw [kraft, List.map_cons, List.sum_cons, kraft]
    rw [hcons, Nat.cast_add, ih h.2]
    by_cases hl : l = 0
    · rw [List.filter_cons_of_neg (by simpa using hl), cost, if_neg (by omega), Nat.cast_zero,
        zero_add]
    · rw [List.filter_cons_of_pos (by simpa using hl), List.map_cons, List.sum_cons, mul_add,
        cost, if_pos ⟨Nat.pos_of_ne_zero hl, h.1⟩]
      congr 1
      push_cast
      rw [pow_sub₀ _ two_ne_zero h.1, one_div, inv_pow]

theorem kraft_eq_two_pow_iff {w : Nat} {ls : List Nat} (h : ∀ l ∈ ls, l ≤ w) :
    kraft ls w = 2 ^ w ↔ ((ls.filter (· ≠ 0)).map fun l => (1 / 2 : ℚ) ^ l).sum = 1 := by
  rw [← Nat.cast_inj (R := ℚ), kraft_eq_sum ls h, Nat.cast_pow, Nat.cast_ofNat]
  exact mul_eq_left₀ (pow_ne_zero w two_ne_zero)

/-! ## Canonical codes -/

/-- The canonical code of symbol `i`. -/
def canonicalCode (ls : List Nat) (i : Nat) : Nat :=
  2 * kraft ls (ls.getD i 0 - 1) + (ls.take i).count (ls.getD i 0)

section

variable {ls : List Nat} {i j l m w : Nat}

theorem canonicalCode_eq (hi : ls[i]? = some l) :
    canonicalCode ls i = 2 * kraft ls (l - 1) + (ls.take i).count l := by
  rw [canonicalCode, List.getD_eq_getElem?_getD, hi, Option.getD_some]

theorem count_take_lt (hi : ls[i]? = some l)
    (h : i < j) :
    (ls.take i).count l < (ls.take j).count l := by
  have htake : ls.take (i + 1) = ls.take i ++ [l] := by
    rw [List.take_add_one, hi, Option.toList_some]
  have hle := (List.take_sublist_take_left (l := ls) (show i + 1 ≤ j by omega)).count_le l
  rw [htake, List.count_append, List.count_singleton_self] at hle
  omega

theorem canonicalCode_lt (hi : ls[i]? = some l) (hl : 0 < l) :
    canonicalCode ls i < kraft ls l := by
  have hcount := count_take_lt hi (List.getElem?_eq_some_iff.mp hi).1
  rw [List.take_length] at hcount
  rw [canonicalCode_eq hi, kraft_eq_of_pos hl]
  omega

/-- The codes of length at most `w` lie before those of a greater length. -/
theorem kraft_mul_le_canonicalCode (hi : ls[i]? = some l)
    (hw : w < l) :
    kraft ls w * 2 ^ (l - w) ≤ canonicalCode ls i := by
  have hle := kraft_mul_le (show w ≤ l - 1 by omega) ls
  rw [canonicalCode_eq hi, show l - w = (l - 1 - w) + 1 by omega, Nat.pow_succ]
  calc kraft ls w * (2 ^ (l - 1 - w) * 2)
      = 2 * (kraft ls w * 2 ^ (l - 1 - w)) := by ring
    _ ≤ 2 * kraft ls (l - 1) := Nat.mul_le_mul_left 2 hle
    _ ≤ _ := Nat.le_add_right _ _

theorem canonicalCode_end_le (hi : ls[i]? = some l) (hj : ls[j]? = some m) (hl : 0 < l)
    (hw : m ≤ w)
    (horder : l < m ∨ l = m ∧ i < j) :
    (canonicalCode ls i + 1) * 2 ^ (w - l) ≤ canonicalCode ls j * 2 ^ (w - m) := by
  rcases horder with hlt | ⟨rfl, hij⟩
  · have hpow : 2 ^ (w - l) = 2 ^ (m - l) * 2 ^ (w - m) := by
      rw [← Nat.pow_add]
      congr 1
      omega
    rw [hpow, ← Nat.mul_assoc]
    refine Nat.mul_le_mul_right _ (le_trans ?_ (kraft_mul_le_canonicalCode hj hlt))
    exact Nat.mul_le_mul_right _ (canonicalCode_lt hi hl)
  · have hcount := count_take_lt hi hij
    refine Nat.mul_le_mul_right _ ?_
    rw [canonicalCode_eq hi, canonicalCode_eq hj]
    omega

/-- No string starts with the codes of two symbols. -/
theorem canonicalCode_disjoint (hi : ls[i]? = some l) (hj : ls[j]? = some m) (hne : i ≠ j)
    (hl : 0 < l) (hm : 0 < m) (hlw : l ≤ w) (hmw : m ≤ w) :
    (canonicalCode ls i + 1) * 2 ^ (w - l) ≤ canonicalCode ls j * 2 ^ (w - m) ∨
      (canonicalCode ls j + 1) * 2 ^ (w - m) ≤ canonicalCode ls i * 2 ^ (w - l) := by
  by_cases horder : l < m ∨ l = m ∧ i < j
  · exact Or.inl (canonicalCode_end_le hi hj hl hmw horder)
  · exact Or.inr (canonicalCode_end_le hj hi hm hlw (by omega))

theorem exists_occurrence {a r : Nat} (ls : List Nat)
    (h : r < ls.count a) :
    ∃ i : Nat, ls[i]? = some a ∧ (ls.take i).count a = r := by
  induction ls generalizing r with
  | nil =>
    exact absurd h (by simp)
  | cons b ls ih =>
    rw [List.count_cons] at h
    by_cases hb : b = a
    · subst hb
      rcases r with - | r
      · exact ⟨0, rfl, rfl⟩
      · simp only [BEq.rfl, if_true] at h
        obtain ⟨i, hi, hcount⟩ := ih (show r < ls.count b by omega)
        exact ⟨i + 1, hi, by rw [List.take_succ_cons, List.count_cons_self, hcount]⟩
    · simp only [beq_iff_eq, if_neg hb, Nat.add_zero] at h
      obtain ⟨i, hi, hcount⟩ := ih h
      exact ⟨i + 1, hi, by rw [List.take_succ_cons, List.count_cons_of_ne hb, hcount]⟩

/-- Every string below the Kraft sum starts with a code. -/
theorem exists_symbol_of_lt_kraft {x : Nat}
    (h : x < kraft ls w) :
    ∃ i l : Nat, ls[i]? = some l ∧ 0 < l ∧ l ≤ w ∧ x / 2 ^ (w - l) = canonicalCode ls i := by
  induction w generalizing x with
  | zero =>
    rw [kraft_zero] at h
    omega
  | succ w ih =>
    rw [kraft_succ] at h
    by_cases hshort : x / 2 < kraft ls w
    · obtain ⟨i, l, hi, hl, hlw, hcode⟩ := ih hshort
      refine ⟨i, l, hi, hl, by omega, ?_⟩
      rw [← hcode, Nat.div_div_eq_div_mul, show w + 1 - l = 1 + (w - l) by omega, Nat.pow_add,
        Nat.pow_one]
    · have hlast : x - 2 * kraft ls w < ls.count (w + 1) := by omega
      obtain ⟨i, hi, hcount⟩ := exists_occurrence ls hlast
      refine ⟨i, w + 1, hi, by omega, le_refl _, ?_⟩
      rw [canonicalCode_eq hi, hcount, Nat.sub_self, Nat.pow_zero, Nat.div_one,
        Nat.add_sub_cancel]
      omega

end

end Base
end Theos
