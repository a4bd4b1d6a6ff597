import Mathlib.Logic.Function.Basic
import Theos.Base.Buffer
import Theos.Base.PrefixCode
import Theos.Base.Rust

/-!
# The Huffman tables of the LZX decoder

`build_table` turns a list of code lengths into a lookup structure: a table
indexed by the next nine bits, and, for codes longer than nine bits, one extra
table for each nine-bit head of a long code, indexed by the bits that follow.
An entry is the length of the code, shifted by nine, with the symbol below it;
an entry without a length is the index of an extra table.

A panic of `build_table` (an index outside a table) is `none`; `some none` is
the `None` it returns for lengths that do not fill the code space.
-/

namespace Theos
namespace Lzx

open Base

structure Huffman where
  extra : List (List Nat)
  maxbits : Nat
  table : List Nat
deriving DecidableEq, Repr

/-- The variable `code` of `build_table` after the lengths up to `w`. -/
def codeAfter (codelens : List Nat) : Nat → Nat
  | 0 => 0
  | w + 1 => 2 * codeAfter codelens w + codelens.count (w + 1)

/-- The array `first` before any code has been given out. -/
def firstCode (codelens : List Nat) (l : Nat) : Nat :=
  2 * codeAfter codelens (l - 1)

/-- A table entry. -/
def entry (cl i : Nat) : Nat :=
  cl <<< 9 ||| i % 2 ^ 16

/-- `for j in 0..len { row[start + j] = value }`, for a positive `len`. -/
def fillRow (row : List Nat) (start len value : Nat) : Option (List Nat) :=
  if start + len ≤ row.length then some (splice row start (List.replicate len value)) else none

/-- The state of the loop over the symbols. -/
structure Filling where
  first : Nat → Nat
  huffman : Huffman

def fillSymbol (max : Nat) (s : Filling) (i cl : Nat) : Option Filling :=
  if cl = 0 then some s
  else
    let code := s.first cl
    let first := Function.update s.first cl (code + 1)
    if cl ≤ 9 then do
      let table ← fillRow s.huffman.table (code * 2 ^ (9 - cl)) (2 ^ (9 - cl)) (entry cl i)
      some ⟨first, { s.huffman with table := table }⟩
    else do
      let extraIndex ← s.huffman.table[code / 2 ^ (cl - 9)]?
      let row ← s.huffman.extra[extraIndex]?
      let row ← fillRow row (code % 2 ^ (cl - 9) * 2 ^ (max - cl)) (2 ^ (max - cl)) (entry cl i)
      some ⟨first, { s.huffman with extra := s.huffman.extra.set extraIndex row }⟩

def fillSymbols (max : Nat) : Nat → List Nat → Filling → Option Filling
  | _, [], s => some s
  | i, cl :: rest, s => do
    let s ← fillSymbol max s i cl
    fillSymbols max (i + 1) rest s

/-- The tables before the loop over the symbols. -/
def emptyTables (codelens : List Nat) (max : Nat) : Option Huffman :=
  if 9 < max then do
    let core := firstCode codelens 10 / 2
    let nextra ← subU 512 core
    some ⟨List.replicate nextra (List.replicate (2 ^ (max - 9)) 0), max,
      List.replicate core 0 ++ List.range nextra⟩
  else some ⟨[], max, List.replicate 512 0⟩

def maxLength (codelens : List Nat) : Nat :=
  codelens.foldl max 0

def buildTable (codelens : List Nat) : Option (Option Huffman) :=
  if codelens.any (16 < ·) then some none
  else if maxLength codelens = 0 then some (some ⟨[], 0, List.replicate 512 0⟩)
  else if codeAfter codelens (maxLength codelens) ≠ 2 ^ maxLength codelens then some none
  else do
    let huffman ← emptyTables codelens (maxLength codelens)
    let s ← fillSymbols (maxLength codelens) 0 codelens ⟨firstCode codelens, huffman⟩
    some (some s.huffman)

/-! ## Entries, rows and lengths -/

theorem codeAfter_eq_kraft
    (codelens : List Nat) (w : Nat) :
    codeAfter codelens w = kraft codelens w := by
  induction w with
  | zero =>
    rw [codeAfter, kraft_zero]
  | succ w ih =>
    rw [codeAfter, kraft_succ, ih]

theorem entry_eq {i : Nat} (hi : i < 512)
    (cl : Nat) :
    entry cl i = cl * 512 + i := by
  rw [entry, Nat.mod_eq_of_lt (by omega), ← Nat.shiftLeft_add_eq_or_of_lt (show i < 2 ^ 9 by omega),
    Nat.shiftLeft_eq]

/-- The writes for one code, as they are read back. -/
theorem fillRow_block {row : List Nat} {c b : Nat} (h : (c + 1) * 2 ^ b ≤ row.length)
    (value : Nat) :
    ∃ row', fillRow row (c * 2 ^ b) (2 ^ b) value = some row' ∧ row'.length = row.length ∧
      ∀ t, row'[t]? = if t / 2 ^ b = c then some value else row[t]? := by
  have hend : c * 2 ^ b + 2 ^ b ≤ row.length := by
    rwa [Nat.add_mul, Nat.one_mul] at h
  have hdata : c * 2 ^ b + (List.replicate (2 ^ b) value).length ≤ row.length := by
    rwa [List.length_replicate]
  refine ⟨_, if_pos hend, length_splice hdata, fun t => ?_⟩
  rw [getElem?_splice hdata, List.length_replicate]
  have hmem : t / 2 ^ b = c ↔ c * 2 ^ b ≤ t ∧ t < c * 2 ^ b + 2 ^ b := by
    rw [Nat.div_eq_iff (Nat.two_pow_pos b), Nat.mul_comm]
    have := Nat.two_pow_pos b
    omega
  by_cases ht : t / 2 ^ b = c
  · rw [if_pos (hmem.mp ht), if_pos ht, List.getElem?_replicate, if_pos]
    have := hmem.mp ht
    omega
  · rw [if_neg (hmem.not.mp ht), if_neg ht]

theorem le_foldl_max
    (ls : List Nat) (a : Nat) :
    a ≤ ls.foldl max a ∧ ∀ l ∈ ls, l ≤ ls.foldl max a := by
  induction ls generalizing a with
  | nil =>
    simp
  | cons l ls ih =>
    obtain ⟨hacc, hmem⟩ := ih (max a l)
    rw [List.foldl_cons, List.forall_mem_cons]
    exact ⟨le_trans (le_max_left a l) hacc, le_trans (le_max_right a l) hacc, hmem⟩

theorem le_maxLength {codelens : List Nat} {l : Nat} (h : l ∈ codelens) :
    l ≤ maxLength codelens :=
  (le_foldl_max codelens 0).2 l h

theorem foldl_max_le {ls : List Nat} {a b : Nat} (ha : a ≤ b) (h : ∀ l ∈ ls, l ≤ b) :
    ls.foldl max a ≤ b := by
  induction ls generalizing a with
  | nil =>
    exact ha
  | cons l ls ih =>
    rw [List.forall_mem_cons] at h
    exact ih (max_le ha h.1) h.2

theorem maxLength_eq_zero_iff
    (codelens : List Nat) :
    maxLength codelens = 0 ↔ ∀ l ∈ codelens, l = 0 := by
  constructor
  · intro h l hl
    have := le_maxLength hl
    omega
  · intro h
    exact Nat.le_zero.mp (foldl_max_le (Nat.le_refl 0) fun l hl => (h l hl).le)

/-! ## The loop over the symbols -/

/-- What the tables hold after the first `k` symbols: every window of bits that
starts with one of their codes is looked up to its entry. -/
structure Filled (codelens : List Nat) (max k : Nat) (s : Filling) : Prop where
  first : ∀ l, 0 < l → s.first l = firstCode codelens l + (codelens.take k).count l
  maxbits : s.huffman.maxbits = max
  table_length : s.huffman.table.length = 512
  extra_length : 9 < max → s.huffman.extra.length = 512 - kraft codelens 9
  row_length : ∀ row ∈ s.huffman.extra, row.length = 2 ^ (max - 9)
  heads : 9 < max → ∀ t, kraft codelens 9 ≤ t → t < 512 →
    s.huffman.table[t]? = some (t - kraft codelens 9)
  short : ∀ i l, i < k → codelens[i]? = some l → 0 < l → l ≤ 9 →
    ∀ t, t / 2 ^ (9 - l) = canonicalCode codelens i → s.huffman.table[t]? = some (entry l i)
  long : ∀ i l, i < k → codelens[i]? = some l → 9 < l →
    ∀ x, x / 2 ^ (max - l) = canonicalCode codelens i →
      (s.huffman.extra[x / 2 ^ (max - 9) - kraft codelens 9]?).bind
        (fun row => row[x % 2 ^ (max - 9)]?) = some (entry l i)

section

variable {codelens : List Nat} {max k : Nat} {s : Filling}

/-- A window starts with the code of one symbol only. -/
theorem symbol_unique {i j l m w x : Nat} (hi : codelens[i]? = some l)
    (hj : codelens[j]? = some m) (hl : 0 < l) (hm : 0 < m) (hlw : l ≤ w) (hmw : m ≤ w)
    (hxi : x / 2 ^ (w - l) = canonicalCode codelens i)
    (hxj : x / 2 ^ (w - m) = canonicalCode codelens j) :
    i = j := by
  by_contra hne
  have hi' := Nat.div_add_mod x (2 ^ (w - l))
  have hj' := Nat.div_add_mod x (2 ^ (w - m))
  have hil := Nat.mod_lt x (Nat.two_pow_pos (w - l))
  have hjl := Nat.mod_lt x (Nat.two_pow_pos (w - m))
  rw [hxi, Nat.mul_comm] at hi'
  rw [hxj, Nat.mul_comm] at hj'
  have hdisjoint := canonicalCode_disjoint hi hj hne hl hm hlw hmw
  rw [Nat.add_mul, Nat.add_mul, Nat.one_mul, Nat.one_mul] at hdisjoint
  omega

theorem kraft_le_two_pow {w : Nat} (hcomplete : kraft codelens max = 2 ^ max) (hw : w ≤ max) :
    kraft codelens w ≤ 2 ^ w := by
  have hle := kraft_mul_le hw codelens
  have hpow : 2 ^ max = 2 ^ w * 2 ^ (max - w) := by
    rw [← Nat.pow_add, Nat.add_sub_cancel' hw]
  rw [hcomplete, hpow] at hle
  exact Nat.le_of_mul_le_mul_right hle (Nat.two_pow_pos _)

theorem forall_lt_succ_symbol {cl : Nat} {P : Nat → Nat → Prop} (hk : codelens[k]? = some cl)
    (hlast : P k cl) (hbefore : ∀ i l, i < k → codelens[i]? = some l → P i l) :
    ∀ i l, i < k + 1 → codelens[i]? = some l → P i l := by
  intro i l hi hl
  by_cases hik : i = k
  · subst hik
    rw [hk, Option.some.injEq] at hl
    exact hl ▸ hlast
  · exact hbefore i l (by omega) hl

theorem Filled.first_eq {cl : Nat} (hs : Filled codelens max k s) (hk : codelens[k]? = some cl)
    (hcl : 0 < cl) :
    s.first cl = canonicalCode codelens k := by
  rw [hs.first cl hcl, canonicalCode_eq hk, firstCode, codeAfter_eq_kraft]

/-- Giving out a code counts its symbol. -/
theorem Filled.first_update {cl l : Nat} (hs : Filled codelens max k s)
    (hk : codelens[k]? = some cl) (hl : 0 < l) :
    Function.update s.first cl (s.first cl + 1) l =
      firstCode codelens l + (codelens.take (k + 1)).count l := by
  have htake : codelens.take (k + 1) = codelens.take k ++ [cl] := by
    rw [List.take_add_one, hk, Option.toList_some]
  rw [htake, List.count_append]
  by_cases h : l = cl
  · subst h
    rw [Function.update_self, hs.first l hl, List.count_singleton_self, Nat.add_assoc]
  · rw [Function.update_of_ne h, hs.first l hl,
      List.count_eq_zero_of_not_mem (List.mem_singleton.not.mpr h), Nat.add_zero]

theorem Filled.skip (hs : Filled codelens max k s) (hk : codelens[k]? = some 0) :
    Filled codelens max (k + 1) s := by
  refine { hs with first := fun l hl => ?_, short := ?_, long := ?_ }
  · have htake : codelens.take (k + 1) = codelens.take k ++ [0] := by
      rw [List.take_add_one, hk, Option.toList_some]
    rw [hs.first l hl, htake, List.count_append,
      List.count_eq_zero_of_not_mem (List.mem_singleton.not.mpr hl.ne'), Nat.add_zero]
  · exact forall_lt_succ_symbol hk (fun h => absurd h (by omega)) hs.short
  · exact forall_lt_succ_symbol hk (fun h => absurd h (by omega)) hs.long

/-- A code of at most nine bits is written to the table. -/
theorem Filled.fill_short {cl : Nat} (hcomplete : kraft codelens max = 2 ^ max)
    (hs : Filled codelens max k s) (hk : codelens[k]? = some cl) (hcl : 0 < cl) (h9 : cl ≤ 9)
    (hmax : cl ≤ max) :
    ∃ s', fillSymbol max s k cl = some s' ∧ Filled codelens max (k + 1) s' := by
  have hlt := canonicalCode_lt hk hcl
  have hend : (canonicalCode codelens k + 1) * 2 ^ (9 - cl) ≤ s.huffman.table.length := by
    have hpow : 2 ^ cl * 2 ^ (9 - cl) = 512 := by
      rw [← Nat.pow_add, Nat.add_sub_cancel' h9]
    rw [hs.table_length, ← hpow]
    exact Nat.mul_le_mul_right _ (le_trans hlt (kraft_le_two_pow hcomplete hmax))
  obtain ⟨table, hfill, hlength, hread⟩ := fillRow_block hend (entry cl k)
  refine ⟨⟨Function.update s.first cl (s.first cl + 1), { s.huffman with table := table }⟩,
    ?_, ?_⟩
  · rw [fillSymbol, if_neg hcl.ne']
    simp only [if_pos h9, hs.first_eq hk hcl, hfill]
    rfl
  · refine { hs with
      first := fun l hl => hs.first_update hk hl
      table_length := hlength.trans hs.table_length
      heads := fun hmax' t hcore ht => ?_
      short := ?_
      long := ?_ }
    · -- the entries from `core` on belong to no short code
      rw [hread, if_neg, hs.heads hmax' t hcore ht]
      intro hcode
      have hle := kraft_mul_le h9 codelens
      have hmod := Nat.mod_lt t (Nat.two_pow_pos (9 - cl))
      have hdiv := Nat.div_add_mod t (2 ^ (9 - cl))
      have hstep : (canonicalCode codelens k + 1) * 2 ^ (9 - cl) ≤
          kraft codelens cl * 2 ^ (9 - cl) := Nat.mul_le_mul_right _ hlt
      rw [hcode, Nat.mul_comm] at hdiv
      rw [Nat.add_mul, Nat.one_mul] at hstep
      omega
    · refine forall_lt_succ_symbol hk (fun _ _ t ht => ?_) fun i l hi hl hpos h9' t ht => ?_
      · rw [hread, if_pos ht]
      · rw [hread, if_neg, hs.short i l hi hl hpos h9' t ht]
        intro ht'
        have := symbol_unique hl hk hpos hcl h9' h9 ht ht'
        omega
    · exact forall_lt_succ_symbol hk (fun h => absurd h (by omega)) hs.long

/-- The two indices of a window of `a + b` bits whose first bits are those of `c`. -/
theorem window_split
    (a b x : Nat) :
    x / 2 ^ (a + b) = x / 2 ^ b / 2 ^ a ∧ x % 2 ^ (a + b) / 2 ^ b = x / 2 ^ b % 2 ^ a := by
  rw [Nat.add_comm a b, Nat.pow_add, Nat.div_div_eq_div_mul, Nat.mod_mul_right_div_self]
  exact ⟨rfl, rfl⟩

theorem eq_of_split {a x y : Nat} (hdiv : x / 2 ^ a = y / 2 ^ a) (hmod : x % 2 ^ a = y % 2 ^ a) :
    x = y := by
  rw [← Nat.div_add_mod x (2 ^ a), hdiv, hmod, Nat.div_add_mod]

/-- The first nine bits of a longer code stand behind the shorter codes. -/
theorem kraft_le_head {i l : Nat} (hi : codelens[i]? = some l) (h9 : 9 < l) :
    kraft codelens 9 ≤ canonicalCode codelens i / 2 ^ (l - 9) := by
  rw [Nat.le_div_iff_mul_le (Nat.two_pow_pos _)]
  exact kraft_mul_le_canonicalCode hi h9

/-- A window that starts with one longer code and belongs to the place of another in the extra
tables starts with the other. -/
theorem symbol_unique_of_place {i j l m x : Nat} (hi : codelens[i]? = some l)
    (hj : codelens[j]? = some m) (hl : 9 < l) (hm : 9 < m) (hlmax : l ≤ max) (hmmax : m ≤ max)
    (hx : x / 2 ^ (max - l) = canonicalCode codelens i)
    (hhead : x / 2 ^ (max - 9) - kraft codelens 9 =
      canonicalCode codelens j / 2 ^ (m - 9) - kraft codelens 9)
    (hplace : x % 2 ^ (max - 9) / 2 ^ (max - m) = canonicalCode codelens j % 2 ^ (m - 9)) :
    i = j := by
  have hcore : kraft codelens 9 ≤ x / 2 ^ (max - 9) := by
    have hsplit := (window_split (l - 9) (max - l) x).1
    rw [show l - 9 + (max - l) = max - 9 by omega, hx] at hsplit
    exact hsplit ▸ kraft_le_head hi hl
  have hcore' := kraft_le_head hj hm
  obtain ⟨hdiv, hmod⟩ := window_split (m - 9) (max - m) x
  rw [show m - 9 + (max - m) = max - 9 by omega] at hdiv hmod
  have hx' : x / 2 ^ (max - m) = canonicalCode codelens j :=
    eq_of_split (by omega) (hmod.symm.trans hplace)
  exact symbol_unique hi hj (by omega) (by omega) hlmax hmmax hx hx'

/-- A longer code is written to the extra table of its first nine bits. -/
theorem Filled.fill_long {cl : Nat} (hcomplete : kraft codelens max = 2 ^ max)
    (hs : Filled codelens max k s) (hle : ∀ l ∈ codelens, l ≤ max)
    (hk : codelens[k]? = some cl) (h9 : 9 < cl) :
    ∃ s', fillSymbol max s k cl = some s' ∧ Filled codelens max (k + 1) s' := by
  have hcl : 0 < cl := by omega
  have hmax : cl ≤ max := hle cl (List.mem_of_getElem? hk)
  have hhead := kraft_le_head hk h9
  have hlt := lt_of_lt_of_le (canonicalCode_lt hk hcl) (kraft_le_two_pow hcomplete hmax)
  obtain ⟨a, ha⟩ : ∃ a, cl = a + 9 := ⟨cl - 9, by omega⟩
  obtain ⟨b, hb⟩ : ∃ b, max = a + b + 9 := ⟨max - cl, by omega⟩
  have hsub : cl - 9 = a := by omega
  have hsub' : max - cl = b := by omega
  have hsub'' : max - 9 = a + b := by omega
  rw [hsub] at hhead
  have hhead' : canonicalCode codelens k / 2 ^ a < 512 := by
    rw [Nat.div_lt_iff_lt_mul (Nat.two_pow_pos a)]
    rw [ha, Nat.pow_add, Nat.mul_comm] at hlt
    exact hlt
  obtain ⟨row, hrow⟩ : ∃ row, s.huffman.extra[canonicalCode codelens k / 2 ^ a -
      kraft codelens 9]? = some row := by
    have hindex : canonicalCode codelens k / 2 ^ a - kraft codelens 9 <
        s.huffman.extra.length := by
      rw [hs.extra_length (by omega)]
      omega
    exact ⟨_, List.getElem?_eq_getElem hindex⟩
  have hrow_length := hs.row_length row (List.mem_of_getElem? hrow)
  have hend : (canonicalCode codelens k % 2 ^ a + 1) * 2 ^ b ≤ row.length := by
    rw [hrow_length, hsub'', Nat.pow_add]
    exact Nat.mul_le_mul_right _ (Nat.mod_lt _ (Nat.two_pow_pos a))
  obtain ⟨row', hfill, hlength, hread⟩ := fillRow_block hend (entry cl k)
  refine ⟨⟨Function.update s.first cl (s.first cl + 1), { s.huffman with
    extra := s.huffman.extra.set (canonicalCode codelens k / 2 ^ a - kraft codelens 9) row' }⟩,
    ?_, ?_⟩
  · have htable := hs.heads (by omega) _ hhead hhead'
    rw [fillSymbol, if_neg hcl.ne']
    simp only [if_neg (show ¬cl ≤ 9 by omega), hs.first_eq hk hcl, hsub, hsub', htable]
    simp only [Option.bind_eq_bind, Option.bind_some, hrow, hfill]
  · refine { hs with
      first := fun l hl => hs.first_update hk hl
      extra_length := fun h => (List.length_set).trans (hs.extra_length h)
      row_length := fun r hr => ?_
      short := ?_
      long := ?_ }
    · rcases List.mem_or_eq_of_mem_set hr with hmem | rfl
      · exact hs.row_length r hmem
      · exact hlength.trans hrow_length
    · exact forall_lt_succ_symbol hk (fun _ h => absurd h (by omega)) hs.short
    · -- a window of another symbol has another head or another place in the row
      have hindex : canonicalCode codelens k / 2 ^ a - kraft codelens 9 <
          s.huffman.extra.length := (List.getElem?_eq_some_iff.mp hrow).1
      refine forall_lt_succ_symbol hk (fun _ x hx => ?_) fun i l hi hl h9' x hx => ?_
      · obtain ⟨hdiv, hmod⟩ := window_split a b x
        rw [hsub'] at hx
        rw [hx] at hdiv hmod
        simp only [hsub'', hdiv, List.getElem?_set_self hindex, Option.bind_some, hread,
          if_pos hmod]
      · have hold := hs.long i l hi hl h9' x hx
        by_cases hsame : x / 2 ^ (max - 9) - kraft codelens 9 =
            canonicalCode codelens k / 2 ^ a - kraft codelens 9
        · rw [hsame, hrow, Option.bind_some] at hold
          simp only [hsame, List.getElem?_set_self hindex, Option.bind_some]
          rw [hread, if_neg, hold]
          intro hplace
          rw [← hsub] at hsame hplace
          rw [← hsub'] at hplace
          have := symbol_unique_of_place hl hk h9' h9 (hle l (List.mem_of_getElem? hl)) hmax hx
            hsame hplace
          omega
        · simp only [List.getElem?_set_ne (Ne.symm hsame)]
          exact hold

theorem Filled.fillSymbol {cl : Nat} (hcomplete : kraft codelens max = 2 ^ max)
    (hs : Filled codelens max k s) (hle : ∀ l ∈ codelens, l ≤ max)
    (hk : codelens[k]? = some cl) :
    ∃ s', Lzx.fillSymbol max s k cl = some s' ∧ Filled codelens max (k + 1) s' := by
  rcases Nat.eq_zero_or_pos cl with rfl | hcl
  · exact ⟨s, if_pos rfl, hs.skip hk⟩
  · by_cases h9 : cl ≤ 9
    · exact hs.fill_short hcomplete hk hcl h9 (hle cl (List.mem_of_getElem? hk))
    · exact hs.fill_long hcomplete hle hk (by omega)

theorem Filled.fillSymbols (hcomplete : kraft codelens max = 2 ^ max)
    (hs : Filled codelens max k s) (hle : ∀ l ∈ codelens, l ≤ max)
    (rest : List Nat) (hrest : codelens.drop k = rest) :
    ∃ s', Lzx.fillSymbols max k rest s = some s' ∧
      Filled codelens max (k + rest.length) s' := by
  induction rest generalizing k s with
  | nil =>
    exact ⟨s, rfl, hs⟩
  | cons cl rest ih =>
    have hk : codelens[k]? = some cl := by
      rw [← List.head?_drop, hrest, List.head?_cons]
    obtain ⟨s₁, hstep, hs₁⟩ := hs.fillSymbol hcomplete hle hk
    have hrest₁ : codelens.drop (k + 1) = rest := by
      rw [← List.tail_drop, hrest, List.tail_cons]
    obtain ⟨s₂, hrun, hs₂⟩ := ih hs₁ hrest₁
    refine ⟨s₂, ?_, ?_⟩
    · rw [Lzx.fillSymbols, hstep]
      exact hrun
    · rwa [List.length_cons, Nat.add_comm rest.length 1, ← Nat.add_assoc]

/-- The empty tables, with their extra tables in place. -/
theorem Filled.init (hcomplete : kraft codelens max = 2 ^ max) :
    ∃ huffman, emptyTables codelens max = some huffman ∧
      Filled codelens max 0 ⟨firstCode codelens, huffman⟩ := by
  unfold emptyTables
  by_cases h9 : 9 < max
  · have hcore : firstCode codelens 10 / 2 = kraft codelens 9 := by
      rw [firstCode, codeAfter_eq_kraft, Nat.mul_div_cancel_left _ (by decide)]
    have hle : kraft codelens 9 ≤ 512 := kraft_le_two_pow hcomplete h9.le
    refine ⟨⟨List.replicate (512 - kraft codelens 9) (List.replicate (2 ^ (max - 9)) 0), max,
      List.replicate (kraft codelens 9) 0 ++ List.range (512 - kraft codelens 9)⟩, ?_, ?_⟩
    · simp only [if_pos h9, hcore, subU, if_pos hle]
      rfl
    · refine ⟨fun l _ => by simp, rfl, ?_, fun _ => List.length_replicate, fun row hrow => ?_,
        fun _ t hcore ht => ?_, fun i l hi => absurd hi (by omega),
        fun i l hi => absurd hi (by omega)⟩
      · simp only [List.length_append, List.length_replicate, List.length_range]
        omega
      · rw [List.eq_of_mem_replicate hrow, List.length_replicate]
      · rw [List.getElem?_append_right (by rwa [List.length_replicate]), List.length_replicate,
          List.getElem?_range (by omega)]
  · refine ⟨⟨[], max, List.replicate 512 0⟩, if_neg h9, ?_⟩
    exact ⟨fun l _ => by simp, rfl, List.length_replicate, fun h => absurd h h9,
      fun row hrow => absurd hrow (List.not_mem_nil), fun h => absurd h h9,
      fun i l hi => absurd hi (by omega), fun i l hi => absurd hi (by omega)⟩

end

/-! ## What `build_table` returns -/

/-- The lengths use up the code space. -/
def Complete (codelens : List Nat) : Prop :=
  ((codelens.filter (· ≠ 0)).map fun l => (1 / 2 : ℚ) ^ l).sum = 1

theorem complete_iff_kraft
    (codelens : List Nat) :
    Complete codelens ↔ kraft codelens (maxLength codelens) = 2 ^ maxLength codelens :=
  (kraft_eq_two_pow_iff fun _ hl => le_maxLength hl).symm

theorem Complete.maxLength_pos {codelens : List Nat} (h : Complete codelens) :
    0 < maxLength codelens := by
  rw [complete_iff_kraft] at h
  by_contra hzero
  rw [Nat.eq_zero_of_not_pos hzero, kraft_zero] at h
  exact absurd h (by decide)

theorem buildTable_of_complete {codelens : List Nat} (h16 : ∀ l ∈ codelens, l ≤ 16)
    (h : Complete codelens) :
    ∃ s, buildTable codelens = some (some s.huffman) ∧
      Filled codelens (maxLength codelens) codelens.length s := by
  have hkraft := (complete_iff_kraft codelens).mp h
  have hany : ¬codelens.any (16 < ·) = true := by
    simpa using h16
  obtain ⟨huffman, hempty, hinit⟩ := Filled.init hkraft
  obtain ⟨s, hfill, hs⟩ := hinit.fillSymbols hkraft (fun _ hl => le_maxLength hl) codelens rfl
  rw [Nat.zero_add] at hs
  refine ⟨s, ?_, hs⟩
  rw [buildTable, if_neg hany, if_neg h.maxLength_pos.ne',
    if_neg (by rw [codeAfter_eq_kraft, hkraft]; exact not_not_intro rfl), hempty]
  simp only [Option.bind_eq_bind, Option.bind_some, hfill]

/-- `build_table` never indexes outside its tables, and it returns one exactly for
lengths that are all zero or that use up the code space. -/
theorem buildTable_isSome_iff {codelens : List Nat} (h16 : ∀ l ∈ codelens, l ≤ 16) :
    ∃ result, buildTable codelens = some result ∧
      (result.isSome ↔ (∀ l ∈ codelens, l = 0) ∨ Complete codelens) := by
  by_cases h : Complete codelens
  · obtain ⟨s, hs, -⟩ := buildTable_of_complete h16 h
    exact ⟨_, hs, iff_of_true rfl (Or.inr h)⟩
  · have hany : ¬codelens.any (16 < ·) = true := by
      simpa using h16
    rw [buildTable, if_neg hany]
    by_cases hzero : maxLength codelens = 0
    · rw [if_pos hzero]
      exact ⟨_, rfl, iff_of_true rfl (Or.inl ((maxLength_eq_zero_iff codelens).mp hzero))⟩
    · have hkraft : codeAfter codelens (maxLength codelens) ≠ 2 ^ maxLength codelens := by
        rwa [codeAfter_eq_kraft, Ne, ← complete_iff_kraft]
      rw [if_neg hzero, if_pos hkraft]
      refine ⟨none, rfl, iff_of_false (by simp) ?_⟩
      rw [← maxLength_eq_zero_iff]
      exact not_or_intro hzero h

end Lzx
end Theos
