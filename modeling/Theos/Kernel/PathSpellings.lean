import Theos.Kernel.NtPaths
import Mathlib.Logic.Relation

/-!
# Spellings of an NT path

`canonicalize_nt_path` is the key of every name in the object table.  Its result is a normal
form, and apart from one start of a path it does not depend on how the path is spelled: a slash
for a backslash, a separator more after the first character, or separators at the end.

The start is `\\?\`, which is rewritten to `\??\` before separators are merged.  One
separator more in it, or without the one at its end, it is not recognised, and the path gets
another name.
-/

namespace Theos
namespace Kernel
namespace Nt

/-! ## The passes -/

/-- `replace('/', "\\")`. -/
def unslash (path : Path) : Path :=
  path.map fun c => if c = '/' then '\\' else c

/-- A path without its last character, if that is a backslash and not the first one. -/
def popBackslash (path : Path) : Path :=
  if 1 < path.length ∧ path.getLast? = some '\\' then path.dropLast else path

/-- The path starts with `\\?\`, in any slashes. -/
def IsExtended (path : Path) : Prop :=
  "\\\\?\\".toList <+: unslash path

instance (path : Path) : Decidable (IsExtended path) :=
  inferInstanceAs (Decidable (_ <+: _))

/-- The path without two backslashes next to each other. -/
def squeeze : Path → Path
  | '\\' :: '\\' :: rest => squeeze ('\\' :: rest)
  | c :: rest => c :: squeeze rest
  | [] => []

theorem squeeze_cons
    (c : Char) (rest : Path) :
    squeeze (c :: rest) =
      if c = '\\' ∧ rest.head? = some '\\' then squeeze rest else c :: squeeze rest := by
  rw [squeeze.eq_def]
  split
  next heq =>
    obtain ⟨rfl, rfl⟩ := List.cons.inj heq
    rw [if_pos ⟨rfl, rfl⟩]
  next hnot heq =>
    obtain ⟨rfl, rfl⟩ := List.cons.inj heq
    rw [if_neg]
    rintro ⟨rfl, hhead⟩
    obtain ⟨tail, rfl⟩ := List.head?_eq_some_iff.mp hhead
    exact hnot tail rfl rfl
  next heq =>
    cases heq

theorem head?_squeeze
    (path : Path) :
    (squeeze path).head? = path.head? := by
  fun_induction squeeze path with
  | case1 rest ih =>
    rw [ih]
    rfl
  | case2 =>
    rfl
  | case3 =>
    rfl

theorem squeeze_cons_congr {left right : Path}
    (h : squeeze left = squeeze right)
    (c : Char) :
    squeeze (c :: left) = squeeze (c :: right) := by
  have hhead : left.head? = right.head? := by
    rw [← head?_squeeze left, h, head?_squeeze]
  rw [squeeze_cons, squeeze_cons, hhead, h]

theorem squeeze_append
    (front back : Path) :
    squeeze (front ++ '\\' :: '\\' :: back) = squeeze (front ++ '\\' :: back) := by
  induction front with
  | nil =>
    rw [List.nil_append, List.nil_append, squeeze]
  | cons c front ih =>
    exact squeeze_cons_congr ih c

/-- A backslash at the end is added, or merged with the one that is there. -/
theorem squeeze_concat
    (path : Path) :
    squeeze (path ++ ['\\']) =
      if path.getLast? = some '\\' then squeeze path else squeeze path ++ ['\\'] := by
  rcases List.eq_nil_or_concat path with rfl | ⟨front, c, rfl⟩
  · rfl
  · rw [List.concat_eq_append, List.getLast?_concat]
    by_cases hc : c = '\\'
    · subst hc
      rw [if_pos rfl, List.append_assoc]
      exact squeeze_append front []
    · rw [if_neg fun h => hc (Option.some.inj h)]
      induction front with
      | nil =>
        simp [squeeze_cons, hc, squeeze]
      | cons d front ih =>
        have hhead : (front ++ [c] ++ ['\\']).head? = (front ++ [c]).head? := by
          cases front <;> rfl
        rw [List.cons_append, List.cons_append, squeeze_cons, squeeze_cons, hhead, ih]
        split <;> rfl

theorem getLast?_squeeze
    (path : Path) :
    (squeeze path).getLast? = path.getLast? := by
  fun_induction squeeze path with
  | case1 rest ih =>
    rw [ih, List.getLast?_cons_cons]
  | case2 c rest _ ih =>
    rw [List.getLast?_cons, List.getLast?_cons, ih]
  | case3 =>
    rfl

theorem squeeze_of_not_double {path : Path}
    (h : hasDoubleBackslash path = false) :
    squeeze path = path := by
  fun_induction squeeze path with
  | case1 rest =>
    cases h
  | case2 c rest hnot ih =>
    rw [ih]
    rw [hasDoubleBackslash.eq_def] at h
    split at h
    next =>
      cases h
    next heq =>
      rwa [(List.cons.inj heq).2]
    next heq =>
      cases heq
  | case3 =>
    rfl

theorem squeeze_mergeBackslashes
    (path : Path) :
    squeeze (mergeBackslashes path) = squeeze path := by
  fun_induction mergeBackslashes path with
  | case1 rest ih =>
    rw [squeeze]
    exact squeeze_cons_congr ih _
  | case2 c rest _ ih =>
    exact squeeze_cons_congr ih c
  | case3 =>
    rfl

/-- The loop of `canonicalize_nt_path` ends, with all runs of backslashes merged. -/
theorem mergeLoop_eq_squeeze {fuel : Nat} {path : Path}
    (h : path.length ≤ fuel) :
    mergeLoop fuel path = squeeze path := by
  have hmerged := squeeze_of_not_double (hasDoubleBackslash_mergeLoop h)
  rw [← hmerged]
  clear hmerged h
  induction fuel generalizing path with
  | zero =>
    rfl
  | succ fuel ih =>
    rw [mergeLoop]
    split
    · rw [ih, squeeze_mergeBackslashes]
    · rfl

/-! ## Without the special start -/

/-- What `rootPath` puts in front of a path. -/
def lead : Path → Path
  | [] => ['\\']
  | c :: rest =>
    if c.isAlpha ∧ rest.head? = some ':' then "\\??\\".toList
    else if c = '\\' then [] else ['\\']

theorem rootPath_eq
    (path : Path) :
    rootPath path = lead path ++ path := by
  unfold rootPath lead
  split
  next c rest =>
    by_cases hc : c.isAlpha
    · simp [hc]
    · by_cases hb : c = '\\' <;> simp [hc, hb]
  next rest hnot =>
    have halpha : ¬ ('\\'.isAlpha = true) := by decide
    simp [halpha]
  next hdrive hback =>
    cases path with
    | nil =>
      rfl
    | cons c rest =>
      have hhead : rest.head? ≠ some ':' := by
        intro hhead
        obtain ⟨tail, rfl⟩ := List.head?_eq_some_iff.mp hhead
        exact hdrive c tail rfl
      have hc : c ≠ '\\' := by
        rintro rfl
        exact hback rest rfl
      simp [hhead, hc]

/-- The path as it is canonicalised if it does not start with `\\?\`. -/
def plain (path : Path) : Path :=
  popBackslash (squeeze (rootPath (unslash path)))

theorem canonicalizeNtPath_of_plain {path : Path}
    (hne : path ≠ [])
    (h : ¬ IsExtended path) :
    canonicalizeNtPath path = plain path := by
  have hstrip : stripPrefix "\\\\?\\".toList (unslash path) = none := by
    rw [stripPrefix, if_neg fun hpre => h (List.isPrefixOf_iff_prefix.mp hpre)]
  have hempty : path.isEmpty = false := by
    simpa using hne
  rw [canonicalizeNtPath, hempty, ← unslash]
  simp only [Bool.false_eq_true, if_false, hstrip, mergeLoop_eq_squeeze (le_refl _)]
  rfl

/-- One question mark more. -/
def extend : Path → Path
  | c :: rest => c :: '?' :: rest
  | [] => []

theorem popBackslash_cons {path : Path}
    (h : path ≠ [])
    (c : Char) :
    popBackslash (c :: path) =
      c :: if path.getLast? = some '\\' then path.dropLast else path := by
  obtain ⟨d, rest, rfl⟩ := List.exists_cons_of_ne_nil h
  rw [popBackslash, List.getLast?_cons_cons, List.dropLast_cons_cons]
  split
  next hlast =>
    rw [if_pos hlast.2]
  next hlast =>
    rw [if_neg fun hback => hlast ⟨by simp, hback⟩]

theorem canonicalizeNtPath_of_extended {path : Path}
    (h : IsExtended path) :
    canonicalizeNtPath path = extend (plain path) := by
  obtain ⟨rest, hrest⟩ := h
  have hempty : path.isEmpty = false := by
    cases path with
    | nil =>
      cases hrest
    | cons c path =>
      rfl
  have hstrip : stripPrefix "\\\\?\\".toList (unslash path) = some rest := by
    rw [stripPrefix, if_pos (List.isPrefixOf_iff_prefix.mpr ⟨rest, hrest⟩), ← hrest]
    rfl
  have hne : squeeze ('\\' :: rest) ≠ [] := by
    intro hnil
    have hhead := head?_squeeze ('\\' :: rest)
    rw [hnil] at hhead
    cases hhead
  have hlong : squeeze (rootPath ("\\??\\".toList ++ rest)) =
      '\\' :: '?' :: '?' :: squeeze ('\\' :: rest) := by
    change squeeze (rootPath ('\\' :: '?' :: '?' :: '\\' :: rest)) = _
    rw [rootPath_backslash]
    simp [squeeze_cons]
  have hshort : squeeze (rootPath (unslash path)) = '\\' :: '?' :: squeeze ('\\' :: rest) := by
    rw [← hrest]
    change squeeze (rootPath ('\\' :: '\\' :: '?' :: '\\' :: rest)) = _
    rw [rootPath_backslash]
    simp [squeeze_cons]
  rw [canonicalizeNtPath, hempty, ← unslash]
  simp only [Bool.false_eq_true, if_false, hstrip, mergeLoop_eq_squeeze (le_refl _), hlong]
  rw [← popBackslash, plain, hshort, popBackslash_cons (by simp), popBackslash_cons (by simp),
    List.getLast?_cons_cons]
  split
  · rw [List.dropLast_cons_cons]
    rfl
  · rfl

/-! ## Spellings -/

/-- One difference in the spelling of a path. -/
inductive Respells : Path → Path → Prop
  | slash (front back : Path) : Respells (front ++ '/' :: back) (front ++ '\\' :: back)
  | repeated (c : Char) (front back : Path) :
    Respells (c :: front ++ '\\' :: '\\' :: back) (c :: front ++ '\\' :: back)
  | trailing (c : Char) (front : Path) : Respells (c :: front ++ ['\\']) (c :: front)

/-- The paths differ only in slashes for backslashes, in repeated separators after the first
character and in separators at the end. -/
def SameSpelling : Path → Path → Prop :=
  Relation.EqvGen Respells

/-- Any number of separators for one. -/
theorem sameSpelling_replicate
    (c : Char) (front back : Path) (n : Nat) :
    SameSpelling (c :: front ++ List.replicate (n + 1) '\\' ++ back)
      (c :: front ++ '\\' :: back) := by
  induction n with
  | zero =>
    rw [List.append_assoc]
    exact Relation.EqvGen.refl _
  | succ n ih =>
    rw [List.append_assoc] at ih ⊢
    exact Relation.EqvGen.trans _ _ _
      (Relation.EqvGen.rel _ _ (.repeated c front (List.replicate n '\\' ++ back))) ih

theorem not_isExtended {c d : Char}
    (h : unslash [d] ≠ ['\\'])
    (rest : Path) :
    ¬ IsExtended (c :: d :: rest) := by
  intro hpre
  obtain ⟨tail, htail⟩ := hpre
  have hsecond := congrArg (·[1]?) htail
  simp only [unslash, List.map_cons, List.map_nil] at hsecond h
  exact h (congrArg (fun x => [x]) (Option.some.inj hsecond).symm)

theorem lead_congr {c : Char} {left right : Path}
    (h : left.head? = some ':' ↔ right.head? = some ':') :
    lead (c :: left) = lead (c :: right) := by
  simp only [lead, h]

theorem popBackslash_squeeze_concat {path : Path}
    (h : path ≠ []) :
    popBackslash (squeeze (path ++ ['\\'])) = popBackslash (squeeze path) := by
  have hne : squeeze path ≠ [] := by
    intro hnil
    have hhead := head?_squeeze path
    rw [hnil] at hhead
    exact h (List.head?_eq_none_iff.mp hhead.symm)
  have hpos := List.length_pos_iff.mpr hne
  rw [squeeze_concat]
  split
  next =>
    rfl
  next hlast =>
    rw [popBackslash, popBackslash, getLast?_squeeze, List.getLast?_concat, List.dropLast_concat,
      List.length_append, if_pos ⟨by simpa using hpos, rfl⟩, if_neg fun hback => hlast hback.2]

theorem Respells.plain_eq {left right : Path}
    (h : Respells left right) :
    plain left = plain right := by
  cases h with
  | slash front back =>
    simp [plain, unslash]
  | repeated c front back =>
    simp only [plain, unslash, List.map_append, List.map_cons, List.cons_append, rootPath_eq,
      if_neg (show ¬ '\\' = '/' by decide)]
    generalize front.map _ = front
    generalize back.map _ = back
    rw [← List.cons_append, ← List.cons_append, ← List.append_assoc,
      ← List.append_assoc, squeeze_append, List.cons_append, List.cons_append]
    rw [lead_congr (show (front ++ '\\' :: '\\' :: back).head? = some ':' ↔
      (front ++ '\\' :: back).head? = some ':' by cases front <;> rfl)]
  | trailing c front =>
    simp only [plain, unslash, List.map_append, List.map_cons, List.map_nil, List.cons_append,
      rootPath_eq, if_neg (show ¬ '\\' = '/' by decide)]
    generalize front.map _ = front
    rw [← List.cons_append, ← List.append_assoc,
      popBackslash_squeeze_concat (by simp), List.cons_append]
    rw [lead_congr (show (front ++ ['\\']).head? = some ':' ↔ front.head? = some ':' by
      cases front <;> simp)]

theorem SameSpelling.plain_eq {left right : Path}
    (h : SameSpelling left right) :
    plain left = plain right := by
  induction h with
  | rel left right h =>
    exact h.plain_eq
  | refl =>
    rfl
  | symm _ _ _ ih =>
    exact ih.symm
  | trans _ _ _ _ _ ih₁ ih₂ =>
    exact ih₁.trans ih₂

theorem extend_ne_self {path : Path}
    (h : path ≠ []) :
    extend path ≠ path := by
  obtain ⟨c, rest, rfl⟩ := List.exists_cons_of_ne_nil h
  intro heq
  have hlength := congrArg List.length heq
  simp [extend] at hlength

/-- Two spellings get the same name if both start with `\\?\` or neither of them does. -/
theorem canonicalizeNtPath_eq_iff {left right : Path}
    (hleft : left ≠ [])
    (hright : right ≠ [])
    (h : SameSpelling left right) :
    canonicalizeNtPath left = canonicalizeNtPath right ↔ (IsExtended left ↔ IsExtended right) := by
  have hplain := h.plain_eq
  have hne : plain right ≠ extend (plain right) := by
    refine (extend_ne_self fun hnil => ?_).symm
    by_cases hext : IsExtended right
    · have hcanonical := canonicalizeNtPath_of_extended hext
      obtain ⟨rest, hrest⟩ := canonicalizeNtPath_head hright
      rw [hnil, hrest] at hcanonical
      cases hcanonical
    · have hcanonical := canonicalizeNtPath_of_plain hright hext
      obtain ⟨rest, hrest⟩ := canonicalizeNtPath_head hright
      rw [hnil, hrest] at hcanonical
      cases hcanonical
  by_cases hl : IsExtended left <;> by_cases hr : IsExtended right
  · simp [canonicalizeNtPath_of_extended, hl, hr, hplain]
  · simp [canonicalizeNtPath_of_extended hl, canonicalizeNtPath_of_plain hright hr, hl, hr, hplain,
      hne.symm]
  · simp [canonicalizeNtPath_of_plain hleft hl, canonicalizeNtPath_of_extended hr, hl, hr, hplain,
      hne]
  · simp [canonicalizeNtPath_of_plain hleft hl, canonicalizeNtPath_of_plain hright hr, hl, hr,
      hplain]

/-- **Canonical NT paths.**  The result is a normal form, and two spellings of a path have the
same one exactly if both start with `\\?\` or neither of them does. -/
theorem canonical_path_normal_form (path : Path) (h : path ≠ []) :
    (canonicalizeNtPath path).head? = some '\\' ∧
    '/' ∉ canonicalizeNtPath path ∧
    ¬ ['\\', '\\'] <:+: canonicalizeNtPath path ∧
    ((canonicalizeNtPath path).getLast? = some '\\' → canonicalizeNtPath path = ['\\']) ∧
    canonicalizeNtPath (canonicalizeNtPath path) = canonicalizeNtPath path ∧
    ∀ other ≠ [], SameSpelling path other →
      (canonicalizeNtPath path = canonicalizeNtPath other ↔
        (IsExtended path ↔ IsExtended other)) := by
  obtain ⟨rest, hrest⟩ := canonicalizeNtPath_head h
  obtain ⟨hdouble, hlast⟩ := canonicalizeNtPath_backslashes path
  refine ⟨by rw [hrest]; rfl, slash_not_mem_canonicalize path, ?_, fun hend => ?_,
    canonicalizeNtPath_idem path, fun other hother hsame => ?_⟩
  · rw [← hasDoubleBackslash_iff, hdouble]
    decide
  · cases rest with
    | nil =>
      exact hrest
    | cons c rest =>
      exact absurd hend (hlast (by rw [hrest]; simp))
  · exact canonicalizeNtPath_eq_iff h hother hsame

/-- `C:/Windows//` and `C:\Windows`. -/
theorem canonical_path_normal_form_of_drive :
    canonicalizeNtPath "C:/Windows//".toList = canonicalizeNtPath "C:\\Windows".toList := by
  have hsame : SameSpelling "C:/Windows//".toList "C:\\Windows".toList := by
    have hslash := Relation.EqvGen.rel _ _ (Respells.slash "C:".toList "Windows//".toList)
    have hlast := Relation.EqvGen.rel _ _ (Respells.slash "C:\\Windows/".toList [])
    have hlast' := Relation.EqvGen.rel _ _ (Respells.slash "C:\\Windows".toList ['\\'])
    have hrepeated := Relation.EqvGen.rel _ _ (Respells.repeated 'C' ":\\Windows".toList [])
    have htrailing := Relation.EqvGen.rel _ _ (Respells.trailing 'C' ":\\Windows".toList)
    exact (((hslash.trans _ _ _ hlast).trans _ _ _ hlast').trans _ _ _ hrepeated).trans _ _ _
      htrailing
  have hiff := (canonical_path_normal_form "C:/Windows//".toList (by decide)).2.2.2.2.2
    "C:\\Windows".toList (by decide) hsame
  exact hiff.mpr (by decide)

/-- With a separator at its end, `\\?` gets another name. -/
theorem trailing_separator_changes_name :
    SameSpelling "\\\\?\\".toList "\\\\?".toList ∧
      canonicalizeNtPath "\\\\?\\".toList = "\\??".toList ∧
      canonicalizeNtPath "\\\\?".toList = "\\?".toList := by
  exact ⟨.rel _ _ (.trailing '\\' "\\?".toList), by decide, by decide⟩

end Nt
end Kernel
end Theos
