import Theos.Kernel.Nt

/-!
# Canonical NT paths

What `canonicalize_nt_path` leaves of a path: no slashes, no two backslashes next
to each other, and none at the end.
-/

namespace Theos
namespace Kernel
namespace Nt

theorem mem_mergeBackslashes (path : Path) {c : Char}
    (h : c ∈ mergeBackslashes path) :
    c ∈ path := by
  fun_induction mergeBackslashes path with
  | case1 rest ih =>
    rcases List.mem_cons.mp h with rfl | h
    · simp
    · simp [ih h]
  | case2 d rest _ ih =>
    rcases List.mem_cons.mp h with rfl | h
    · simp
    · simp [ih h]
  | case3 =>
    cases h

theorem mem_mergeLoop (fuel : Nat) (path : Path) {c : Char}
    (h : c ∈ mergeLoop fuel path) :
    c ∈ path := by
  induction fuel generalizing path with
  | zero =>
    exact h
  | succ fuel ih =>
    rw [mergeLoop] at h
    split at h
    · exact mem_mergeBackslashes path (ih _ h)
    · exact h

theorem mem_rootPath (path : Path) {c : Char}
    (h : c ∈ rootPath path) :
    c ∈ path ∨ c ∈ "\\??\\".toList := by
  unfold rootPath at h
  split at h
  · split at h
    · rcases List.mem_append.mp h with hmem | hmem
      · exact .inr hmem
      · exact .inl hmem
    · split at h
      · exact .inl h
      · rcases List.mem_cons.mp h with rfl | hmem
        · exact .inr (by decide)
        · exact .inl hmem
  · exact .inl h
  · rcases List.mem_cons.mp h with rfl | hmem
    · exact .inr (by decide)
    · exact .inl hmem

/-- A canonical path has no slashes. -/
theorem slash_not_mem_canonicalize
    (path : Path) :
    '/' ∉ canonicalizeNtPath path := by
  have hmap : '/' ∉ path.map fun c => if c = '/' then '\\' else c := by
    intro hmem
    obtain ⟨c, -, heq⟩ := List.mem_map.mp hmem
    split at heq
    · cases heq
    · exact absurd heq ‹_›
  rw [canonicalizeNtPath]
  split
  · exact List.not_mem_nil
  · generalize path.map _ = mapped at hmap
    have hrooted : ∀ p : Path, '/' ∉ p →
        '/' ∉ (let merged := mergeLoop (rootPath p).length (rootPath p)
          if 1 < merged.length ∧ merged.getLast? = some '\\' then merged.dropLast
          else merged) := by
      intro p hp
      have hmerged : '/' ∉ mergeLoop (rootPath p).length (rootPath p) := by
        intro hmem
        rcases mem_rootPath p (mem_mergeLoop _ _ hmem) with hmem | hmem
        · exact hp hmem
        · exact absurd hmem (by decide)
      dsimp only
      split
      · exact fun hmem => hmerged (List.mem_of_mem_dropLast hmem)
      · exact hmerged
    refine hrooted _ ?_
    rw [stripPrefix]
    split
    next rest heq =>
      split at heq
      · cases heq
        intro hmem
        rcases List.mem_append.mp hmem with hmem | hmem
        · exact absurd hmem (by decide)
        · exact hmap (List.mem_of_mem_drop hmem)
      · cases heq
    next =>
      exact hmap

theorem hasDoubleBackslash_iff
    (path : Path) :
    hasDoubleBackslash path = true ↔ ['\\', '\\'] <:+: path := by
  fun_induction hasDoubleBackslash path with
  | case1 rest =>
    simp only [true_iff]
    exact ⟨[], rest, rfl⟩
  | case2 c rest hnot ih =>
    rw [ih, List.infix_cons_iff]
    constructor
    · exact .inr
    · rintro (⟨tail, heq⟩ | hmem)
      · cases heq
        exact absurd rfl (hnot tail rfl)
      · exact hmem
  | case3 =>
    simp

theorem length_mergeBackslashes_le
    (path : Path) :
    (mergeBackslashes path).length ≤ path.length := by
  fun_induction mergeBackslashes path with
  | case1 rest ih =>
    simp only [List.length_cons]
    omega
  | case2 c rest _ ih =>
    simp only [List.length_cons]
    omega
  | case3 =>
    exact Nat.le_refl _

theorem length_mergeBackslashes_lt {path : Path}
    (h : hasDoubleBackslash path = true) :
    (mergeBackslashes path).length < path.length := by
  fun_induction hasDoubleBackslash path with
  | case1 rest =>
    have hle := length_mergeBackslashes_le rest
    simp only [mergeBackslashes, List.length_cons]
    omega
  | case2 c rest hnot ih =>
    have hlt := ih h
    rw [mergeBackslashes.eq_def]
    split
    next heq =>
      obtain ⟨rfl, rfl⟩ := List.cons.inj heq
      exact absurd rfl (hnot _ rfl)
    next heq =>
      obtain ⟨rfl, rfl⟩ := List.cons.inj heq
      simpa using hlt
    next heq =>
      cases heq
  | case3 =>
    cases h

theorem hasDoubleBackslash_mergeLoop {fuel : Nat} {path : Path}
    (h : path.length ≤ fuel) :
    hasDoubleBackslash (mergeLoop fuel path) = false := by
  induction fuel generalizing path with
  | zero =>
    rw [List.length_eq_zero_iff.mp (Nat.le_zero.mp h)]
    rfl
  | succ fuel ih =>
    rw [mergeLoop]
    split
    next hdouble =>
      have hlt := length_mergeBackslashes_lt hdouble
      exact ih (by omega)
    next hdouble =>
      simpa using hdouble

/-- A canonical path has no two backslashes next to each other, and ends in none. -/
theorem canonicalizeNtPath_backslashes
    (path : Path) :
    hasDoubleBackslash (canonicalizeNtPath path) = false ∧
      (1 < (canonicalizeNtPath path).length →
        (canonicalizeNtPath path).getLast? ≠ some '\\') := by
  rw [canonicalizeNtPath]
  split
  · exact ⟨rfl, fun h => absurd h (by decide)⟩
  · dsimp only
    generalize rootPath _ = rooted
    have hmerged := hasDoubleBackslash_mergeLoop (Nat.le_refl rooted.length)
    generalize mergeLoop rooted.length rooted = merged at hmerged
    split
    next hlast =>
      have hparts := List.dropLast_append_getLast? '\\' hlast.2
      constructor
      · rw [← Bool.not_eq_true, hasDoubleBackslash_iff] at hmerged ⊢
        exact fun hmem => hmerged (hmem.trans (List.dropLast_prefix merged).isInfix)
      · intro _ hend
        rw [← Bool.not_eq_true, hasDoubleBackslash_iff] at hmerged
        have hinit := List.dropLast_append_getLast? '\\' hend
        refine hmerged ⟨merged.dropLast.dropLast, [], ?_⟩
        rw [List.append_nil]
        conv_rhs => rw [← hparts, ← hinit]
        simp
    next hlast =>
      exact ⟨hmerged, fun hlong hend => hlast ⟨hlong, hend⟩⟩

theorem hasDoubleBackslash_append {name : Path} (h : '\\' ∉ name)
    (path : Path) :
    hasDoubleBackslash (name ++ path) = hasDoubleBackslash path := by
  induction name with
  | nil =>
    rfl
  | cons c name ih =>
    rw [List.mem_cons, not_or] at h
    rw [List.cons_append, hasDoubleBackslash.eq_def]
    split
    next heq =>
      exact absurd (List.cons.inj heq).1.symm h.1
    next heq =>
      rw [← (List.cons.inj heq).2]
      exact ih h.2
    next heq =>
      cases heq

theorem rootPath_backslash
    (rest : Path) :
    rootPath ('\\' :: rest) = '\\' :: rest := by
  rw [rootPath.eq_def]
  split
  next c rest' heq =>
    obtain ⟨rfl, rfl⟩ := List.cons.inj heq
    rw [if_neg (by decide), if_pos rfl]
  next heq =>
    exact heq.symm
  next hnot =>
    exact absurd rfl (hnot rest)

theorem mergeLoop_of_not_double {path : Path} (h : hasDoubleBackslash path = false)
    (fuel : Nat) :
    mergeLoop fuel path = path := by
  cases fuel with
  | zero =>
    rfl
  | succ fuel =>
    rw [mergeLoop, h]
    rfl

/-- A path that is canonical already stays as it is. -/
theorem canonicalizeNtPath_eq_self {path rest : Path} (hhead : path = '\\' :: rest)
    (hslash : '/' ∉ path) (hdouble : hasDoubleBackslash path = false)
    (hlast : 1 < path.length → path.getLast? ≠ some '\\') :
    canonicalizeNtPath path = path := by
  have hmap : (path.map fun c => if c = '/' then '\\' else c) = path := by
    conv_rhs => rw [← List.map_id path]
    refine List.map_congr_left fun c hc => ?_
    have hne : c ≠ '/' := fun he => hslash (he ▸ hc)
    simp [hne]
  have hstrip : stripPrefix "\\\\?\\".toList path = none := by
    rw [stripPrefix, if_neg]
    intro hprefix
    have hinfix : ['\\', '\\'] <:+: path :=
      (show ['\\', '\\'] <+: "\\\\?\\".toList from ⟨['?', '\\'], rfl⟩).isInfix.trans
        (List.isPrefixOf_iff_prefix.mp hprefix).isInfix
    rw [← hasDoubleBackslash_iff, hdouble] at hinfix
    cases hinfix
  have hroot : rootPath path = path := by
    rw [hhead]
    exact rootPath_backslash rest
  have hempty : path.isEmpty = false := by
    rw [hhead]
    rfl
  rw [canonicalizeNtPath, hempty]
  simp only [Bool.false_eq_true, if_false, hmap, hstrip, hroot, mergeLoop_of_not_double hdouble]
  rw [if_neg fun h => hlast h.1 h.2]

theorem rootPath_head
    (path : Path) :
    ∃ rest, rootPath path = '\\' :: rest := by
  unfold rootPath
  split
  · split
    · exact ⟨_, rfl⟩
    · split
      next h =>
        exact ⟨_, by rw [h]⟩
      next =>
        exact ⟨_, rfl⟩
  · exact ⟨_, rfl⟩
  · exact ⟨_, rfl⟩

theorem mergeLoop_head
    (fuel : Nat) (rest : Path) :
    ∃ rest', mergeLoop fuel ('\\' :: rest) = '\\' :: rest' := by
  induction fuel generalizing rest with
  | zero =>
    exact ⟨rest, rfl⟩
  | succ fuel ih =>
    rw [mergeLoop]
    split
    · have hmerge : ∃ rest', mergeBackslashes ('\\' :: rest) = '\\' :: rest' := by
        rw [mergeBackslashes.eq_def]
        split
        · exact ⟨_, rfl⟩
        next heq =>
          rw [← (List.cons.inj heq).1]
          exact ⟨_, rfl⟩
        next heq =>
          cases heq
      obtain ⟨merged, hmerged⟩ := hmerge
      rw [hmerged]
      exact ih merged
    · exact ⟨rest, rfl⟩

theorem canonicalizeNtPath_head {path : Path}
    (h : path ≠ []) :
    ∃ rest, canonicalizeNtPath path = '\\' :: rest := by
  have hempty : path.isEmpty = false := by
    simpa using h
  rw [canonicalizeNtPath, hempty]
  dsimp only
  rw [if_neg (by decide)]
  generalize hrooted : rootPath _ = rooted
  obtain ⟨rest, rfl⟩ : ∃ rest, rooted = '\\' :: rest := by
    rw [← hrooted]
    exact rootPath_head _
  obtain ⟨merged, hmerged⟩ := mergeLoop_head ('\\' :: rest).length rest
  rw [hmerged]
  split
  next hlong =>
    cases merged with
    | nil =>
      exact absurd hlong.1 (by simp)
    | cons c merged =>
      exact ⟨_, rfl⟩
  next =>
    exact ⟨_, rfl⟩

/-- A canonical path is its own canonical path. -/
theorem canonicalizeNtPath_idem
    (path : Path) :
    canonicalizeNtPath (canonicalizeNtPath path) = canonicalizeNtPath path := by
  by_cases h : path = []
  · rw [h]
    rfl
  · obtain ⟨rest, hrest⟩ := canonicalizeNtPath_head h
    obtain ⟨hdouble, hlast⟩ := canonicalizeNtPath_backslashes path
    exact canonicalizeNtPath_eq_self hrest (slash_not_mem_canonicalize path) hdouble hlast

end Nt
end Kernel
end Theos
