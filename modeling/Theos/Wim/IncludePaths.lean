import Mathlib.Data.List.DropRight
import Theos.Wim.Pruning

/-!
# How the paths to extract are spelled

`normalize_include_path` brings the paths a user asks for into the form that
`normalize_relative_path` gives the path of an entry.  It takes separators off both
ends first, and these are only slashes; backslashes become slashes after that.  So a
spelling is understood exactly if the separators around the names are slashes
(`spelling_understood_iff`); with a backslash at an end the text starts or ends with a
slash, names no entry, and is changed again when it is normalized again.

Of the names in the middle, `.` is the one that `Path::components` leaves out.
-/

namespace Theos
namespace Wim

open Base UnixPath

/-! ## The code -/

/-- `trim_matches('/')`. -/
def trimMatches (text : Text) : Text :=
  (text.dropWhile (· = '/')).rdropWhile (· = '/')

/-- `replace('\\', "/")`. -/
def toSlashes (text : Text) : Text :=
  text.map fun c => if c = '\\' then '/' else c

def normalizeIncludePath (path : Text) : Text :=
  lower (toSlashes (trimMatches path))

/-! ## Entries and their spellings -/

def IsSeparator (c : Char) : Prop :=
  c = '/' ∨ c = '\\'

/-- The name of an entry. -/
structure EntryName (name : Text) : Prop where
  ne_nil : name ≠ []
  no_separator : ∀ c ∈ name, ¬IsSeparator c

/-- The names that lead to an entry. -/
structure EntryNames where
  first : Text
  rest : List Text
  first_name : EntryName first
  rest_names : ∀ name ∈ rest, EntryName name

namespace EntryNames

def names (entry : EntryNames) : List Text :=
  entry.first :: entry.rest

/-- The path of the entry in the image. -/
def path (entry : EntryNames) : Text :=
  joinAll [] entry.names

end EntryNames

/-- Names, each but the first behind a separator. -/
def spelled (first : Text) (rest : List (Char × Text)) : Text :=
  first ++ rest.flatMap fun part => part.1 :: part.2

/-- A way to write the path of an entry: its names in any case, a separator before each but
the first, and any separators at the two ends. -/
structure Spelling (entry : EntryNames) where
  lead : Text
  first : Text
  rest : List (Char × Text)
  trail : Text
  lead_separators : ∀ c ∈ lead, IsSeparator c
  trail_separators : ∀ c ∈ trail, IsSeparator c
  rest_separators : ∀ part ∈ rest, IsSeparator part.1
  first_eq : lower first = lower entry.first
  rest_eq : rest.map (fun part => lower part.2) = entry.rest.map lower

namespace Spelling

variable {entry : EntryNames}

/-- The names with the separators between them. -/
def body (s : Spelling entry) : Text :=
  spelled s.first s.rest

/-- What the user writes. -/
def text (s : Spelling entry) : Text :=
  s.lead ++ (s.body ++ s.trail)

/-- Only slashes at the ends. -/
def PlainEnds (s : Spelling entry) : Prop :=
  (∀ c ∈ s.lead, c = '/') ∧ ∀ c ∈ s.trail, c = '/'

end Spelling

/-- The names with slashes between them. -/
def EntryNames.plain (entry : EntryNames) : Text :=
  List.intercalate ['/'] entry.names

/-- The entry has no `.` behind its first name. -/
def EntryNames.NoDot (entry : EntryNames) : Prop :=
  ∀ name ∈ entry.rest, name ≠ ['.']

/-- The spelling is normalized once and for all, to what the plain spelling is normalized to,
and selects the entry and those that differ from it in their case only. -/
structure Understood {entry : EntryNames} (s : Spelling entry) : Prop where
  idempotent : normalizeIncludePath (normalizeIncludePath s.text) = normalizeIncludePath s.text
  same : normalizeIncludePath s.text = normalizeIncludePath entry.plain
  relative : normalizeIncludePath s.text = normalizeRelativePath entry.path
  selects : ∀ path, shouldExtract path (some [normalizeIncludePath s.text]) = true ↔
    normalizeRelativePath path = normalizeRelativePath entry.path

/-! ## Case -/

theorem toLower_separator {c : Char}
    (h : IsSeparator c) :
    c.toLower = c := by
  rcases h with rfl | rfl <;> rfl

theorem separator_of_toLower {c : Char}
    (h : IsSeparator c.toLower) :
    IsSeparator c := by
  rcases h with h | h
  · exact .inl ((toLower_eq_iff (d := '/') (by decide) c).mp h)
  · exact .inr ((toLower_eq_iff (d := '\\') (by decide) c).mp h)

theorem lower_lower
    (text : Text) :
    lower (lower text) = lower text := by
  simp only [lower, List.map_map, Function.comp_def, toLower_toLower]

theorem EntryName.of_lower_eq {name other : Text} (h : EntryName name)
    (heq : lower other = lower name) :
    EntryName other := by
  constructor
  · rintro rfl
    exact h.ne_nil (List.map_eq_nil_iff.mp heq.symm)
  · intro c hc hsep
    have hlower : c.toLower ∈ lower name := heq ▸ List.mem_map_of_mem hc
    obtain ⟨d, hd, hdc⟩ := List.mem_map.mp hlower
    rw [toLower_separator hsep] at hdc
    exact h.no_separator d hd (separator_of_toLower (hdc ▸ hsep))

theorem EntryName.lower {name : Text}
    (h : EntryName name) :
    EntryName (Wim.lower name) :=
  h.of_lower_eq (lower_lower name)

/-! ## Trimming -/

/-- A text that neither starts nor ends with a separator. -/
structure Bare (text : Text) : Prop where
  ne_nil : text ≠ []
  head : ∀ c, text.head? = some c → ¬IsSeparator c
  last : ∀ c, text.getLast? = some c → ¬IsSeparator c

theorem EntryName.bare {name : Text}
    (h : EntryName name) :
    Bare name :=
  ⟨h.ne_nil, fun c hc => h.no_separator c (List.mem_of_mem_head? hc),
    fun c hc => h.no_separator c (List.mem_of_mem_getLast? hc)⟩

theorem spelled_cons
    (first : Text) (part : Char × Text) (rest : List (Char × Text)) :
    spelled first (part :: rest) = first ++ part.1 :: spelled part.2 rest := by
  simp [spelled]

theorem bare_spelled {first : Text} {rest : List (Char × Text)}
    (hfirst : EntryName first)
    (hrest : ∀ part ∈ rest, EntryName part.2) :
    Bare (spelled first rest) := by
  induction rest generalizing first with
  | nil =>
    simpa [spelled] using hfirst.bare
  | cons part rest ih =>
    obtain ⟨hpart, hrest⟩ := List.forall_mem_cons.mp hrest
    have hbehind := ih hpart hrest
    rw [spelled_cons]
    refine ⟨by simp, fun c hc => ?_, fun c hc => ?_⟩
    · rw [List.head?_append_of_ne_nil _ hfirst.ne_nil] at hc
      exact hfirst.bare.head c hc
    · rw [List.getLast?_append_of_ne_nil _ (by simp),
        List.getLast?_cons_of_ne_nil hbehind.ne_nil] at hc
      exact hbehind.last c hc

theorem dropWhile_append_of_bare {lead text : Text}
    (h : ∀ c, text.head? = some c → c ≠ '/') :
    (lead ++ text).dropWhile (· = '/') = lead.dropWhile (· = '/') ++ text := by
  have htext : text.dropWhile (· = '/') = text := by
    cases text with
    | nil =>
      rfl
    | cons c text =>
      rw [List.dropWhile_cons_of_neg (by simpa using h c rfl)]
  rw [List.dropWhile_append, htext]
  split
  next hnil =>
    rw [List.isEmpty_iff.mp hnil, List.nil_append]
  next =>
    rfl

theorem rdropWhile_append_of_bare {text trail : Text}
    (h : ∀ c, text.getLast? = some c → c ≠ '/') :
    (text ++ trail).rdropWhile (· = '/') = text ++ trail.rdropWhile (· = '/') := by
  rw [List.rdropWhile, List.reverse_append, dropWhile_append_of_bare (by simpa using h),
    List.reverse_append, List.reverse_reverse, List.rdropWhile]

/-- Only the slashes at the very ends are taken off. -/
theorem trimMatches_of_bare {lead text trail : Text}
    (h : Bare text) :
    trimMatches (lead ++ (text ++ trail)) =
      lead.dropWhile (· = '/') ++ (text ++ trail.rdropWhile (· = '/')) := by
  have hhead : ∀ c, (text ++ trail).head? = some c → c ≠ '/' := by
    intro c hc hslash
    rw [List.head?_append_of_ne_nil _ h.ne_nil] at hc
    exact h.head c hc (.inl hslash)
  have hlast : ∀ c, (lead.dropWhile (· = '/') ++ text).getLast? = some c → c ≠ '/' := by
    intro c hc hslash
    rw [List.getLast?_append_of_ne_nil _ h.ne_nil] at hc
    exact h.last c hc (.inl hslash)
  rw [trimMatches, dropWhile_append_of_bare hhead, ← List.append_assoc,
    rdropWhile_append_of_bare hlast, List.append_assoc]

theorem trimMatches_bare {text : Text}
    (h : Bare text) :
    trimMatches text = text := by
  have htrim : trimMatches ([] ++ (text ++ [])) = [] ++ (text ++ []) := trimMatches_of_bare h
  simpa using htrim

/-! ## The normal form -/

theorem toSlashes_of_name {name : Text}
    (h : EntryName name) :
    toSlashes name = name := by
  rw [toSlashes]
  refine (List.map_congr_left fun c hc => ?_).trans (List.map_id _)
  exact if_neg fun hback => h.no_separator c hc (.inr hback)

theorem toSlashes_append
    (a b : Text) :
    toSlashes (a ++ b) = toSlashes a ++ toSlashes b :=
  List.map_append

/-- Separators become slashes. -/
theorem lower_toSlashes_of_separators {text : Text}
    (h : ∀ c ∈ text, IsSeparator c) :
    lower (toSlashes text) = List.replicate text.length '/' := by
  induction text with
  | nil =>
    rfl
  | cons c text ih =>
    obtain ⟨hc, htext⟩ := List.forall_mem_cons.mp h
    rw [List.length_cons, List.replicate_succ, ← ih htext]
    rcases hc with rfl | rfl <;> rfl

theorem toSlashes_spelled {first : Text} {rest : List (Char × Text)}
    (hfirst : EntryName first)
    (hrest : ∀ part ∈ rest, EntryName part.2)
    (hseparators : ∀ part ∈ rest, IsSeparator part.1) :
    toSlashes (spelled first rest) = spelled first (rest.map fun part => ('/', part.2)) := by
  induction rest generalizing first with
  | nil =>
    simpa [spelled] using toSlashes_of_name hfirst
  | cons part rest ih =>
    obtain ⟨hpart, hrest⟩ := List.forall_mem_cons.mp hrest
    obtain ⟨hsep, hseparators⟩ := List.forall_mem_cons.mp hseparators
    have hslash : toSlashes (part.1 :: spelled part.2 rest) =
        '/' :: toSlashes (spelled part.2 rest) := by
      rcases hsep with h | h <;> simp [toSlashes, h]
    rw [spelled_cons, toSlashes_append, toSlashes_of_name hfirst, hslash, ih hpart hrest
      hseparators, List.map_cons, spelled_cons]

theorem lower_spelled
    (first : Text) (rest : List (Char × Text)) :
    lower (spelled first rest) =
      spelled (lower first) (rest.map fun part => (part.1.toLower, lower part.2)) := by
  induction rest generalizing first with
  | nil =>
    simp [spelled]
  | cons part rest ih =>
    rw [spelled_cons, lower_append, List.map_cons, spelled_cons, ← ih]
    rfl

/-- Some names in lower case, with slashes between them. -/
def lowered (first : Text) (rest : List Text) : Text :=
  spelled (lower first) (rest.map fun name => ('/', lower name))

theorem intercalate_eq_spelled
    (first : Text) (rest : List Text) :
    List.intercalate ['/'] (first :: rest) = spelled first (rest.map fun name => ('/', name)) := by
  induction rest generalizing first with
  | nil =>
    simp [spelled]
  | cons name rest ih =>
    rw [List.intercalate_cons_cons, ih, List.map_cons, spelled_cons, List.append_assoc]
    rfl

theorem lower_intercalate
    (first : Text) (rest : List Text) :
    lower (List.intercalate ['/'] (first :: rest)) = lowered first rest := by
  rw [intercalate_eq_spelled, lower_spelled, lowered, List.map_map]
  rfl

theorem bare_lowered {first : Text} {rest : List Text}
    (hfirst : EntryName first)
    (hrest : ∀ name ∈ rest, EntryName name) :
    Bare (lowered first rest) := by
  refine bare_spelled hfirst.lower fun part hpart => ?_
  obtain ⟨name, hname, rfl⟩ := List.mem_map.mp hpart
  exact (hrest name hname).lower

/-- What is normalized stays as it is when the slashes at its ends are gone. -/
theorem normalize_lowered {first : Text} {rest : List Text} (hfirst : EntryName first)
    (hrest : ∀ name ∈ rest, EntryName name) (i j : Nat) :
    normalizeIncludePath
        (List.replicate i '/' ++ (lowered first rest ++ List.replicate j '/')) =
      lowered first rest := by
  have hnames : ∀ part ∈ rest.map fun name => ('/', lower name), EntryName part.2 := by
    intro part hpart
    obtain ⟨name, hname, rfl⟩ := List.mem_map.mp hpart
    exact (hrest name hname).lower
  have hslashes : ∀ part ∈ rest.map fun name => ('/', lower name), IsSeparator part.1 := by
    intro part hpart
    obtain ⟨name, -, rfl⟩ := List.mem_map.mp hpart
    exact .inl rfl
  have hlead : (List.replicate i '/').dropWhile (· = '/') = [] :=
    List.dropWhile_eq_nil_iff.mpr fun c hc => by simp [List.eq_of_mem_replicate hc]
  have htrail : (List.replicate j '/').rdropWhile (· = '/') = [] :=
    List.rdropWhile_eq_nil_iff.mpr fun c hc => by simp [List.eq_of_mem_replicate hc]
  rw [normalizeIncludePath, trimMatches_of_bare (bare_lowered hfirst hrest), hlead, htrail,
    List.nil_append, List.append_nil, lowered, toSlashes_spelled hfirst.lower hnames hslashes,
    lower_spelled, lower_lower, List.map_map, List.map_map]
  congr 1
  refine List.map_congr_left fun name _ => ?_
  show (('/' : Char).toLower, lower (lower name)) = ('/', lower name)
  rw [lower_lower]
  rfl

namespace Spelling

variable {entry : EntryNames} (s : Spelling entry)

theorem first_name :
    EntryName s.first :=
  entry.first_name.of_lower_eq s.first_eq

theorem rest_names :
    ∀ part ∈ s.rest, EntryName part.2 := by
  intro part hpart
  have hmem : lower part.2 ∈ entry.rest.map lower :=
    s.rest_eq ▸ List.mem_map_of_mem (f := fun part : Char × Text => lower part.2) hpart
  obtain ⟨name, hname, heq⟩ := List.mem_map.mp hmem
  exact (entry.rest_names name hname).of_lower_eq heq.symm

/-- The separators that are left at the two ends. -/
def leftAtStart : Nat :=
  (s.lead.dropWhile (· = '/')).length

def leftAtEnd : Nat :=
  (s.trail.rdropWhile (· = '/')).length

theorem plainEnds_iff :
    s.PlainEnds ↔ s.leftAtStart = 0 ∧ s.leftAtEnd = 0 := by
  simp [PlainEnds, leftAtStart, leftAtEnd]

theorem lower_toSlashes_body :
    lower (toSlashes s.body) = lowered entry.first entry.rest := by
  rw [body, toSlashes_spelled s.first_name s.rest_names s.rest_separators, lower_spelled,
    List.map_map, s.first_eq, lowered]
  congr 1
  have hrest : (s.rest.map fun part => lower part.2).map (fun name => ('/', name)) =
      (entry.rest.map lower).map fun name => ('/', name) := by
    rw [s.rest_eq]
  rw [List.map_map, List.map_map] at hrest
  exact hrest

/-- A spelling is normalized to the names in lower case, between the separators that were not
taken off. -/
theorem normalize_text :
    normalizeIncludePath s.text = List.replicate s.leftAtStart '/' ++
      (lowered entry.first entry.rest ++ List.replicate s.leftAtEnd '/') := by
  have hlead : ∀ c ∈ s.lead.dropWhile (· = '/'), IsSeparator c := fun c hc =>
    s.lead_separators c ((List.dropWhile_suffix _).subset hc)
  have htrail : ∀ c ∈ s.trail.rdropWhile (· = '/'), IsSeparator c := fun c hc =>
    s.trail_separators c ((List.rdropWhile_prefix _ _).subset hc)
  have hbody : Bare s.body := bare_spelled s.first_name s.rest_names
  rw [normalizeIncludePath, text, trimMatches_of_bare hbody, toSlashes_append, toSlashes_append,
    lower_append, lower_append, lower_toSlashes_of_separators hlead,
    lower_toSlashes_of_separators htrail, s.lower_toSlashes_body]
  rfl

end Spelling

/-! ## The path of an entry -/

namespace EntryNames

variable (entry : EntryNames)

theorem normalize_plain :
    normalizeIncludePath entry.plain = lowered entry.first entry.rest := by
  have hnames : ∀ part ∈ entry.rest.map fun name => ('/', name), EntryName part.2 := by
    intro part hpart
    obtain ⟨name, hname, rfl⟩ := List.mem_map.mp hpart
    exact entry.rest_names name hname
  have hslashes : ∀ part ∈ entry.rest.map fun name => ('/', name), IsSeparator part.1 := by
    intro part hpart
    obtain ⟨name, -, rfl⟩ := List.mem_map.mp hpart
    exact .inl rfl
  rw [normalizeIncludePath, plain, names, intercalate_eq_spelled,
    trimMatches_bare (bare_spelled entry.first_name hnames),
    toSlashes_spelled entry.first_name hnames hslashes, List.map_map]
  rw [← lower_intercalate, intercalate_eq_spelled]
  rfl

/-- The names that are components of the path. -/
def kept : List Text :=
  entry.rest.filter (· ≠ ['.'])

theorem kept_names :
    ∀ name ∈ entry.kept, EntryName name :=
  fun name hname => entry.rest_names name (List.mem_of_mem_filter hname)

theorem noDot_iff :
    entry.NoDot ↔ entry.kept = entry.rest := by
  simp [NoDot, kept, List.filter_eq_self]

end EntryNames

theorem EntryName.isAbsolute {name : Text}
    (h : EntryName name) :
    isAbsolute name = false := by
  cases name with
  | nil =>
    rfl
  | cons c name =>
    have hc : c ≠ '/' := fun hc => h.no_separator c (List.mem_cons_self ..) (.inl hc)
    simp [UnixPath.isAbsolute, hc]

theorem EntryName.splitOn {name : Text}
    (h : EntryName name) :
    name.splitOn '/' = [name] :=
  List.splitOn_eq_singleton fun hslash => h.no_separator '/' hslash (.inl rfl)

/-- A name is one component, if it is not `.`. -/
theorem EntryName.pieces_text {name : Text}
    (h : EntryName name) :
    (pieces name).map Component.text = if name = ['.'] then [] else [name] := by
  rw [pieces, h.splitOn]
  split
  next hdot =>
    rw [hdot]
    rfl
  next hdot =>
    have hpiece : ∃ c, piece name = some c ∧ c.text = name := by
      unfold piece
      split
      next => exact absurd rfl h.ne_nil
      next => exact absurd rfl hdot
      next => exact ⟨_, rfl, rfl⟩
      next => exact ⟨_, rfl, rfl⟩
    obtain ⟨c, hc, htext⟩ := hpiece
    rw [List.filterMap_cons_some hc, List.filterMap_nil, List.map_singleton, htext]

theorem EntryName.components_text {name : Text}
    (h : EntryName name) :
    (components name).map Component.text = [name] := by
  rw [components, leading, h.isAbsolute, if_neg Bool.false_ne_true, List.map_append,
    h.pieces_text, h.splitOn]
  by_cases hdot : name = ['.']
  · rw [if_pos (by rw [hdot]; rfl), if_pos hdot, hdot]
    rfl
  · rw [if_neg (by simpa using hdot), if_neg hdot]
    rfl

theorem texts_of_pieces {names : List Text}
    (h : ∀ name ∈ names, EntryName name) :
    (names.flatMap pieces).map Component.text = names.filter (· ≠ ['.']) := by
  induction names with
  | nil =>
    rfl
  | cons name names ih =>
    obtain ⟨hname, hnames⟩ := List.forall_mem_cons.mp h
    rw [List.flatMap_cons, List.map_append, hname.pieces_text, ih hnames, List.filter_cons]
    by_cases hdot : name = ['.']
    · simp [hdot]
    · simp [hdot]

theorem EntryNames.normalize_path
    (entry : EntryNames) :
    normalizeRelativePath entry.path = lowered entry.first entry.kept := by
  have hrest : ∀ name ∈ entry.rest, isAbsolute name = false :=
    fun name hname => (entry.rest_names name hname).isAbsolute
  have hfirst : entry.path = joinAll entry.first entry.rest := by
    rw [path, names, joinAll, List.foldl_cons, join, entry.first_name.isAbsolute]
    rfl
  rw [normalizeRelativePath, hfirst, components_joinAll hrest entry.first_name.ne_nil,
    List.map_append, entry.first_name.components_text, texts_of_pieces entry.rest_names,
    List.singleton_append, lower_intercalate, kept]

/-! ## The spellings that are understood -/

/-- There is a slash for each name behind the first one. -/
theorem count_slash_lowered {first : Text} {rest : List Text} (hfirst : EntryName first)
    (hrest : ∀ name ∈ rest, EntryName name) :
    (lowered first rest).count '/' = rest.length := by
  have hnone : ∀ {name : Text}, EntryName name → (lower name).count '/' = 0 := fun h =>
    List.count_eq_zero.mpr fun hslash => h.lower.no_separator '/' hslash (.inl rfl)
  induction rest generalizing first with
  | nil =>
    simpa [lowered, spelled] using hnone hfirst
  | cons name rest ih =>
    obtain ⟨hname, hrest⟩ := List.forall_mem_cons.mp hrest
    have hbehind := ih hname hrest
    rw [lowered] at hbehind
    rw [lowered, List.map_cons, spelled_cons, List.count_append, hnone hfirst,
      List.count_cons_self, hbehind, List.length_cons, Nat.zero_add]

/-- A spelling is understood exactly if the separators at its ends are slashes, and the entry has
no `.` among its later names. -/
theorem spelling_understood_iff {entry : EntryNames} (s : Spelling entry) :
    Understood s ↔ s.PlainEnds ∧ entry.NoDot := by
  rw [s.plainEnds_iff, entry.noDot_iff]
  constructor
  · intro h
    have hsame := h.same
    have hrelative := h.relative
    rw [s.normalize_text, entry.normalize_plain] at hsame
    have hlength := congrArg List.length hsame
    simp only [List.length_append, List.length_replicate] at hlength
    rw [s.normalize_text, hsame, entry.normalize_path] at hrelative
    have hcount := congrArg (List.count '/') hrelative
    rw [count_slash_lowered entry.first_name entry.rest_names,
      count_slash_lowered entry.first_name entry.kept_names] at hcount
    refine ⟨by omega, ?_⟩
    exact List.filter_eq_self.mpr (List.length_filter_eq_length_iff.mp hcount.symm)
  · rintro ⟨⟨hstart, hend⟩, hkept⟩
    have htext : normalizeIncludePath s.text = lowered entry.first entry.rest := by
      rw [s.normalize_text, hstart, hend]
      simp
    have hrelative : normalizeRelativePath entry.path = lowered entry.first entry.rest := by
      rw [entry.normalize_path, hkept]
    have hagain := normalize_lowered entry.first_name entry.rest_names 0 0
    simp only [List.replicate_zero, List.nil_append, List.append_nil] at hagain
    refine ⟨by rw [htext, hagain], by rw [htext, entry.normalize_plain],
      by rw [htext, hrelative], fun path => ?_⟩
    simp [shouldExtract, htext, hrelative, eq_comm]

/-- The file `b` of the directory `a`, written as `/A\b/`. -/
def mixedAB : Spelling ⟨['a'], [['b']], ⟨by decide, by simp [IsSeparator]⟩,
    List.forall_mem_singleton.mpr ⟨by decide, by simp [IsSeparator]⟩⟩ where
  lead := ['/']
  first := ['A']
  rest := [('\\', ['b'])]
  trail := ['/']
  lead_separators := by simp [IsSeparator]
  trail_separators := by simp [IsSeparator]
  rest_separators := by simp [IsSeparator]
  first_eq := rfl
  rest_eq := rfl

theorem spelling_understood_mixed :
    mixedAB.text = ['/', 'A', '\\', 'b', '/'] ∧ Understood mixedAB :=
  ⟨rfl, (spelling_understood_iff mixedAB).mpr
    ⟨by simp [Spelling.PlainEnds, mixedAB], by simp [EntryNames.NoDot]⟩⟩

/-- The file `a`, and a backslash before its name. -/
def backslashA : Spelling ⟨['a'], [], ⟨by decide, by simp [IsSeparator]⟩, by simp⟩ where
  lead := ['\\']
  first := ['a']
  rest := []
  trail := []
  lead_separators := by simp [IsSeparator]
  trail_separators := by simp
  rest_separators := by simp
  first_eq := rfl
  rest_eq := rfl

/-- A backslash at the start becomes a slash that is not taken off. -/
theorem leading_backslash_not_understood :
    normalizeIncludePath backslashA.text = ['/', 'a'] ∧
      normalizeIncludePath (normalizeIncludePath backslashA.text) = ['a'] ∧
      shouldExtract ['a'] (some [normalizeIncludePath backslashA.text]) = false := by
  decide

end Wim
end Theos
