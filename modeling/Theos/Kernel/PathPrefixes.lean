import Mathlib.Data.List.TakeWhile
import Theos.Base.Text
import Theos.Kernel.NamespaceShadowing
import Theos.Kernel.NtPaths

/-!
# Prefixes of paths

`resolve_nt_path` cuts the name of the device off a resolved path, and
`system_hive_subkey` the name of the hive off a key.  Both compare characters:
they do not ask whether the name ends where a component of the path ends.

A link is followed with whole components behind it.  As long as the targets of the links do not
end inside the name of the device or above it, no link leads to a path in which the name ends
inside a component: only the path that was asked for can be one.

`nt_path_from_vfs_path` goes the other way, for the files of one directory.  It
keeps the last component only, so that a file further below is taken for one of
the directory itself.
-/

namespace Theos
namespace Kernel
namespace Handles

open Nt

/-! ## Names that end inside a component -/

/-- The path is `name`, or has it as its first components. -/
def AtOrBelow (name path : Path) : Prop :=
  path = name ∨ Above name path

instance (name path : Path) : Decidable (AtOrBelow name path) :=
  inferInstanceAs (Decidable (_ ∨ _))

/-- The path starts with the characters of `name`, but `name` ends inside a component of it. -/
def EndsInside (name path : Path) : Prop :=
  name <+: path ∧ ¬AtOrBelow name path

instance (name path : Path) : Decidable (EndsInside name path) :=
  inferInstanceAs (Decidable (_ ∧ _))

def deviceName : Path :=
  "\\Device\\Crabfs0".toList

def systemKey : Path :=
  "\\registry\\machine\\system".toList

theorem atOrBelow_iff {name path : Path} (h : name <+: path) :
    AtOrBelow name path ↔ ¬EndsInside name path := by
  rw [EndsInside, not_and_not_right]
  exact ⟨fun hat _ => hat, fun hat => hat h⟩

/-- The paths that lead to the file system, by their characters. -/
theorem resolveNtPath_eq_ok_iff
    (m : ObjectManager) (path : Path) :
    (∃ result, m.resolveNtPath path = .ok result) ↔
      canonicalizeNtPath path ≠ [] ∧
        ∃ resolved, m.resolveNamedPath 17 (canonicalizeNtPath path) = .ok resolved ∧
          deviceName <+: resolved := by
  rw [ObjectManager.resolveNtPath]
  by_cases hempty : canonicalizeNtPath path = []
  · simp [hempty]
  · simp only [List.isEmpty_iff, if_neg hempty]
    rcases hresolved : m.resolveNamedPath 17 (canonicalizeNtPath path) with status | resolved
    · simp
    · simp only [stripPrefix, List.isPrefixOf_iff_prefix]
      by_cases hdevice : "\\Device\\Crabfs0".toList <+: resolved
      · simp only [if_pos hdevice]
        refine iff_of_true ?_ ⟨hempty, resolved, rfl, hdevice⟩
        split <;> exact ⟨_, rfl⟩
      · simp only [if_neg hdevice]
        refine iff_of_false (by simp) ?_
        rintro ⟨-, _, ⟨⟩, h⟩
        exact hdevice h

theorem systemHiveSubkey_isSome_iff
    (path : Path) :
    (∃ subkey, systemHiveSubkey path = some subkey) ↔
      systemKey <+: (canonicalizeNtPath path).map Char.toLower := by
  rw [systemHiveSubkey]
  simp only [List.isPrefixOf_iff_prefix]
  by_cases h : "\\registry\\machine\\system".toList <+: (canonicalizeNtPath path).map Char.toLower
  · rw [if_pos h]
    exact iff_of_true ⟨_, rfl⟩ h
  · rw [if_neg h]
    exact iff_of_false (by simp) h

/-! ## Links -/

/-- What can stand behind the target of a link: nothing, or further components. -/
def WholeSuffix (suffix : Path) : Prop :=
  suffix = [] ∨ ['\\'] <+: suffix

/-- No link leads to a path in which the name of the device ends inside a component, or to one
above the device. -/
def LinksWhole (m : ObjectManager) : Prop :=
  ∀ name target, linkTarget m name = some target →
    ¬EndsInside deviceName target ∧ ¬Above target deviceName

/-- A link is followed from a path: the path is one, or it is no name and the longest name above
it is one. -/
def FollowsLink (m : ObjectManager) (path : Path) : Prop :=
  (linkTarget m path).isSome ∨
    m.named.lookup path = none ∧
      ∃ pre, Longest path (m.named.map Prod.fst) pre ∧ (linkTarget m pre).isSome

/-- The name does not get to end inside a component by what stands behind a target. -/
theorem not_endsInside_append {name target suffix : Path}
    (hinside : ¬EndsInside name target)
    (habove : ¬Above target name)
    (hsuffix : WholeSuffix suffix) :
    ¬EndsInside name (target ++ suffix) := by
  rintro ⟨hstarts, hnot⟩
  rcases Nat.le_total name.length target.length with hle | hle
  · have htarget : name <+: target :=
      List.prefix_of_prefix_length_le hstarts (List.prefix_append _ _) hle
    rcases (atOrBelow_iff htarget).mpr hinside with rfl | hbelow
    · rcases hsuffix with rfl | ⟨rest, rfl⟩
      · exact hnot (.inl (List.append_nil _))
      · exact hnot (.inr ⟨rest, List.append_assoc ..⟩)
    · exact hnot (.inr (hbelow.trans (List.prefix_append _ _)))
  · obtain ⟨rest, rfl⟩ : target <+: name :=
      List.prefix_of_prefix_length_le (List.prefix_append _ _) hstarts hle
    have hrest : rest <+: suffix := (List.prefix_append_right_inj _).mp hstarts
    cases rest with
    | nil =>
      rw [List.append_nil] at hinside hnot
      rcases hsuffix with rfl | ⟨rest, rfl⟩
      · exact hnot (.inl (List.append_nil _))
      · exact hnot (.inr ⟨rest, List.append_assoc ..⟩)
    | cons c rest =>
      rcases hsuffix with rfl | ⟨tail, rfl⟩
      · exact absurd hrest (by simp)
      · obtain ⟨rfl, -⟩ := List.cons_prefix_cons.mp hrest
        exact habove ⟨rest, by simp⟩

theorem wholeSuffix_drop {pre path : Path}
    (h : Above pre path) :
    WholeSuffix (path.drop pre.length) := by
  obtain ⟨rest, rfl⟩ := h
  rw [List.append_assoc, List.drop_left]
  exact .inr (List.prefix_append _ _)

section Links

variable {m : ObjectManager}

theorem linkTarget_eq {name : Path} {record : ObjectRecord}
    (h : (m.named.lookup name).bind m.objects = some record) :
    linkTarget m name = match record.data with
      | .symbolicLink target => some target
      | _ => none := by
  rw [linkTarget, h]
  rfl

theorem exists_record
    (hwf : m.WellFormed)
    {name : Path} {id : Nat}
    (h : m.named.lookup name = some id) :
    ∃ record, (m.named.lookup name).bind m.objects = some record := by
  obtain ⟨record, hrecord, -⟩ := (hwf.named_iff name id).mp h
  exact ⟨record, by rw [h]; exact hrecord⟩

theorem Longest.unique {path pre pre' : Path} {names : List Path}
    (h : Longest path names pre)
    (h' : Longest path names pre') :
    pre' = pre :=
  h'.above.eq_of_length h.above
    ((h.longest pre' h'.mem h'.above).antisymm (h'.longest pre h.mem h.above))

/-- One level of resolution follows a link or comes back with the path. -/
theorem resolveNamedPath_succ
    (hwf : m.WellFormed)
    (levels : Nat) (path : Path) :
    (FollowsLink m path ∧ ∃ name target suffix, linkTarget m name = some target ∧
        WholeSuffix suffix ∧
        m.resolveNamedPath (levels + 1) path = m.resolveNamedPath levels (target ++ suffix)) ∨
      ¬FollowsLink m path ∧ m.resolveNamedPath (levels + 1) path = .ok path := by
  rw [ObjectManager.resolveNamedPath]
  cases hrecord : (m.named.lookup path).bind m.objects with
  | some record =>
    have hnamed : m.named.lookup path ≠ none := by
      intro hnone
      rw [hnone] at hrecord
      cases hrecord
    have htarget := linkTarget_eq hrecord
    cases hdata : record.data with
    | symbolicLink target =>
      rw [hdata] at htarget
      refine .inl ⟨.inl (by rw [htarget]; rfl), path, target, [], htarget, .inl rfl, ?_⟩
      simp only [hdata, List.append_nil]
    | _ =>
      rw [hdata] at htarget
      refine .inr ⟨?_, by simp only [hdata]⟩
      rintro (hlink | ⟨hnone, -⟩)
      · rw [htarget] at hlink
        cases hlink
      · exact hnamed hnone
  | none =>
    have hunnamed : m.named.lookup path = none := by
      rcases hname : m.named.lookup path with _ | id
      · rfl
      · obtain ⟨record, hsome⟩ := exists_record hwf hname
        cases hrecord.symm.trans hsome
    have hlink : linkTarget m path = none := by rw [linkTarget, hrecord]; rfl
    have hspec := bestPrefix_cases path m.named [] none (by simp) (by simp)
    rw [List.nil_append] at hspec
    dsimp only
    cases hbest : ObjectManager.bestPrefix path m.named none with
    | none =>
      rw [hbest] at hspec
      refine .inr ⟨?_, rfl⟩
      rintro (hsome | ⟨-, pre, hpre, -⟩)
      · rw [hlink] at hsome
        cases hsome
      · exact hspec pre hpre.mem hpre.above
    | some pre =>
      rw [hbest] at hspec
      obtain ⟨id, hid⟩ := Option.isSome_iff_exists.mp ((lookup_isSome_iff_mem _ _).mpr hspec.mem)
      obtain ⟨record, hrecord⟩ := exists_record hwf hid
      have htarget := linkTarget_eq hrecord
      cases hdata : record.data with
      | symbolicLink target =>
        rw [hdata] at htarget
        refine .inl ⟨.inr ⟨hunnamed, pre, hspec, by rw [htarget]; rfl⟩, pre, target, _, htarget,
          wholeSuffix_drop hspec.above, ?_⟩
        simp only [hrecord, hdata]
      | _ =>
        rw [hdata] at htarget
        refine .inr ⟨?_, by simp only [hrecord, hdata]⟩
        rintro (hsome | ⟨-, pre', hpre', hsome⟩)
        · rw [hlink] at hsome
          cases hsome
        · rw [hspec.unique hpre', htarget] at hsome
          cases hsome

/-- The path that resolution comes back with is the one it started with, or one that a link leads
to. -/
theorem resolveNamedPath_eq_ok
    (hwf : m.WellFormed)
    {levels : Nat} {path resolved : Path}
    (h : m.resolveNamedPath levels path = .ok resolved) :
    resolved = path ∨ ∃ name target suffix, linkTarget m name = some target ∧
      WholeSuffix suffix ∧ resolved = target ++ suffix := by
  induction levels generalizing path with
  | zero =>
    cases h
  | succ levels ih =>
    rcases resolveNamedPath_succ hwf levels path with
      ⟨-, name, target, suffix, htarget, hsuffix, hnext⟩ | ⟨-, hsame⟩
    · rw [hnext] at h
      rcases ih h with hresolved | hlater
      · exact .inr ⟨name, target, suffix, htarget, hsuffix, hresolved⟩
      · exact .inr hlater
    · cases hsame.symm.trans h
      exact .inl rfl

/-- Where the name of the device ends inside a component of the path that resolution comes back
with, no link was followed. -/
theorem endsInside_resolved_iff
    (hwf : m.WellFormed)
    (hlinks : LinksWhole m)
    (levels : Nat) (path : Path) :
    (∃ resolved, m.resolveNamedPath (levels + 1) path = .ok resolved ∧
        EndsInside deviceName resolved) ↔
      EndsInside deviceName path ∧ ¬FollowsLink m path := by
  have hlinked : ∀ name target suffix, linkTarget m name = some target → WholeSuffix suffix →
      ¬EndsInside deviceName (target ++ suffix) := by
    intro name target suffix htarget hsuffix
    obtain ⟨hinside, habove⟩ := hlinks name target htarget
    exact not_endsInside_append hinside habove hsuffix
  rcases resolveNamedPath_succ hwf levels path with
    ⟨hfollows, name, target, suffix, htarget, hsuffix, hnext⟩ | ⟨hnot, hsame⟩
  · refine iff_of_false ?_ fun h => h.2 hfollows
    rintro ⟨resolved, hresolved, hinside⟩
    rw [hnext] at hresolved
    rcases resolveNamedPath_eq_ok hwf hresolved with rfl | ⟨name', target', suffix', h, h', rfl⟩
    · exact hlinked name target suffix htarget hsuffix hinside
    · exact hlinked name' target' suffix' h h' hinside
  · rw [hsame]
    simp [hnot]

end Links

/-- The links of the namespace at boot are whole. -/
theorem Clear.linksWhole {m : ObjectManager}
    (h : Clear m) :
    LinksWhole m := by
  have hall : ∀ link ∈ namespaceLinks,
      ¬EndsInside deviceName link.2 ∧ ¬Above link.2 deviceName := by
    decide
  intro name target htarget
  rw [h.links] at htarget
  obtain ⟨before, after, heq, -⟩ := List.lookup_eq_some_iff.mp htarget
  exact hall (name, target) (by rw [heq]; simp)

/-- A file of the directory itself. -/
def OneComponent (rest : Path) : Prop :=
  rest ≠ [] ∧ '/' ∉ rest ∧ '\\' ∉ rest

def systemDirectory : Path :=
  "/windows/system32/".toList

section Basename

variable {path rest : Path}

theorem moduleBasename_append
    (front rest : Path) :
    moduleBasename (front ++ '/' :: rest) = moduleBasename rest := by
  rw [moduleBasename, moduleBasename, List.reverse_append, List.reverse_cons, List.append_assoc,
    List.takeWhile_append]
  split
  · rw [List.singleton_append, List.takeWhile_cons_of_neg (by decide), List.append_nil]
    rename_i hall
    rw [(List.takeWhile_prefix _).eq_of_length hall]
  · rfl

theorem moduleBasename_suffix
    (path : Path) :
    moduleBasename path <:+ path := by
  rw [← List.reverse_prefix, moduleBasename, List.reverse_reverse]
  exact List.takeWhile_prefix _

theorem not_mem_moduleBasename
    (path : Path) :
    '/' ∉ moduleBasename path ∧ '\\' ∉ moduleBasename path := by
  constructor <;> intro h <;>
    exact absurd (List.all_eq_true.mp List.all_takeWhile _ (List.mem_reverse.mp h)) (by decide)

theorem moduleBasename_eq_self_iff :
    moduleBasename rest = rest ↔ '/' ∉ rest ∧ '\\' ∉ rest := by
  constructor
  · intro h
    rw [← h]
    exact not_mem_moduleBasename rest
  · rintro ⟨hslash, hback⟩
    rw [moduleBasename, List.takeWhile_eq_self_iff.mpr, List.reverse_reverse]
    intro c hc
    rw [List.mem_reverse] at hc
    exact decide_eq_true ⟨fun h => hback (h ▸ hc), fun h => hslash (h ▸ hc)⟩

/-- A path below the directory, cut behind it. -/
theorem exists_front (h : systemDirectory <+: path.map Char.toLower) :
    ∃ front, path = front ++ '/' :: path.drop 18 ∧
      (front ++ ['/']).map Char.toLower = systemDirectory := by
  have hlength : (path.take 18).map Char.toLower = systemDirectory := by
    rw [List.map_take]
    exact (List.prefix_iff_eq_take.mp h).symm
  have hcount : (path.take 18).length = 18 := by
    rw [← List.length_map (f := Char.toLower), hlength]
    rfl
  obtain ⟨front, last, hfront⟩ : ∃ front last, path.take 18 = front ++ [last] :=
    ⟨(path.take 18).dropLast, _, (List.dropLast_append_getLast (by
      intro hnil
      rw [hnil] at hcount
      cases hcount)).symm⟩
  have hlast : last = '/' := by
    rw [hfront, List.map_append] at hlength
    have hget := congrArg List.getLast? hlength
    rw [List.map_singleton, List.getLast?_append_of_ne_nil _ (List.cons_ne_nil _ _)] at hget
    exact (Base.toLower_eq_iff (by decide) last).mp (Option.some.inj hget)
  subst hlast
  refine ⟨front, ?_, hfront ▸ hlength⟩
  conv_lhs => rw [← List.take_append_drop 18 path, hfront, List.append_assoc, List.singleton_append]

end Basename

/-- A path below `\SystemRoot` at boot. -/
theorem resolveNtPath_systemRoot (rest : Path)
    (hcanonical : canonicalizeNtPath ("\\SystemRoot\\".toList ++ rest) =
      "\\SystemRoot\\".toList ++ rest) :
    ObjectManager.new.initNamespace.resolveNtPath ("\\SystemRoot\\".toList ++ rest) =
      .ok ("/Windows/".toList ++ rest.map fun c => if c = '\\' then '/' else c) := by
  have hanchored := anchored_initNamespace
  have hresolved : ObjectManager.new.initNamespace.resolveNamedPath 17
      ("\\SystemRoot\\".toList ++ rest) =
      .ok ("\\Device\\Crabfs0".toList ++ '\\' :: ("Windows\\".toList ++ rest)) := by
    rw [hanchored.clearLinks.resolveNamedPath_eq hanchored.consistent.wellFormed]
    exact followLinks_systemRoot 14 rest
  have hempty : ("\\SystemRoot\\".toList ++ rest).isEmpty = false := rfl
  simp only [ObjectManager.resolveNtPath, hcanonical, hempty, Bool.false_eq_true, if_false,
    hresolved, stripPrefix, List.isPrefixOf_iff_prefix.mpr (List.prefix_append _ _), if_true,
    List.drop_left]
  rfl

theorem hasDoubleBackslash_cons {c : Char} (hc : c ≠ '\\')
    (path : Path) :
    hasDoubleBackslash ('\\' :: c :: path) = hasDoubleBackslash (c :: path) := by
  rw [hasDoubleBackslash.eq_def]
  split
  next heq =>
    exact absurd (List.cons.inj (List.cons.inj heq).2).1 hc
  next heq =>
    rw [(List.cons.inj heq).2]
  next heq =>
    cases heq

/-- The NT path of a file of the directory. -/
theorem canonicalizeNtPath_system {base : Path} (hne : base ≠ []) (hslash : '/' ∉ base)
    (hback : '\\' ∉ base) :
    canonicalizeNtPath ("\\SystemRoot\\System32\\".toList ++ base) =
      "\\SystemRoot\\System32\\".toList ++ base := by
  obtain ⟨b, base, rfl⟩ := List.exists_cons_of_ne_nil hne
  have hb : b ≠ '\\' := fun h => hback (h ▸ List.mem_cons_self)
  have hcut : "\\SystemRoot\\System32\\".toList ++ b :: base =
      '\\' :: ("SystemRoot".toList ++ '\\' :: ("System32".toList ++ '\\' :: b :: base)) := rfl
  refine canonicalizeNtPath_eq_self hcut ?_ ?_ fun _ => ?_
  · rw [List.mem_append, not_or]
    exact ⟨by decide, hslash⟩
  · have htail := hasDoubleBackslash_append hback []
    rw [List.append_nil] at htail
    have hlast : hasDoubleBackslash ('\\' :: b :: base) = false := by
      rw [hasDoubleBackslash_cons hb, htail]
      rfl
    have hmiddle : hasDoubleBackslash ('\\' :: ("System32".toList ++ '\\' :: b :: base)) =
        false :=
      (hasDoubleBackslash_cons (by decide) _).trans
        ((hasDoubleBackslash_append (by decide) _).trans hlast)
    rw [hcut]
    exact (hasDoubleBackslash_cons (by decide) _).trans
      ((hasDoubleBackslash_append (by decide) _).trans hmiddle)
  · rw [List.getLast?_append_of_ne_nil _ (List.cons_ne_nil _ _)]
    intro hlast
    exact hback (List.mem_of_getLast? hlast)

/-- The path that the NT path of a file leads to. -/
theorem resolveNtPath_ntPathFromVfsPath {path n : Path} (h : ntPathFromVfsPath path = some n) :
    ObjectManager.new.initNamespace.resolveNtPath n =
      .ok (if moduleBasename path = [] then "/Windows/System32".toList
        else "/Windows/System32/".toList ++ moduleBasename path) := by
  rw [ntPathFromVfsPath] at h
  split at h
  · cases h
    obtain ⟨hslash, hback⟩ := not_mem_moduleBasename path
    split
    next hempty =>
      rw [hempty]
      exact resolveNtPath_systemRoot "System32".toList (by decide +kernel)
    next hne =>
      rw [canonicalizeNtPath_system hne hslash hback]
      have hsame : (moduleBasename path).map (fun c => if c = '\\' then '/' else c) =
          moduleBasename path := by
        conv_rhs => rw [← List.map_id (moduleBasename path)]
        refine List.map_congr_left fun c hc => if_neg ?_
        rintro rfl
        exact hback hc
      have hsystem : "\\SystemRoot\\System32\\".toList =
          "\\SystemRoot\\".toList ++ "System32\\".toList := by decide
      have hresolve := resolveNtPath_systemRoot ("System32\\".toList ++ moduleBasename path) (by
        rw [← List.append_assoc, ← hsystem]
        exact canonicalizeNtPath_system hne hslash hback)
      have hfolder : "System32\\".toList.map (fun c => if c = '\\' then '/' else c) =
          "System32/".toList := by decide
      have hjoined : "/Windows/System32/".toList = "/Windows/".toList ++ "System32/".toList := by
        decide
      rw [List.map_append, hsame, hfolder] at hresolve
      rw [hsystem, hjoined, List.append_assoc, List.append_assoc]
      exact hresolve
  · cases h

/-- The NT path of a file leads back to the file exactly if it is one of the directory itself. -/
theorem vfs_path_kept_iff {path n : Path} (h : ntPathFromVfsPath path = some n) :
    (∃ result, ObjectManager.new.initNamespace.resolveNtPath n = .ok result ∧
      result.map Char.toLower = path.map Char.toLower) ↔
      OneComponent (path.drop 18) := by
  have hbelow : systemDirectory <+: path.map Char.toLower := by
    rw [ntPathFromVfsPath] at h
    split at h
    · exact List.isPrefixOf_iff_prefix.mp ‹_›
    · cases h
  obtain ⟨front, hpath, hfront⟩ := exists_front hbelow
  have hbase : moduleBasename path = moduleBasename (path.drop 18) := by
    conv_lhs => rw [hpath, moduleBasename_append]
  have hlower : path.map Char.toLower =
      systemDirectory ++ (path.drop 18).map Char.toLower := by
    conv_lhs => rw [hpath, ← List.singleton_append, ← List.append_assoc, List.map_append, hfront]
  rw [resolveNtPath_ntPathFromVfsPath h, hbase, hlower]
  obtain ⟨rest, hrest⟩ : ∃ rest, rest = path.drop 18 := ⟨_, rfl⟩
  rw [← hrest]
  have hdirectory : "/Windows/System32/".toList.map Char.toLower = systemDirectory := by
    decide +kernel
  by_cases hempty : moduleBasename rest = []
  · rw [if_pos hempty]
    refine iff_of_false ?_ ?_
    · rintro ⟨_, ⟨⟩, heq⟩
      have hshort : "/Windows/System32".toList.length = 17 := by decide
      have hlong : systemDirectory.length = 18 := by decide
      have hlength := congrArg List.length heq
      rw [List.length_append, List.length_map, hshort, hlong] at hlength
      omega
    · rintro ⟨hne, hone⟩
      exact hne (moduleBasename_eq_self_iff.mpr hone ▸ hempty)
  · rw [if_neg hempty]
    constructor
    · rintro ⟨_, ⟨⟩, heq⟩
      rw [List.map_append, hdirectory] at heq
      have hmap : (moduleBasename rest).map Char.toLower = rest.map Char.toLower :=
        List.append_cancel_left heq
      have hlength : (moduleBasename rest).length = rest.length := by
        rw [← List.length_map (f := Char.toLower), hmap, List.length_map]
      have hself := (moduleBasename_suffix rest).eq_of_length hlength
      exact ⟨hself ▸ hempty, moduleBasename_eq_self_iff.mp hself⟩
    · rintro ⟨-, hone⟩
      refine ⟨_, rfl, ?_⟩
      rw [moduleBasename_eq_self_iff.mpr hone, List.map_append, hdirectory]

theorem vfs_path_kept_ntdll :
    ∃ result, ObjectManager.new.initNamespace.resolveNtPath
        "\\SystemRoot\\System32\\ntdll.dll".toList = .ok result ∧
      result.map Char.toLower = "/windows/System32/ntdll.dll".toList.map Char.toLower := by
  have hpath : ntPathFromVfsPath "/windows/System32/ntdll.dll".toList =
      some "\\SystemRoot\\System32\\ntdll.dll".toList := by decide +kernel
  exact (vfs_path_kept_iff hpath).mpr ⟨by decide, by decide, by decide⟩

/-- A driver's path leads to a file of the directory above it. -/
theorem driver_taken_for_system_file :
    ntPathFromVfsPath "/Windows/System32/drivers/disk.sys".toList =
        some "\\SystemRoot\\System32\\disk.sys".toList ∧
      ObjectManager.new.initNamespace.resolveNtPath
        "\\SystemRoot\\System32\\disk.sys".toList =
        .ok "/Windows/System32/disk.sys".toList ∧
      "/Windows/System32/disk.sys".toList.map Char.toLower ≠
        "/Windows/System32/drivers/disk.sys".toList.map Char.toLower := by
  refine ⟨by decide +kernel, by decide +kernel, by decide +kernel⟩

end Handles
end Kernel
end Theos
