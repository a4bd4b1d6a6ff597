import Theos.Base.Recursion
import Theos.Base.Rust
import Theos.Regf.Walk

/-!
# Cyclic hives

The walk over a hive follows offsets from the file, keeps no record of the cells
it has seen and has no bound on its depth.  It ends exactly if no cell is called
again while a call for it is pending: a key that has itself among its subkeys,
or an index list that contains itself, makes it recurse for ever.
-/

namespace Theos
namespace Regf

open Base Relation

/-! ## The calls of the walk -/

/-- A cell for which `walk_key` or `subkey_offsets` is called. -/
inductive Cell where
  | key (offset : Nat)
  | list (offset : Nat)

/-- `subkey_offsets` returns a list for this cell. -/
def ListFinishes (bytes : Bytes) (offset : Nat) : Prop :=
  ∃ depth offsets, subkeyOffsets bytes depth offset = some (.ok offsets)

/-- `walk_key` returns without an error for this cell. -/
def KeyFinishes (bytes : Bytes) (offset : Nat) : Prop :=
  ∃ depth entries, keyEntries bytes depth offset = some (.ok entries)

/-- A key that has subkeys: its cell and its values are read without an error, and it
refers to a list. -/
def HasSubkeys (bytes : Bytes) (offset listOffset : Nat) : Prop :=
  ∃ nk name values, readKey bytes offset = .ok (nk, name) ∧ readValues bytes nk = .ok values ∧
    ¬ (nk.subkeyCount = 0 ∨ nk.subkeyListOffset = offsetNone) ∧ nk.subkeyListOffset = listOffset

/-- The call for one cell leads to the call for another: a key reads its list of
subkeys and then visits them, an index reads its lists, one after the other until
there is an error. -/
inductive Calls (bytes : Bytes) : Cell → Cell → Prop
  | subkeys {offset list : Nat}
      (hkey : HasSubkeys bytes offset list) :
      Calls bytes (.key offset) (.list list)
  | subkey {offset list depth subkey : Nat} {before after : List Nat}
      (hkey : HasSubkeys bytes offset list)
      (hlist : subkeyOffsets bytes depth list = some (.ok (before ++ subkey :: after)))
      (hbefore : ∀ o ∈ before, KeyFinishes bytes o) :
      Calls bytes (.key offset) (.key subkey)
  | index {offset count list : Nat} {payload : Bytes} {before after : List (Except Error Nat)}
      (hindex : readSubkeyList bytes offset = .ok (.index payload count))
      (hitems : indexItems payload count 0x04 = before ++ .ok list :: after)
      (hbefore : ∀ item ∈ before, ∃ o, item = .ok o ∧ ListFinishes bytes o) :
      Calls bytes (.list offset) (.list list)

/-- A depth that is enough for a cell. -/
def CellEnds (bytes : Bytes) (depth : Nat) : Cell → Prop
  | .key offset => keyEntries bytes depth offset ≠ none
  | .list offset => subkeyOffsets bytes depth offset ≠ none

variable {bytes : Bytes}

/-- Two depths that are enough give the same answer. -/
theorem subkeyOffsets_agree {m n offset : Nat} {result result' : Except Error (List Nat)}
    (h : subkeyOffsets bytes m offset = some result)
    (h' : subkeyOffsets bytes n offset = some result') :
    result = result' := by
  have hmax := subkeyOffsets_mono bytes (Nat.le_max_left m n) h
  rw [subkeyOffsets_mono bytes (Nat.le_max_right m n) h'] at hmax
  exact (Option.some.inj hmax).symm

theorem keyEntries_agree {m n offset : Nat} {result result' : Except Error (List Entry)}
    (h : keyEntries bytes m offset = some result)
    (h' : keyEntries bytes n offset = some result') :
    result = result' := by
  have hmax := keyEntries_mono bytes (Nat.le_max_left m n) h
  rw [keyEntries_mono bytes (Nat.le_max_right m n) h'] at hmax
  exact (Option.some.inj hmax).symm

/-- The walk over a key with subkeys. -/
theorem keyEntries_of_hasSubkeys {offset list : Nat} (h : HasSubkeys bytes offset list)
    {depth : Nat}
    (hends : keyEntries bytes (depth + 1) offset ≠ none) :
    ∃ answer, subkeyOffsets bytes depth list = some answer ∧
      ∀ offsets, answer = .ok offsets →
        gather (keyEntries bytes depth) (offsets.map .ok) ≠ none := by
  obtain ⟨nk, name, values, hkey, hvalues, hsome, rfl⟩ := h
  simp only [keyEntries, hkey, hvalues, if_neg hsome] at hends
  cases hlist : subkeyOffsets bytes depth nk.subkeyListOffset with
  | none =>
    rw [hlist] at hends
    exact absurd rfl hends
  | some answer =>
    refine ⟨answer, rfl, ?_⟩
    rintro offsets rfl hnone
    rw [hlist] at hends
    simp [hnone] at hends

/-- A call that ends has only calls that end at a smaller depth. -/
theorem cellEnds_of_calls {depth : Nat} {cell called : Cell}
    (hends : CellEnds bytes (depth + 1) cell)
    (hcalls : Calls bytes cell called) :
    CellEnds bytes depth called := by
  cases hcalls with
  | subkeys hkey =>
    obtain ⟨answer, hanswer, -⟩ := keyEntries_of_hasSubkeys hkey hends
    exact Option.ne_none_iff_exists'.mpr ⟨answer, hanswer⟩
  | @subkey offset list depth' subkey before after hkey hlist hbefore =>
    obtain ⟨answer, hanswer, hgather⟩ := keyEntries_of_hasSubkeys hkey hends
    have hsame := subkeyOffsets_agree hanswer hlist
    have hloop := hgather _ hsame
    rw [List.map_append, List.map_cons] at hloop
    refine answers_of_gather (fun item hitem => ?_) hloop
    obtain ⟨o, ho, rfl⟩ := List.mem_map.mp hitem
    obtain ⟨d, entries, hfinishes⟩ := hbefore o ho
    exact ⟨o, rfl, fun answer hanswer => ⟨entries, keyEntries_agree hanswer hfinishes⟩⟩
  | @index offset count list payload before after hindex hitems hbefore =>
    replace hends : subkeyOffsets bytes (depth + 1) offset ≠ none := hends
    rw [subkeyOffsets, hindex] at hends
    dsimp only at hends
    rw [indexLoop_eq_gather, hitems] at hends
    refine answers_of_gather (fun item hitem => ?_) hends
    obtain ⟨o, rfl, d, offsets, hfinishes⟩ := hbefore item hitem
    exact ⟨o, rfl, fun answer hanswer => ⟨offsets, subkeyOffsets_agree hanswer hfinishes⟩⟩

/-- A list ends if the lists that it leads to end. -/
theorem list_ends {offset : Nat}
    (h : ∀ called, Calls bytes (.list offset) called → ∃ depth, CellEnds bytes depth called) :
    ∃ depth, CellEnds bytes depth (.list offset) := by
  cases hlist : readSubkeyList bytes offset with
  | error e =>
    exact ⟨1, by simp [CellEnds, subkeyOffsets, hlist]⟩
  | ok list =>
    cases list with
    | leaf offsets =>
      exact ⟨1, by simp [CellEnds, subkeyOffsets, hlist]⟩
    | index payload count =>
      obtain ⟨depth, hdepth⟩ := exists_gather (F := subkeyOffsets bytes)
        (fun m n o r hle => subkeyOffsets_mono bytes hle) [] (by simp)
        (indexItems payload count 0x04) fun before o after heq hbefore =>
          h (.list o) (.index hlist heq hbefore)
      refine ⟨depth + 1, ?_⟩
      rw [CellEnds, subkeyOffsets, hlist]
      dsimp only
      rwa [indexLoop_eq_gather]

/-- A key ends if its list and the subkeys that it leads to end. -/
theorem key_ends {offset : Nat}
    (h : ∀ called, Calls bytes (.key offset) called → ∃ depth, CellEnds bytes depth called) :
    ∃ depth, CellEnds bytes depth (.key offset) := by
  cases hkey : readKey bytes offset with
  | error e =>
    exact ⟨1, by simp [CellEnds, keyEntries, hkey]⟩
  | ok key =>
    obtain ⟨nk, name⟩ := key
    cases hvalues : readValues bytes nk with
    | error e =>
      exact ⟨1, by simp [CellEnds, keyEntries, hkey, hvalues]⟩
    | ok values =>
      by_cases hnone : nk.subkeyCount = 0 ∨ nk.subkeyListOffset = offsetNone
      · exact ⟨1, by simp [CellEnds, keyEntries, hkey, hvalues, hnone]⟩
      have hsubkeys : HasSubkeys bytes offset nk.subkeyListOffset :=
        ⟨nk, name, values, hkey, hvalues, hnone, rfl⟩
      obtain ⟨m, hm⟩ := h _ (.subkeys hsubkeys)
      obtain ⟨answer, hanswer⟩ := Option.ne_none_iff_exists'.mp hm
      cases answer with
      | error e =>
        exact ⟨m + 1, by simp [CellEnds, keyEntries, hkey, hvalues, hnone, hanswer]⟩
      | ok offsets =>
        -- the subkeys are called one after the other
        have hloop : ∃ n, gather (keyEntries bytes n) (offsets.map .ok) ≠ none := by
          refine exists_gather (F := keyEntries bytes)
            (fun m n o r hle => keyEntries_mono bytes hle) [] (by simp) (offsets.map .ok) fun before o after heq hbefore => ?_
          rw [List.nil_append, List.map_eq_append_iff] at heq
          obtain ⟨first, last, rfl, rfl, hlast⟩ := heq
          obtain ⟨o', rest, rfl, ho', -⟩ := List.map_eq_cons_iff.mp hlast
          obtain rfl : o' = o := Except.ok.inj ho'
          refine h (.key o') (.subkey hsubkeys hanswer fun x hx => ?_)
          obtain ⟨x', hx', hfinishes⟩ := hbefore (.ok x) (List.mem_map_of_mem hx)
          obtain rfl : x = x' := Except.ok.inj hx'
          exact hfinishes
        obtain ⟨n, hn⟩ := hloop
        obtain ⟨entries, hentries⟩ := Option.ne_none_iff_exists'.mp hn
        have hlist := subkeyOffsets_mono bytes (Nat.le_max_left m n) hanswer
        have hkeys := gather_mono
          (fun o r => keyEntries_mono bytes (Nat.le_max_right m n)) hentries
        exact ⟨max m n + 1,
          by simp [CellEnds, keyEntries, hkey, hvalues, hnone, hlist, hkeys]⟩

/-! ## Offsets are 32-bit numbers -/

theorem readU32_lt {input : Bytes} {offset n : Nat}
    (h : readU32 input offset = .ok n) :
    n < 2 ^ 32 := by
  rw [readU32, readBytes] at h
  split at h
  next hle =>
    cases h
    have hlt := ofLE_lt (slice input offset 4)
    rw [length_slice hle] at hlt
    exact hlt.trans_eq (by norm_num)
  next =>
    cases h

theorem readOffsets_lt {payload : Bytes} {stride count pos : Nat} {offsets : List Nat}
    (h : readOffsets payload stride count pos = .ok offsets) :
    ∀ o ∈ offsets, o < 2 ^ 32 := by
  induction count generalizing pos offsets with
  | zero =>
    cases h
    simp
  | succ count ih =>
    rw [readOffsets] at h
    cases hread : readU32 payload pos with
    | error e =>
      rw [hread] at h
      cases h
    | ok offset =>
      rw [hread] at h
      dsimp only at h
      cases hrest : readOffsets payload stride count (pos + stride) with
      | error e =>
        rw [hrest] at h
        cases h
      | ok rest =>
        rw [hrest] at h
        cases h
        intro o ho
        rcases List.mem_cons.mp ho with rfl | ho
        · exact readU32_lt hread
        · exact ih hrest o ho

theorem readSubkeyList_lt {offset : Nat} {offsets : List Nat}
    (h : readSubkeyList bytes offset = .ok (.leaf offsets)) :
    ∀ o ∈ offsets, o < 2 ^ 32 := by
  have hleaf : ∀ read : Except Error (List Nat), read.map SubkeyList.leaf = .ok (.leaf offsets) →
      read = .ok offsets := by
    rintro (e | read) hread
    · cases hread
    · cases hread
      rfl
  rw [readSubkeyList] at h
  obtain ⟨payload, -, h⟩ := except_bind_eq_ok.mp h
  split at h
  · cases h
  · obtain ⟨count, -, h⟩ := except_bind_eq_ok.mp h
    dsimp only at h
    split at h
    · exact readOffsets_lt (hleaf _ h)
    · split at h
      · exact readOffsets_lt (hleaf _ h)
      · split at h
        · cases h
        · cases h
          simp

/-- What a loop returns comes from its calls. -/
theorem gather_forall {α : Type} {P : α → Prop} {f : Nat → Outcome (List α)}
    (hf : ∀ o out, f o = some (.ok out) → ∀ x ∈ out, P x)
    {items : List (Except Error Nat)} {out : List α}
    (h : gather f items = some (.ok out)) :
    ∀ x ∈ out, P x := by
  induction items generalizing out with
  | nil =>
    cases h
    simp
  | cons item items ih =>
    cases item with
    | error e =>
      cases h
    | ok o =>
      rw [gather] at h
      cases ho : f o with
      | none =>
        rw [ho] at h
        cases h
      | some answer =>
        rw [ho] at h
        cases answer with
        | error e =>
          cases h
        | ok first =>
          obtain ⟨others, hothers, hout⟩ := Option.map_eq_some_iff.mp h
          cases others with
          | error e =>
            cases hout
          | ok rest =>
            cases hout
            intro x hx
            rcases List.mem_append.mp hx with hfirst | hrest
            · exact hf o first ho x hfirst
            · exact ih hothers x hrest

theorem subkeyOffsets_lt {depth offset : Nat} {offsets : List Nat}
    (h : subkeyOffsets bytes depth offset = some (.ok offsets)) :
    ∀ o ∈ offsets, o < 2 ^ 32 := by
  induction depth generalizing offset offsets with
  | zero =>
    cases h
  | succ depth ih =>
    rw [subkeyOffsets] at h
    cases hlist : readSubkeyList bytes offset with
    | error e =>
      rw [hlist] at h
      cases h
    | ok list =>
      rw [hlist] at h
      cases list with
      | leaf read =>
        cases h
        exact readSubkeyList_lt hlist
      | index payload count =>
        dsimp only at h
        rw [indexLoop_eq_gather] at h
        exact gather_forall (fun o out => ih) h

theorem indexItems_lt {payload : Bytes} {count pos list : Nat}
    (h : .ok list ∈ indexItems payload count pos) :
    list < 2 ^ 32 := by
  induction count generalizing pos with
  | zero =>
    cases h
  | succ count ih =>
    rcases List.mem_cons.mp h with heq | hrest
    · exact readU32_lt heq.symm
    · exact ih hrest

theorem readKey_lt {offset : Nat} {nk : NkMeta} {name : Text}
    (h : readKey bytes offset = .ok (nk, name)) :
    nk.subkeyListOffset < 2 ^ 32 := by
  rw [readKey] at h
  obtain ⟨cell, -, h⟩ := except_bind_eq_ok.mp h
  split at h
  · cases h
  · obtain ⟨flags, -, h⟩ := except_bind_eq_ok.mp h
    obtain ⟨subkeyCount, -, h⟩ := except_bind_eq_ok.mp h
    obtain ⟨subkeyListOffset, hlist, h⟩ := except_bind_eq_ok.mp h
    obtain ⟨valueCount, -, h⟩ := except_bind_eq_ok.mp h
    obtain ⟨valueListOffset, -, h⟩ := except_bind_eq_ok.mp h
    obtain ⟨nameLen, -, h⟩ := except_bind_eq_ok.mp h
    obtain ⟨decoded, -, h⟩ := except_bind_eq_ok.mp h
    cases h
    exact readU32_lt hlist

/-- The offset of a cell. -/
def Cell.offset : Cell → Nat
  | .key offset => offset
  | .list offset => offset

theorem calls_lt {cell called : Cell}
    (h : Calls bytes cell called) :
    called.offset < 2 ^ 32 := by
  cases h with
  | subkeys hkey =>
    obtain ⟨nk, name, values, hread, -, -, rfl⟩ := hkey
    exact readKey_lt hread
  | @subkey offset list depth subkey before after hkey hlist hbefore =>
    exact subkeyOffsets_lt hlist subkey (by simp)
  | @index offset count list payload before after hindex hitems hbefore =>
    exact indexItems_lt (hitems ▸ List.mem_append_right _ (List.mem_cons_self ..))

/-- Only finitely many cells can be called. -/
theorem finite_reachable (bytes : Bytes) {root : Nat}
    (hroot : root < 2 ^ 32) :
    {cell | ReflTransGen (Calls bytes) (.key root) cell}.Finite := by
  have hcells : ({cell | cell.offset < 2 ^ 32} : Set Cell).Finite := by
    have himage := ((Set.finite_lt_nat (2 ^ 32)).image Cell.key).union
      ((Set.finite_lt_nat (2 ^ 32)).image Cell.list)
    refine himage.subset fun cell hcell => ?_
    cases cell with
    | key offset =>
      exact .inl ⟨offset, hcell, rfl⟩
    | list offset =>
      exact .inr ⟨offset, hcell, rfl⟩
  refine hcells.subset fun cell hcell => ?_
  cases hcell with
  | refl =>
    exact hroot
  | tail _ hcalls =>
    exact calls_lt hcalls

theorem rootCellOffset_lt {root : Nat}
    (h : rootCellOffset bytes = .ok root) :
    root < 2 ^ 32 := by
  rw [rootCellOffset] at h
  split at h
  · cases h
  · split at h
    · cases h
    · exact readU32_lt h

/-! ## The parser -/

/-- **When `Hive::parse` ends.**  For every byte string: the parser returns exactly if no
cell that the walk comes to is called again from within its own call. -/
theorem parse_ends_iff
    (bytes : Bytes) :
    (∃ depth, parse bytes depth ≠ none) ↔
      ∀ root, rootCellOffset bytes = .ok root →
        ∀ cell, ReflTransGen (Calls bytes) (.key root) cell →
          ¬ TransGen (Calls bytes) cell cell := by
  cases hroot : rootCellOffset bytes with
  | error e =>
    simp [parse, hroot]
  | ok root =>
    have hwalk : ∀ depth, parse bytes depth ≠ none ↔ CellEnds bytes depth (.key root) := by
      intro depth
      simp [parse, hroot, walkKey_eq, CellEnds]
    have hends : (∃ depth, CellEnds bytes depth (.key root)) ↔
        Acc (Function.swap (Calls bytes)) (.key root) := by
      refine ends_iff_acc (CellEnds bytes) ?_
        (fun depth cell hends called => cellEnds_of_calls hends) ?_ _
      · rintro (offset | offset) h
        · exact h rfl
        · exact h rfl
      · rintro (offset | offset) h
        · exact key_ends h
        · exact list_ends h
    have hcycle := acc_iff_no_cycle (finite_reachable bytes (rootCellOffset_lt hroot))
    simp only [hwalk, hends, hcycle, Except.ok.injEq, forall_eq']

/-- The first bin of a hive: a key with one subkey, no values and no name, and its list
of subkeys, which holds the offset of the key itself. -/
def loopBin : Bytes :=
  toLE 4 (2 ^ 32 - 0x50) ++ nkTag ++ List.replicate 0x12 0 ++ toLE 4 1 ++ toLE 4 0 ++
    toLE 4 0x50 ++ List.replicate 0x2c 0 ++
    toLE 4 (2 ^ 32 - 0x0c) ++ liTag ++ toLE 2 1 ++ toLE 4 0

/-- A hive whose root key has itself as its only subkey. -/
def loopHive : Bytes :=
  [0x72, 0x65, 0x67, 0x66] ++ (List.replicate 0xffc 0 ++ loopBin)

/-- **The parser does not end on every input.** -/
theorem parse_loopHive :
    ¬ ∃ depth, parse loopHive depth ≠ none := by
  have hroot : rootCellOffset loopHive = .ok 0 := by decide +kernel
  have hkey : readKey loopHive 0 = .ok (⟨0, 1, 0x50, 0, 0⟩, []) := by decide +kernel
  have hlist : ∀ depth, subkeyOffsets loopHive depth 0x50 = none ∨
      subkeyOffsets loopHive depth 0x50 = some (.ok [0]) := by
    intro depth
    cases depth with
    | zero =>
      exact .inl rfl
    | succ depth =>
      have hleaf : readSubkeyList loopHive 0x50 = .ok (.leaf [0]) := by decide +kernel
      exact .inr (by rw [subkeyOffsets, hleaf])
  have hwalk : ∀ depth path hive, walkKey loopHive depth 0 path hive = none := by
    intro depth
    induction depth with
    | zero =>
      exact fun _ _ => rfl
    | succ depth ih =>
      intro path hive
      rw [walkKey, hkey]
      rcases hlist depth with hnone | hsome
      · simp [extractValues, hnone, offsetNone]
      · simp [extractValues, hsome, offsetNone, walkLoop, ih]
  rintro ⟨depth, hends⟩
  refine hends ?_
  rw [parse, hroot]
  exact hwalk depth [] .empty

end Regf
end Theos
