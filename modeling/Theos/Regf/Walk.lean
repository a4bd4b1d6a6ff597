import Theos.Regf.Hive

/-!
# The walk over a hive

What `walk_key` visits does not depend on the table it fills or on the path it
has come: `keyEntries` lists the keys below a cell with their values, and the
walk adds this list to the table (`walkKey_eq`).

Both recursions are loops that call a function on offsets from the file and
join its results (`gather`).  More depth never changes an answer.
-/

namespace Theos
namespace Regf

open Base

/-! ## What the walk visits -/

/-- The values of a list cell, from index `i` on. -/
def valuesLoop (bytes list : Bytes) : Nat → Nat → Except Error (List (Text × Value))
  | 0, _ => .ok []
  | count + 1, i =>
    match readU32 list (i * 4) with
    | .error e => .error e
    | .ok valueOffset =>
      match readValue bytes valueOffset with
      | .error e => .error e
      | .ok value => (valuesLoop bytes list count (i + 1)).map (value.toList ++ ·)

/-- The values of a key. -/
def readValues (bytes : Bytes) (nk : NkMeta) : Except Error (List (Text × Value)) :=
  if nk.valueCount = 0 ∨ nk.valueListOffset = offsetNone then .ok []
  else
    match cellPayload bytes nk.valueListOffset with
    | .error e => .error e
    | .ok list =>
      if list.length < nk.valueCount * 4 then .error .unexpectedEof
      else valuesLoop bytes list nk.valueCount 0

/-- A key that is visited: the names that lead to it, and its values. -/
structure Entry where
  names : List Text
  values : List (Text × Value)

/-- A loop that calls a function on some offsets, which may fail to be read, and joins
its results. -/
def gather {α : Type} (f : Nat → Outcome (List α)) :
    List (Except Error Nat) → Outcome (List α)
  | [] => some (.ok [])
  | .error e :: _ => some (.error e)
  | .ok offset :: rest =>
    match f offset with
    | none => none
    | some (.error e) => some (.error e)
    | some (.ok out) => (gather f rest).map fun others => others.map (out ++ ·)

/-- An entry seen from the key above. -/
def Entry.below (name : Text) (entry : Entry) : Entry where
  names := name :: entry.names
  values := entry.values

/-- A key and its subkeys, in the order in which they are visited. -/
def keyEntries (bytes : Bytes) : Nat → Nat → Outcome (List Entry)
  | 0, _ => none
  | depth + 1, keyOffset =>
    match readKey bytes keyOffset with
    | .error e => some (.error e)
    | .ok (nk, name) =>
      match readValues bytes nk with
      | .error e => some (.error e)
      | .ok values =>
        if nk.subkeyCount = 0 ∨ nk.subkeyListOffset = offsetNone then
          some (.ok [⟨[name], values⟩])
        else
          match subkeyOffsets bytes depth nk.subkeyListOffset with
          | none => none
          | some (.error e) => some (.error e)
          | some (.ok offsets) =>
            (gather (keyEntries bytes depth) (offsets.map .ok)).map fun entries =>
              entries.map fun es => ⟨[name], values⟩ :: es.map (Entry.below name)

/-- Add the values of a key to a table. -/
def addValues (path : Text) (hive : Hive) (values : List (Text × Value)) : Hive :=
  values.foldl (fun hive value => hive.insertValue path value.1 value.2) hive

/-- Add a key that was visited from a path to a table. -/
def addEntry (path : Text) (hive : Hive) (entry : Entry) : Hive :=
  addValues (entry.names.foldl joinPath path)
    (hive.ensureKey (entry.names.foldl joinPath path)) entry.values

theorem extractLoop_eq
    (bytes list : Bytes) (path : Text) (count i : Nat) (hive : Hive) :
    extractLoop bytes list path count i hive =
      (valuesLoop bytes list count i).map (addValues path hive) := by
  induction count generalizing i hive with
  | zero =>
    rfl
  | succ count ih =>
    rw [extractLoop, valuesLoop]
    cases readU32 list (i * 4) with
    | error e =>
      rfl
    | ok offset =>
      dsimp only
      cases readValue bytes offset with
      | error e =>
        rfl
      | ok value =>
        cases value with
        | none =>
          rw [ih]
          cases valuesLoop bytes list count (i + 1) <;> rfl
        | some value =>
          obtain ⟨name, value⟩ := value
          dsimp only
          rw [ih]
          cases valuesLoop bytes list count (i + 1) <;> rfl

theorem extractValues_eq
    (bytes : Bytes) (nk : NkMeta) (path : Text) (hive : Hive) :
    extractValues bytes nk path hive = (readValues bytes nk).map (addValues path hive) := by
  rw [extractValues, readValues]
  split
  · rfl
  · cases cellPayload bytes nk.valueListOffset with
    | error e =>
      rfl
    | ok list =>
      dsimp only
      split
      · rfl
      · exact extractLoop_eq bytes list path nk.valueCount 0 hive

/-- The walk over some keys adds their entries. -/
theorem walkLoop_eq {walk : Nat → Hive → Outcome Hive} {entriesOf : Nat → Outcome (List Entry)}
    {path : Text}
    (hwalk : ∀ offset hive, walk offset hive =
      (entriesOf offset).map fun entries => entries.map fun es => es.foldl (addEntry path) hive)
    (offsets : List Nat) (hive : Hive) :
    walkLoop walk offsets hive =
      (gather entriesOf (offsets.map .ok)).map fun entries =>
        entries.map fun es => es.foldl (addEntry path) hive := by
  induction offsets generalizing hive with
  | nil =>
    rfl
  | cons offset rest ih =>
    rw [walkLoop, List.map_cons, gather, hwalk]
    cases entriesOf offset with
    | none =>
      rfl
    | some result =>
      cases result with
      | error e =>
        rfl
      | ok entries =>
        dsimp only [Option.map, Except.map]
        rw [ih]
        cases gather entriesOf (rest.map .ok) with
        | none =>
          rfl
        | some others =>
          cases others with
          | error e =>
            rfl
          | ok others =>
            simp [Except.map]

/-- The walk below a key adds the entries of the key. -/
theorem walkKey_eq
    (bytes : Bytes) (depth offset : Nat) (path : Text) (hive : Hive) :
    walkKey bytes depth offset path hive =
      (keyEntries bytes depth offset).map fun entries =>
        entries.map fun es => es.foldl (addEntry path) hive := by
  induction depth generalizing offset path hive with
  | zero =>
    rfl
  | succ depth ih =>
    rw [walkKey, keyEntries]
    cases readKey bytes offset with
    | error e =>
      rfl
    | ok key =>
      obtain ⟨nk, name⟩ := key
      dsimp only
      rw [extractValues_eq]
      cases readValues bytes nk with
      | error e =>
        rfl
      | ok values =>
        dsimp only [Except.map]
        split
        · rfl
        · cases subkeyOffsets bytes depth nk.subkeyListOffset with
          | none =>
            rfl
          | some result =>
            cases result with
            | error e =>
              rfl
            | ok offsets =>
              dsimp only
              rw [walkLoop_eq (fun offset hive => ih offset (joinPath path name) hive)]
              cases gather (keyEntries bytes depth) (offsets.map .ok) with
              | none =>
                rfl
              | some entries =>
                cases entries with
                | error e =>
                  rfl
                | ok entries =>
                  simp only [Option.map_some, Except.map, List.foldl_cons,
                    List.foldl_map]
                  rfl

/-! ## Loops over calls -/

section Gather

variable {α : Type} {f g : Nat → Outcome (List α)}

/-- A function that answers more often makes the loop answer more often. -/
theorem gather_mono (h : ∀ offset result, f offset = some result → g offset = some result)
    {items : List (Except Error Nat)} {result : Except Error (List α)}
    (hgather : gather f items = some result) :
    gather g items = some result := by
  induction items generalizing result with
  | nil =>
    exact hgather
  | cons item items ih =>
    cases item with
    | error e =>
      exact hgather
    | ok offset =>
      rw [gather] at hgather ⊢
      cases hf : f offset with
      | none =>
        rw [hf] at hgather
        cases hgather
      | some answer =>
        rw [hf] at hgather
        rw [h offset answer hf]
        cases answer with
        | error e =>
          exact hgather
        | ok out =>
          dsimp only at hgather ⊢
          cases hrest : gather f items with
          | none =>
            rw [hrest] at hgather
            cases hgather
          | some others =>
            rw [hrest] at hgather
            rw [ih hrest]
            exact hgather

/-- The loop comes to an offset once all before it have been answered. -/
theorem answers_of_gather {before after : List (Except Error Nat)} {offset : Nat}
    (hbefore : ∀ item ∈ before, ∃ o, item = .ok o ∧
      ∀ answer, f o = some answer → ∃ out, answer = .ok out)
    (h : gather f (before ++ .ok offset :: after) ≠ none) :
    f offset ≠ none := by
  induction before with
  | nil =>
    intro hnone
    exact h (by simp [gather, hnone])
  | cons item before ih =>
    refine ih (fun other hother => hbefore other (List.mem_cons_of_mem _ hother)) ?_
    obtain ⟨o, rfl, hanswers⟩ := hbefore item (List.mem_cons_self ..)
    intro hrest
    apply h
    rw [List.cons_append, gather]
    cases ho : f o with
    | none =>
      rfl
    | some answer =>
      obtain ⟨out, rfl⟩ := hanswers answer ho
      simp [hrest]

/-- If every offset that the loop comes to is answered at some depth, the loop ends at
some depth. -/
theorem exists_gather {F : Nat → Nat → Outcome (List α)}
    (hmono : ∀ m n offset result, m ≤ n → F m offset = some result → F n offset = some result)
    (done : List (Except Error Nat))
    (hdone : ∀ item ∈ done, ∃ o, item = .ok o ∧ ∃ n out, F n o = some (.ok out))
    (items : List (Except Error Nat))
    (hcalls : ∀ before offset after, done ++ items = before ++ .ok offset :: after →
      (∀ item ∈ before, ∃ o, item = .ok o ∧ ∃ n out, F n o = some (.ok out)) →
      ∃ n, F n offset ≠ none) :
    ∃ n, gather (F n) items ≠ none := by
  induction items generalizing done with
  | nil =>
    exact ⟨0, by simp [gather]⟩
  | cons item items ih =>
    cases item with
    | error e =>
      exact ⟨0, by simp [gather]⟩
    | ok offset =>
      obtain ⟨n, hn⟩ := hcalls done offset items rfl hdone
      obtain ⟨answer, hanswer⟩ := Option.ne_none_iff_exists'.mp hn
      cases answer with
      | error e =>
        exact ⟨n, by simp [gather, hanswer]⟩
      | ok out =>
        have hdone' : ∀ item ∈ done ++ [.ok offset], ∃ o, item = .ok o ∧
            ∃ n out, F n o = some (.ok out) := by
          intro item hitem
          rcases List.mem_append.mp hitem with hold | hnew
          · exact hdone item hold
          · exact ⟨offset, List.mem_singleton.mp hnew, n, out, hanswer⟩
        obtain ⟨k, hk⟩ := ih (done ++ [.ok offset]) hdone' fun before o after heq =>
          hcalls before o after (by simpa using heq)
        obtain ⟨others, hothers⟩ := Option.ne_none_iff_exists'.mp hk
        refine ⟨max n k, ?_⟩
        have hhead := hmono n (max n k) offset _ (Nat.le_max_left n k) hanswer
        have htail := gather_mono (fun o r => hmono k (max n k) o r (Nat.le_max_right n k))
          hothers
        simp [gather, hhead, htail]

end Gather

/-! ## More depth changes no answer -/

/-- The offsets of an index list, as they are read. -/
def indexItems (payload : Bytes) : Nat → Nat → List (Except Error Nat)
  | 0, _ => []
  | count + 1, pos => readU32 payload pos :: indexItems payload count (pos + 4)

theorem indexLoop_eq_gather
    (offsetsOf : Nat → Outcome (List Nat)) (payload : Bytes) (count pos : Nat) :
    indexLoop offsetsOf payload count pos = gather offsetsOf (indexItems payload count pos) := by
  induction count generalizing pos with
  | zero =>
    rfl
  | succ count ih =>
    rw [indexLoop, indexItems]
    cases readU32 payload pos with
    | error e =>
      rfl
    | ok child =>
      rw [gather]
      dsimp only
      cases offsetsOf child with
      | none =>
        rfl
      | some answer =>
        cases answer with
        | error e =>
          rfl
        | ok out =>
          dsimp only
          rw [ih]

theorem subkeyOffsets_mono
    (bytes : Bytes) {m n : Nat} {offset : Nat} {result : Except Error (List Nat)} (hle : m ≤ n)
    (h : subkeyOffsets bytes m offset = some result) :
    subkeyOffsets bytes n offset = some result := by
  induction n generalizing m offset result with
  | zero =>
    rwa [Nat.le_zero.mp hle] at h
  | succ n ih =>
    cases m with
    | zero =>
      cases h
    | succ m =>
      rw [subkeyOffsets] at h ⊢
      cases hlist : readSubkeyList bytes offset with
      | error e =>
        rwa [hlist] at h
      | ok list =>
        rw [hlist] at h
        cases list with
        | leaf offsets =>
          exact h
        | index payload count =>
          dsimp only at h ⊢
          rw [indexLoop_eq_gather] at h ⊢
          exact gather_mono (fun _ _ => ih (Nat.le_of_succ_le_succ hle)) h

theorem keyEntries_mono
    (bytes : Bytes) {m n : Nat} {offset : Nat} {result : Except Error (List Entry)} (hle : m ≤ n)
    (h : keyEntries bytes m offset = some result) :
    keyEntries bytes n offset = some result := by
  induction n generalizing m offset result with
  | zero =>
    rwa [Nat.le_zero.mp hle] at h
  | succ n ih =>
    cases m with
    | zero =>
      cases h
    | succ m =>
      have hle' := Nat.le_of_succ_le_succ hle
      rw [keyEntries] at h ⊢
      cases hkey : readKey bytes offset with
      | error e =>
        rwa [hkey] at h
      | ok key =>
        obtain ⟨nk, name⟩ := key
        rw [hkey] at h
        dsimp only at h ⊢
        cases hvalues : readValues bytes nk with
        | error e =>
          rwa [hvalues] at h
        | ok values =>
          rw [hvalues] at h
          dsimp only at h ⊢
          split at h
          next hnone =>
            rwa [if_pos hnone]
          next hsome =>
            rw [if_neg hsome]
            cases hoffsets : subkeyOffsets bytes m nk.subkeyListOffset with
            | none =>
              rw [hoffsets] at h
              cases h
            | some answer =>
              rw [hoffsets] at h
              rw [subkeyOffsets_mono bytes hle' hoffsets]
              cases answer with
              | error e =>
                exact h
              | ok offsets =>
                dsimp only at h ⊢
                obtain ⟨entries, hentries, hresult⟩ := Option.map_eq_some_iff.mp h
                rw [gather_mono (fun _ _ => ih hle') hentries]
                exact congrArg some hresult

end Regf
end Theos
