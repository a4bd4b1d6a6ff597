import Mathlib.Data.List.Basic
import Mathlib.Logic.Function.Basic
import Theos.Kernel.Nt

/-!
# Consistency of the object table

A name leads to an object exactly when that object carries the name, and the
type of an object is that of its data.  Every operation of the object manager
keeps this, provided that the id it gives to a new object is not in use.
-/

namespace Theos
namespace Kernel
namespace Nt
namespace ObjectManager

open Base

/-- The reference counts of a table. -/
def refs (m : ObjectManager) (id : Nat) : Option Nat :=
  (m.objects id).map (·.refs)

/-- Names and objects agree. -/
structure WellFormed (m : ObjectManager) : Prop where
  named_iff : ∀ name id, m.named.lookup name = some id ↔
    ∃ record, m.objects id = some record ∧ record.name = some name
  typed : ∀ id record, m.objects id = some record →
    record.objectType = objectTypeOf record.data

theorem refs_of_some {m : ObjectManager} {id : Nat} {record : ObjectRecord}
    (h : m.objects id = some record) :
    m.refs id = some record.refs := by
  simp [refs, h]

@[simp]
theorem objects_setRecord_self
    (m : ObjectManager) (id : Nat) (record : ObjectRecord) :
    (m.setRecord id record).objects id = some record := by
  simp [setRecord]

theorem objects_setRecord_of_ne (m : ObjectManager) {id x : Nat} (record : ObjectRecord)
    (h : x ≠ id) :
    (m.setRecord id record).objects x = m.objects x := by
  simp [setRecord, h]

/-! ## Lookups in the table of names -/

-- `List.lookup_cons` is a match on `==`; the proofs below split on the equality itself.
theorem lookup_cons_ite
    (name : Path) (entry : Path × Nat) (named : List (Path × Nat)) :
    List.lookup name (entry :: named) =
      if name = entry.1 then some entry.2 else named.lookup name := by
  by_cases h : name = entry.1
  · rw [if_pos h, h, List.lookup_cons_self]
  · rw [if_neg h, List.lookup_cons, beq_eq_false_iff_ne.mpr h]

/-- Removing a name removes it and no other. -/
theorem lookup_filter_ne
    (name removed : Path) (named : List (Path × Nat)) :
    List.lookup name (named.filter fun entry => entry.1 ≠ removed) =
      if name = removed then none else named.lookup name := by
  induction named with
  | nil =>
    simp
  | cons entry named ih =>
    by_cases hentry : entry.1 = removed
    · rw [List.filter_cons_of_neg (by simpa using hentry), ih, lookup_cons_ite, hentry]
      by_cases hname : name = removed <;> simp [hname]
    · rw [List.filter_cons_of_pos (by simpa using hentry), lookup_cons_ite, lookup_cons_ite, ih]
      by_cases hname : name = entry.1
      · simp [hname, hentry]
      · simp [hname]

/-! ## Preservation -/

namespace WellFormed

variable {m : ObjectManager}

/-- A record may change if it keeps its name and a type that fits its data. -/
theorem setRecord (h : m.WellFormed) {id : Nat} {record record' : ObjectRecord}
    (hid : m.objects id = some record) (hname : record'.name = record.name)
    (htype : record'.objectType = objectTypeOf record'.data) :
    (m.setRecord id record').WellFormed := by
  constructor
  · intro name x
    refine (h.named_iff name x).trans ?_
    by_cases hx : x = id
    · subst hx
      simp [hid, hname]
    · rw [objects_setRecord_of_ne _ _ hx]
  · intro x r hr
    by_cases hx : x = id
    · subst hx
      rw [objects_setRecord_self, Option.some_inj] at hr
      rw [← hr]
      exact htype
    · rw [objects_setRecord_of_ne _ _ hx] at hr
      exact h.typed x r hr

/-- A new object without a name. -/
theorem insertUnnamed (h : m.WellFormed) (hfree : m.objects m.nextId = none)
    (data : ObjectData) :
    (m.insertUnnamed data).2.WellFormed := by
  constructor
  · intro name x
    refine (h.named_iff name x).trans ?_
    by_cases hx : x = m.nextId
    · subst hx
      simp [ObjectManager.insertUnnamed, hfree]
    · simp [ObjectManager.insertUnnamed, hx]
  · intro x r hr
    by_cases hx : x = m.nextId
    · subst hx
      simp only [ObjectManager.insertUnnamed, Function.update_self, Option.some_inj] at hr
      subst hr
      rfl
    · simp only [ObjectManager.insertUnnamed, Function.update_of_ne hx] at hr
      exact h.typed x r hr

/-- A new object under a name that was not taken. -/
theorem createNamed (h : m.WellFormed) (hfree : m.objects m.nextId = none)
    (name : Path) (data : ObjectData) :
    (m.createNamed name data).2.WellFormed := by
  rw [ObjectManager.createNamed]
  cases htaken : m.named.lookup (canonicalizeNtPath name) with
  | some id =>
    exact h
  | none =>
    constructor
    · intro other x
      rw [lookup_cons_ite]
      by_cases hx : x = m.nextId
      · subst hx
        have hnot : m.named.lookup other ≠ some m.nextId := by
          intro hother
          obtain ⟨r, hr, -⟩ := (h.named_iff other m.nextId).mp hother
          rw [hfree] at hr
          exact absurd hr (by simp)
        by_cases hother : other = canonicalizeNtPath name
        · simp [hother]
        · simp [hother, hnot, Ne.symm hother]
      · by_cases hother : other = canonicalizeNtPath name
        · subst hother
          have hnone : ¬ ∃ r, m.objects x = some r ∧
              r.name = some (canonicalizeNtPath name) := by
            rw [← h.named_iff, htaken]
            simp
          have hne : m.nextId ≠ x := Ne.symm hx
          simpa [hx, hne] using hnone
        · simpa [hother, hx] using h.named_iff other x
    · intro x r hr
      by_cases hx : x = m.nextId
      · subst hx
        simp only [Function.update_self, Option.some_inj] at hr
        subst hr
        rfl
      · simp only [Function.update_of_ne hx] at hr
        exact h.typed x r hr

/-- Removing an object together with its name. -/
theorem release (h : m.WellFormed)
    (id : Nat) :
    (m.release id).2.WellFormed := by
  rw [ObjectManager.release]
  cases hid : m.objects id with
  | none =>
    exact h
  | some record =>
    by_cases hrefs : 1 < record.refs
    · simp only [hrefs, if_true]
      exact h.setRecord hid rfl (h.typed id record hid)
    simp only [hrefs, if_false]
    constructor
    · intro name x
      by_cases hx : x = id
      · subst hx
        simp only [Function.update_self, reduceCtorEq, false_and, exists_false, iff_false]
        -- a name that led to the removed object was its own name
        intro hname
        have hstill : m.named.lookup name = some x := by
          cases hrecord : record.name with
          | none =>
            simpa [hrecord] using hname
          | some own =>
            rw [hrecord] at hname
            simp only [lookup_filter_ne] at hname
            by_cases hown : name = own
            · simp [hown] at hname
            · simpa [hown] using hname
        obtain ⟨r, hr, hcarries⟩ := (h.named_iff name x).mp hstill
        obtain rfl : record = r := Option.some.inj (hid.symm.trans hr)
        rw [hcarries] at hname
        simp only [lookup_filter_ne, if_true, reduceCtorEq] at hname
      · simp only [Function.update_of_ne hx]
        rw [← h.named_iff name x]
        cases hrecord : record.name with
        | none =>
          rfl
        | some own =>
          simp only [lookup_filter_ne]
          by_cases hown : name = own
          · subst hown
            have hother : m.named.lookup name ≠ some x := by
              have hown := (h.named_iff name id).mpr ⟨record, hid, hrecord⟩
              rw [hown, ne_eq, Option.some_inj]
              exact fun he => hx he.symm
            simp [hother]
          · simp [hown]
    · intro x r hr
      by_cases hx : x = id
      · subst hx
        simp at hr
      · simp only [Function.update_of_ne hx] at hr
        exact h.typed x r hr

end WellFormed

/-- The empty table is well formed. -/
theorem wellFormed_new : ObjectManager.new.WellFormed := by
  constructor
  · intro name id
    simp [ObjectManager.new]
  · intro id record h
    simp [ObjectManager.new] at h

/-- Once there is a namespace, `init_namespace` does nothing. -/
theorem initNamespace_of_named {m : ObjectManager} {name : Path} {id : Nat}
    (h : m.named.lookup name = some id) :
    m.initNamespace = m := by
  rw [initNamespace]
  cases hnamed : m.named with
  | nil =>
    rw [hnamed] at h
    simp at h
  | cons entry rest =>
    rfl

/-! ## Releasing and signalling one object -/

theorem objects_release_of_ne (m : ObjectManager) {id x : Nat}
    (h : x ≠ id) :
    (m.release id).2.objects x = m.objects x := by
  rw [release]
  split
  · rfl
  · split
    · exact objects_setRecord_of_ne _ _ h
    · exact Function.update_of_ne h _ _

theorem objects_release_of_lt {m : ObjectManager} {id : Nat} {record : ObjectRecord}
    (hid : m.objects id = some record)
    (h : 1 < record.refs) :
    (m.release id).2.objects id = some { record with refs := record.refs - 1 } := by
  simp [release, hid, h]

theorem nextId_release
    (m : ObjectManager) (id : Nat) :
    (m.release id).2.nextId = m.nextId := by
  rw [release]
  split
  · rfl
  · split <;> rfl

end ObjectManager
end Nt
end Kernel
end Theos
