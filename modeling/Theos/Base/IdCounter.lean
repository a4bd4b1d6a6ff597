import Mathlib.Data.Set.Insert
import Mathlib.Logic.Function.Iterate
import Mathlib.Tactic.Common

/-!
# Ids from a counter

A table that takes its ids from a counter and does not look at the ids that are in use.  Ids are
new as long as the counter has not come back to an earlier value.  The counters here are
those of fixed width: one that stays at its last value, and one that starts again.
-/

namespace Theos
namespace Base

/-- The id that is handed out next, and the ids in use. -/
structure IdTable where
  next : Nat
  live : Set Nat

namespace IdTable

variable {after : Nat → Nat} {reserved : Set Nat} {start n : Nat} {t t' : IdTable}

/-- A step of a table whose counter moves on by `after`, with the id that it hands out.  Reserved
ids come into use without being handed out. -/
inductive Step (after : Nat → Nat) (reserved : Set Nat) : IdTable → Option Nat → IdTable → Prop
  | hand {t : IdTable} {live : Set Nat} (h : live ⊆ insert t.next t.live) :
      Step after reserved t (some t.next) ⟨after t.next, live⟩
  | other {t : IdTable} {live : Set Nat} (h : live ⊆ t.live ∪ reserved) :
      Step after reserved t none ⟨t.next, live⟩

theorem Step.handed_eq {id : Nat} (h : Step after reserved t (some id) t') : id = t.next := by
  cases h
  rfl

/-- A table that has handed out `n` ids: only those and reserved ones are in use. -/
structure Handed (after : Nat → Nat) (reserved : Set Nat) (start n : Nat) (t : IdTable) :
    Prop where
  next_eq : t.next = after^[n] start
  live_sub : ∀ id ∈ t.live, id ∈ reserved ∨ ∃ m < n, after^[m] start = id

theorem Handed.step {id : Option Nat} (h : Handed after reserved start n t)
    (hstep : Step after reserved t id t') :
    Handed after reserved start (n + id.toList.length) t' := by
  cases hstep with
  | hand hlive =>
    refine ⟨by rw [h.next_eq]; exact (Function.iterate_succ_apply' after n start).symm, ?_⟩
    intro id hid
    rcases hlive hid with rfl | hold
    · exact .inr ⟨n, Nat.lt_succ_self n, h.next_eq.symm⟩
    · rcases h.live_sub id hold with hreserved | ⟨m, hm, heq⟩
      · exact .inl hreserved
      · exact .inr ⟨m, hm.trans (Nat.lt_succ_self n), heq⟩
  | other hlive =>
    refine ⟨h.next_eq, fun id hid => ?_⟩
    rcases hlive hid with hold | hreserved
    · exact h.live_sub id hold
    · exact .inl hreserved

/-- An id that the counter has not had before is not in use. -/
theorem Handed.not_live (h : Handed after reserved start n t)
    (hreserved : after^[n] start ∉ reserved)
    (hnew : ∀ m < n, after^[m] start ≠ after^[n] start) :
    t.next ∉ t.live := by
  intro hlive
  rw [h.next_eq] at hlive
  rcases h.live_sub _ hlive with hmem | ⟨m, hm, heq⟩
  · exact hreserved hmem
  · exact hnew m hm heq

end IdTable

/-! ## Counters of fixed width -/

/-- `saturating_add(1)` in a type whose last value is `last`. -/
def saturatingSucc (last id : Nat) : Nat :=
  min (id + 1) last

/-- `wrapping_add(1).max(1)`. -/
def wrappingSucc (last id : Nat) : Nat :=
  max ((id + 1) % (last + 1)) 1

theorem iterate_saturatingSucc {last start : Nat} (h : start ≤ last) (n : Nat) :
    (saturatingSucc last)^[n] start = min (start + n) last := by
  induction n with
  | zero =>
    exact (Nat.min_eq_left h).symm
  | succ n ih =>
    rw [Function.iterate_succ_apply', ih, saturatingSucc]
    omega

theorem iterate_wrappingSucc {last : Nat} (h : 0 < last) (n : Nat) :
    (wrappingSucc last)^[n] 1 = n % last + 1 := by
  induction n with
  | zero =>
    rw [Nat.zero_mod]
    rfl
  | succ n ih =>
    have hlt := Nat.mod_lt n h
    rw [Function.iterate_succ_apply', ih, wrappingSucc]
    rw [← Nat.mod_add_mod n last 1]
    by_cases hend : n % last + 1 = last
    · rw [hend, Nat.mod_self, Nat.mod_self]
      rfl
    · rw [Nat.mod_eq_of_lt (show n % last + 1 + 1 < last + 1 by omega),
        Nat.mod_eq_of_lt (show n % last + 1 < last by omega)]
      omega

end Base
end Theos
