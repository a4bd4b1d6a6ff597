import Mathlib.Algebra.Order.BigOperators.Group.Finset
import Mathlib.Data.Finset.Basic
import Mathlib.Logic.Function.Basic
import Mathlib.Tactic

/-!
# Deficit round robin

A rotor serves `n` slots in turn.  Each slot has a deficit, which is what it may
still use before the next refill.  A turn serves the first slot from the cursor
on that is ready and has deficit left.  When there is none, the deficits of all
ready slots are refilled by their quanta, and the turn serves the first slot of
the refilled rotor.

The result is a measure, `wait`, of how often a slot that stays ready can be
passed over: every turn that serves another slot decreases it, and it never
exceeds the quanta of the other slots plus `n - 1`.
-/

namespace Theos
namespace Base

structure Rotor where
  cursor : Nat
  deficit : Nat → Int

namespace Rotor

variable {n : Nat}
variable {quantum : Nat → Int}
variable {ready : Nat → Prop}
variable {r r₁ : Rotor}

/-- The slot `o` places after the cursor. -/
def slot (n : Nat) (r : Rotor)
    (o : Nat) : Nat :=
  (r.cursor + o) % n

/-- A slot that can be served without a refill. -/
def Eligible (ready : Nat → Prop) (r : Rotor)
    (i : Nat) : Prop :=
  0 < r.deficit i ∧ ready i

/-- The first eligible slot from the cursor on is `o` places away. -/
structure FirstAt
    (n : Nat)
    (ready : Nat → Prop)
    (r : Rotor)
    (o : Nat) : Prop where
  lt : o < n
  eligible : r.Eligible ready (r.slot n o)
  before : ∀ j < o, ¬ r.Eligible ready (r.slot n j)

/-- Every ready slot gets its quantum, up to two quanta in all. -/
structure Refills
    (n : Nat)
    (quantum : Nat → Int)
    (ready : Nat → Prop)
    (r r₁ : Rotor) : Prop where
  cursor_eq : r₁.cursor = r.cursor
  of_ready : ∀ i < n, ready i →
    r₁.deficit i = min (max (r.deficit i) 0 + quantum i) (quantum i * 2)
  of_not_ready : ∀ i < n, ¬ ready i → r₁.deficit i = r.deficit i

/-- A turn chooses the slot `o` places after the cursor, out of the rotor as it
is or, when no slot is eligible, out of the refilled one. -/
inductive Turn
    (n : Nat)
    (quantum : Nat → Int)
    (ready : Nat → Prop)
    (r : Rotor) : Nat → Rotor → Prop
  | direct
      {o : Nat}
      (hfirst : FirstAt n ready r o) :
      Turn n quantum ready r o r
  | refilled
      {o : Nat}
      {r₁ : Rotor}
      (hidle : ∀ i < n, ¬ r.Eligible ready i)
      (hrefill : Refills n quantum ready r r₁)
      (hfirst : FirstAt n ready r₁ o) :
      Turn n quantum ready r o r₁

/-- Serve slot `i`: the cursor moves past it and its deficit drops by one. -/
def serve (n : Nat) (r : Rotor)
    (i : Nat) : Rotor where
  cursor := (i + 1) % n
  deficit := Function.update r.deficit i (r.deficit i - 1)

/-- No deficit exceeds its quantum. -/
structure Bounded
    (n : Nat)
    (quantum : Nat → Int)
    (r : Rotor) : Prop where
  cursor_lt : r.cursor < n
  deficit_le : ∀ i < n, r.deficit i ≤ quantum i

/-- How many places the cursor is away from slot `c`. -/
def distance (n : Nat) (r : Rotor)
    (c : Nat) : Nat :=
  (c + n - r.cursor) % n

/-- How often slot `c` can still be passed over while it is ready. -/
def wait (n : Nat) (r : Rotor)
    (c : Nat) : Nat :=
  if 0 < r.deficit c then r.distance n c
  else ∑ i ∈ (Finset.range n).erase c, (r.deficit i).toNat + (n - 1)

/-- Two rotors that agree on the `n` slots. -/
structure Agree
    (n : Nat)
    (r r₁ : Rotor) : Prop where
  cursor_eq : r.cursor = r₁.cursor
  deficit_eq : ∀ i < n, r.deficit i = r₁.deficit i

theorem Agree.wait_eq {c : Nat} (h : Agree n r r₁)
    (hc : c < n) :
    r.wait n c = r₁.wait n c := by
  have hsum :
      ∑ i ∈ (Finset.range n).erase c, (r.deficit i).toNat =
        ∑ i ∈ (Finset.range n).erase c, (r₁.deficit i).toNat := by
    refine Finset.sum_congr rfl ?_
    intro i hi
    rw [h.deficit_eq i (by simpa using (Finset.mem_erase.mp hi).2)]
  simp only [wait, distance, h.cursor_eq, h.deficit_eq c hc, hsum]

theorem Agree.bounded (h : Agree n r r₁)
    (hbound : Bounded n quantum r₁) :
    Bounded n quantum r :=
  ⟨h.cursor_eq ▸ hbound.cursor_lt, fun i hi => h.deficit_eq i hi ▸ hbound.deficit_le i hi⟩

/-! ## Positions -/

theorem distance_lt {c : Nat}
    (hc : c < n) :
    r.distance n c < n :=
  Nat.mod_lt _ (by omega)

theorem distance_eq {o : Nat} (hcursor : r.cursor < n)
    (ho : o < n) :
    r.distance n (r.slot n o) = o := by
  simp only [distance, slot]
  by_cases hwrap : r.cursor + o < n
  · rw [Nat.mod_eq_of_lt hwrap]
    have hshift : r.cursor + o + n - r.cursor = o + n := by omega
    rw [hshift, Nat.add_mod_right, Nat.mod_eq_of_lt ho]
  · have hmod : (r.cursor + o) % n = r.cursor + o - n := by
      rw [Nat.mod_eq_sub_mod (by omega), Nat.mod_eq_of_lt (by omega)]
    have hshift : r.cursor + o - n + n - r.cursor = o := by omega
    rw [hmod, hshift, Nat.mod_eq_of_lt ho]

theorem slot_distance {c : Nat} (hcursor : r.cursor < n)
    (hc : c < n) :
    r.slot n (r.distance n c) = c := by
  simp only [distance, slot, Nat.add_mod_mod]
  have hshift : r.cursor + (c + n - r.cursor) = c + n := by omega
  rw [hshift, Nat.add_mod_right, Nat.mod_eq_of_lt hc]

/-- Serving a slot before `c` brings the cursor nearer to `c`. -/
theorem distance_serve_slot {c o : Nat} (hcursor : r.cursor < n) (hc : c < n)
    (ho : o < r.distance n c) :
    (r.serve n (r.slot n o)).distance n c = r.distance n c - (o + 1) := by
  have hlt : r.distance n c < n := distance_lt hc
  have hslot :
      (r.serve n (r.slot n o)).slot n (r.distance n c - (o + 1)) = c := by
    have hshift : r.cursor + o + 1 + (r.distance n c - (o + 1)) =
        r.cursor + r.distance n c := by omega
    simp only [slot, serve, Nat.mod_add_mod, hshift]
    exact slot_distance hcursor hc
  have hserved : (r.serve n (r.slot n o)).cursor < n := Nat.mod_lt _ (by omega)
  have heq := distance_eq hserved (show r.distance n c - (o + 1) < n by omega)
  rwa [hslot] at heq

/-! ## One turn -/

theorem FirstAt.lt_distance {c o : Nat} (hfirst : FirstAt n ready r o) (hcursor : r.cursor < n)
    (hc : c < n) (helig : r.Eligible ready c)
    (hother : r.slot n o ≠ c) :
    o < r.distance n c := by
  have hslot : r.slot n (r.distance n c) = c := slot_distance hcursor hc
  rcases Nat.lt_trichotomy o (r.distance n c) with hlt | heq | hgt
  · exact hlt
  · exact absurd (heq ▸ hslot) hother
  · exact absurd (hslot.symm ▸ helig) (hfirst.before _ hgt)

theorem FirstAt.wait_serve_lt {c o : Nat} (hfirst : FirstAt n ready r o) (hcursor : r.cursor < n)
    (hc : c < n) (helig : r.Eligible ready c)
    (hother : r.slot n o ≠ c) :
    (r.serve n (r.slot n o)).wait n c < r.distance n c := by
  have hlt := hfirst.lt_distance hcursor hc helig hother
  have hdef : (r.serve n (r.slot n o)).deficit c = r.deficit c :=
    Function.update_of_ne (Ne.symm hother) _ _
  rw [wait, if_pos (hdef ▸ helig.1), distance_serve_slot hcursor hc hlt]
  omega

/-- Serving another slot uses up one unit of the others' deficits. -/
theorem wait_serve_lt_of_deficit_le {c i : Nat} (hi : i < n) (hother : i ≠ c)
    (hpos : 0 < r.deficit i)
    (hc : r.deficit c ≤ 0) :
    (r.serve n i).wait n c < r.wait n c := by
  have hdef : (r.serve n i).deficit c = r.deficit c :=
    Function.update_of_ne (Ne.symm hother) _ _
  have hsum :
      ∑ j ∈ (Finset.range n).erase c, ((r.serve n i).deficit j).toNat <
        ∑ j ∈ (Finset.range n).erase c, (r.deficit j).toNat := by
    refine Finset.sum_lt_sum ?_ ⟨i, ?_, ?_⟩
    · intro j _
      by_cases hj : j = i
      · subst hj
        simp only [serve, Function.update_self]
        omega
      · simp only [serve, Function.update_of_ne hj, le_refl]
    · simp [hother, hi]
    · simp only [serve, Function.update_self]
      omega
  rw [wait, wait, if_neg (by omega), if_neg (by omega)]
  omega

theorem Refills.deficit_eq_quantum {i : Nat} (hrefill : Refills n quantum ready r r₁) (hi : i < n)
    (hquantum : 0 < quantum i) (hready : ready i)
    (hidle : ¬ r.Eligible ready i) :
    r₁.deficit i = quantum i := by
  have hle : r.deficit i ≤ 0 := by
    by_contra hpos
    exact hidle ⟨by omega, hready⟩
  rw [hrefill.of_ready i hi hready]
  omega

/-- A turn that passes over the ready slot `c` brings its own turn nearer. -/
theorem Turn.wait_lt {c o : Nat} (hturn : Turn n quantum ready r o r₁) (hcursor : r.cursor < n)
    (hquantum : ∀ i < n, 0 < quantum i) (hc : c < n) (hready : ready c)
    (hother : r₁.slot n o ≠ c) :
    (r₁.serve n (r₁.slot n o)).wait n c < r.wait n c := by
  cases hturn with
  | direct hfirst =>
    by_cases hpos : 0 < r.deficit c
    · have hlt := hfirst.wait_serve_lt hcursor hc ⟨hpos, hready⟩ hother
      rwa [wait.eq_1 n r, if_pos hpos]
    · exact wait_serve_lt_of_deficit_le (Nat.mod_lt _ (by omega)) hother
        hfirst.eligible.1 (by omega)
  | refilled hidle hrefill hfirst =>
    have hpos : 0 < r₁.deficit c := by
      rw [hrefill.deficit_eq_quantum hc (hquantum c hc) hready (hidle c hc)]
      exact hquantum c hc
    have hlt := hfirst.wait_serve_lt (hrefill.cursor_eq ▸ hcursor) hc ⟨hpos, hready⟩ hother
    have hdist : r₁.distance n c < n := distance_lt hc
    have hnot : ¬ 0 < r.deficit c := fun h => hidle c hc ⟨h, hready⟩
    rw [wait.eq_1 n r, if_neg hnot]
    omega

/-- A turn keeps the deficits within the quanta. -/
theorem Turn.bounded {o : Nat} (hturn : Turn n quantum ready r o r₁)
    (hquantum : ∀ i < n, 0 < quantum i)
    (hbound : Bounded n quantum r) :
    Bounded n quantum (r₁.serve n (r₁.slot n o)) := by
  have hn : 0 < n := lt_of_le_of_lt (Nat.zero_le _) hbound.cursor_lt
  have hle : ∀ i < n, r₁.deficit i ≤ quantum i := by
    intro i hi
    cases hturn with
    | direct =>
      exact hbound.deficit_le i hi
    | refilled hidle hrefill =>
      by_cases hready : ready i
      · exact le_of_eq
          (hrefill.deficit_eq_quantum hi (hquantum i hi) hready (hidle i hi))
      · rw [hrefill.of_not_ready i hi hready]
        exact hbound.deficit_le i hi
  refine ⟨Nat.mod_lt _ hn, ?_⟩
  intro i hi
  have := hle i hi
  by_cases hslot : i = r₁.slot n o
  · simp only [serve, ← hslot, Function.update_self]
    omega
  · simpa only [serve, Function.update_of_ne hslot]

/-! ## The bound -/

theorem Bounded.wait_le {c : Nat} (hbound : Bounded n quantum r) (hquantum : ∀ i < n, 0 < quantum i)
    (hc : c < n) :
    (r.wait n c : Int) ≤ ∑ i ∈ (Finset.range n).erase c, quantum i + (n - 1) := by
  have hnonneg : 0 ≤ ∑ i ∈ (Finset.range n).erase c, quantum i := by
    refine Finset.sum_nonneg ?_
    intro i hi
    exact (hquantum i (by simpa using (Finset.mem_erase.mp hi).2)).le
  by_cases hpos : 0 < r.deficit c
  · have hlt : r.distance n c < n := distance_lt hc
    rw [wait, if_pos hpos]
    omega
  · have hsum :
        ((∑ i ∈ (Finset.range n).erase c, (r.deficit i).toNat : Nat) : Int) ≤
          ∑ i ∈ (Finset.range n).erase c, quantum i := by
      rw [Nat.cast_sum]
      refine Finset.sum_le_sum ?_
      intro i hi
      have hlt : i < n := by simpa using (Finset.mem_erase.mp hi).2
      have hle := hbound.deficit_le i hlt
      have hq := hquantum i hlt
      omega
    rw [wait, if_neg hpos]
    omega

end Rotor

end Base
end Theos
