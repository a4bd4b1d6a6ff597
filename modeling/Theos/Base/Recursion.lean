import Mathlib.Data.Fintype.Card
import Mathlib.Data.Set.Finite.Basic
import Mathlib.Logic.Relation

/-!
# Recursions that may not end

A recursive function is unfolded to a given depth, and ends on an argument if
some depth is enough.  It then ends exactly on the arguments from which there
is no infinite chain of calls; and when only finitely many arguments can come
up, an infinite chain is one that meets an argument twice.
-/

namespace Theos
namespace Base

open Relation

universe u

variable {α : Type u} {r : α → α → Prop}

/-- A function ends on an argument exactly if there is no infinite chain of calls
from it.  `ends n a` says that depth `n` is enough for `a`. -/
theorem ends_iff_acc (ends : Nat → α → Prop) (hzero : ∀ a, ¬ ends 0 a)
    (hcalls : ∀ n a, ends (n + 1) a → ∀ b, r a b → ends n b)
    (hends : ∀ a, (∀ b, r a b → ∃ n, ends n b) → ∃ n, ends n a)
    (a : α) :
    (∃ n, ends n a) ↔ Acc (Function.swap r) a := by
  constructor
  · rintro ⟨n, hn⟩
    induction n generalizing a with
    | zero =>
      exact absurd hn (hzero a)
    | succ n ih =>
      exact .intro a fun b hb => ih b (hcalls n a hn b hb)
  · intro hacc
    induction hacc with
    | intro a _ ih =>
      exact hends a ih

/-- No argument below an accessible one is called from itself. -/
theorem not_transGen_of_acc {a : α}
    (h : Acc (Function.swap r) a) :
    ¬ TransGen r a a := by
  induction h with
  | intro a _ ih =>
    intro hcycle
    obtain ⟨b, hb, hback⟩ := TransGen.head'_iff.mp hcycle
    exact ih b hb (TransGen.tail' hback hb)

/-- With finitely many reachable arguments, the chains of calls are finite exactly if
no reachable argument is called from itself. -/
theorem acc_iff_no_cycle {a : α}
    (hfinite : {b | ReflTransGen r a b}.Finite) :
    Acc (Function.swap r) a ↔ ∀ b, ReflTransGen r a b → ¬ TransGen r b b := by
  constructor
  · intro hacc b hb
    have hbelow : Acc (Function.swap r) b := by
      induction hb with
      | refl =>
        exact hacc
      | tail _ hstep ih =>
        exact ih.inv hstep
    exact not_transGen_of_acc hbelow
  · intro hcycle
    let Reached : Type u := {b // ReflTransGen r a b}
    have : Finite Reached := hfinite
    let after : Reached → Reached → Prop := fun b c => TransGen r c.1 b.1
    have : IsTrans Reached after := ⟨fun _ _ _ h₁ h₂ => h₂.trans h₁⟩
    have : Std.Irrefl after := ⟨fun b => hcycle b.1 b.2⟩
    have hwf : WellFounded after := Finite.wellFounded_of_trans_of_irrefl after
    have hall : ∀ b : Reached, Acc (Function.swap r) b.1 := by
      intro b
      induction b using hwf.induction with
      | _ b ih =>
        exact .intro b.1 fun c hc => ih ⟨c, b.2.tail hc⟩ (.single hc)
    exact hall ⟨a, .refl⟩

end Base
end Theos
