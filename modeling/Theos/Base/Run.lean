import Mathlib.Data.List.Basic

/-!
# Runs of a labelled transition system

A component of the kernel is modelled as a state type together with a step
relation labelled by the calls made on it.  This module holds what every such
component shares: finite runs, how they compose, and the rule that turns a
one-step argument into a fact about every state a run passes through.

Two ways of giving the steps occur.  A relation is used where the environment
chooses (an interleaving, an allocation that may fail), and a partial function
`σ → ι → Option σ` where the call is deterministic and `none` is a panic.
-/

namespace Theos
namespace Base

universe u v

variable {σ : Type u} {ι : Type v}

/-- The calls `ops` lead from the first state to the last, one step for each. -/
inductive Run (step : σ → ι → σ → Prop) : σ → List ι → σ → Prop
  | nil (s : σ) : Run step s [] s
  | cons {s t r : σ} {op : ι} {ops : List ι} :
      step s op t → Run step t ops r → Run step s (op :: ops) r

namespace Run

variable {step : σ → ι → σ → Prop}

/-- A single step is a run of length one. -/
theorem single {s t : σ} {op : ι}
    (h : step s op t) :
    Run step s [op] t :=
  .cons h (.nil t)

/-- Runs compose. -/
theorem append {s t r : σ} {ops ops' : List ι} (h : Run step s ops t)
    (h' : Run step t ops' r) :
    Run step s (ops ++ ops') r := by
  induction h with
  | nil =>
    exact h'
  | cons hs _ ih =>
    exact .cons hs (ih h')

/-- A run over a concatenation passes through a state between its two parts. -/
theorem split {s r : σ} {ops ops' : List ι}
    (h : Run step s (ops ++ ops') r) :
    ∃ t, Run step s ops t ∧ Run step t ops' r := by
  induction ops generalizing s with
  | nil =>
    exact ⟨s, .nil s, h⟩
  | cons op ops ih =>
    cases h with
    | cons hs ht =>
      obtain ⟨t, h₁, h₂⟩ := ih ht
      exact ⟨t, .cons hs h₁, h₂⟩

/-- **Invariant rule.**  What every step preserves, every run preserves. -/
theorem invariant {P : σ → Prop} (hstep : ∀ s op t, P s → step s op t → P t)
    {s t : σ} {ops : List ι} (h : Run step s ops t)
    (hs : P s) :
    P t := by
  induction h with
  | nil =>
    exact hs
  | cons h₁ _ ih =>
    exact ih (hstep _ _ _ hs h₁)

/-- A weaker step relation has at least the same runs. -/
theorem mono {step' : σ → ι → σ → Prop} (hstep : ∀ s op t, step s op t → step' s op t)
    {s t : σ} {ops : List ι}
    (h : Run step s ops t) :
    Run step' s ops t := by
  induction h with
  | nil s =>
    exact .nil s
  | cons h₁ _ ih =>
    exact .cons (hstep _ _ _ h₁) ih

end Run

/-- A deterministic step, `none` being a call that does not return. -/
def Det (f : σ → ι → Option σ) : σ → ι → σ → Prop :=
  fun s op t => f s op = some t

/-- Evaluate a whole list of deterministic calls. -/
def runAll (f : σ → ι → Option σ) : σ → List ι → Option σ
  | s, [] => some s
  | s, op :: ops =>
    match f s op with
    | none => none
    | some t => runAll f t ops

/-- Evaluating a list of calls and running them as steps is the same thing. -/
theorem runAll_eq_some_iff (f : σ → ι → Option σ) (ops : List ι)
    (s t : σ) :
    runAll f s ops = some t ↔ Run (Det f) s ops t := by
  induction ops generalizing s with
  | nil =>
    constructor
    · intro h
      rw [← Option.some.inj h]
      exact .nil s
    · intro h
      cases h
      rfl
  | cons op ops ih =>
    constructor
    · intro h
      cases hf : f s op with
      | none =>
        simp [runAll, hf] at h
      | some r =>
        simp only [runAll, hf] at h
        exact .cons hf ((ih r).mp h)
    · intro h
      cases h with
      | cons h₁ h₂ =>
        have hf : f s op = some _ := h₁
        simp only [runAll, hf]
        exact (ih _).mpr h₂

/-- The calls that are made only when `g` holds of the state before them. -/
def guarded (g : σ → ι → Prop) [∀ s op, Decidable (g s op)]
    (f : σ → ι → Option σ) : σ → ι → Option σ :=
  fun s op => if g s op then f s op else none

theorem guarded_eq_some_iff {g : σ → ι → Prop} [∀ s op, Decidable (g s op)] {f : σ → ι → Option σ}
    {s t : σ} {op : ι} :
    guarded g f s op = some t ↔ g s op ∧ f s op = some t := by
  by_cases hg : g s op
  · simp [guarded, hg]
  · simp [guarded, hg]

/-- Evaluating guarded calls gives a run in which every guard holds. -/
theorem run_of_guarded {g : σ → ι → Prop} [∀ s op, Decidable (g s op)] {f : σ → ι → Option σ}
    {s t : σ} {ops : List ι}
    (h : runAll (guarded g f) s ops = some t) :
    Run (fun s op t => g s op ∧ f s op = some t) s ops t :=
  ((runAll_eq_some_iff _ ops s t).mp h).mono fun _ _ _ => guarded_eq_some_iff.mp

/-- Deterministic calls that each meet a condition make a run of such calls. -/
theorem run_of_runAll_of_forall {g : σ → ι → Prop} {f : σ → ι → Option σ} (ops : List ι) {s t : σ}
    (hrun : runAll f s ops = some t)
    (hg : ∀ k op r, ops[k]? = some op → runAll f s (ops.take k) = some r → g r op) :
    Run (fun s op t => g s op ∧ f s op = some t) s ops t := by
  induction ops generalizing s with
  | nil =>
    cases hrun
    exact .nil _
  | cons op ops ih =>
    simp only [runAll] at hrun
    cases hstep : f s op with
    | none =>
      simp [hstep] at hrun
    | some r =>
      simp only [hstep] at hrun
      refine .cons ⟨hg 0 op s rfl rfl, hstep⟩ (ih hrun fun k op' r' hop hr => ?_)
      exact hg (k + 1) op' r' hop (by simpa [runAll, hstep] using hr)

end Base
end Theos
