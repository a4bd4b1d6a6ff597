import Theos.Base.Writes

/-!
# Storage that is written and read at offsets

A disk, a file that grows when something is written behind its end, or a buffer: what has been
written is read back from then on, in any parts, until another write meets it.  Reads and writes
may fail, and what a range holds before anything is written to it is left open.
-/

namespace Theos
namespace Base

universe u v w

structure Storage (σ : Type u) (ε : Type v) (α : Type w) where
  read : σ → Nat → Nat → Except ε (List α)
  write : σ → Nat → List α → Except ε σ
  length_read : ∀ {s off len data}, read s off len = .ok data → data.length = len
  read_append : ∀ {s off m n first second},
    read s off m = .ok first → read s (off + m) n = .ok second →
    read s off (m + n) = .ok (first ++ second)
  read_inside : ∀ {s s' off data}, write s off data = .ok s' →
    ∀ {off' len}, off' + len ≤ data.length → read s' (off + off') len = .ok (slice data off' len)
  read_outside : ∀ {s s' off data}, write s off data = .ok s' →
    ∀ {off' len data'}, off' + len ≤ off ∨ off + data.length ≤ off' →
    read s off' len = .ok data' → read s' off' len = .ok data'

namespace Storage

variable {σ : Type u} {ε : Type v} {α : Type w}

section Laws

variable (st : Storage σ ε α)

/-- One write after the other. -/
def writes : σ → List (Write α) → Except ε σ
  | s, [] => .ok s
  | s, w :: ws =>
    match st.write s w.off w.data with
    | .ok s => writes s ws
    | .error e => .error e

/-- Every part of what was written can be read. -/
def Has (s : σ) (w : Write α) : Prop :=
  ∀ off len, off + len ≤ w.data.length → st.read s (w.off + off) len = .ok (slice w.data off len)

end Laws

variable {st : Storage σ ε α} {s s' : σ}

theorem writes_cons_eq_ok
    {w : Write α} {ws : List (Write α)} :
    st.writes s (w :: ws) = .ok s' ↔
      ∃ s₁, st.write s w.off w.data = .ok s₁ ∧ st.writes s₁ ws = .ok s' := by
  rw [writes]
  split
  next s₁ hs₁ =>
    simp [hs₁]
  next e he =>
    simp [he]

theorem writes_append_eq_ok
    {first second : List (Write α)} :
    st.writes s (first ++ second) = .ok s' ↔
      ∃ s₁, st.writes s first = .ok s₁ ∧ st.writes s₁ second = .ok s' := by
  induction first generalizing s with
  | nil =>
    simp [writes]
  | cons w first ih =>
    simp only [List.cons_append, writes_cons_eq_ok, ih]
    constructor
    · rintro ⟨s₁, hw, s₂, hfirst, hsecond⟩
      exact ⟨s₂, ⟨s₁, hw, hfirst⟩, hsecond⟩
    · rintro ⟨s₂, ⟨s₁, hw, hfirst⟩, hsecond⟩
      exact ⟨s₁, hw, s₂, hfirst, hsecond⟩

theorem Has.read {w : Write α}
    (h : st.Has s w) :
    st.read s w.off w.data.length = .ok w.data := by
  have hall := h 0 w.data.length (by omega)
  rwa [Nat.add_zero, slice, List.drop_zero, List.take_length] at hall

theorem has_of_write {w : Write α}
    (h : st.write s w.off w.data = .ok s') :
    st.Has s' w :=
  fun _ _ => st.read_inside h

/-- A write that does not meet it leaves it there. -/
theorem Has.write {w w' : Write α} (h : st.Has s w) (hwrite : st.write s w'.off w'.data = .ok s')
    (hmisses : w'.Misses w.off w.data.length) :
    st.Has s' w := by
  intro off len hlen
  refine st.read_outside hwrite ?_ (h off len hlen)
  rcases hmisses with hmisses | hmisses
  · exact Or.inl (by omega)
  · rw [Write.stop] at hmisses
    exact Or.inr (by omega)

theorem Has.writes {w : Write α} {ws : List (Write α)} (h : st.Has s w)
    (hwrites : st.writes s ws = .ok s')
    (hmisses : ∀ w' ∈ ws, w'.Misses w.off w.data.length) :
    st.Has s' w := by
  induction ws generalizing s with
  | nil =>
    cases hwrites
    exact h
  | cons w' ws ih =>
    obtain ⟨s₁, hw', hws⟩ := writes_cons_eq_ok.mp hwrites
    obtain ⟨hmiss, hmisses⟩ := List.forall_mem_cons.mp hmisses
    exact ih (h.write hw' hmiss) hws hmisses

/-- A part of what can be read. -/
theorem Has.part {w : Write α} (h : st.Has s w) {off len : Nat}
    (hlen : off + len ≤ w.data.length) :
    st.Has s ⟨w.off + off, slice w.data off len⟩ := by
  intro off' len' hlen'
  have hlength : (slice w.data off len).length = len := length_slice hlen
  dsimp only at hlen' ⊢
  rw [hlength] at hlen'
  rw [Nat.add_assoc, h _ _ (by omega), slice_slice hlen']

end Storage

end Base
end Theos
