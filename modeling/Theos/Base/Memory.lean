import Theos.Base.Storage
import Mathlib.Data.List.Nodup

/-!
# Memory

A memory holds an element at every address.  It is a storage in which every read and every
write succeeds, so what has been stored is fetched again until another store meets it.

Two functions on addresses, such as the pointers in a memory, make a ring of a list of
addresses if the one goes through it from its head back to the head, and the other one back.
-/

namespace Theos
namespace Base

universe u

variable {α : Type u}

/-- The elements at `len` addresses from `off` on. -/
def fetch (m : Nat → α) (off len : Nat) : List α :=
  (List.range len).map fun i => m (off + i)

/-- The memory after a store. -/
def store (m : Nat → α) (off : Nat) (data : List α) : Nat → α :=
  fun a => if off ≤ a then data[a - off]?.getD (m a) else m a

/-- One store after the other. -/
def storeAll : (Nat → α) → List (Write α) → Nat → α
  | m, [] => m
  | m, w :: ws => storeAll (store m w.off w.data) ws

theorem storeAll_append
    (m : Nat → α) (first second : List (Write α)) :
    storeAll m (first ++ second) = storeAll (storeAll m first) second := by
  induction first generalizing m with
  | nil =>
    rfl
  | cons w first ih =>
    exact ih (store m w.off w.data)

theorem store_nil
    (m : Nat → α) (off : Nat) :
    store m off [] = m := by
  funext a
  simp [store]

/-- A store into a range that has been stored. -/
theorem store_store {buf data : List α} {off : Nat}
    (m : Nat → α) (base : Nat)
    (h : off + data.length ≤ buf.length) :
    store (store m base buf) (base + off) data = store m base (splice buf off data) := by
  funext a
  rw [store, store, store]
  by_cases hbase : base ≤ a
  · rw [if_pos hbase, if_pos hbase, getElem?_splice h]
    by_cases hoff : base + off ≤ a
    · rw [if_pos hoff, Nat.sub_add_eq]
      by_cases hend : a - base < off + data.length
      · rw [if_pos ⟨by omega, hend⟩, List.getElem?_eq_getElem (by omega)]
        rfl
      · rw [if_neg (fun hin => hend hin.2), List.getElem?_eq_none (by omega)]
        rfl
    · rw [if_neg hoff, if_neg (fun hin => hoff (by omega))]
  · rw [if_neg (by omega), if_neg hbase, if_neg hbase]

/-- Two stores next to each other. -/
theorem store_append
    (m : Nat → α) (off : Nat) (first second : List α) :
    store (store m off first) (off + first.length) second = store m off (first ++ second) := by
  funext a
  rw [store, store, store]
  by_cases hoff : off ≤ a
  · rw [if_pos hoff, if_pos hoff, List.getElem?_append]
    by_cases hfirst : a - off < first.length
    · rw [if_neg (by omega), if_pos hfirst]
    · rw [if_pos (by omega), if_neg hfirst, List.getElem?_eq_none (Nat.le_of_not_lt hfirst),
        Nat.sub_add_eq]
      rfl
  · rw [if_neg (by omega), if_neg hoff, if_neg hoff]

theorem store_apply_inside {data : List α} {off i : Nat}
    (m : Nat → α)
    (h : i < data.length) :
    store m off data (off + i) = data[i] := by
  rw [store, if_pos (Nat.le_add_right off i), Nat.add_sub_cancel_left,
    List.getElem?_eq_getElem h]
  rfl

theorem store_apply_outside {data : List α} {off a : Nat}
    (m : Nat → α)
    (h : a < off ∨ off + data.length ≤ a) :
    store m off data a = m a := by
  rw [store]
  split
  next hle =>
    rw [List.getElem?_eq_none (by omega)]
    rfl
  next =>
    rfl

theorem getElem?_fetch
    (m : Nat → α) (off len i : Nat) :
    (fetch m off len)[i]? = if i < len then some (m (off + i)) else none := by
  rw [fetch, List.getElem?_map]
  by_cases hi : i < len
  · rw [List.getElem?_range hi, if_pos hi]
    rfl
  · rw [if_neg hi, List.getElem?_eq_none (by simpa using hi)]
    rfl

theorem length_fetch
    (m : Nat → α) (off len : Nat) :
    (fetch m off len).length = len := by
  simp [fetch]

theorem fetch_congr {m m' : Nat → α} {off len : Nat}
    (h : ∀ i < len, m (off + i) = m' (off + i)) :
    fetch m off len = fetch m' off len :=
  List.map_congr_left fun i hi => h i (List.mem_range.mp hi)

/-- A memory as a storage. -/
def Storage.memory : Storage (Nat → α) Empty α where
  read m off len := .ok (fetch m off len)
  write m off data := .ok (store m off data)
  length_read := by
    intro m off len data h
    cases h
    exact length_fetch m off len
  read_append := by
    intro m off n k first second hfirst hsecond
    cases hfirst
    cases hsecond
    simp only [fetch, List.range_add, List.map_append, List.map_map, Function.comp_def,
      Nat.add_assoc]
  read_inside := by
    intro m m' off data h off' len hlen
    cases h
    congr 1
    apply List.ext_getElem?
    intro i
    rw [getElem?_fetch, getElem?_slice]
    by_cases hi : i < len
    · rw [if_pos hi, if_pos hi, store, if_pos (by omega),
        show off + off' + i - off = off' + i by omega, List.getElem?_eq_getElem (by omega)]
      rfl
    · rw [if_neg hi, if_neg hi]
  read_outside := by
    intro m m' off data h off' len data' hdisjoint hread
    cases h
    cases hread
    refine congrArg Except.ok (fetch_congr fun i hi => ?_)
    rw [store]
    split
    next hle =>
      rw [List.getElem?_eq_none (by omega)]
      rfl
    next =>
      rfl

theorem fetch_store {data : List α} {off len : Nat}
    (m : Nat → α) (base : Nat)
    (h : off + len ≤ data.length) :
    fetch (store m base data) (base + off) len = slice data off len :=
  Except.ok.inj (Storage.memory.read_inside rfl h)

theorem memory_writes
    (m : Nat → α) (ws : List (Write α)) :
    Storage.memory.writes m ws = .ok (storeAll m ws) := by
  induction ws generalizing m with
  | nil =>
    rfl
  | cons w ws ih =>
    exact ih (store m w.off w.data)

/-- What has been stored is fetched again, if no later store meets it. -/
theorem has_storeAll {before after : List (Write α)} {w : Write α}
    (m : Nat → α)
    (h : ∀ w' ∈ after, w'.Misses w.off w.data.length) :
    Storage.memory.Has (storeAll m (before ++ w :: after)) w := by
  obtain ⟨m₁, -, hrest⟩ := Storage.writes_append_eq_ok.mp (memory_writes m (before ++ w :: after))
  obtain ⟨m₂, hwrite, hafter⟩ := Storage.writes_cons_eq_ok.mp hrest
  exact (Storage.has_of_write hwrite).writes hafter h

theorem fetch_of_has {m : Nat → α} {w : Write α}
    (h : Storage.memory.Has m w) :
    fetch m w.off w.data.length = w.data :=
  Except.ok.inj h.read

/-- A part of what was stored. -/
theorem fetch_part_of_has {m : Nat → α} {w : Write α}
    (h : Storage.memory.Has m w)
    {off len : Nat}
    (hlen : off + len ≤ w.data.length) :
    fetch m (w.off + off) len = slice w.data off len :=
  Except.ok.inj (h off len hlen)

/-! ## Rings -/

/-- The nodes that are met on `n` steps from a node. -/
def follow (next : α → α) : Nat → α → List α
  | 0, _ => []
  | n + 1, a => next a :: follow next n (next a)

/-- `next` goes from the head through the nodes, each of them once, and back to the head, and
`prev` is its inverse. -/
structure Ring (next prev : α → α) (head : α) (nodes : List α) : Prop where
  nodup : (head :: nodes).Nodup
  visits : follow next (nodes.length + 1) head = nodes ++ [head]
  prev_next : ∀ a ∈ head :: nodes, prev (next a) = a
  next_prev : ∀ a ∈ head :: nodes, next (prev a) = a

section Links

variable {next prev : α → α} {node : Nat → α} {n : Nat}

theorem follow_eq_map
    (hnext : ∀ i < n, next (node i) = node (i + 1))
    {i k : Nat}
    (hk : i + k ≤ n) :
    follow next k (node i) = (List.range k).map fun j => node (i + 1 + j) := by
  induction k generalizing i with
  | zero =>
    rfl
  | succ k ih =>
    rw [follow, hnext i (by omega), ih (by omega), List.range_succ_eq_map, List.map_cons,
      List.map_map]
    simp only [Function.comp_def, Nat.add_zero, List.cons.injEq, true_and]
    refine List.map_congr_left fun j _ => congrArg node ?_
    omega

theorem follow_add
    (k l : Nat) (a : α) :
    follow next (k + l) a = follow next k a ++ follow next l (next^[k] a) := by
  induction k generalizing a with
  | zero =>
    rw [Nat.zero_add]
    rfl
  | succ k ih =>
    rw [Nat.add_right_comm, follow, follow, ih, List.cons_append]
    rfl

/-- A ring from the links of its nodes, numbered from the head on. -/
theorem ring_of_links
    (hinj : ∀ i ≤ n, ∀ j ≤ n, node i = node j → i = j)
    (hnext : ∀ i < n, next (node i) = node (i + 1))
    (hlast : next (node n) = node 0)
    (hprev : ∀ i < n, prev (node (i + 1)) = node i)
    (hfirst : prev (node 0) = node n) :
    Ring next prev (node 0) ((List.range n).map fun i => node (i + 1)) := by
  have hnodes : node 0 :: ((List.range n).map fun i => node (i + 1)) =
      (List.range (n + 1)).map node := by
    rw [List.range_succ_eq_map, List.map_cons, List.map_map]
    rfl
  have hmem : ∀ a ∈ node 0 :: ((List.range n).map fun i => node (i + 1)), ∃ i ≤ n, node i = a := by
    intro a ha
    rw [hnodes] at ha
    obtain ⟨i, hi, rfl⟩ := List.mem_map.mp ha
    exact ⟨i, by simpa [Nat.lt_succ_iff] using hi, rfl⟩
  have hiterate : ∀ k ≤ n, next^[k] (node 0) = node k := by
    intro k hk
    induction k with
    | zero =>
      rfl
    | succ k ih =>
      rw [Function.iterate_succ_apply', ih (by omega), hnext k (by omega)]
  refine ⟨?_, ?_, fun a ha => ?_, fun a ha => ?_⟩
  · rw [hnodes]
    refine List.Nodup.map_on (fun i hi j hj heq => ?_) List.nodup_range
    exact hinj i (by simpa [Nat.lt_succ_iff] using hi) j (by simpa [Nat.lt_succ_iff] using hj) heq
  · rw [List.length_map, List.length_range, follow_add, hiterate n (le_refl n),
      follow_eq_map hnext (by omega)]
    simp only [follow, hlast, Nat.zero_add, Nat.add_comm 1]
  · obtain ⟨i, hi, rfl⟩ := hmem a ha
    rcases Nat.lt_or_eq_of_le hi with hlt | rfl
    · rw [hnext i hlt, hprev i hlt]
    · rw [hlast, hfirst]
  · obtain ⟨i, hi, rfl⟩ := hmem a ha
    cases i with
    | zero =>
      rw [hfirst, hlast]
    | succ i =>
      rw [hprev i (by omega), hnext i (by omega)]

end Links

end Base
end Theos
