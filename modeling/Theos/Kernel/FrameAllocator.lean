import Theos.Base.Run
import Theos.Base.Rust
import Mathlib.Data.List.Nodup
import Mathlib.Data.List.Perm.Basic
import Mathlib.Tactic

/-!
# The physical frame allocator

`BootInfoFrameAllocator` of `kernel/allocator.rs` hands out 4 KiB frames from a
list of memory regions.  A cursor `(current_entry, current_addr)` walks the
regions once; a frame that is given back goes on the `recycled` stack and is
preferred to the cursor.

The module follows the source for `allocate_frame` and `deallocate_frame`,
with the checked `u64` additions and the range check of `PhysAddr::new` as
panics.  On top of it stands the owner's view: `PoolState` adds the frames that
are currently allocated, and `PoolInvariant` says that allocated and recycled
frames together are exactly what the cursor has passed.
-/

namespace Theos
namespace Kernel

open Base

/-- `Size4KiB::SIZE`, the size of a page and of a frame. -/
def pageSize : Nat := 4096

/-- A 4 KiB frame of physical memory, by its number. -/
structure PhysFrame where
  number : Nat
deriving DecidableEq, Repr

namespace PhysFrame

/-- The first address of the frame. -/
def startAddress (f : PhysFrame) : Nat :=
  f.number * pageSize

/-- `PhysFrame::containing_address(PhysAddr::new(addr))`.  A `PhysAddr` has 52
bits, and `PhysAddr::new` panics on anything longer. -/
def containingAddress (addr : Nat) : Option PhysFrame :=
  if addr < 2 ^ 52 then some ⟨addr / pageSize⟩ else none

end PhysFrame

structure MemoryRegion where
  base : Nat
  length : Nat
deriving DecidableEq, Repr

namespace MemoryRegion

/-- The address lies in the region. -/
def Covers (r : MemoryRegion) (addr : Nat) : Prop :=
  r.base ≤ addr ∧ addr < r.base + r.length

/-- The frame lies wholly inside the region. -/
def HasFrame (r : MemoryRegion) (f : PhysFrame) : Prop :=
  r.base ≤ f.startAddress ∧ f.startAddress + pageSize ≤ r.base + r.length

def PageAligned (r : MemoryRegion) : Prop :=
  pageSize ∣ r.base ∧ pageSize ∣ r.length

end MemoryRegion

/-- The regions share no address. -/
def PairwiseDisjoint (regions : List MemoryRegion) : Prop :=
  regions.Pairwise fun r q => ∀ addr, ¬ (r.Covers addr ∧ q.Covers addr)

structure BootInfoFrameAllocator where
  regions : List MemoryRegion
  recycled : List PhysFrame
  currentEntry : Nat
  currentAddr : Nat
deriving DecidableEq, Repr

namespace BootInfoFrameAllocator

def initFromRegions (regions : List MemoryRegion) : BootInfoFrameAllocator :=
  { regions := regions, recycled := [], currentEntry := 0, currentAddr := 0 }

/-- The address the loop of `allocate_frame` looks at in region `r`: not before
the region, and never in frame 0. -/
def clampAddr (r : MemoryRegion) (addr : Nat) : Nat :=
  let addr := if addr < r.base then r.base else addr
  if addr < pageSize then pageSize else addr

/-- The `while` loop of `allocate_frame` over `regions[current_entry..]`.  It
returns the frame, if any, and the cursor. -/
def scanRegions :
    List MemoryRegion → Nat → Nat → Option (Option PhysFrame × Nat × Nat)
  | [], entry, addr => some (none, entry, addr)
  | r :: rest, entry, addr => do
    let stop ← addU 64 r.base r.length
    let addr := clampAddr r addr
    let next ← addU 64 addr pageSize
    if next ≤ stop then
      let frame ← PhysFrame.containingAddress addr
      some (some frame, entry, next)
    else
      scanRegions rest (entry + 1) 0

/-- `allocate_frame`: a recycled frame if there is one, else from the cursor. -/
def allocateFrame (a : BootInfoFrameAllocator) :
    Option (Option PhysFrame × BootInfoFrameAllocator) :=
  match a.recycled with
  | frame :: rest => some (some frame, { a with recycled := rest })
  | [] => do
    let (frame, entry, addr) ←
      scanRegions (a.regions.drop a.currentEntry) a.currentEntry a.currentAddr
    some (frame, { a with currentEntry := entry, currentAddr := addr })

/-- `deallocate_frame`: push the frame on the recycled stack. -/
def deallocateFrame (a : BootInfoFrameAllocator) (frame : PhysFrame) :
    BootInfoFrameAllocator :=
  { a with recycled := frame :: a.recycled }

end BootInfoFrameAllocator

/-! ## What the cursor has passed -/

/-- Frames behind a cursor that has finished the regions `done` and stands at
`addr` in the first region of `rest`.  Frame 0 is skipped, so it is never
behind the cursor. -/
def PassedBy
    (done rest : List MemoryRegion) (addr : Nat) (f : PhysFrame) : Prop :=
  f.number ≠ 0 ∧
    ((∃ r ∈ done, r.HasFrame f) ∨
      ∃ r, rest.head? = some r ∧ r.HasFrame f ∧ f.startAddress + pageSize ≤ addr)

open BootInfoFrameAllocator

theorem PhysFrame.eq_of_startAddress_eq {f g : PhysFrame}
    (h : f.startAddress = g.startAddress) :
    f = g := by
  cases f
  cases g
  simp only [PhysFrame.startAddress, pageSize] at h
  simp only [PhysFrame.mk.injEq]
  omega

theorem PhysFrame.startAddress_pos_iff
    (f : PhysFrame) :
    0 < f.startAddress ↔ f.number ≠ 0 := by
  unfold PhysFrame.startAddress pageSize
  omega

/-- A frame inside a region begins at an address of the region. -/
theorem MemoryRegion.HasFrame.covers {r : MemoryRegion} {f : PhysFrame}
    (h : r.HasFrame f) :
    r.Covers f.startAddress := by
  obtain ⟨h₁, h₂⟩ := h
  unfold pageSize at h₂
  exact ⟨h₁, by omega⟩

theorem frameSize_dvd_clampAddr {r : MemoryRegion} {addr : Nat} (hr : r.PageAligned)
    (haddr : pageSize ∣ addr) :
    pageSize ∣ clampAddr r addr := by
  simp only [clampAddr]
  split_ifs
  · exact dvd_rfl
  · exact hr.1
  · exact dvd_rfl
  · exact haddr

theorem le_clampAddr
    (r : MemoryRegion) (addr : Nat) :
    addr ≤ clampAddr r addr ∧ r.base ≤ clampAddr r addr ∧
      pageSize ≤ clampAddr r addr := by
  simp only [clampAddr]
  split_ifs <;> omega

/-- Clamping only jumps over frame 0 and over addresses before the region. -/
theorem clampAddr_passes_nothing {r : MemoryRegion} {addr : Nat} {f : PhysFrame} (hf : f.number ≠ 0)
    (hr : r.HasFrame f)
    (h : f.startAddress + pageSize ≤ clampAddr r addr) :
    f.startAddress + pageSize ≤ addr := by
  have hpos := f.startAddress_pos_iff.mpr hf
  obtain ⟨hbase, _⟩ := hr
  simp only [clampAddr] at h
  split_ifs at h <;> unfold pageSize at * <;> omega

/-- The frame the loop takes from region `r` at the clamped address. -/
theorem containingAddress_eq_some {addr : Nat} {f : PhysFrame} (haddr : pageSize ∣ addr)
    (h : PhysFrame.containingAddress addr = some f) :
    f.startAddress = addr := by
  unfold PhysFrame.containingAddress at h
  split_ifs at h
  rw [← Option.some.inj h]
  exact Nat.div_mul_cancel haddr

/-- Once the next frame would end after the region, every frame of the region
other than frame 0 is behind the cursor. -/
theorem passedBy_region_end {done rest : List MemoryRegion} {r : MemoryRegion} {addr : Nat}
    (hr : r.PageAligned) (haddr : pageSize ∣ addr)
    (hend : ¬ clampAddr r addr + pageSize ≤ r.base + r.length)
    (f : PhysFrame) :
    PassedBy (done ++ [r]) rest 0 f ↔ PassedBy done (r :: rest) addr f := by
  constructor
  · rintro ⟨hf, h⟩
    refine ⟨hf, ?_⟩
    rcases h with ⟨q, hq, hqf⟩ | ⟨q, _, _, hle⟩
    · rcases List.mem_append.mp hq with hq | hq
      · exact Or.inl ⟨q, hq, hqf⟩
      · have hqr : q = r := List.mem_singleton.mp hq
        subst hqr
        right
        refine ⟨q, rfl, hqf, ?_⟩
        apply clampAddr_passes_nothing hf hqf
        -- both are multiples of the frame size, so `<` on addresses gives a whole frame
        obtain ⟨k, hk⟩ := frameSize_dvd_clampAddr hr haddr
        have hlt := hqf.2
        unfold PhysFrame.startAddress pageSize at *
        omega
    · unfold pageSize at hle
      omega
  · rintro ⟨hf, h⟩
    refine ⟨hf, Or.inl ?_⟩
    rcases h with ⟨q, hq, hqf⟩ | ⟨q, hq, hqf, _⟩
    · exact ⟨q, List.mem_append_left _ hq, hqf⟩
    · have hqr : r = q := Option.some.inj hq
      subst hqr
      exact ⟨r, by simp, hqf⟩

/-- Handing out the frame at the clamped address puts exactly that frame behind
the cursor. -/
theorem passedBy_region_next
    {done rest : List MemoryRegion} {r : MemoryRegion} {addr : Nat} {f : PhysFrame}
    (hf : f.startAddress = clampAddr r addr)
    (hend : clampAddr r addr + pageSize ≤ r.base + r.length)
    (g : PhysFrame) :
    PassedBy done (r :: rest) (clampAddr r addr + pageSize) g ↔
      PassedBy done (r :: rest) addr g ∨ g = f := by
  obtain ⟨hle, hbase, hsize⟩ := le_clampAddr r addr
  constructor
  · rintro ⟨hg, ⟨q, hq, hqg⟩ | ⟨q, hq, hqg, hpast⟩⟩
    · exact Or.inl ⟨hg, Or.inl ⟨q, hq, hqg⟩⟩
    · have hqr : r = q := Option.some.inj hq
      subst hqr
      by_cases hlt : g.startAddress < clampAddr r addr
      · left
        refine ⟨hg, Or.inr ⟨r, rfl, hqg, ?_⟩⟩
        apply clampAddr_passes_nothing hg hqg
        rw [← hf] at hlt ⊢
        unfold PhysFrame.startAddress pageSize at *
        omega
      · right
        apply PhysFrame.eq_of_startAddress_eq
        omega
  · rintro (⟨hg, ⟨q, hq, hqg⟩ | ⟨q, hq, hqg, hpast⟩⟩ | rfl)
    · exact ⟨hg, Or.inl ⟨q, hq, hqg⟩⟩
    · exact ⟨hg, Or.inr ⟨q, hq, hqg, by omega⟩⟩
    · refine ⟨?_, Or.inr ⟨r, rfl, ⟨by omega, by omega⟩, by omega⟩⟩
      rw [← PhysFrame.startAddress_pos_iff]
      unfold pageSize at *
      omega

/-- What the loop does: it either takes one new frame from some region, or it
has every frame of the remaining regions behind it. -/
theorem scanRegions_spec
    (rest : List MemoryRegion) :
    ∀ (done : List MemoryRegion) (entry addr : Nat)
      (res : Option PhysFrame) (entry' addr' : Nat),
      (∀ r ∈ rest, r.PageAligned) →
      pageSize ∣ addr →
      scanRegions rest entry addr = some (res, entry', addr') →
      ∃ pre post,
        rest = pre ++ post ∧ entry' = entry + pre.length ∧ pageSize ∣ addr' ∧
        match res with
        | none =>
          post = [] ∧
            ∀ g, PassedBy (done ++ pre) post addr' g ↔ PassedBy done rest addr g
        | some f =>
          (∀ g, PassedBy (done ++ pre) post addr' g ↔
            PassedBy done rest addr g ∨ g = f) ∧
          ∃ r, post.head? = some r ∧ r.HasFrame f ∧ f.number ≠ 0 ∧
            (pre = [] → addr ≤ f.startAddress) := by
  induction rest with
  | nil =>
    intro done entry addr res entry' addr' _ haddr h
    simp only [scanRegions, Option.some.injEq, Prod.mk.injEq] at h
    obtain ⟨rfl, rfl, rfl⟩ := h
    exact ⟨[], [], by simp, by simp, haddr, rfl, by simp⟩
  | cons r rest ih =>
    intro done entry addr res entry' addr' hal haddr h
    have hr : r.PageAligned := hal r (by simp)
    simp only [scanRegions, Option.bind_eq_bind, Option.bind_eq_some_iff,
      addU_eq_some_iff] at h
    obtain ⟨stop, ⟨_, rfl⟩, next, ⟨_, rfl⟩, h⟩ := h
    split_ifs at h with hend
    · -- the region still has a frame at the cursor
      simp only [Option.bind_eq_some_iff, Option.some.injEq, Prod.mk.injEq] at h
      obtain ⟨f, hframe, rfl, rfl, rfl⟩ := h
      have hclamp := frameSize_dvd_clampAddr hr haddr
      have hf := containingAddress_eq_some hclamp hframe
      obtain ⟨hle, hbase, hsize⟩ := le_clampAddr r addr
      refine ⟨[], r :: rest, by simp, by simp, ?_, ?_, r, rfl, ?_, ?_, ?_⟩
      · exact (Nat.dvd_add_right hclamp).mpr dvd_rfl
      · intro g
        simpa using passedBy_region_next hf hend g
      · exact ⟨by omega, by omega⟩
      · rw [← PhysFrame.startAddress_pos_iff]
        unfold pageSize at *
        omega
      · intro _
        omega
    · -- the region is used up: the cursor moves on and starts again at 0
      obtain ⟨pre, post, hrest, hentry, haddr', hres⟩ :=
        ih (done ++ [r]) (entry + 1) 0 res entry' addr'
          (fun q hq => hal q (List.mem_cons_of_mem _ hq)) (dvd_zero _) h
      refine ⟨r :: pre, post, by simp [hrest], by simp [hentry]; omega, haddr', ?_⟩
      have hpast : ∀ g, PassedBy (done ++ [r]) rest 0 g ↔
          PassedBy done (r :: rest) addr g :=
        passedBy_region_end hr haddr hend
      cases res with
      | none =>
        obtain ⟨hpost, hiff⟩ := hres
        refine ⟨hpost, fun g => ?_⟩
        rw [← hpast g, ← hiff g]
        simp
      | some f =>
        obtain ⟨hiff, q, hq, hqf, hf, _⟩ := hres
        refine ⟨fun g => ?_, q, hq, hqf, hf, by simp⟩
        rw [← hpast g, ← hiff g]
        simp

/-! ## Runs of allocations and deallocations -/

/-- The allocator together with the frames its clients currently hold. -/
structure PoolState where
  allocator : BootInfoFrameAllocator
  live : List PhysFrame
deriving DecidableEq, Repr

inductive PoolCall where
  | allocate
  | deallocate (f : PhysFrame)
deriving DecidableEq, Repr

namespace PoolState

def init (regions : List MemoryRegion) : PoolState :=
  { allocator := initFromRegions regions, live := [] }

/-- One call.  Only a frame that is currently allocated may be given back. -/
def step (s : PoolState) : PoolCall → Option PoolState
  | .allocate => do
    let (res, allocator) ← s.allocator.allocateFrame
    some { allocator := allocator, live := res.toList ++ s.live }
  | .deallocate f =>
    if f ∈ s.live then
      some { allocator := s.allocator.deallocateFrame f, live := s.live.erase f }
    else
      none

end PoolState

/-- Allocated and recycled frames are, without repetition, the frames behind
the cursor. -/
structure PoolInvariant (regions : List MemoryRegion) (s : PoolState) : Prop where
  regions_eq : s.allocator.regions = regions
  entry_le : s.allocator.currentEntry ≤ regions.length
  addr_aligned : pageSize ∣ s.allocator.currentAddr
  nodup : (s.live ++ s.allocator.recycled).Nodup
  mem_iff : ∀ f, f ∈ s.live ++ s.allocator.recycled ↔
    PassedBy (regions.take s.allocator.currentEntry)
      (regions.drop s.allocator.currentEntry) s.allocator.currentAddr f

section Pool

variable {regions : List MemoryRegion}

theorem poolInvariant_init :
    PoolInvariant regions (PoolState.init regions) := by
  refine ⟨rfl, Nat.zero_le _, dvd_zero _, by simp [PoolState.init, initFromRegions], ?_⟩
  intro f
  simp only [PoolState.init, initFromRegions, List.append_nil, List.not_mem_nil,
    List.take_zero, List.drop_zero, false_iff]
  rintro ⟨_, ⟨r, hr, _⟩ | ⟨_, _, _, hle⟩⟩
  · simp at hr
  · unfold pageSize at hle
    omega

/-- Splitting the regions at the old cursor and then at the new one. -/
theorem take_drop_of_drop_eq {entry : Nat} {pre post : List MemoryRegion}
    (hle : entry ≤ regions.length)
    (h : regions.drop entry = pre ++ post) :
    regions.take (entry + pre.length) = regions.take entry ++ pre ∧
      regions.drop (entry + pre.length) = post ∧
      entry + pre.length ≤ regions.length := by
  have hlen := congrArg List.length h
  rw [List.length_drop, List.length_append] at hlen
  refine ⟨?_, ?_, by omega⟩
  · rw [List.take_add, h, List.take_left]
  · rw [← List.drop_drop, h, List.drop_left]

/-- A frame that the cursor is about to hand out is not behind it already:
regions that were finished share no address with this one. -/
theorem not_passedBy_of_next
    {done pre post : List MemoryRegion} {r : MemoryRegion} {addr : Nat} {f : PhysFrame}
    (hdis : PairwiseDisjoint (done ++ (pre ++ post))) (hpost : post.head? = some r)
    (hr : r.HasFrame f)
    (hfirst : pre = [] → addr ≤ f.startAddress) :
    ¬ PassedBy done (pre ++ post) addr f := by
  have hmem : r ∈ post := List.mem_of_head? hpost
  have hpair := List.pairwise_append.mp hdis
  have hpair' := List.pairwise_append.mp hpair.2.1
  rintro ⟨_, ⟨q, hq, hqf⟩ | ⟨q, hq, hqf, hle⟩⟩
  · exact hpair.2.2 q hq r (List.mem_append_right _ hmem) _ ⟨hqf.covers, hr.covers⟩
  · cases pre with
    | nil =>
      have := hfirst rfl
      unfold pageSize at hle
      omega
    | cons p pre =>
      have hpq : p = q := Option.some.inj hq
      subst hpq
      exact hpair'.2.2 p (by simp) r hmem _ ⟨hqf.covers, hr.covers⟩

/-- What one `allocate_frame` does to a pool that satisfies the invariant. -/
theorem allocateFrame_spec (hal : ∀ r ∈ regions, r.PageAligned) (hdis : PairwiseDisjoint regions)
    {s : PoolState} {res : Option PhysFrame} {a' : BootInfoFrameAllocator}
    (hs : PoolInvariant regions s)
    (h : s.allocator.allocateFrame = some (res, a')) :
    PoolInvariant regions { allocator := a', live := res.toList ++ s.live } ∧
      match res with
      | some f => f ∉ s.live ∧ f.number ≠ 0 ∧ ∃ r ∈ regions, r.HasFrame f
      | none => ∀ r ∈ regions, ∀ f, r.HasFrame f → f.number ≠ 0 → f ∈ s.live := by
  obtain ⟨allocator, live⟩ := s
  obtain ⟨rs, recycled, entry, addr⟩ := allocator
  obtain ⟨hregions, hentry, haddr, hnodup, hmem⟩ := hs
  simp only at hregions hentry haddr hnodup hmem h ⊢
  subst hregions
  cases recycled with
  | cons f rest =>
    -- a recycled frame moves from the stack to the allocated ones
    simp only [allocateFrame, Option.some.injEq, Prod.mk.injEq] at h
    obtain ⟨rfl, rfl⟩ := h
    have hperm : (live ++ f :: rest).Perm (f :: live ++ rest) := List.perm_middle
    refine ⟨⟨rfl, hentry, haddr, hperm.nodup_iff.mp hnodup, ?_⟩, ?_, ?_⟩
    · intro g
      rw [← hmem g]
      exact hperm.symm.mem_iff
    · intro hf
      exact (List.nodup_append.mp hnodup).2.2 f hf f (by simp) rfl
    · obtain ⟨hf, ⟨r, hr, hrf⟩ | ⟨r, hr, hrf, _⟩⟩ := (hmem f).mp (by simp)
      · exact ⟨hf, r, List.mem_of_mem_take hr, hrf⟩
      · exact ⟨hf, r, List.mem_of_mem_drop (List.mem_of_head? hr), hrf⟩
  | nil =>
    simp only [allocateFrame, Option.bind_eq_bind, Option.bind_eq_some_iff] at h
    obtain ⟨⟨res', entry', addr'⟩, hscan, h⟩ := h
    simp only [Option.some.injEq, Prod.mk.injEq] at h
    obtain ⟨rfl, rfl⟩ := h
    obtain ⟨pre, post, hrest, rfl, haddr', hres⟩ :=
      scanRegions_spec (rs.drop entry) (rs.take entry) entry addr res' entry' addr'
        (fun r hr => hal r (List.mem_of_mem_drop hr)) haddr hscan
    obtain ⟨htake, hdrop, hle⟩ := take_drop_of_drop_eq hentry hrest
    simp only [List.append_nil] at hnodup hmem
    cases res' with
    | none =>
      obtain ⟨rfl, hiff⟩ := hres
      refine ⟨⟨rfl, hle, haddr', by simpa using hnodup, ?_⟩, ?_⟩
      · intro g
        simp only [Option.toList_none, List.nil_append, List.append_nil]
        rw [htake, hdrop, hiff g]
        exact hmem g
      · intro r hr f hrf hf
        rw [hmem f, ← hiff f]
        refine ⟨hf, Or.inl ⟨r, ?_, hrf⟩⟩
        rw [List.append_nil] at hrest
        rwa [← hrest, List.take_append_drop]
    | some f =>
      obtain ⟨hiff, r, hpost, hrf, hf, hfirst⟩ := hres
      have hnew : f ∉ live := by
        rw [hmem f, hrest]
        refine not_passedBy_of_next ?_ hpost hrf hfirst
        rwa [← hrest, List.take_append_drop]
      refine ⟨⟨rfl, hle, haddr', ?_, ?_⟩, hnew, hf, r, ?_, hrf⟩
      · simpa using ⟨hnew, hnodup⟩
      · intro g
        simp only [Option.toList_some, List.append_nil, List.cons_append,
          List.nil_append, List.mem_cons]
        rw [htake, hdrop, hiff g, ← hmem g]
        exact or_comm
      · have hr : r ∈ pre ++ post :=
          List.mem_append_right _ (List.mem_of_head? hpost)
        rw [← hrest] at hr
        exact List.mem_of_mem_drop hr

theorem poolInvariant_step (hal : ∀ r ∈ regions, r.PageAligned) (hdis : PairwiseDisjoint regions)
    (s : PoolState) (call : PoolCall) (t : PoolState) (hs : PoolInvariant regions s)
    (h : Det PoolState.step s call t) :
    PoolInvariant regions t := by
  cases call with
  | allocate =>
    simp only [Det, PoolState.step, Option.bind_eq_bind, Option.bind_eq_some_iff,
      Option.some.injEq] at h
    obtain ⟨⟨res, a'⟩, hres, rfl⟩ := h
    exact (allocateFrame_spec hal hdis hs hres).1
  | deallocate f =>
    simp only [Det, PoolState.step] at h
    split_ifs at h with hf
    rw [← Option.some.inj h]
    have hperm : (s.live.erase f ++ f :: s.allocator.recycled).Perm
        (s.live ++ s.allocator.recycled) :=
      List.perm_middle.trans ((List.perm_cons_erase hf).symm.append_right _)
    refine ⟨hs.regions_eq, hs.entry_le, hs.addr_aligned, ?_, ?_⟩
    · exact hperm.nodup_iff.mpr hs.nodup
    · intro g
      exact hperm.mem_iff.trans (hs.mem_iff g)

/-- On regions of real physical memory no addition overflows and every address
is a valid `PhysAddr`, so the loop returns. -/
theorem scanRegions_physical
    (rest : List MemoryRegion) :
    ∀ (entry addr : Nat),
      (∀ r ∈ rest, r.base + r.length ≤ 2 ^ 52) →
      addr ≤ 2 ^ 52 →
      ∃ res entry' addr',
        scanRegions rest entry addr = some (res, entry', addr') ∧ addr' ≤ 2 ^ 52 := by
  induction rest with
  | nil =>
    intro entry addr _ haddr
    exact ⟨none, entry, addr, rfl, haddr⟩
  | cons r rest ih =>
    intro entry addr hphys haddr
    have hr := hphys r (by simp)
    have hclamp : clampAddr r addr ≤ 2 ^ 52 := by
      simp only [clampAddr, pageSize]
      split_ifs <;> omega
    have h₁ : addU 64 r.base r.length = some (r.base + r.length) := by
      simp only [addU_eq_some_iff, and_true]
      omega
    have h₂ : addU 64 (clampAddr r addr) pageSize =
        some (clampAddr r addr + pageSize) := by
      simp only [addU_eq_some_iff, and_true]
      unfold pageSize
      omega
    simp only [scanRegions, h₁, h₂, Option.bind_eq_bind, Option.bind_some]
    split_ifs with hend
    · have hlt : clampAddr r addr < 2 ^ 52 := by
        unfold pageSize at hend
        omega
      refine ⟨some ⟨clampAddr r addr / pageSize⟩, entry,
        clampAddr r addr + pageSize, ?_, by omega⟩
      simp only [PhysFrame.containingAddress, if_pos hlt, Option.bind_some]
    · exact ih (entry + 1) 0 (fun q hq => hphys q (List.mem_cons_of_mem _ hq))
        (Nat.zero_le _)

/-- On such regions the cursor never leaves the physical address space. -/
theorem currentAddr_le_step (hphys : ∀ r ∈ regions, r.base + r.length ≤ 2 ^ 52)
    (s : PoolState) (call : PoolCall) (t : PoolState)
    (hs : s.allocator.regions = regions ∧ s.allocator.currentAddr ≤ 2 ^ 52)
    (h : Det PoolState.step s call t) :
    t.allocator.regions = regions ∧ t.allocator.currentAddr ≤ 2 ^ 52 := by
  cases call with
  | deallocate f =>
    simp only [Det, PoolState.step] at h
    split_ifs at h
    rw [← Option.some.inj h]
    exact hs
  | allocate =>
    simp only [Det, PoolState.step, Option.bind_eq_bind, Option.bind_eq_some_iff,
      Option.some.injEq] at h
    obtain ⟨⟨res, a'⟩, hres, rfl⟩ := h
    unfold allocateFrame at hres
    split at hres
    · cases hres
      exact hs
    · obtain ⟨res', entry', addr', hscan, hle⟩ :=
        scanRegions_physical (s.allocator.regions.drop s.allocator.currentEntry)
          s.allocator.currentEntry s.allocator.currentAddr
          (fun r hr => hphys r (hs.1 ▸ List.mem_of_mem_drop hr)) hs.2
      simp only [hscan, Option.bind_eq_bind, Option.bind_some, Option.some.injEq,
        Prod.mk.injEq] at hres
      obtain ⟨_, rfl⟩ := hres
      exact ⟨hs.1, hle⟩

/-- On such regions `allocate_frame` returns. -/
theorem allocateFrame_ne_none (hphys : ∀ r ∈ regions, r.base + r.length ≤ 2 ^ 52)
    {a : BootInfoFrameAllocator} (hregions : a.regions = regions)
    (haddr : a.currentAddr ≤ 2 ^ 52) :
    a.allocateFrame ≠ none := by
  unfold allocateFrame
  split
  · simp
  · obtain ⟨res', entry', addr', hscan, _⟩ :=
      scanRegions_physical (a.regions.drop a.currentEntry)
        a.currentEntry a.currentAddr
        (fun r hr => hphys r (hregions ▸ List.mem_of_mem_drop hr)) haddr
    simp [hscan]

/-- **The frame allocator is sound and loses nothing.**  After every sequence of
calls, the frame handed out next is not allocated already, is not frame 0 and
lies wholly inside one region; and `None` means that every other frame of every
region is allocated.  On regions of the 52-bit physical address space the call
does not panic. -/
theorem frame_allocator_run (hal : ∀ r ∈ regions, r.PageAligned) (hdis : PairwiseDisjoint regions)
    {calls : List PoolCall} {s : PoolState}
    (hrun : Run (Det PoolState.step) (PoolState.init regions) calls s) :
    (∀ f a', s.allocator.allocateFrame = some (some f, a') →
      f ∉ s.live ∧ f.number ≠ 0 ∧ ∃ r ∈ regions, r.HasFrame f) ∧
    (∀ a', s.allocator.allocateFrame = some (none, a') →
      ∀ r ∈ regions, ∀ f, r.HasFrame f → f.number ≠ 0 → f ∈ s.live) ∧
    ((∀ r ∈ regions, r.base + r.length ≤ 2 ^ 52) →
      s.allocator.allocateFrame ≠ none) := by
  have hs : PoolInvariant regions s :=
    hrun.invariant (poolInvariant_step hal hdis) poolInvariant_init
  refine ⟨?_, ?_, ?_⟩
  · intro f a' h
    exact (allocateFrame_spec hal hdis hs h).2
  · intro a' h
    exact (allocateFrame_spec hal hdis hs h).2
  · intro hphys
    obtain ⟨hregions, haddr⟩ :=
      hrun.invariant (currentAddr_le_step hphys) ⟨rfl, Nat.zero_le _⟩
    exact allocateFrame_ne_none hphys hregions haddr

/-- Two regions, the first of which starts at address 0: frame 1 is handed out
and given back, and the next call hands it out again. -/
theorem frame_allocator_run_two_regions :
    (PoolState.mk ⟨[⟨0, 8192⟩, ⟨16384, 4096⟩], [⟨1⟩], 0, 8192⟩ []).allocator.allocateFrame
        = some (some ⟨1⟩, ⟨[⟨0, 8192⟩, ⟨16384, 4096⟩], [], 0, 8192⟩) ∧
      (⟨1⟩ : PhysFrame) ∉ (PoolState.mk ⟨[⟨0, 8192⟩, ⟨16384, 4096⟩], [⟨1⟩], 0, 8192⟩ []).live := by
  have hrun : Run (Det PoolState.step) (PoolState.init [⟨0, 8192⟩, ⟨16384, 4096⟩])
      [.allocate, .deallocate ⟨1⟩]
      (PoolState.mk ⟨[⟨0, 8192⟩, ⟨16384, 4096⟩], [⟨1⟩], 0, 8192⟩ []) := by
    rw [← runAll_eq_some_iff]
    decide
  have hal : ∀ r ∈ [(⟨0, 8192⟩ : MemoryRegion), ⟨16384, 4096⟩], r.PageAligned := by
    intro r hr
    simp only [List.mem_cons, List.not_mem_nil, or_false] at hr
    rcases hr with rfl | rfl <;> exact ⟨by decide, by decide⟩
  have hdis : PairwiseDisjoint [⟨0, 8192⟩, ⟨16384, 4096⟩] := by
    simp only [PairwiseDisjoint, List.pairwise_cons, List.mem_singleton, forall_eq,
      List.not_mem_nil, false_implies, implies_true, List.Pairwise.nil, and_true,
      MemoryRegion.Covers]
    omega
  exact ⟨rfl, ((frame_allocator_run hal hdis hrun).1 _ _ rfl).1⟩

end Pool

end Kernel
end Theos
