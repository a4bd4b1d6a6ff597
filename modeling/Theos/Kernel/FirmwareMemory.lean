import Theos.Kernel.FrameAllocator

/-!
# Frames and firmware buffers

The kernel builds its frame allocator from the memory map that `efi_main` took, and does
not leave boot services.  The disk driver goes on allocating from the firmware: each
block transfer of `UefiBlockDevice` takes an `UefiAlignedBuffer` from `allocate_pages`
and gives it back when it is done.  For the firmware the frames of the kernel are still
conventional memory that nobody has allocated.

Nothing keeps the two apart.  They are as long as the firmware answers with pages the
cursor of the frame allocator has not passed, and no frame is taken during a transfer.
-/

namespace Theos
namespace Kernel

open Base

/-! ## The memory map -/

/-- `uefi::mem::memory_map::MemoryType`. -/
structure MemoryType where
  code : Nat
deriving DecidableEq, Repr

def MemoryType.conventional : MemoryType := ⟨7⟩

/-- An entry of the memory map.  Its first address is that of a page. -/
structure MemoryDescriptor where
  ty : MemoryType
  physStart : Nat
  pageCount : Nat
  aligned : pageSize ∣ physStart
deriving DecidableEq, Repr

/-- The loop of `init_from_uefi`: the regions the frame allocator gets. -/
def usableRegions : List MemoryDescriptor → Option (List MemoryRegion)
  | [] => some []
  | entry :: rest =>
    if entry.ty = .conventional then do
      let length ← mulU 64 entry.pageCount pageSize
      let regions ← usableRegions rest
      some (⟨entry.physStart, length⟩ :: regions)
    else
      usableRegions rest

theorem usableRegions_aligned {memoryMap : List MemoryDescriptor} {regions : List MemoryRegion}
    (h : usableRegions memoryMap = some regions) :
    ∀ r ∈ regions, r.PageAligned := by
  induction memoryMap generalizing regions with
  | nil =>
    cases h
    simp
  | cons entry rest ih =>
    simp only [usableRegions] at h
    split at h
    · simp only [Option.bind_eq_bind, Option.bind_eq_some_iff, mulU_eq_some_iff,
        Option.some.injEq] at h
      obtain ⟨length, ⟨-, rfl⟩, regions', hregions, rfl⟩ := h
      intro r hr
      rcases List.mem_cons.mp hr with rfl | hr
      · exact ⟨entry.aligned, Nat.dvd_mul_left _ _⟩
      · exact ih hregions r hr
    · exact ih h

/-! ## Buffers -/

/-- Pages from `allocate_pages`, by their first address. -/
structure UefiAlignedBuffer where
  ptr : Nat
  len : Nat
deriving DecidableEq, Repr

namespace UefiAlignedBuffer

/-- The page is one of the buffer. -/
def HasFrame (b : UefiAlignedBuffer) (f : PhysFrame) : Prop :=
  b.ptr ≤ f.startAddress ∧ f.startAddress + pageSize ≤ b.ptr + b.len

instance (b : UefiAlignedBuffer) (f : PhysFrame) : Decidable (b.HasFrame f) :=
  inferInstanceAs (Decidable (_ ∧ _))

/-- The pages of a buffer that begins at a page, by their numbers. -/
theorem number_of_hasFrame {b : UefiAlignedBuffer} {f : PhysFrame} (hptr : pageSize ∣ b.ptr)
    (hf : b.HasFrame f) :
    ∃ k < b.len / pageSize, f = ⟨b.ptr / pageSize + k⟩ := by
  obtain ⟨p, hp⟩ := hptr
  obtain ⟨number⟩ := f
  simp only [HasFrame, PhysFrame.startAddress, pageSize] at *
  refine ⟨number - p, by omega, ?_⟩
  rw [PhysFrame.mk.injEq]
  omega

/-- `UefiAlignedBuffer::new`, given what `allocate_pages` answers. -/
def new (len : Nat) (answer : Option Nat) : Option UefiAlignedBuffer :=
  answer.map fun ptr => ⟨ptr, (len + 4095) / 4096 * 4096⟩

end UefiAlignedBuffer

/-- The length of the buffer a block transfer asks for; `none` if it returns before that. -/
def scratchLen (blockSize offset len : Nat) : Option Nat :=
  if len = 0 then none
  else do
    let stop ← addU 64 offset len
    let startLba := offset / blockSize
    let endLba := (stop + blockSize - 1) / blockSize
    mulU 64 (endLba - startLba) blockSize

/-! ## The two allocators -/

/-- The frame allocator with the frames that are held, and the buffers of the transfers that
are under way. -/
structure BootMemory where
  blockSize : Nat
  pool : PoolState
  buffers : List UefiAlignedBuffer
deriving DecidableEq, Repr

inductive BootEvent where
  | allocateFrame
  | deallocateFrame (f : PhysFrame)
  /-- A transfer begins, and `allocate_pages` answers with an address or fails. -/
  | beginTransfer (offset len : Nat) (answer : Option Nat)
  /-- A transfer ends, and its buffer is dropped. -/
  | endTransfer (buffer : UefiAlignedBuffer)
deriving DecidableEq, Repr

namespace BootMemory

/-- What `kernel_main` starts with. -/
def init (blockSize : Nat) (memoryMap : List MemoryDescriptor) : Option BootMemory :=
  (usableRegions memoryMap).map fun regions => ⟨blockSize, PoolState.init regions, []⟩

/-- `allocate_pages` may answer with these pages: they are conventional in the memory map and
no buffer has them. -/
def Available (s : BootMemory) (b : UefiAlignedBuffer) : Prop :=
  pageSize ∣ b.ptr ∧ ∀ k < b.len / pageSize,
    (∃ r ∈ s.pool.allocator.regions, r.HasFrame ⟨b.ptr / pageSize + k⟩) ∧
      ∀ b' ∈ s.buffers, ¬ b'.HasFrame ⟨b.ptr / pageSize + k⟩

instance (r : MemoryRegion) (f : PhysFrame) : Decidable (r.HasFrame f) :=
  inferInstanceAs (Decidable (_ ∧ _))

instance (s : BootMemory) (b : UefiAlignedBuffer) : Decidable (s.Available b) :=
  inferInstanceAs (Decidable (_ ∧ ∀ k < _, (∃ r ∈ _, _) ∧ ∀ b' ∈ _, ¬ _))

/-- One event; `none` is a panic or an event that cannot happen. -/
def step (s : BootMemory) : BootEvent → Option BootMemory
  | .allocateFrame => (s.pool.step .allocate).map fun pool => { s with pool := pool }
  | .deallocateFrame f => (s.pool.step (.deallocate f)).map fun pool => { s with pool := pool }
  | .beginTransfer offset len answer =>
    match (scratchLen s.blockSize offset len).bind fun n => UefiAlignedBuffer.new n answer with
    | none => some s
    | some b => if s.Available b then some { s with buffers := b :: s.buffers } else none
  | .endTransfer b =>
    if b ∈ s.buffers then some { s with buffers := s.buffers.erase b } else none

/-- The cursor of the frame allocator has passed this frame. -/
def Passed (s : BootMemory) (f : PhysFrame) : Prop :=
  let a := s.pool.allocator
  PassedBy (a.regions.take a.currentEntry) (a.regions.drop a.currentEntry) a.currentAddr f

/-- No frame is taken during a transfer, and the firmware answers with pages ahead of the
cursor. -/
def KeepsApart (s : BootMemory) : BootEvent → Prop
  | .allocateFrame => s.buffers = []
  | .deallocateFrame _ => True
  | .beginTransfer offset len answer =>
    ∀ n ∈ scratchLen s.blockSize offset len, ∀ b ∈ UefiAlignedBuffer.new n answer,
      ∀ k < b.len / pageSize, ¬ s.Passed ⟨b.ptr / pageSize + k⟩
  | .endTransfer _ => True

instance (s : BootMemory) (f : PhysFrame) : Decidable (s.Passed f) :=
  inferInstanceAs (Decidable (f.number ≠ 0 ∧
    ((∃ r ∈ s.pool.allocator.regions.take s.pool.allocator.currentEntry, r.HasFrame f) ∨
      ∃ r ∈ (s.pool.allocator.regions.drop s.pool.allocator.currentEntry).head?,
        r.HasFrame f ∧ f.startAddress + pageSize ≤ s.pool.allocator.currentAddr)))

instance (s : BootMemory) : (event : BootEvent) → Decidable (s.KeepsApart event)
  | .allocateFrame => inferInstanceAs (Decidable (s.buffers = []))
  | .deallocateFrame _ => isTrue trivial
  | .beginTransfer offset len answer =>
    inferInstanceAs (Decidable (∀ n ∈ scratchLen s.blockSize offset len,
      ∀ b ∈ UefiAlignedBuffer.new n answer, ∀ k < b.len / pageSize,
        ¬ s.Passed ⟨b.ptr / pageSize + k⟩))
  | .endTransfer _ => isTrue trivial

/-- Frames that are held or recycled are behind the cursor, and pages of buffers are not. -/
structure Apart (s : BootMemory) : Prop where
  regions_aligned : ∀ r ∈ s.pool.allocator.regions, r.PageAligned
  entry_le : s.pool.allocator.currentEntry ≤ s.pool.allocator.regions.length
  addr_aligned : pageSize ∣ s.pool.allocator.currentAddr
  behind : ∀ f ∈ s.pool.live ++ s.pool.allocator.recycled, s.Passed f
  buffers_aligned : ∀ b ∈ s.buffers, pageSize ∣ b.ptr ∧ pageSize ∣ b.len
  ahead : ∀ b ∈ s.buffers, ∀ f, b.HasFrame f → ¬ s.Passed f

theorem Apart.allocateFrame {s s' : BootMemory} (h : s.Apart) (hbuffers : s.buffers = [])
    (hstep : s.step .allocateFrame = some s') :
    s'.Apart := by
  obtain ⟨blockSize, ⟨⟨regions, recycled, entry, addr⟩, live⟩, buffers⟩ := s
  obtain rfl : buffers = [] := hbuffers
  simp only [step, PoolState.step, Option.map_eq_some_iff, Option.bind_eq_bind,
    Option.bind_eq_some_iff, Option.some.injEq] at hstep
  obtain ⟨pool, ⟨⟨res, a'⟩, hres, rfl⟩, rfl⟩ := hstep
  cases recycled with
  | cons f rest =>
    simp only [BootInfoFrameAllocator.allocateFrame, Option.some.injEq, Prod.mk.injEq] at hres
    obtain ⟨rfl, rfl⟩ := hres
    refine ⟨h.regions_aligned, h.entry_le, h.addr_aligned, ?_, by simp, by simp⟩
    intro g hg
    refine h.behind g ?_
    simp only [Option.toList_some, List.cons_append, List.nil_append, List.mem_cons,
      List.mem_append] at hg ⊢
    tauto
  | nil =>
    simp only [BootInfoFrameAllocator.allocateFrame, Option.bind_eq_bind,
      Option.bind_eq_some_iff] at hres
    obtain ⟨⟨res', entry', addr'⟩, hscan, hres⟩ := hres
    simp only [Option.some.injEq, Prod.mk.injEq] at hres
    obtain ⟨rfl, rfl⟩ := hres
    obtain ⟨pre, post, hrest, rfl, haddr', hres⟩ :=
      scanRegions_spec (regions.drop entry) (regions.take entry) entry addr res' entry' addr'
        (fun r hr => h.regions_aligned r (List.mem_of_mem_drop hr)) h.addr_aligned hscan
    obtain ⟨htake, hdrop, hle⟩ := take_drop_of_drop_eq h.entry_le hrest
    refine ⟨h.regions_aligned, hle, haddr', ?_, by simp, by simp⟩
    intro g hg
    have hbehind := h.behind g
    simp only [Passed, List.append_nil, htake, hdrop] at hg hbehind ⊢
    cases res' with
    | none =>
      rw [hres.2 g]
      exact hbehind (by simpa using hg)
    | some f =>
      rw [hres.1 g]
      rcases List.mem_cons.mp hg with rfl | hg
      · exact Or.inr rfl
      · exact Or.inl (hbehind hg)

theorem Apart.step (s : BootMemory) (event : BootEvent) (s' : BootMemory) (h : s.Apart)
    (hstep : s.KeepsApart event ∧ s.step event = some s') :
    s'.Apart := by
  obtain ⟨hkeeps, hstep⟩ := hstep
  cases event with
  | allocateFrame =>
    exact h.allocateFrame hkeeps hstep
  | deallocateFrame f =>
    simp only [BootMemory.step, PoolState.step, Option.map_eq_some_iff] at hstep
    obtain ⟨pool, hpool, rfl⟩ := hstep
    split_ifs at hpool with hf
    cases hpool
    refine ⟨h.regions_aligned, h.entry_le, h.addr_aligned, ?_, h.buffers_aligned, h.ahead⟩
    intro g hg
    refine h.behind g ?_
    simp only [BootInfoFrameAllocator.deallocateFrame, List.mem_append, List.mem_cons] at hg ⊢
    rcases hg with hg | rfl | hg
    · exact Or.inl (List.mem_of_mem_erase hg)
    · exact Or.inl hf
    · exact Or.inr hg
  | beginTransfer offset len answer =>
    simp only [BootMemory.step] at hstep
    cases hnew : (scratchLen s.blockSize offset len).bind fun n =>
        UefiAlignedBuffer.new n answer with
    | none =>
      simp only [hnew, Option.some.injEq] at hstep
      exact hstep ▸ h
    | some b =>
      simp only [hnew] at hstep
      split_ifs at hstep with havailable
      cases hstep
      obtain ⟨n, hn, hb⟩ := Option.bind_eq_some_iff.mp hnew
      have hlen : pageSize ∣ b.len := by
        obtain ⟨ptr, -, rfl⟩ := Option.map_eq_some_iff.mp hb
        exact Nat.dvd_mul_left _ _
      refine ⟨h.regions_aligned, h.entry_le, h.addr_aligned, h.behind, ?_, ?_⟩
      · intro b' hb'
        rcases List.mem_cons.mp hb' with rfl | hb'
        · exact ⟨havailable.1, hlen⟩
        · exact h.buffers_aligned b' hb'
      · intro b' hb'
        rcases List.mem_cons.mp hb' with rfl | hb'
        · intro f hf
          obtain ⟨k, hk, rfl⟩ := UefiAlignedBuffer.number_of_hasFrame havailable.1 hf
          exact hkeeps n hn b' hb k hk
        · exact h.ahead b' hb'
  | endTransfer b =>
    simp only [BootMemory.step] at hstep
    split_ifs at hstep
    cases hstep
    refine ⟨h.regions_aligned, h.entry_le, h.addr_aligned, h.behind, ?_, ?_⟩
    · exact fun b' hb' => h.buffers_aligned b' (List.mem_of_mem_erase hb')
    · exact fun b' hb' => h.ahead b' (List.mem_of_mem_erase hb')

theorem apart_init {blockSize : Nat} {memoryMap : List MemoryDescriptor} {s : BootMemory}
    (h : init blockSize memoryMap = some s) :
    s.Apart := by
  obtain ⟨regions, hregions, rfl⟩ := Option.map_eq_some_iff.mp h
  refine ⟨usableRegions_aligned hregions, Nat.zero_le _, dvd_zero _, ?_, ?_, ?_⟩
  · simp [PoolState.init, BootInfoFrameAllocator.initFromRegions]
  · simp
  · simp

/-- **Frames and firmware buffers do not overlap**, in every run from boot in which no frame
is taken during a transfer and the firmware answers with pages ahead of the cursor. -/
theorem frames_avoid_buffers
    {blockSize : Nat} {memoryMap : List MemoryDescriptor} {s₀ s : BootMemory}
    {events : List BootEvent} (hinit : init blockSize memoryMap = some s₀)
    (hrun : Run (fun s event s' => s.KeepsApart event ∧ s.step event = some s') s₀ events s) :
    ∀ f ∈ s.pool.live, ∀ b ∈ s.buffers,
      f.startAddress + pageSize ≤ b.ptr ∨ b.ptr + b.len ≤ f.startAddress := by
  have h : s.Apart := hrun.invariant Apart.step (apart_init hinit)
  intro f hf b hb
  by_contra hoverlap
  simp only [not_or, not_le] at hoverlap
  -- both begin at a page, so the frame is a page of the buffer
  have hpage : b.HasFrame f := by
    obtain ⟨⟨p, hptr⟩, ⟨n, hlen⟩⟩ := h.buffers_aligned b hb
    simp only [PhysFrame.startAddress, UefiAlignedBuffer.HasFrame, pageSize] at *
    omega
  exact h.ahead b hb f hpage (h.behind f (List.mem_append_left _ hf))

/-- Two frames are taken, and two transfers made, from the end of a region of eight pages. -/
theorem frames_avoid_buffers_eight_pages :
    ∃ s₀ s, init 512 [⟨.conventional, 0x1000, 8, by decide⟩] = some s₀ ∧
      Run (fun s event s' => s.KeepsApart event ∧ s.step event = some s') s₀
        [.allocateFrame, .beginTransfer 0 512 (some 0x8000), .endTransfer ⟨0x8000, 0x1000⟩,
          .allocateFrame, .beginTransfer 100 8192 (some 0x6000)] s ∧
      s.pool.live = [⟨2⟩, ⟨1⟩] ∧ s.buffers = [⟨0x6000, 0x3000⟩] ∧
      ∀ f ∈ s.pool.live, ∀ b ∈ s.buffers,
        f.startAddress + pageSize ≤ b.ptr ∨ b.ptr + b.len ≤ f.startAddress := by
  have hrun : (init 512 [⟨.conventional, 0x1000, 8, by decide⟩]).bind (fun s₀ =>
      (runAll (guarded KeepsApart step) s₀
        [.allocateFrame, .beginTransfer 0 512 (some 0x8000), .endTransfer ⟨0x8000, 0x1000⟩,
          .allocateFrame, .beginTransfer 100 8192 (some 0x6000)]).map fun s =>
        (s.pool.live, s.buffers)) = some ([⟨2⟩, ⟨1⟩], [⟨0x6000, 0x3000⟩]) := by
    decide +kernel
  simp only [Option.bind_eq_some_iff, Option.map_eq_some_iff, Prod.mk.injEq] at hrun
  obtain ⟨s₀, hs₀, s, hs, hlive, hbuffers⟩ := hrun
  exact ⟨s₀, s, hs₀, run_of_guarded hs, hlive, hbuffers,
    frames_avoid_buffers hs₀ (run_of_guarded hs)⟩

/-- The first frame the kernel takes is conventional memory for the firmware, and it may
answer with it. -/
theorem frame_inside_buffer :
    ∃ s₀ s, init 512 [⟨.conventional, 0x1000, 8, by decide⟩] = some s₀ ∧
      Run (Det step) s₀ [.allocateFrame, .beginTransfer 0 512 (some 0x1000)] s ∧
      ∃ f ∈ s.pool.live, ∃ b ∈ s.buffers, b.HasFrame f := by
  have hrun : (init 512 [⟨.conventional, 0x1000, 8, by decide⟩]).bind (fun s₀ =>
      (runAll step s₀ [.allocateFrame, .beginTransfer 0 512 (some 0x1000)]).map fun s =>
        (s.pool.live, s.buffers)) = some ([⟨1⟩], [⟨0x1000, 0x1000⟩]) := by
    decide +kernel
  simp only [Option.bind_eq_some_iff, Option.map_eq_some_iff, Prod.mk.injEq] at hrun
  obtain ⟨s₀, hs₀, s, hs, hlive, hbuffers⟩ := hrun
  refine ⟨s₀, s, hs₀, (runAll_eq_some_iff _ _ _ _).mp hs, ⟨1⟩, by simp [hlive], ⟨0x1000, 0x1000⟩,
    by simp [hbuffers], by decide⟩

end BootMemory

end Kernel
end Theos
