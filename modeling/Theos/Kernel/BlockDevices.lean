import Theos.Base.Buffer
import Theos.Base.Method
import Theos.Base.Rust
import Theos.Crabfs.Endian

/-!
# Block devices as byte arrays

`VirtioBlkDevice` of `kernel/virtio_blk.rs` and `UefiBlockDevice` of `kernel/vfs.rs` give
`read_at` and `write_at` at any byte offset on top of transfers of whole sectors or blocks.

The virtio device goes through the range sector by sector and patches the sectors that the
range only meets in part.  It is a byte array: every sequence of calls gives the results of
`ByteCall.apply` on the bytes of the medium.

The UEFI device widens the range to whole blocks and then rounds the buffer up to whole
pages; the firmware transfers the whole buffer.  It is a byte array only where the widened
range still is on the medium and is a number of blocks, which is `Covers`.
-/

namespace Theos
namespace Kernel

open Base Method
open Crabfs (DeviceError)

/-! ## Bytes -/

/-- The calls on a block device. -/
inductive ByteCall where
  | readAt (offset len : Nat)
  | writeAt (offset : Nat) (buf : Bytes)

/-- A call on an array of bytes: what it returns, and the array after it. -/
def ByteCall.apply (bytes : Bytes) : ByteCall → Except DeviceError Bytes × Bytes
  | .readAt offset len =>
    if bytes.length < offset + len then (.error .outOfRange, bytes)
    else (.ok (slice bytes offset len), bytes)
  | .writeAt offset buf =>
    if bytes.length < offset + buf.length then (.error .outOfRange, bytes)
    else (.ok [], splice bytes offset buf)

/-! ## The virtio device -/

def sectorSize : Nat := 512

/-- `[u8; SECTOR_SIZE]`. -/
structure Sector where
  bytes : Bytes
  length_bytes : bytes.length = sectorSize

def Sector.zero : Sector :=
  ⟨List.replicate sectorSize 0, List.length_replicate⟩

/-- `sector[at..at + data.len()].copy_from_slice(data)`. -/
def Sector.patch (sector : Sector) (at_ : Nat) (data : Bytes) : Option Sector :=
  if h : at_ + data.length ≤ sectorSize then
    some ⟨splice sector.bytes at_ data, by
      rw [length_splice (by rwa [sector.length_bytes]), sector.length_bytes]⟩
  else none

/-- The device and the bytes of its sectors. -/
structure VirtioBlkDevice where
  capacitySectors : Nat
  media : Bytes
  length_media : media.length = capacitySectors * sectorSize

inductive VirtioBlkError where
  | outOfRange
  | requestFailed
deriving DecidableEq, Repr

namespace VirtioBlkDevice

def capacityBytes (d : VirtioBlkDevice) : Nat :=
  satMulU 64 d.capacitySectors sectorSize

theorem sector_le {d : VirtioBlkDevice} {sector : Nat} (h : sector < d.capacitySectors) :
    sector * sectorSize + sectorSize ≤ d.media.length := by
  rw [d.length_media, ← Nat.succ_mul]
  exact Nat.mul_le_mul_right _ h

/-- `read_sector`, with `submit_rw` as the read of a sector. -/
def readSector (sector : Nat) : Method VirtioBlkDevice VirtioBlkError Sector := do
  let d ← Method.get
  if h : sector < d.capacitySectors then
    pure ⟨slice d.media (sector * sectorSize) sectorSize, length_slice (sector_le h)⟩
  else
    Method.err .outOfRange

/-- `write_sector`, with `submit_rw` as the write of a sector. -/
def writeSector (sector : Nat) (data : Sector) : Method VirtioBlkDevice VirtioBlkError Unit := do
  let d ← Method.get
  if h : sector < d.capacitySectors then
    Method.modify fun _ =>
      { d with
        media := splice d.media (sector * sectorSize) data.bytes
        length_media := by
          rw [length_splice (by rw [data.length_bytes]; exact sector_le h), d.length_media] }
  else
    Method.err .outOfRange

/-- `.map_err(|_| DeviceError::Io)`. -/
def orIo {α : Type} (x : Method VirtioBlkDevice VirtioBlkError α) :
    Method VirtioBlkDevice DeviceError α :=
  Method.part id (fun d _ => d) (fun _ => .io) x

/-- How much of the range is in the sector of the cursor. -/
def takeAt (remaining curOff : Nat) : Nat :=
  min remaining (sectorSize - curOff % sectorSize)

theorem takeAt_pos {remaining : Nat} (h : remaining ≠ 0) (curOff : Nat) :
    0 < takeAt remaining curOff := by
  simp only [takeAt, sectorSize]
  omega

/-- The loop of `read_at`, with what has been read. -/
def readLoop (remaining curOff : Nat) (out : Bytes) :
    Method VirtioBlkDevice DeviceError Bytes :=
  if _h : remaining = 0 then
    pure out
  else do
    let tmp ← orIo (readSector (curOff / sectorSize))
    let part := slice tmp.bytes (curOff % sectorSize) (takeAt remaining curOff)
    readLoop (remaining - takeAt remaining curOff) (curOff + takeAt remaining curOff)
      (out ++ part)
termination_by remaining
decreasing_by
  have := takeAt_pos _h curOff
  omega

/-- `read_at` into a buffer of `len` bytes. -/
def readAt (offset len : Nat) : Method VirtioBlkDevice DeviceError Bytes := do
  let d ← Method.get
  if d.capacityBytes < satAddU 64 offset len then
    Method.err .outOfRange
  else
    readLoop len offset []

/-- A round of `write_at`: the sector is read first unless all of it is written. -/
def writePart (part : Bytes) (curOff : Nat) : Method VirtioBlkDevice DeviceError Unit := do
  let tmp ←
    (if part.length ≠ sectorSize then orIo (readSector (curOff / sectorSize)) else pure .zero)
  let tmp ← Method.orPanic (tmp.patch (curOff % sectorSize) part)
  orIo (writeSector (curOff / sectorSize) tmp)

/-- The loop of `write_at`, with what is left to write. -/
def writeLoop (buf : Bytes) (curOff : Nat) : Method VirtioBlkDevice DeviceError Unit :=
  if _h : buf.length = 0 then
    pure ()
  else do
    writePart (buf.take (takeAt buf.length curOff)) curOff
    writeLoop (buf.drop (takeAt buf.length curOff)) (curOff + takeAt buf.length curOff)
termination_by buf.length
decreasing_by
  have := takeAt_pos _h curOff
  rw [List.length_drop]
  omega

/-- `write_at`. -/
def writeAt (offset : Nat) (buf : Bytes) : Method VirtioBlkDevice DeviceError Unit := do
  let d ← Method.get
  if d.capacityBytes < satAddU 64 offset buf.length then
    Method.err .outOfRange
  else
    writeLoop buf offset

/-- A call with what it returns; a write returns no bytes. -/
def call : ByteCall → Method VirtioBlkDevice DeviceError Bytes
  | .readAt offset len => readAt offset len
  | .writeAt offset buf => writeAt offset buf >>= fun _ => pure []

/-- A sequence of calls, with what each returns. -/
def calls : List ByteCall → Method VirtioBlkDevice DeviceError (List (Except DeviceError Bytes))
  | [] => pure []
  | c :: cs => do
    let r ← Method.attempt (call c)
    let rs ← calls cs
    return r :: rs

/-! ### One round -/

/-- The cursor of a round and its part of the range are in one sector of the medium. -/
theorem round_bounds {d : VirtioBlkDevice} {remaining curOff : Nat} (h : remaining ≠ 0)
    (hrange : curOff + remaining ≤ d.media.length) :
    curOff / sectorSize < d.capacitySectors ∧
      curOff / sectorSize * sectorSize + curOff % sectorSize = curOff ∧
      curOff % sectorSize + takeAt remaining curOff ≤ sectorSize ∧
      takeAt remaining curOff ≤ remaining := by
  rw [d.length_media] at hrange
  simp only [takeAt, sectorSize] at *
  omega

theorem readSector_of_lt {d : VirtioBlkDevice} {sector : Nat} (h : sector < d.capacitySectors) :
    orIo (readSector sector) d =
      .ok (.ok ⟨slice d.media (sector * sectorSize) sectorSize, length_slice (sector_le h)⟩, d) := by
  refine Method.part_of_ok ?_
  simp only [readSector, get_bind_apply, id, dif_pos h]
  rfl

theorem readLoop_spec {d : VirtioBlkDevice} {remaining curOff : Nat}
    (h : curOff + remaining ≤ d.media.length) (out : Bytes) :
    readLoop remaining curOff out d = .ok (.ok (out ++ slice d.media curOff remaining), d) := by
  induction remaining using Nat.strong_induction_on generalizing curOff out with
  | _ remaining ih =>
    rw [readLoop]
    split
    next hzero => simp [hzero, slice]
    next hne =>
      obtain ⟨hsector, hcursor, htake, hle⟩ := round_bounds hne h
      have hpos := takeAt_pos hne curOff
      rw [bind_of_ok (readSector_of_lt hsector), ih _ (by omega) (by omega), slice_slice htake,
        hcursor, List.append_assoc, ← slice_add, Nat.add_sub_cancel' hle]

theorem writePart_spec {d : VirtioBlkDevice} {curOff : Nat} {part : Bytes}
    (hsector : curOff / sectorSize < d.capacitySectors)
    (hcursor : curOff / sectorSize * sectorSize + curOff % sectorSize = curOff)
    (hpart : curOff % sectorSize + part.length ≤ sectorSize) :
    ∃ d', writePart part curOff d = .ok (.ok (), d') ∧
      d'.capacitySectors = d.capacitySectors ∧ d'.media = splice d.media curOff part := by
  have hwrite (data : Sector) : ∃ d', orIo (writeSector (curOff / sectorSize) data) d =
      .ok (.ok (), d') ∧ d'.capacitySectors = d.capacitySectors ∧
        d'.media = splice d.media (curOff / sectorSize * sectorSize) data.bytes := by
    simp only [orIo, Method.part, writeSector, get_bind_apply, id, dif_pos hsector]
    exact ⟨_, rfl, rfl, rfl⟩
  rw [writePart]
  by_cases hfull : part.length = sectorSize
  · rw [if_neg (not_not.mpr hfull), pure_bind_apply, Sector.patch, dif_pos hpart, orPanic_some,
      pure_bind_apply]
    obtain ⟨d', hd', hcapacity, hmedia⟩ := hwrite _
    refine ⟨d', hd', hcapacity, hmedia.trans ?_⟩
    change splice _ _ (splice Sector.zero.bytes (curOff % sectorSize) part) = _
    have hzero : curOff % sectorSize = 0 := by omega
    have hstart : curOff / sectorSize * sectorSize = curOff := by omega
    rw [hzero, hstart, splice_full (by rw [hfull, Sector.zero.length_bytes])]
  · rw [if_pos hfull, bind_of_ok (readSector_of_lt hsector), Sector.patch, dif_pos hpart,
      orPanic_some, pure_bind_apply]
    obtain ⟨d', hd', hcapacity, hmedia⟩ := hwrite _
    refine ⟨d', hd', hcapacity, hmedia.trans ?_⟩
    rw [splice_splice_slice (sector_le hsector) hpart, hcursor]

theorem writeLoop_spec {d : VirtioBlkDevice} {buf : Bytes} {curOff : Nat}
    (h : curOff + buf.length ≤ d.media.length) :
    ∃ d', writeLoop buf curOff d = .ok (.ok (), d') ∧
      d'.capacitySectors = d.capacitySectors ∧ d'.media = splice d.media curOff buf := by
  induction hlen : buf.length using Nat.strong_induction_on generalizing buf curOff d with
  | _ remaining ih =>
    subst hlen
    rw [writeLoop]
    split
    next hzero =>
      rw [List.length_eq_zero_iff] at hzero
      exact ⟨d, rfl, rfl, by simp [hzero, splice]⟩
    next hne =>
      obtain ⟨hsector, hcursor, htake, hle⟩ := round_bounds hne h
      have hpos := takeAt_pos hne curOff
      generalize takeAt buf.length curOff = take at *
      have hpart : (buf.take take).length = take := by rw [List.length_take]; omega
      have hrest : (buf.drop take).length = buf.length - take := List.length_drop
      obtain ⟨d₁, hround, hcapacity₁, hmedia₁⟩ := writePart_spec hsector hcursor (hpart ▸ htake)
      have hlength₁ : d₁.media.length = d.media.length := by
        rw [d₁.length_media, d.length_media, hcapacity₁]
      obtain ⟨d₂, hloop, hcapacity₂, hmedia₂⟩ :=
        ih _ (by omega) (by omega : curOff + take + (buf.drop take).length ≤ d₁.media.length) rfl
      refine ⟨d₂, ?_, hcapacity₂.trans hcapacity₁, ?_⟩
      · rw [bind_of_ok hround, hloop]
      · have happend := splice_append
          (show curOff + (buf.take take).length + (buf.drop take).length ≤ d.media.length by omega)
        rw [List.take_append_drop, hpart] at happend
        rw [hmedia₂, hmedia₁, happend]

/-! ### Sequences of calls -/

/-- Below `2^55` sectors no sum saturates at the capacity. -/
theorem capacityBytes_lt_iff {d : VirtioBlkDevice} (h : d.capacitySectors < 2 ^ 55)
    (offset len : Nat) :
    d.capacityBytes < satAddU 64 offset len ↔ d.media.length < offset + len := by
  rw [capacityBytes, d.length_media, satMulU, satAddU, sectorSize]
  omega

theorem call_spec {d : VirtioBlkDevice} (h : d.capacitySectors < 2 ^ 55) (c : ByteCall) :
    ∃ d', call c d = .ok ((c.apply d.media).1, d') ∧
      d'.capacitySectors = d.capacitySectors ∧ d'.media = (c.apply d.media).2 := by
  cases c with
  | readAt offset len =>
    simp only [call, readAt, get_bind_apply, capacityBytes_lt_iff h, ByteCall.apply]
    by_cases hrange : d.media.length < offset + len
    · simp only [if_pos hrange]
      exact ⟨d, rfl, rfl, rfl⟩
    · simp only [if_neg hrange]
      exact ⟨d, readLoop_spec (by omega) [], rfl, rfl⟩
  | writeAt offset buf =>
    have hwrite : writeAt offset buf d =
        if d.media.length < offset + buf.length then .ok (.error .outOfRange, d)
        else writeLoop buf offset d := by
      simp only [writeAt, get_bind_apply, capacityBytes_lt_iff h]
      split <;> rfl
    simp only [ByteCall.apply]
    by_cases hrange : d.media.length < offset + buf.length
    · rw [if_pos hrange] at hwrite ⊢
      exact ⟨d, bind_of_err hwrite, rfl, rfl⟩
    · rw [if_neg hrange] at hwrite ⊢
      obtain ⟨d', hloop, hcapacity, hmedia⟩ := writeLoop_spec (Nat.not_lt.mp hrange)
      exact ⟨d', bind_of_ok (hwrite.trans hloop), hcapacity, hmedia⟩

end VirtioBlkDevice

/-- A sequence of calls on an array of bytes. -/
def ByteCall.applyAll (bytes : Bytes) : List ByteCall → List (Except DeviceError Bytes) × Bytes
  | [] => ([], bytes)
  | c :: cs =>
    ((c.apply bytes).1 :: (applyAll (c.apply bytes).2 cs).1, (applyAll (c.apply bytes).2 cs).2)

/-- Every sequence of calls on the virtio device gives what it gives on the array of the bytes
of the medium. -/
theorem virtio_blk_byte_array (d : VirtioBlkDevice) (h : d.capacitySectors < 2 ^ 55)
    (cs : List ByteCall) :
    ∃ d', VirtioBlkDevice.calls cs d = .ok (.ok (ByteCall.applyAll d.media cs).1, d') ∧
      d'.media = (ByteCall.applyAll d.media cs).2 := by
  induction cs generalizing d with
  | nil => exact ⟨d, rfl, rfl⟩
  | cons c cs ih =>
    obtain ⟨d₁, hcall, hcapacity, hmedia⟩ := VirtioBlkDevice.call_spec h c
    obtain ⟨d₂, hcalls, hmedia₂⟩ := ih d₁ (by rwa [hcapacity])
    rw [hmedia] at hcalls hmedia₂
    refine ⟨d₂, ?_, hmedia₂⟩
    rw [VirtioBlkDevice.calls, bind_of_ok (attempt_of_ok hcall), bind_of_ok hcalls]
    rfl

/-- A device of one sector. -/
def oneSector : VirtioBlkDevice where
  capacitySectors := 1
  media := List.replicate 512 0
  length_media := List.length_replicate

/-- A write inside the sector is read back; the byte before it is as it was. -/
theorem virtio_blk_byte_array_oneSector :
    ∃ d', VirtioBlkDevice.calls [.writeAt 3 [7, 8], .readAt 2 4, .readAt 512 1] oneSector =
        .ok (.ok [.ok [], .ok [0, 7, 8, 0], .error .outOfRange], d') := by
  obtain ⟨d', hcalls, -⟩ := virtio_blk_byte_array oneSector (by decide)
    [.writeAt 3 [7, 8], .readAt 2 4, .readAt 512 1]
  have hbytes : (ByteCall.applyAll oneSector.media
      [.writeAt 3 [7, 8], .readAt 2 4, .readAt 512 1]).1 =
        [.ok [], .ok [0, 7, 8, 0], .error .outOfRange] := by
    decide +kernel
  exact ⟨d', by rw [hcalls, hbytes]⟩

/-! ## The UEFI device -/

def uefiPageSize : Nat := 4096

/-- The device, the bytes of its medium, and the page requests the firmware grants. -/
structure UefiBlockDevice where
  blockSize : Nat
  media : Bytes
  blockSize_pos : 0 < blockSize
  media_blocks : blockSize ∣ media.length
  allocatePages : Nat → Bool

namespace UefiBlockDevice

/-- `u64::div_ceil`. -/
def divCeil (a b : Nat) : Nat :=
  (a + b - 1) / b

/-- `BlockIO::read_blocks` into a buffer of `len` bytes. -/
def readBlocks (d : UefiBlockDevice) (lba len : Nat) : Option Bytes :=
  if d.blockSize ∣ len ∧ lba * d.blockSize + len ≤ d.media.length then
    some (slice d.media (lba * d.blockSize) len)
  else none

/-- `BlockIO::write_blocks`. -/
def writeBlocks (d : UefiBlockDevice) (lba : Nat) (data : Bytes) : Option UefiBlockDevice :=
  if h : d.blockSize ∣ data.length ∧ lba * d.blockSize + data.length ≤ d.media.length then
    some { d with
      media := splice d.media (lba * d.blockSize) data
      media_blocks := by rw [length_splice h.2]; exact d.media_blocks }
  else none

theorem writeBlocks_of_le {d : UefiBlockDevice} {lba : Nat} {data : Bytes}
    (hblocks : d.blockSize ∣ data.length)
    (hinside : lba * d.blockSize + data.length ≤ d.media.length) :
    ∃ d', d.writeBlocks lba data = some d' ∧
      d'.media = splice d.media (lba * d.blockSize) data := by
  rw [writeBlocks, dif_pos ⟨hblocks, hinside⟩]
  exact ⟨_, rfl, rfl⟩

/-- `UefiAlignedBuffer::new`: the length of the buffer. -/
def scratchBuffer (d : UefiBlockDevice) (len : Nat) : Rust DeviceError Nat :=
  if d.allocatePages (divCeil len uefiPageSize) then
    Rust.orPanic (mulU 64 (divCeil len uefiPageSize) uefiPageSize)
  else Rust.err .io

/-- How `read_at` and `write_at` begin: the blocks of the range are read into a scratch
buffer. -/
def readScratch (d : UefiBlockDevice) (offset len : Nat) : Rust DeviceError Bytes := do
  let stop ← Rust.okOr .io (addU 64 offset len)
  let blockCount := divCeil stop d.blockSize - offset / d.blockSize
  let size ← Rust.orPanic (mulU 64 blockCount d.blockSize)
  let scratch ← d.scratchBuffer size
  Rust.okOr .io (d.readBlocks (offset / d.blockSize) scratch)

/-- `read_at` into a buffer of `len` bytes. -/
def readAt (d : UefiBlockDevice) (offset len : Nat) : Rust DeviceError Bytes :=
  if len = 0 then .ok []
  else do
    let scratch ← d.readScratch offset len
    let start := offset % d.blockSize
    if start + len ≤ scratch.length then .ok (slice scratch start len) else Rust.panic

/-- `write_at`, with the device after it. -/
def writeAt (d : UefiBlockDevice) (offset : Nat) (buf : Bytes) :
    Rust DeviceError UefiBlockDevice :=
  if buf.length = 0 then .ok d
  else do
    let scratch ← d.readScratch offset buf.length
    let start := offset % d.blockSize
    if start + buf.length ≤ scratch.length then
      Rust.okOr .io (d.writeBlocks (offset / d.blockSize) (splice scratch start buf))
    else Rust.panic

/-- The length of the buffer for a range: its blocks, rounded up to pages. -/
def scratchLen (d : UefiBlockDevice) (offset len : Nat) : Nat :=
  divCeil ((divCeil (offset + len) d.blockSize - offset / d.blockSize) * d.blockSize)
    uefiPageSize * uefiPageSize

/-- The buffer for the range is a number of blocks that are on the medium, and the firmware
grants it. -/
structure Covers (d : UefiBlockDevice) (offset len : Nat) : Prop where
  stop_lt : offset + len < 2 ^ 64
  scratch_lt : d.scratchLen offset len < 2 ^ 64
  granted : d.allocatePages (d.scratchLen offset len / uefiPageSize)
  blocks : d.blockSize ∣ d.scratchLen offset len
  inside : offset / d.blockSize * d.blockSize + d.scratchLen offset len ≤ d.media.length

theorem le_divCeil_mul (a : Nat) {b : Nat} (h : 0 < b) : a ≤ divCeil a b * b := by
  have hdiv := Nat.div_add_mod (a + b - 1) b
  have hmod := Nat.mod_lt (a + b - 1) h
  rw [Nat.mul_comm] at hdiv
  rw [divCeil]
  omega

section Range

variable {d : UefiBlockDevice} {offset len : Nat}

/-- The buffer holds the range. -/
theorem range_le_scratchLen (d : UefiBlockDevice) (offset len : Nat) :
    offset % d.blockSize + len ≤
        (divCeil (offset + len) d.blockSize - offset / d.blockSize) * d.blockSize ∧
      (divCeil (offset + len) d.blockSize - offset / d.blockSize) * d.blockSize ≤
        d.scratchLen offset len := by
  constructor
  · have hstop := le_divCeil_mul (offset + len) d.blockSize_pos
    have hoffset := Nat.div_add_mod offset d.blockSize
    rw [Nat.sub_mul]
    rw [Nat.mul_comm] at hoffset
    omega
  · exact le_divCeil_mul _ (by decide)

theorem readScratch_eq_ok_iff {scratch : Bytes} :
    d.readScratch offset len = .ok scratch ↔
      d.Covers offset len ∧
        scratch = slice d.media (offset / d.blockSize * d.blockSize) (d.scratchLen offset len) := by
  have hsize := (range_le_scratchLen d offset len).2
  have hpages : d.scratchLen offset len / uefiPageSize = divCeil
      ((divCeil (offset + len) d.blockSize - offset / d.blockSize) * d.blockSize) uefiPageSize :=
    Nat.mul_div_cancel _ (by decide)
  simp only [readScratch, Rust.bind_eq_ok, Rust.okOr_eq_ok_iff, Rust.orPanic_eq_ok_iff,
    addU_eq_some_iff, mulU_eq_some_iff, scratchBuffer, readBlocks]
  constructor
  · rintro ⟨stop, ⟨hstop, rfl⟩, size, ⟨-, rfl⟩, scratch', hscratch, hread⟩
    split at hscratch
    next hgranted =>
      obtain ⟨hlt, rfl⟩ := (mulU_eq_some_iff _ _ _ _).mp ((Rust.orPanic_eq_ok_iff _ _).mp hscratch)
      split at hread
      next hblocks =>
        exact ⟨⟨hstop, hlt, by rw [hpages]; exact hgranted, hblocks.1, hblocks.2⟩,
          (Option.some.inj hread).symm⟩
      next => cases hread
    next => cases hscratch
  · rintro ⟨hcovers, rfl⟩
    have hgranted := hcovers.granted
    rw [hpages] at hgranted
    refine ⟨_, ⟨hcovers.stop_lt, rfl⟩, _, ⟨hsize.trans_lt hcovers.scratch_lt, rfl⟩,
      d.scratchLen offset len, ?_, ?_⟩
    · rw [if_pos hgranted, Rust.orPanic_eq_ok_iff, mulU_eq_some_iff]
      exact ⟨hcovers.scratch_lt, rfl⟩
    · rw [if_pos ⟨hcovers.blocks, hcovers.inside⟩]

/-- The buffer, once it is read, holds the range from its offset in the first block on. -/
theorem Covers.range_le (h : d.Covers offset len) :
    offset % d.blockSize + len ≤
      (slice d.media (offset / d.blockSize * d.blockSize) (d.scratchLen offset len)).length := by
  rw [length_slice h.inside]
  exact (range_le_scratchLen d offset len).1.trans (range_le_scratchLen d offset len).2

theorem start_add (d : UefiBlockDevice) (offset : Nat) :
    offset / d.blockSize * d.blockSize + offset % d.blockSize = offset := by
  rw [Nat.mul_comm]
  exact Nat.div_add_mod _ _

theorem readAt_eq_ok_iff :
    d.readAt offset len = .ok (slice d.media offset len) ↔ len = 0 ∨ d.Covers offset len := by
  rw [readAt]
  split
  next hzero => simp [hzero, slice]
  next hne =>
    simp only [hne, false_or, Rust.bind_eq_ok, readScratch_eq_ok_iff]
    constructor
    · rintro ⟨_, ⟨hcovers, -⟩, -⟩
      exact hcovers
    · intro hcovers
      refine ⟨_, ⟨hcovers, rfl⟩, ?_⟩
      have hrange := range_le_scratchLen d offset len
      rw [if_pos hcovers.range_le, slice_slice (hrange.1.trans hrange.2), start_add]

theorem writeAt_eq_ok_iff {buf : Bytes} :
    (∃ d', d.writeAt offset buf = .ok d' ∧ d'.media = splice d.media offset buf) ↔
      buf = [] ∨ d.Covers offset buf.length := by
  rw [writeAt]
  split
  next hzero =>
    rw [List.length_eq_zero_iff] at hzero
    simp [hzero, splice]
  next hne =>
    have hbuf : buf ≠ [] := by
      rintro rfl
      exact hne rfl
    simp only [hbuf, false_or, Rust.bind_eq_ok, readScratch_eq_ok_iff]
    constructor
    · rintro ⟨_, ⟨_, ⟨hcovers, -⟩, -⟩, -⟩
      exact hcovers
    · intro hcovers
      have hrange := range_le_scratchLen d offset buf.length
      have hlength : (splice (slice d.media (offset / d.blockSize * d.blockSize)
          (d.scratchLen offset buf.length)) (offset % d.blockSize) buf).length =
            d.scratchLen offset buf.length := by
        rw [length_splice hcovers.range_le, length_slice hcovers.inside]
      obtain ⟨d', hwrite, hmedia⟩ := writeBlocks_of_le (hlength ▸ hcovers.blocks)
        (hlength ▸ hcovers.inside)
      refine ⟨d', ⟨_, ⟨hcovers, rfl⟩, ?_⟩, ?_⟩
      · rw [if_pos hcovers.range_le, hwrite]
        rfl
      · rw [hmedia, splice_splice_slice hcovers.inside (hrange.1.trans hrange.2), start_add]

end Range

end UefiBlockDevice

/-- `read_at` and `write_at` on a range of the medium act on exactly its bytes if and only if
the range is empty or its buffer covers whole blocks of the medium. -/
theorem uefi_block_byte_array_iff (d : UefiBlockDevice) (offset : Nat) :
    (∀ len, offset + len ≤ d.media.length →
      (d.readAt offset len = .ok (slice d.media offset len) ↔
        len = 0 ∨ d.Covers offset len)) ∧
    ∀ buf : Bytes, offset + buf.length ≤ d.media.length →
      ((∃ d', d.writeAt offset buf = .ok d' ∧ d'.media = splice d.media offset buf) ↔
        buf = [] ∨ d.Covers offset buf.length) :=
  ⟨fun _ _ => UefiBlockDevice.readAt_eq_ok_iff, fun _ _ => UefiBlockDevice.writeAt_eq_ok_iff⟩

/-- A medium of `n` blocks of 512 bytes. -/
def uefiMedium (n : Nat) : UefiBlockDevice where
  blockSize := 512
  media := List.replicate (n * 512) 0
  blockSize_pos := by decide
  media_blocks := by rw [List.length_replicate]; exact Nat.dvd_mul_left _ _
  allocatePages _ := true

theorem length_uefiMedium (n : Nat) : (uefiMedium n).media.length = n * 512 :=
  List.length_replicate

/-- A byte of a medium of one page. -/
theorem uefi_block_byte_array_page :
    (uefiMedium 8).readAt 100 1 = .ok (slice (uefiMedium 8).media 100 1) := by
  refine ((uefi_block_byte_array_iff (uefiMedium 8) 100).1 1 ?_).mpr (Or.inr ?_)
  · rw [length_uefiMedium]
    decide
  · exact ⟨by decide, by decide, rfl, by decide, by rw [length_uefiMedium]; decide⟩

/-- The last block of a medium that is not a number of pages cannot be read: the buffer is a
page. -/
theorem uefi_last_block_unreadable :
    3 * 512 + 1 ≤ (uefiMedium 4).media.length ∧
      (uefiMedium 4).readAt (3 * 512) 1 = Rust.err .io := by
  have hblocks : (uefiMedium 4).readBlocks 3 4096 = none := by
    rw [UefiBlockDevice.readBlocks, if_neg]
    rw [length_uefiMedium]
    decide
  have hstop : addU 64 (3 * 512) 1 = some 1537 := by decide
  have hsize : mulU 64 (UefiBlockDevice.divCeil 1537 512 - 3 * 512 / 512) 512 = some 512 := by
    decide
  have hbuffer : (uefiMedium 4).scratchBuffer 512 = .ok 4096 := by decide
  have hscratch : (uefiMedium 4).readScratch (3 * 512) 1 = Rust.err .io := by
    rw [UefiBlockDevice.readScratch, hstop, Rust.okOr_some, Rust.ok_bind]
    change (Rust.orPanic (mulU 64 (UefiBlockDevice.divCeil 1537 512 - 3 * 512 / 512) 512) >>= _) = _
    rw [hsize, Rust.orPanic_some, Rust.ok_bind, hbuffer, Rust.ok_bind]
    exact congrArg (Rust.okOr _) hblocks
  rw [length_uefiMedium]
  refine ⟨by decide, ?_⟩
  rw [UefiBlockDevice.readAt, if_neg (by decide), hscratch, Rust.err_bind]

end Kernel
end Theos
