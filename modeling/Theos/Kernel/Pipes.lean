import Theos.Base.Run
import Theos.Kernel.Vfs

/-!
# Pipes

The pipes of `kernel/vfs.rs`.  A descriptor for an end of a pipe is a slot of the table of
open files, and a pipe keeps the number of its readers and writers; closing the last
descriptor of both ends removes it.

`Counted` says that the numbers are right.  `dup_fd` and `dup2_fd` copy a slot without
counting it, and `dup2_fd` overwrites a slot without releasing it, so that `Counted` is kept
exactly by the calls that are `Orderly`.

Without duplicates, a pipe is a queue: what was read, followed by what it holds, is what was
written.  `History` is the record of both.
-/

namespace Theos
namespace Kernel

open Base

/-- The tables of the file system, with the number of the next pipe. -/
structure PipeTables where
  vfs : Vfs
  nextPipeId : Nat

namespace PipeTables

def pipeCapacity : Nat := 65536

/-- The tables after `mount`. -/
def mount : PipeTables where
  vfs := Vfs.mount
  nextPipeId := 1

/-! ## The calls -/

/-- `file`. -/
def file (s : PipeTables) (fd : Int) : Option OpenFile :=
  (s.vfs.fileAt fd).map Prod.snd

/-- `alloc_fd_slot_from`. -/
def firstFreeFrom (files : List (Option OpenFile)) (start : Nat) : Option Nat :=
  (SlotTable.firstFree (files.drop start)).map (start + ·)

def setFile (s : PipeTables) (slot : Nat) (file : OpenFile) : PipeTables :=
  { s with vfs := { s.vfs with files := s.vfs.files.set slot (some file) } }

def setPipe (s : PipeTables) (id : Nat) (pipe : Pipe) : PipeTables :=
  { s with vfs := { s.vfs with pipes := Function.update s.vfs.pipes id (some pipe) } }

/-- A descriptor for an end of a pipe. -/
def pipeFile (statusFlags : Int) (special : SpecialFd) : OpenFile :=
  ⟨0, 0, 0, statusFlags, "[pipe]".toList, some special, 1⟩

def createPipe (s : PipeTables) : Except VfsError (Int × Int) × PipeTables :=
  match SlotTable.firstFree s.vfs.files with
  | none => (.error .invalidFd, s)
  | some rslot =>
    match firstFreeFrom s.vfs.files (rslot + 1) with
    | none => (.error .invalidFd, s)
    | some wslot =>
      let id := s.nextPipeId
      let s := { s with nextPipeId := max ((id + 1) % 2 ^ 32) 1 }
      let s := s.setPipe id ⟨[], 1, 1⟩
      let s := s.setFile rslot (pipeFile 0 (.pipeRead id))
      (.ok (rslot, wslot), s.setFile wslot (pipeFile 1 (.pipeWrite id)))

/-- `read_pipe` into a buffer of `len` bytes. -/
def readPipe (s : PipeTables) (id len : Nat) : Except VfsError Bytes × PipeTables :=
  if len = 0 then (.ok [], s)
  else
    match s.vfs.pipes id with
    | none => (.error .invalidFd, s)
    | some pipe =>
      if pipe.buf.isEmpty then
        (if pipe.writers = 0 then .ok [] else .error .wouldBlock, s)
      else
        (.ok (pipe.buf.take len), s.setPipe id { pipe with buf := pipe.buf.drop len })

/-- `write_pipe`. -/
def writePipe (s : PipeTables) (id : Nat) (data : Bytes) : Except VfsError Nat × PipeTables :=
  if data.isEmpty then (.ok 0, s)
  else
    match s.vfs.pipes id with
    | none => (.error .invalidFd, s)
    | some pipe =>
      if pipe.readers = 0 then (.error .brokenPipe, s)
      else if pipeCapacity ≤ pipe.buf.length then (.error .wouldBlock, s)
      else
        let maxWrite := min data.length (pipeCapacity - pipe.buf.length)
        (.ok maxWrite, s.setPipe id { pipe with buf := pipe.buf ++ data.take maxWrite })

/-- `read`; nothing for a descriptor of another device or file. -/
def read (s : PipeTables) (fd : Int) (len : Nat) : Option (Except VfsError Bytes × PipeTables) :=
  match s.file fd with
  | none => some (.error .invalidFd, s)
  | some file =>
    match file.special with
    | some (.pipeRead id) => some (s.readPipe id len)
    | some (.pipeWrite _) => some (.error .invalidFd, s)
    | _ => none

/-- `write`; nothing for a descriptor of another device. -/
def write (s : PipeTables) (fd : Int) (data : Bytes) :
    Option (Except VfsError Nat × PipeTables) :=
  match s.file fd with
  | none => some (.error .invalidFd, s)
  | some file =>
    match file.special with
    | some (.pipeWrite id) => some (s.writePipe id data)
    | some (.pipeRead _) | some .stdin | none => some (.error .invalidFd, s)
    | _ => none

def close (s : PipeTables) (fd : Int) : Except VfsError Unit × PipeTables :=
  ((s.vfs.close fd).1, { s with vfs := (s.vfs.close fd).2 })

/-- The copy of a descriptor. -/
def duplicate (file : OpenFile) (cloexec : Bool) : OpenFile :=
  { file with fdFlags := if cloexec then 1 else 0 }

def dupFd (s : PipeTables) (fd minFd : Int) (cloexec : Bool) : Except VfsError Int × PipeTables :=
  match s.file fd with
  | none => (.error .invalidFd, s)
  | some src =>
    match firstFreeFrom s.vfs.files (max minFd 0).toNat with
    | none => (.error .invalidFd, s)
    | some slot => (.ok slot, s.setFile slot (duplicate src cloexec))

def dup2Fd (s : PipeTables) (oldfd newfd : Int) (cloexec : Bool) :
    Except VfsError Int × PipeTables :=
  match s.file oldfd, Vfs.slotOf newfd with
  | some src, some slot =>
    if slot < s.vfs.files.length then (.ok newfd, s.setFile slot (duplicate src cloexec))
    else (.error .invalidFd, s)
  | _, _ => (.error .invalidFd, s)

def cloneHandle (s : PipeTables) (fd : Int) : Except VfsError Int × PipeTables :=
  match Vfs.slotOf fd, s.file fd with
  | some slot, some file =>
    (.ok fd, s.setFile slot { file with refs := min (file.refs + 1) (2 ^ 64 - 1) })
  | _, _ => (.error .invalidFd, s)

/-- A call on the tables. -/
inductive Call where
  | create
  | «open» (lookup : Vfs.Lookup) (path : Nt.Path) (flags : Int)
  | read (fd : Int) (len : Nat)
  | write (fd : Int) (data : Bytes)
  | close (fd : Int)
  | dup (fd minFd : Int) (cloexec : Bool)
  | dup2 (oldfd newfd : Int) (cloexec : Bool)
  | clone (fd : Int)

/-- The tables after a call.  Other devices and files have no part in them. -/
def after (s : PipeTables) : Call → PipeTables
  | .create => s.createPipe.2
  | .open lookup path flags => { s with vfs := (s.vfs.open lookup path flags).2 }
  | .read fd len => ((s.read fd len).map Prod.snd).getD s
  | .write fd data => ((s.write fd data).map Prod.snd).getD s
  | .close fd => (s.close fd).2
  | .dup fd minFd cloexec => (s.dupFd fd minFd cloexec).2
  | .dup2 oldfd newfd cloexec => (s.dup2Fd oldfd newfd cloexec).2
  | .clone fd => (s.cloneHandle fd).2

/-! ## Counting descriptors -/

/-- The number of descriptors for an end of a pipe. -/
def ends (files : List (Option OpenFile)) (e : SpecialFd) : Nat :=
  SlotTable.count (fun file => file.special = some e) files

/-- The pipe has these numbers of readers and writers; without any it is removed. -/
def Agrees (readers writers : Nat) : Option Pipe → Prop
  | none => readers = 0 ∧ writers = 0
  | some pipe => pipe.readers = readers ∧ pipe.writers = writers ∧ 0 < readers + writers

/-- The numbers of every pipe are those of its descriptors. -/
def Counted (v : Vfs) : Prop :=
  ∀ id, Agrees (ends v.files (.pipeRead id)) (ends v.files (.pipeWrite id)) (v.pipes id)

theorem Agrees.unique {r w r' w' : Nat} {pipe : Option Pipe}
    (h : Agrees r w pipe)
    (h' : Agrees r' w' pipe) :
    r = r' ∧ w = w' := by
  cases pipe with
  | none => exact ⟨h.1.trans h'.1.symm, h.2.trans h'.2.symm⟩
  | some pipe => exact ⟨h.1.symm.trans h'.1, h.2.1.symm.trans h'.2.1⟩

/-- What one slot adds to a number. -/
def share (e : SpecialFd) (slot : Option OpenFile) : Nat :=
  if slot.bind OpenFile.special = some e then 1 else 0

theorem ends_set {files : List (Option OpenFile)} {i : Nat} {old : Option OpenFile}
    (h : files[i]? = some old)
    (new : Option OpenFile) (e : SpecialFd) :
    ends (files.set i new) e + share e old = ends files e + share e new := by
  have hshare (slot : Option OpenFile) :
      (if slot.any (fun file => decide (file.special = some e)) = true then 1 else 0) =
        share e slot := by
    cases slot <;> simp [share]
  obtain ⟨hlt, hold⟩ := List.getElem?_eq_some_iff.mp h
  have hle : share e old ≤ ends files e := by
    by_cases hone : share e old = 0
    · omega
    · have hmem : 0 < ends files e := by
        refine List.countP_pos_iff.mpr ⟨old, List.mem_of_getElem? h, ?_⟩
        by_contra hnot
        exact hone (by rw [← hshare, if_neg hnot])
      have : share e old ≤ 1 := by rw [share]; split <;> omega
      omega
  rw [ends, SlotTable.count, List.countP_set hlt, hold, hshare, hshare]
  rw [ends, SlotTable.count] at hle
  change _ = _ + _
  rw [ends, SlotTable.count]
  omega

/-- The slot and the file are the same end of a pipe, or neither is one. -/
def SameEnd (slot : Option OpenFile) (file : OpenFile) : Prop :=
  ∀ id, (slot.bind OpenFile.special = some (.pipeRead id) ↔ file.special = some (.pipeRead id)) ∧
    (slot.bind OpenFile.special = some (.pipeWrite id) ↔ file.special = some (.pipeWrite id))

theorem sameEnd_none_iff {file : OpenFile} : SameEnd none file ↔ Vfs.NoPipe file := by
  simp [SameEnd, Vfs.NoPipe]

/-- A file put into a slot keeps the numbers right exactly when the ends are the same. -/
theorem Counted.set_iff {v : Vfs} {slot : Nat} {old : Option OpenFile}
    (h : Counted v)
    (hold : v.files[slot]? = some old)
    (file : OpenFile) :
    Counted { v with files := v.files.set slot (some file) } ↔ SameEnd old file := by
  have hset := ends_set hold (some file)
  simp only [share, Option.bind_some] at hset
  have hsame (e : SpecialFd) : ends (v.files.set slot (some file)) e = ends v.files e ↔
      (old.bind OpenFile.special = some e ↔ file.special = some e) := by
    have he := hset e
    by_cases h₁ : old.bind OpenFile.special = some e
    · by_cases h₂ : file.special = some e
      · rw [if_pos h₁, if_pos h₂] at he
        exact iff_of_true (by omega) (iff_of_true h₁ h₂)
      · rw [if_pos h₁, if_neg h₂] at he
        exact iff_of_false (by omega) fun hiff => h₂ (hiff.mp h₁)
    · by_cases h₂ : file.special = some e
      · rw [if_neg h₁, if_pos h₂] at he
        exact iff_of_false (by omega) fun hiff => h₁ (hiff.mpr h₂)
      · rw [if_neg h₁, if_neg h₂] at he
        exact iff_of_true (by omega) (iff_of_false h₁ h₂)
  refine ⟨fun h' id => ?_, fun hends id => ?_⟩
  · obtain ⟨hr, hw⟩ := (h' id).unique (h id)
    exact ⟨(hsame _).mp hr, (hsame _).mp hw⟩
  · dsimp only
    rw [(hsame _).mpr (hends id).1, (hsame _).mpr (hends id).2]
    exact h id

theorem Counted.setPipe {s : PipeTables} {id : Nat} {pipe pipe' : Pipe}
    (h : Counted s.vfs)
    (hpipe : s.vfs.pipes id = some pipe)
    (hreaders : pipe'.readers = pipe.readers)
    (hwriters : pipe'.writers = pipe.writers) :
    Counted (s.setPipe id pipe').vfs := by
  intro id'
  have hid := h id'
  simp only [PipeTables.setPipe]
  by_cases heq : id' = id
  · subst heq
    rw [hpipe] at hid
    rw [Function.update_self]
    exact ⟨hreaders.trans hid.1, hwriters.trans hid.2.1, hid.2.2⟩
  · rwa [Function.update_of_ne heq]

/-! ## One call -/

section Calls

variable {s : PipeTables}

theorem file_eq_some_iff {fd : Int} {file : OpenFile} :
    s.file fd = some file ↔
      ∃ slot, Vfs.slotOf fd = some slot ∧ s.vfs.files[slot]? = some (some file) := by
  simp [PipeTables.file, Vfs.fileAt, Option.bind_eq_some_iff]

/-- A slot is free from a number on. -/
def FreeFrom (files : List (Option OpenFile)) (start : Nat) : Prop :=
  ∃ i, start ≤ i ∧ files[i]? = some none

/-- Two slots are free. -/
def TwoFree (files : List (Option OpenFile)) : Prop :=
  ∃ i j : Nat, i < j ∧ files[i]? = some none ∧ files[j]? = some none

theorem getElem?_of_firstFreeFrom {files : List (Option OpenFile)} {start i : Nat}
    (h : firstFreeFrom files start = some i) :
    start ≤ i ∧ files[i]? = some none := by
  obtain ⟨k, hk, rfl⟩ := Option.map_eq_some_iff.mp h
  have hfree := SlotTable.getElem?_of_firstFree hk
  rw [List.getElem?_drop] at hfree
  exact ⟨Nat.le_add_right _ _, hfree⟩

theorem exists_firstFreeFrom_iff {files : List (Option OpenFile)} {start : Nat} :
    (∃ i, firstFreeFrom files start = some i) ↔ FreeFrom files start := by
  constructor
  · rintro ⟨i, hi⟩
    exact ⟨i, getElem?_of_firstFreeFrom hi⟩
  · rintro ⟨i, hle, hfree⟩
    rw [← Nat.add_sub_cancel' hle, ← List.getElem?_drop] at hfree
    obtain ⟨k, -, hk⟩ := SlotTable.exists_firstFree_le hfree
    exact ⟨start + k, by rw [firstFreeFrom, hk]; rfl⟩

/-- How `create_pipe` returns. -/
theorem createPipe_cases (s : PipeTables) :
    (∃ e, s.createPipe = (.error e, s)) ∨
      ∃ rslot wslot : Nat, rslot < wslot ∧ s.vfs.files[rslot]? = some none ∧
        s.vfs.files[wslot]? = some none ∧
        s.createPipe = (.ok (rslot, wslot),
          ⟨⟨(s.vfs.files.set rslot (some (pipeFile 0 (.pipeRead s.nextPipeId)))).set wslot
              (some (pipeFile 1 (.pipeWrite s.nextPipeId))),
            Function.update s.vfs.pipes s.nextPipeId (some ⟨[], 1, 1⟩)⟩,
            max ((s.nextPipeId + 1) % 2 ^ 32) 1⟩) := by
  rw [createPipe]
  cases hr : SlotTable.firstFree s.vfs.files with
  | none => exact .inl ⟨_, rfl⟩
  | some rslot =>
    dsimp only
    cases hw : firstFreeFrom s.vfs.files (rslot + 1) with
    | none => exact .inl ⟨_, rfl⟩
    | some wslot =>
      obtain ⟨hle, hfree⟩ := getElem?_of_firstFreeFrom hw
      exact .inr ⟨rslot, wslot, hle, SlotTable.getElem?_of_firstFree hr, hfree, rfl⟩

/-- A pipe can be created as long as two slots are free. -/
theorem createPipe_ok_iff :
    (∃ fds, s.createPipe.1 = .ok fds) ↔ TwoFree s.vfs.files := by
  constructor
  · rintro ⟨fds, hfds⟩
    rcases s.createPipe_cases with ⟨e, hcreate⟩ | ⟨rslot, wslot, hlt, hr, hw, -⟩
    · rw [hcreate] at hfds
      cases hfds
    · exact ⟨rslot, wslot, hlt, hr, hw⟩
  · rintro ⟨i, j, hlt, hi, hj⟩
    obtain ⟨rslot, hle, hr⟩ := SlotTable.exists_firstFree_le hi
    obtain ⟨wslot, hw⟩ := exists_firstFreeFrom_iff.mpr
      ⟨j, show rslot + 1 ≤ j by omega, hj⟩
    simp only [createPipe, hr, hw]
    exact ⟨_, rfl⟩

/-- The descriptors after two slots were filled. -/
theorem ends_create {files : List (Option OpenFile)} {rslot wslot id : Nat}
    (hlt : rslot < wslot)
    (hr : files[rslot]? = some none)
    (hw : files[wslot]? = some none)
    (e : SpecialFd) :
    ends ((files.set rslot (some (pipeFile 0 (.pipeRead id)))).set wslot
        (some (pipeFile 1 (.pipeWrite id)))) e =
      ends files e + (if e = .pipeRead id then 1 else 0) +
        (if e = .pipeWrite id then 1 else 0) := by
  have hw' : (files.set rslot (some (pipeFile 0 (.pipeRead id))))[wslot]? = some none := by
    rwa [List.getElem?_set_ne hlt.ne]
  have hfirst := ends_set hr (some (pipeFile 0 (.pipeRead id))) e
  have hsecond := ends_set hw' (some (pipeFile 1 (.pipeWrite id))) e
  simp only [share, pipeFile, Option.bind_none, Option.bind_some, Option.some.injEq, reduceCtorEq,
    if_false, eq_comm] at hfirst hsecond ⊢
  omega

theorem counted_create_iff
    (h : Counted s.vfs) :
    Counted s.createPipe.2.vfs ↔ (TwoFree s.vfs.files → s.vfs.pipes s.nextPipeId = none) := by
  rw [← createPipe_ok_iff]
  rcases s.createPipe_cases with ⟨e, hcreate⟩ | ⟨rslot, wslot, hlt, hr, hw, hcreate⟩
  · rw [hcreate]
    exact iff_of_true h (by rintro ⟨_, hok⟩; cases hok)
  · rw [hcreate]
    simp only [Except.ok.injEq, exists_eq', true_implies]
    have hnew := h s.nextPipeId
    constructor
    · intro h'
      have hid := h' s.nextPipeId
      simp only [Function.update_self, ends_create hlt hr hw, if_true, reduceCtorEq, if_false] at hid
      cases hpipe : s.vfs.pipes s.nextPipeId with
      | none => rfl
      | some pipe =>
        -- a pipe that exists has a descriptor, which makes two
        rw [hpipe] at hnew
        have hpos := hnew.2.2
        have hone := hid.1
        have hone' := hid.2.1
        dsimp only at hone hone'
        omega
    · intro hnone id
      simp only [ends_create hlt hr hw, SpecialFd.pipeRead.injEq, SpecialFd.pipeWrite.injEq,
        reduceCtorEq, if_false, Nat.add_zero]
      rw [hnone] at hnew
      by_cases hid : id = s.nextPipeId
      · rw [hid, Function.update_self, if_pos rfl, hnew.1, hnew.2]
        exact ⟨rfl, rfl, by omega⟩
      · rw [Function.update_of_ne hid, if_neg hid]
        exact h id

theorem counted_open
    (h : Counted s.vfs)
    (lookup : Vfs.Lookup) (path : Nt.Path) (flags : Int) :
    Counted (s.vfs.open lookup path flags).2 := by
  rcases s.vfs.open_cases lookup path flags with
    ⟨e, hopen⟩ | ⟨fd, v', hopen, slot, file, -, rfl, hfree, hfile⟩
  · rwa [hopen]
  · rw [hopen]
    exact (h.set_iff hfree file).mpr (sameEnd_none_iff.mpr hfile)

/-- A pipe that loses an end. -/
theorem Agrees.kept {r w : Nat}
    (pipe : Pipe)
    (hr : pipe.readers = r)
    (hw : pipe.writers = w) :
    Agrees r w (if pipe.readers = 0 ∧ pipe.writers = 0 then none else some pipe) := by
  subst hr hw
  split
  next hzero => exact hzero
  next hne => exact ⟨rfl, rfl, by omega⟩

/-- Dropping an end of a pipe once its descriptor has been taken away. -/
theorem counted_release {v : Vfs} {slot : Nat} {file : OpenFile}
    (h : Counted v)
    (hslot : v.files[slot]? = some (some file)) :
    Counted (Vfs.releaseSpecial { v with files := v.files.set slot none } file.special) := by
  have hends (e : SpecialFd) : ends v.files e =
      ends (v.files.set slot none) e + if file.special = some e then 1 else 0 := by
    have hset := ends_set hslot none e
    simp only [share, Option.bind_none, reduceCtorEq, if_false, Option.bind_some] at hset
    omega
  intro id
  have hid := h id
  rw [Vfs.files_releaseSpecial]
  rw [hends, hends] at hid
  rcases Vfs.releaseSpecial_cases { v with files := v.files.set slot none } file.special id with
    ⟨hother, hpipes⟩ | ⟨pipe, pipe', hpipe, hpipes, hend⟩
  · rw [hpipes]
    rcases hother with ⟨hread, hwrite⟩ | hnone
    · simpa [hread, hwrite] using hid
    · -- a pipe that is not there has no descriptors
      have hnone : v.pipes id = none := hnone
      rw [hnone] at hid ⊢
      exact ⟨Nat.eq_zero_of_add_eq_zero_right hid.1, Nat.eq_zero_of_add_eq_zero_right hid.2⟩
  · have hpipe : v.pipes id = some pipe := hpipe
    rw [hpipe] at hid
    rw [hpipes]
    rcases hend with ⟨hspecial, rfl⟩ | ⟨hspecial, rfl⟩ <;>
      simp only [hspecial, if_true, Option.some.injEq, reduceCtorEq, if_false] at hid
    · exact Agrees.kept _ (Nat.sub_eq_of_eq_add hid.1) hid.2.1
    · exact Agrees.kept _ hid.1 (Nat.sub_eq_of_eq_add hid.2.1)

theorem counted_close
    (h : Counted s.vfs)
    (fd : Int) :
    Counted (s.close fd).2.vfs := by
  simp only [PipeTables.close, Vfs.close]
  split
  next => exact h
  next slot _ =>
    split
    next => exact h
    next => exact h
    next file hslot =>
      split
      next =>
        exact (h.set_iff hslot _).mpr fun id => ⟨Iff.rfl, Iff.rfl⟩
      next => exact counted_release h hslot

theorem counted_readPipe
    (h : Counted s.vfs)
    (id len : Nat) :
    Counted (s.readPipe id len).2.vfs := by
  rw [readPipe]
  split
  next => exact h
  next =>
    split
    next => exact h
    next pipe hpipe =>
      split
      next => exact h
      next => exact h.setPipe hpipe rfl rfl

theorem counted_writePipe
    (h : Counted s.vfs)
    (id : Nat) (data : Bytes) :
    Counted (s.writePipe id data).2.vfs := by
  rw [writePipe]
  split
  next => exact h
  next =>
    split
    next => exact h
    next pipe hpipe =>
      split
      next => exact h
      next =>
        split
        next => exact h
        next => exact h.setPipe hpipe rfl rfl

theorem counted_read
    (h : Counted s.vfs)
    (fd : Int) (len : Nat) :
    Counted (s.after (.read fd len)).vfs := by
  simp only [after, PipeTables.read]
  cases s.file fd with
  | none => exact h
  | some file =>
    dsimp only
    split
    · exact counted_readPipe h _ len
    · exact h
    · exact h

theorem counted_write
    (h : Counted s.vfs)
    (fd : Int) (data : Bytes) :
    Counted (s.after (.write fd data)).vfs := by
  simp only [after, PipeTables.write]
  cases s.file fd with
  | none => exact h
  | some file =>
    dsimp only
    split
    · exact counted_writePipe h _ data
    all_goals exact h

theorem counted_dup_iff
    (h : Counted s.vfs)
    (fd minFd : Int) (cloexec : Bool) :
    Counted (s.dupFd fd minFd cloexec).2.vfs ↔
      ∀ file, s.file fd = some file → FreeFrom s.vfs.files (max minFd 0).toNat →
        Vfs.NoPipe file := by
  rw [dupFd, ← exists_firstFreeFrom_iff]
  cases hfile : s.file fd with
  | none => simp [h]
  | some src =>
    dsimp only
    cases hslot : firstFreeFrom s.vfs.files (max minFd 0).toNat with
    | none => simp [h]
    | some slot =>
      simp only [Option.some.injEq, forall_eq', exists_eq', true_implies]
      rw [← sameEnd_none_iff]
      exact h.set_iff (getElem?_of_firstFreeFrom hslot).2 (duplicate src cloexec)

theorem counted_dup2_iff
    (h : Counted s.vfs)
    (oldfd newfd : Int) (cloexec : Bool) :
    Counted (s.dup2Fd oldfd newfd cloexec).2.vfs ↔
      ∀ file slot old, s.file oldfd = some file → Vfs.slotOf newfd = some slot →
        s.vfs.files[slot]? = some old → SameEnd old file := by
  rw [dup2Fd]
  cases hfile : s.file oldfd with
  | none => simp [h]
  | some src =>
    cases hslot : Vfs.slotOf newfd with
    | none => simp [h]
    | some slot =>
      dsimp only
      by_cases hlt : slot < s.vfs.files.length
      · obtain ⟨old, hold⟩ : ∃ old, s.vfs.files[slot]? = some old :=
          ⟨_, List.getElem?_eq_getElem hlt⟩
        rw [if_pos hlt]
        refine (h.set_iff hold (duplicate src cloexec)).trans ⟨?_, fun hall => ?_⟩
        · rintro hsame _ _ _ ⟨⟩ ⟨⟩ hold'
          rw [hold] at hold'
          cases hold'
          exact hsame
        · exact hall src slot old rfl rfl hold
      · rw [if_neg hlt]
        refine iff_of_true h ?_
        rintro _ _ _ ⟨⟩ ⟨⟩ hold
        rw [List.getElem?_eq_none (Nat.not_lt.mp hlt)] at hold
        cases hold

theorem counted_clone
    (h : Counted s.vfs)
    (fd : Int) :
    Counted (s.cloneHandle fd).2.vfs := by
  rw [cloneHandle]
  split
  next slot file hslot hfile =>
    obtain ⟨slot', hslot', hentry⟩ := file_eq_some_iff.mp hfile
    rw [hslot] at hslot'
    cases hslot'
    exact (h.set_iff hentry _).mpr fun id => ⟨Iff.rfl, Iff.rfl⟩
  next => exact h

end Calls

/-! ## Runs -/

/-- The calls that keep the numbers right: a new pipe has a number of its own, and a copied
descriptor is no end of a pipe or takes the place of the same end.  Where no slot is free, nothing
is created or copied. -/
def Orderly (s : PipeTables) : Call → Prop
  | .create => TwoFree s.vfs.files → s.vfs.pipes s.nextPipeId = none
  | .dup fd minFd _ => ∀ file, s.file fd = some file →
      FreeFrom s.vfs.files (max minFd 0).toNat → Vfs.NoPipe file
  | .dup2 oldfd newfd _ => ∀ file slot old, s.file oldfd = some file →
      Vfs.slotOf newfd = some slot → s.vfs.files[slot]? = some old → SameEnd old file
  | _ => True

theorem Counted.after_iff {s : PipeTables}
    (h : Counted s.vfs)
    (call : Call) :
    Counted (s.after call).vfs ↔ s.Orderly call := by
  cases call with
  | create => exact counted_create_iff h
  | «open» lookup path flags => exact iff_of_true (counted_open h lookup path flags) trivial
  | read fd len => exact iff_of_true (counted_read h fd len) trivial
  | write fd data => exact iff_of_true (counted_write h fd data) trivial
  | close fd => exact iff_of_true (counted_close h fd) trivial
  | dup fd minFd cloexec => exact counted_dup_iff h fd minFd cloexec
  | dup2 oldfd newfd cloexec => exact counted_dup2_iff h oldfd newfd cloexec
  | clone fd => exact iff_of_true (counted_clone h fd) trivial

theorem counted_mount : Counted mount.vfs := by
  intro id
  have hnone (e : SpecialFd) (he : e ≠ .stdin ∧ e ≠ .stdout ∧ e ≠ .stderr) :
      ends mount.vfs.files e = 0 := by
    simp [ends, SlotTable.count, PipeTables.mount, Vfs.mount, he.1.symm, he.2.1.symm, he.2.2.symm]
  rw [hnone _ (by simp), hnone _ (by simp)]
  exact ⟨rfl, rfl⟩

/-- `read_pipe` reports the end of a pipe without writers. -/
theorem Counted.end_of_file {s : PipeTables} {id len : Nat}
    (h : Counted s.vfs)
    (hlen : len ≠ 0) :
    (s.readPipe id len).1 = .ok [] ↔
      ends s.vfs.files (.pipeWrite id) = 0 ∧
        ∃ pipe, s.vfs.pipes id = some pipe ∧ pipe.buf = [] := by
  have hid := h id
  rw [readPipe, if_neg hlen]
  cases hpipe : s.vfs.pipes id with
  | none => simp
  | some pipe =>
    rw [hpipe] at hid
    dsimp only
    by_cases hempty : pipe.buf = []
    · have hwriters := hid.2.1
      simp only [hempty, List.isEmpty_nil, if_true, hwriters, Option.some.injEq, exists_eq_left',
        and_true]
      split
      next hzero => simp [hzero]
      next hne => simp [hne]
    · have hbuf : pipe.buf.isEmpty = false := by simpa using hempty
      simp [hbuf, hempty, hlen]

/-- Every call keeps the numbers of readers and writers right exactly when it is orderly.  In
every state of a run of orderly calls they are therefore right, a pipe without descriptors is
removed, and an end of file is reported for an empty pipe without writers only. -/
theorem pipe_counts_iff_orderly (s : PipeTables) :
    (∀ call : Call, Counted s.vfs → (Counted (s.after call).vfs ↔ s.Orderly call)) ∧
    ∀ calls : List Call,
      Run (fun s call s' => s.Orderly call ∧ s' = s.after call) mount calls s →
        Counted s.vfs ∧ ∀ id len, len ≠ 0 → (s.readPipe id len).1 = .ok [] →
          ends s.vfs.files (.pipeWrite id) = 0 ∧
            ∃ pipe, s.vfs.pipes id = some pipe ∧ pipe.buf = [] := by
  refine ⟨fun call h => h.after_iff call, fun calls hrun => ?_⟩
  have hcounted : Counted s.vfs := by
    refine Run.invariant (P := fun s => Counted s.vfs) ?_ hrun counted_mount
    rintro s call _ h ⟨horderly, rfl⟩
    exact (h.after_iff call).mpr horderly
  exact ⟨hcounted, fun id len hlen => (hcounted.end_of_file hlen).mp⟩

/-- A pipe whose read end is closed. -/
theorem pipe_counts_iff_orderly_close :
    Counted ((mount.after .create).after (.close 3)).vfs := by
  have hcreate : mount.Orderly .create := fun _ => rfl
  exact ((pipe_counts_iff_orderly _).2 [.create, .close 3]
    (.cons ⟨hcreate, rfl⟩ (.cons ⟨trivial, rfl⟩ (.nil _)))).1

/-- A pipe and a copy of its read end: two descriptors, one reader. -/
theorem dup_read_end_uncounted :
    ends ((mount.after .create).after (.dup 3 0 false)).vfs.files (.pipeRead 1) = 2 ∧
      (((mount.after .create).after (.dup 3 0 false)).vfs.pipes 1).map Pipe.readers = some 1 := by
  decide

/-! ## First in, first out -/

/-- What was read from and written to each pipe, and the number of pipes created. -/
structure History where
  taken : Nat → Bytes
  accepted : Nat → Bytes
  created : Nat

/-- The history after a call. -/
def record (s : PipeTables) (h : History) : Call → History
  | .create =>
    match s.createPipe.1 with
    | .ok _ => { h with created := h.created + 1 }
    | .error _ => h
  | .read fd len =>
    match (s.file fd).bind OpenFile.special, s.read fd len with
    | some (.pipeRead id), some (.ok bytes, _) =>
      { h with taken := Function.update h.taken id (h.taken id ++ bytes) }
    | _, _ => h
  | .write fd data =>
    match (s.file fd).bind OpenFile.special, s.write fd data with
    | some (.pipeWrite id), some (.ok n, _) =>
      { h with accepted := Function.update h.accepted id (h.accepted id ++ data.take n) }
    | _, _ => h
  | _ => h

/-- The calls other than duplicates. -/
def Call.Plain : Call → Prop
  | .create | .open _ _ _ | .read _ _ | .write _ _ | .close _ => True
  | _ => False

/-- What was read, and then the buffer, is what was written.  The bytes left in a pipe that is
removed are lost. -/
def Lossless (taken accepted : Bytes) : Option Pipe → Prop
  | some pipe => taken ++ pipe.buf = accepted ∧ pipe.buf.length ≤ pipeCapacity
  | none => taken <+: accepted

/-- The tables and their history, as long as the numbers of the pipes have not wrapped. -/
structure Consistent (s : PipeTables) (h : History) : Prop where
  counted : Counted s.vfs
  next : s.nextPipeId = h.created + 1
  fresh : ∀ id, s.nextPipeId ≤ id →
    s.vfs.pipes id = none ∧ h.taken id = [] ∧ h.accepted id = []
  lossless : ∀ id, Lossless (h.taken id) (h.accepted id) (s.vfs.pipes id)

section Fifo

variable {s : PipeTables} {h : History}

/-- A pipe that is still there has the bytes it had. -/
def SameBytes (old new : Option Pipe) : Prop :=
  ∀ pipe', new = some pipe' → ∃ pipe, old = some pipe ∧ pipe'.buf = pipe.buf

theorem SameBytes.refl (pipe : Option Pipe) : SameBytes pipe pipe :=
  fun pipe' hpipe' => ⟨pipe', hpipe', rfl⟩

theorem releaseSpecial_pipes (v : Vfs) (special : Option SpecialFd) (id : Nat) :
    SameBytes (v.pipes id) ((v.releaseSpecial special).pipes id) := by
  rcases v.releaseSpecial_cases special id with ⟨-, hpipes⟩ | ⟨pipe, pipe', hpipe, hpipes, hend⟩
  · rw [hpipes]
    exact .refl _
  · rw [hpipes]
    intro new hnew
    obtain ⟨-, ⟨⟩⟩ := Option.ite_none_left_eq_some.mp hnew
    rcases hend with ⟨-, rfl⟩ | ⟨-, rfl⟩ <;> exact ⟨pipe, hpipe, rfl⟩

theorem close_pipes (s : PipeTables) (fd : Int) (id : Nat) :
    SameBytes (s.vfs.pipes id) ((s.close fd).2.vfs.pipes id) := by
  simp only [PipeTables.close, Vfs.close]
  split
  next => exact .refl _
  next slot _ =>
    split
    next => exact .refl _
    next => exact .refl _
    next file hslot =>
      split
      next => exact .refl _
      next =>
        exact releaseSpecial_pipes { s.vfs with files := s.vfs.files.set slot none } file.special id

theorem Lossless.taken_le {taken accepted : Bytes} {pipe : Option Pipe}
    (hl : Lossless taken accepted pipe) :
    taken <+: accepted := by
  cases pipe with
  | none => exact hl
  | some pipe => exact ⟨pipe.buf, hl.1⟩

theorem Consistent.open
    (hs : Consistent s h)
    (lookup : Vfs.Lookup) (path : Nt.Path) (flags : Int) :
    Consistent (s.after (.open lookup path flags)) h := by
  have hpipes : (s.vfs.open lookup path flags).2.pipes = s.vfs.pipes := by
    rcases s.vfs.open_cases lookup path flags with
      ⟨e, hopen⟩ | ⟨fd, v', hopen, slot, file, -, rfl, -⟩ <;> rw [hopen]
  refine ⟨counted_open hs.counted lookup path flags, hs.next, ?_, ?_⟩
  · simpa only [after, hpipes] using hs.fresh
  · simpa only [after, hpipes] using hs.lossless

theorem Consistent.close
    (hs : Consistent s h)
    (fd : Int) :
    Consistent (s.close fd).2 h where
  counted := counted_close hs.counted fd
  next := hs.next
  fresh id hid := by
    obtain ⟨hnone, htaken, haccepted⟩ := hs.fresh id hid
    refine ⟨Option.eq_none_iff_forall_ne_some.mpr fun pipe' hpipe' => ?_, htaken, haccepted⟩
    obtain ⟨pipe, hpipe, -⟩ := s.close_pipes fd id pipe' hpipe'
    rw [hnone] at hpipe
    cases hpipe
  lossless id := by
    have hid := hs.lossless id
    cases hpipe' : (s.close fd).2.vfs.pipes id with
    | none => exact hid.taken_le
    | some pipe' =>
      obtain ⟨pipe, hpipe, hbuf⟩ := s.close_pipes fd id pipe' hpipe'
      rw [hpipe] at hid
      exact ⟨by rw [hbuf, hid.1], by rw [hbuf]; exact hid.2⟩

/-- Bytes moved at one pipe. -/
theorem Consistent.setBuf {id : Nat} {pipe : Pipe} {taken accepted buf : Bytes}
    (hs : Consistent s h)
    (hpipe : s.vfs.pipes id = some pipe)
    (hlossless : Lossless taken accepted (some { pipe with buf := buf })) :
    Consistent (s.setPipe id { pipe with buf := buf })
      { h with
        taken := Function.update h.taken id taken
        accepted := Function.update h.accepted id accepted } where
  counted := hs.counted.setPipe hpipe rfl rfl
  next := hs.next
  fresh id' hid' := by
    obtain ⟨hnone, htaken, haccepted⟩ := hs.fresh id' hid'
    have hne : id' ≠ id := by
      rintro rfl
      rw [hnone] at hpipe
      cases hpipe
    simp only [PipeTables.setPipe, Function.update_of_ne hne]
    exact ⟨hnone, htaken, haccepted⟩
  lossless id' := by
    by_cases hne : id' = id
    · subst hne
      simpa only [PipeTables.setPipe, Function.update_self] using hlossless
    · simpa only [PipeTables.setPipe, Function.update_of_ne hne] using hs.lossless id'

theorem Consistent.create
    (hs : Consistent s h)
    (hcreated : (record s h .create).created < 2 ^ 32 - 1) :
    Consistent (s.after .create) (record s h .create) := by
  have hcounted := (hs.counted.after_iff .create).mpr fun _ => (hs.fresh _ le_rfl).1
  rcases s.createPipe_cases with ⟨e, hcreate⟩ | ⟨rslot, wslot, -, -, -, hcreate⟩
  · simp only [after, record, hcreate]
    exact hs
  · simp only [after, record, hcreate] at hcounted hcreated ⊢
    refine ⟨hcounted, ?_, fun id hid => ?_, fun id => ?_⟩
    · have hnext := hs.next
      dsimp only
      omega
    · have hnext := hs.next
      dsimp only at hid ⊢
      have hlt : s.nextPipeId < id := by omega
      rw [Function.update_of_ne hlt.ne']
      exact hs.fresh id hlt.le
    · dsimp only
      by_cases heq : id = s.nextPipeId
      · obtain ⟨-, htaken, haccepted⟩ := hs.fresh id heq.ge
        rw [heq, Function.update_self, ← heq, htaken, haccepted]
        exact ⟨rfl, Nat.zero_le _⟩
      · rw [Function.update_of_ne heq]
        exact hs.lossless id

theorem Consistent.read
    (hs : Consistent s h)
    (fd : Int) (len : Nat) :
    Consistent (s.after (.read fd len)) (record s h (.read fd len)) := by
  simp only [after, record, PipeTables.read]
  cases hfile : s.file fd with
  | none => exact hs
  | some file =>
    simp only [Option.bind_some]
    rcases hspecial : file.special with _ | special
    · exact hs
    cases special with
    | pipeRead id =>
      simp only [readPipe]
      split
      next => simpa using hs
      next =>
        cases hpipe : s.vfs.pipes id with
        | none => exact hs
        | some pipe =>
          dsimp only
          split
          next =>
            split
            next => simpa using hs
            next => exact hs
          next =>
            have hid := hs.lossless id
            rw [hpipe] at hid
            have hlossless : Lossless (h.taken id ++ pipe.buf.take len) (h.accepted id)
                (some { pipe with buf := pipe.buf.drop len }) := by
              refine ⟨by rw [List.append_assoc, List.take_append_drop, hid.1], ?_⟩
              rw [List.length_drop]
              exact (Nat.sub_le _ _).trans hid.2
            have hstep := hs.setBuf hpipe hlossless
            rwa [Function.update_eq_self] at hstep
    | _ => exact hs

theorem Consistent.write
    (hs : Consistent s h)
    (fd : Int) (data : Bytes) :
    Consistent (s.after (.write fd data)) (record s h (.write fd data)) := by
  simp only [after, record, PipeTables.write]
  cases hfile : s.file fd with
  | none => exact hs
  | some file =>
    simp only [Option.bind_some]
    rcases hspecial : file.special with _ | special
    · exact hs
    cases special with
    | pipeWrite id =>
      simp only [writePipe]
      split
      next => simpa using hs
      next =>
        cases hpipe : s.vfs.pipes id with
        | none => exact hs
        | some pipe =>
          dsimp only
          split
          next => exact hs
          next =>
            split
            next => exact hs
            next hroom =>
              have hid := hs.lossless id
              rw [hpipe] at hid
              have hlossless : Lossless (h.taken id)
                  (h.accepted id ++ data.take (min data.length (pipeCapacity - pipe.buf.length)))
                  (some { pipe with
                    buf := pipe.buf ++
                      data.take (min data.length (pipeCapacity - pipe.buf.length)) }) := by
                refine ⟨by rw [← List.append_assoc, hid.1], ?_⟩
                rw [List.length_append, List.length_take]
                omega
              have hstep := hs.setBuf hpipe hlossless
              rwa [Function.update_eq_self] at hstep
    | _ => exact hs

/-- The pipe of a descriptor is there, with the readers and writers that the descriptors say. -/
theorem Counted.pipe_of_file {fd : Int} {file : OpenFile} {id : Nat}
    (hc : Counted s.vfs)
    (hfile : s.file fd = some file)
    (hend : file.special = some (.pipeRead id) ∨ file.special = some (.pipeWrite id)) :
    ∃ pipe, s.vfs.pipes id = some pipe ∧
      pipe.readers = ends s.vfs.files (.pipeRead id) ∧
      pipe.writers = ends s.vfs.files (.pipeWrite id) := by
  obtain ⟨slot, -, hslot⟩ := file_eq_some_iff.mp hfile
  have hpos {e : SpecialFd} (he : file.special = some e) : 0 < ends s.vfs.files e :=
    List.countP_pos_iff.mpr ⟨some file, List.mem_of_getElem? hslot, by simpa using he⟩
  have hid := hc id
  cases hpipe : s.vfs.pipes id with
  | none =>
    rw [hpipe] at hid
    rcases hend with he | he
    · exact absurd hid.1 (hpos he).ne'
    · exact absurd hid.2 (hpos he).ne'
  | some pipe =>
    rw [hpipe] at hid
    exact ⟨pipe, rfl, hid.1, hid.2.1⟩

end Fifo

theorem created_le (s : PipeTables) (h : History) (call : Call) :
    h.created ≤ (record s h call).created := by
  cases call with
  | create =>
    simp only [record]
    split
    · exact Nat.le_succ _
    · exact le_rfl
  | read fd len =>
    simp only [record]
    split <;> exact le_rfl
  | write fd data =>
    simp only [record]
    split <;> exact le_rfl
  | _ => exact le_rfl

/-- One call on the tables, with the history. -/
def PlainStep (x : PipeTables × History) (call : Call) (y : PipeTables × History) : Prop :=
  call.Plain ∧ y = (x.1.after call, record x.1 x.2 call)

theorem Consistent.step {x y : PipeTables × History} {call : Call}
    (h : x.2.created < 2 ^ 32 - 1 → Consistent x.1 x.2)
    (hstep : PlainStep x call y) :
    y.2.created < 2 ^ 32 - 1 → Consistent y.1 y.2 := by
  obtain ⟨hplain, rfl⟩ := hstep
  intro hcreated
  have hs := h ((created_le _ _ call).trans_lt hcreated)
  cases call with
  | create => exact hs.create hcreated
  | «open» lookup path flags => exact hs.open lookup path flags
  | read fd len => exact hs.read fd len
  | write fd data => exact hs.write fd data
  | close fd => exact hs.close fd
  | dup | dup2 | clone => exact hplain.elim

/-- Nothing has been read, written or created. -/
def History.none : History :=
  ⟨fun _ => [], fun _ => [], 0⟩

theorem consistent_mount : Consistent mount .none where
  counted := counted_mount
  next := rfl
  fresh _ _ := ⟨rfl, rfl, rfl⟩
  lossless _ := List.prefix_rfl

/-- Pipes are lossless queues.  After every run without duplicates, what was read from a pipe
and what it holds is what its writes accepted, and it holds at most its capacity; a write of
some bytes is refused as broken exactly when no descriptor for the read end is open; and a
read reports the end exactly when the pipe is empty and no descriptor for the write end is
open. -/
theorem pipes_lossless_fifo {calls : List Call} {s : PipeTables} {h : History}
    (hrun : Run PlainStep (mount, .none) calls (s, h))
    (hcreated : h.created < 2 ^ 32 - 1) :
    (∀ id pipe, s.vfs.pipes id = some pipe →
      h.taken id ++ pipe.buf = h.accepted id ∧ pipe.buf.length ≤ pipeCapacity) ∧
    (∀ id, h.taken id <+: h.accepted id) ∧
    (∀ fd file id data, s.file fd = some file → file.special = some (.pipeWrite id) → data ≠ [] →
      ((s.write fd data).map Prod.fst = some (.error .brokenPipe) ↔
        ends s.vfs.files (.pipeRead id) = 0)) ∧
    ∀ fd file id len, s.file fd = some file → file.special = some (.pipeRead id) → len ≠ 0 →
      ((s.read fd len).map Prod.fst = some (.ok []) ↔
        ends s.vfs.files (.pipeWrite id) = 0 ∧
          ∃ pipe, s.vfs.pipes id = some pipe ∧ pipe.buf = []) := by
  have hs : Consistent s h :=
    Run.invariant (P := fun x => x.2.created < 2 ^ 32 - 1 → Consistent x.1 x.2)
      (fun _ _ _ => Consistent.step) hrun (fun _ => consistent_mount) hcreated
  refine ⟨fun id pipe hpipe => ?_, fun id => (hs.lossless id).taken_le, ?_, ?_⟩
  · have hid := hs.lossless id
    rwa [hpipe] at hid
  · intro fd file id data hfile hspecial hdata
    obtain ⟨pipe, hpipe, hreaders, -⟩ := hs.counted.pipe_of_file hfile (.inr hspecial)
    have hempty : data.isEmpty = false := by simpa using hdata
    simp only [PipeTables.write, hfile, hspecial, writePipe, hempty, hpipe, Bool.false_eq_true,
      if_false, hreaders]
    split
    next hzero => simp [hzero]
    next hne =>
      split <;> simp [hne]
  · intro fd file id len hfile hspecial hlen
    rw [← hs.counted.end_of_file hlen]
    simp [PipeTables.read, hfile, hspecial]

/-- The tables after three bytes were written to a pipe, two were read and the read end was
closed. -/
def readAndClosed : PipeTables :=
  (((mount.after .create).after (.write 4 [7, 8, 9])).after (.read 3 2)).after (.close 3)

/-- What was read and what is left are the bytes that were written, and a write is refused. -/
theorem pipes_lossless_fifo_read :
    ∃ h, Run PlainStep (mount, .none) [.create, .write 4 [7, 8, 9], .read 3 2, .close 3]
        (readAndClosed, h) ∧
      h.taken 1 ++ [9] = h.accepted 1 ∧ h.taken 1 = [7, 8] ∧
      (readAndClosed.write 4 [7]).map Prod.fst = some (.error .brokenPipe) := by
  have hrun : ∃ h, Run PlainStep (mount, .none) [.create, .write 4 [7, 8, 9], .read 3 2, .close 3]
      (readAndClosed, h) ∧ h.created = 1 ∧ h.taken 1 = [7, 8] :=
    ⟨_, .cons ⟨trivial, rfl⟩ (.cons ⟨trivial, rfl⟩ (.cons ⟨trivial, rfl⟩
      (.single ⟨trivial, rfl⟩))), rfl, rfl⟩
  obtain ⟨h, hrun, hcreated, htaken⟩ := hrun
  obtain ⟨hbytes, -, hbroken, -⟩ := pipes_lossless_fifo hrun (by omega)
  have hpipe : readAndClosed.vfs.pipes 1 = some ⟨[9], 0, 1⟩ := rfl
  exact ⟨h, hrun, (hbytes 1 _ hpipe).1, htaken,
    (hbroken 4 _ 1 [7] rfl rfl (by simp)).mpr (by decide)⟩

/-- An empty write to a pipe whose read end is closed is accepted. -/
theorem empty_write_accepted :
    ends ((mount.after .create).after (.close 3)).vfs.files (.pipeRead 1) = 0 ∧
      (((mount.after .create).after (.close 3)).write 4 []).map Prod.fst = some (.ok 0) :=
  ⟨by decide, rfl⟩

end PipeTables

end Kernel
end Theos
