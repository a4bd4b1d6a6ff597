import Theos.Kernel.Pipes

/-!
# Asking before reading and writing

`poll_mask` tells what can be done with a descriptor.  For the ends of a pipe it tells what a
read or a write would do.  An end that is ready stays so until somebody uses this end of the
pipe: data that arrives and writers that leave do not take it back from a reader, nor room that
is made and readers that leave from a writer.

For the other descriptors it may say that they can be written to when they cannot.
-/

namespace Theos
namespace Kernel

open Base

namespace PipeTables

/-- `POLLIN`, `POLLOUT`, `POLLERR` and `POLLHUP`. -/
structure PollMask where
  pollin : Bool
  pollout : Bool
  pollerr : Bool
  pollhup : Bool
deriving DecidableEq

def PollMask.empty : PollMask := ⟨false, false, false, false⟩

def pollMask (s : PipeTables) (hasInput : Bool) (fd : Int) : Except VfsError PollMask :=
  match s.file fd with
  | none => .error .invalidFd
  | some file =>
    match file.special with
    | some .stdin | some .tty => .ok { PollMask.empty with pollin := hasInput, pollout := true }
    | some .stdout | some .stderr | some .null => .ok { PollMask.empty with pollout := true }
    | some (.pipeRead id) =>
      match s.vfs.pipes id with
      | none => .error .invalidFd
      | some pipe =>
        .ok { PollMask.empty with pollin := !pipe.buf.isEmpty, pollhup := pipe.writers = 0 }
    | some (.pipeWrite id) =>
      match s.vfs.pipes id with
      | none => .error .invalidFd
      | some pipe =>
        if pipe.readers = 0 then .ok { PollMask.empty with pollerr := true }
        else .ok { PollMask.empty with pollout := pipe.buf.length < pipeCapacity }
    | none => .ok { PollMask.empty with pollin := true, pollout := true }

/-- What `write` returns; the devices take everything. -/
def writeOutcome (s : PipeTables) (fd : Int) (data : Bytes) : Except VfsError Nat :=
  ((s.write fd data).map Prod.fst).getD (.ok data.length)

section

variable {s : PipeTables} {fd : Int} {file : OpenFile} {mask : PollMask} {hasInput : Bool}

/-! ## What a mask tells -/

/-- What a read from a pipe with such a mask returns. -/
theorem pollMask_readPipe {id len : Nat}
    (hfile : s.file fd = some file)
    (hspecial : file.special = some (.pipeRead id))
    (hmask : s.pollMask hasInput fd = .ok mask)
    (hlen : len ≠ 0) :
    (mask.pollin = true ↔ ∃ bytes, bytes ≠ [] ∧ (s.readPipe id len).1 = .ok bytes) ∧
      (mask.pollin = false ∧ mask.pollhup = true ↔ (s.readPipe id len).1 = .ok []) ∧
      (mask = .empty ↔ (s.readPipe id len).1 = .error .wouldBlock) := by
  simp only [pollMask, hfile, hspecial] at hmask
  cases hpipe : s.vfs.pipes id with
  | none =>
    rw [hpipe] at hmask
    cases hmask
  | some pipe =>
    rw [hpipe] at hmask
    cases hmask
    rw [readPipe, if_neg hlen, hpipe]
    dsimp only
    by_cases hbuf : pipe.buf = []
    · by_cases hwriters : pipe.writers = 0 <;> simp [hbuf, hwriters, PollMask.empty]
    · have htake : pipe.buf.take len ≠ [] := by simp [hbuf, hlen]
      simp [hbuf, htake, PollMask.empty]

/-- What a write to a pipe with such a mask returns. -/
theorem pollMask_writePipe {id : Nat} {data : Bytes}
    (hfile : s.file fd = some file)
    (hspecial : file.special = some (.pipeWrite id))
    (hmask : s.pollMask hasInput fd = .ok mask)
    (hdata : data ≠ []) :
    (mask.pollout = true ↔ ∃ n, 0 < n ∧ (s.writePipe id data).1 = .ok n) ∧
      (mask.pollerr = true ↔ (s.writePipe id data).1 = .error .brokenPipe) ∧
      (mask = .empty ↔ (s.writePipe id data).1 = .error .wouldBlock) := by
  simp only [pollMask, hfile, hspecial] at hmask
  have hlen := List.length_pos_iff.mpr hdata
  cases hpipe : s.vfs.pipes id with
  | none =>
    rw [hpipe] at hmask
    cases hmask
  | some pipe =>
    rw [hpipe] at hmask
    dsimp only at hmask
    rw [writePipe, if_neg (by simpa using hdata), hpipe]
    dsimp only
    by_cases hreaders : pipe.readers = 0
    · rw [if_pos hreaders] at hmask ⊢
      cases hmask
      simp [PollMask.empty]
    · rw [if_neg hreaders] at hmask ⊢
      cases hmask
      by_cases hfull : pipeCapacity ≤ pipe.buf.length
      · simp [PollMask.empty, hfull]
      · have hroom : pipe.buf.length < pipeCapacity := Nat.not_le.mp hfull
        simp [PollMask.empty, hfull, hroom]
        omega

/-- A descriptor that can be written to, as far as the mask tells. -/
theorem refused_iff {data : Bytes}
    (hfile : s.file fd = some file)
    (hmask : s.pollMask hasInput fd = .ok mask)
    (hout : mask.pollout = true)
    (hdata : data ≠ []) :
    (∃ e, s.writeOutcome fd data = .error e) ↔
      file.special = none ∨ file.special = some .stdin := by
  cases hspecial : file.special with
  | none => simp [writeOutcome, PipeTables.write, hfile, hspecial]
  | some special =>
    cases special with
    | pipeRead id =>
      simp only [pollMask, hfile, hspecial] at hmask
      split at hmask <;> cases hmask
      cases hout
    | pipeWrite id =>
      obtain ⟨n, -, hn⟩ := (pollMask_writePipe hfile hspecial hmask hdata).1.mp hout
      simp [writeOutcome, PipeTables.write, hfile, hspecial, hn]
    | _ => simp [writeOutcome, PipeTables.write, hfile, hspecial]

/-- What the mask of a descriptor tells.  For the ends of a pipe it is what a read or a write
would do; a descriptor of a file or of the standard input is said to take data and refuses it. -/
theorem poll_tells {len : Nat} {data : Bytes}
    (hfile : s.file fd = some file)
    (hmask : s.pollMask hasInput fd = .ok mask)
    (hlen : len ≠ 0)
    (hdata : data ≠ []) :
    (∀ id, file.special = some (.pipeRead id) →
      (mask.pollin = true ↔ ∃ bytes, bytes ≠ [] ∧ (s.readPipe id len).1 = .ok bytes) ∧
      (mask.pollin = false ∧ mask.pollhup = true ↔ (s.readPipe id len).1 = .ok []) ∧
      (mask = .empty ↔ (s.readPipe id len).1 = .error .wouldBlock)) ∧
    (∀ id, file.special = some (.pipeWrite id) →
      (mask.pollout = true ↔ ∃ n, 0 < n ∧ (s.writePipe id data).1 = .ok n) ∧
      (mask.pollerr = true ↔ (s.writePipe id data).1 = .error .brokenPipe) ∧
      (mask = .empty ↔ (s.writePipe id data).1 = .error .wouldBlock)) ∧
    (mask.pollout = true → ((∃ e, s.writeOutcome fd data = .error e) ↔
      file.special = none ∨ file.special = some .stdin)) :=
  ⟨fun _ hspecial => pollMask_readPipe hfile hspecial hmask hlen,
    fun _ hspecial => pollMask_writePipe hfile hspecial hmask hdata,
    fun hout => refused_iff hfile hmask hout hdata⟩

/-- A pipe that holds a byte can be read and written to, and the standard input is said to take
data and refuses it. -/
theorem poll_tells_pipe :
    (∃ bytes, bytes ≠ [] ∧
        (((mount.after .create).after (.write 4 [7])).readPipe 1 5).1 = .ok bytes) ∧
      (∃ n, 0 < n ∧
        (((mount.after .create).after (.write 4 [7])).writePipe 1 [104]).1 = .ok n) ∧
      ∃ e, ((mount.after .create).after (.write 4 [7])).writeOutcome 0 [104] = .error e := by
  have htells (fd : Int) {file : OpenFile} {mask : PollMask}
      (hfile : ((mount.after .create).after (.write 4 [7])).file fd = some file)
      (hmask : ((mount.after .create).after (.write 4 [7])).pollMask false fd = .ok mask) :=
    poll_tells hfile hmask (show 5 ≠ 0 by decide) (List.cons_ne_nil (104 : UInt8) [])
  exact ⟨((htells 3 rfl rfl).1 1 rfl).1.mp rfl, ((htells 4 rfl rfl).2.1 1 rfl).1.mp rfl,
    ((htells 0 rfl rfl).2.2 rfl).mpr (.inr rfl)⟩

/-! ## What stays true -/

/-- The ends of a pipe. -/
inductive Side where
  | reading
  | writing

namespace Side

def special (id : Nat) : Side → SpecialFd
  | reading => .pipeRead id
  | writing => .pipeWrite id

/-- A call on this end of the pipe returns at once. -/
def Ready (pipe : Pipe) : Side → Prop
  | reading => pipe.buf ≠ [] ∨ pipe.writers = 0
  | writing => pipe.readers = 0 ∨ pipe.buf.length < pipeCapacity

/-- A call on this end of the pipe has to wait. -/
def Blocks (s : PipeTables) (id : Nat) : Side → Prop
  | reading => ∃ len, len ≠ 0 ∧ (s.readPipe id len).1 = .error .wouldBlock
  | writing => ∃ data, data ≠ [] ∧ (s.writePipe id data).1 = .error .wouldBlock

end Side

/-- The descriptor is this end of the pipe. -/
def IsEnd (s : PipeTables) (fd : Int) (id : Nat) (side : Side) : Prop :=
  ∃ file, s.file fd = some file ∧ file.special = some (side.special id)

/-- The call does not close the descriptor, and it is no call on this end of the pipe. -/
def Spares (s : PipeTables) (fd : Int) (id : Nat) : Side → Call → Prop
  | _, .close fd' => fd' ≠ fd
  | .reading, .read fd' _ => ¬ s.IsEnd fd' id .reading
  | .writing, .write fd' _ => ¬ s.IsEnd fd' id .writing
  | _, _ => True

variable {id : Nat} {side : Side}

/-- An end of a pipe has a mask, which is empty if a call would have to wait. -/
theorem IsEnd.pollMask (h : s.IsEnd fd id side) {pipe : Pipe}
    (hpipe : s.vfs.pipes id = some pipe) :
    ∃ mask, s.pollMask hasInput fd = .ok mask ∧
      (mask = .empty ↔ ¬ side.Ready pipe) ∧ (mask = .empty ↔ side.Blocks s id) := by
  obtain ⟨file, hfile, hspecial⟩ := h
  cases side with
  | reading =>
    have hmask : s.pollMask hasInput fd =
        .ok { PollMask.empty with pollin := !pipe.buf.isEmpty, pollhup := pipe.writers = 0 } := by
      simp [PipeTables.pollMask, hfile, hspecial, Side.special, hpipe]
    refine ⟨_, hmask, by simp [PollMask.empty, Side.Ready], fun hempty => ?_, ?_⟩
    · exact ⟨1, one_ne_zero,
        (pollMask_readPipe hfile hspecial hmask one_ne_zero).2.2.mp hempty⟩
    · rintro ⟨len, hlen, hblocks⟩
      exact (pollMask_readPipe hfile hspecial hmask hlen).2.2.mpr hblocks
  | writing =>
    obtain ⟨mask, hmask, hready⟩ : ∃ mask, s.pollMask hasInput fd = .ok mask ∧
        (mask = .empty ↔ ¬ Side.writing.Ready pipe) := by
      by_cases hreaders : pipe.readers = 0 <;>
        simp [PipeTables.pollMask, hfile, hspecial, Side.special, hpipe, hreaders,
          PollMask.empty, Side.Ready]
    refine ⟨mask, hmask, hready, fun hempty => ?_, ?_⟩
    · exact ⟨[0], List.cons_ne_nil _ _,
        (pollMask_writePipe hfile hspecial hmask (List.cons_ne_nil _ _)).2.2.mp hempty⟩
    · rintro ⟨data, hdata, hblocks⟩
      exact (pollMask_writePipe hfile hspecial hmask hdata).2.2.mpr hblocks

/-! ### The descriptor -/

/-- A descriptor stays the end of a pipe if another slot is filled, or its own with the same
end. -/
theorem IsEnd.set {slot : Nat} {old new : Option OpenFile}
    {pipes : Nat → Option Pipe} {nextPipeId : Nat}
    (h : s.IsEnd fd id side)
    (hold : s.vfs.files[slot]? = some old)
    (hnew : old.bind OpenFile.special = some (side.special id) →
      new.bind OpenFile.special = some (side.special id)) :
    IsEnd ⟨⟨s.vfs.files.set slot new, pipes⟩, nextPipeId⟩ fd id side := by
  obtain ⟨file, hfile, hspecial⟩ := h
  obtain ⟨fdSlot, hslot, hentry⟩ := file_eq_some_iff.mp hfile
  by_cases heq : slot = fdSlot
  · subst heq
    rw [hold] at hentry
    cases hentry
    obtain ⟨file', rfl, hspecial'⟩ := Option.bind_eq_some_iff.mp (hnew hspecial)
    refine ⟨file', file_eq_some_iff.mpr ⟨slot, hslot, ?_⟩, hspecial'⟩
    rw [List.getElem?_set_self (List.getElem?_eq_some_iff.mp hold).1]
  · exact ⟨file, file_eq_some_iff.mpr ⟨fdSlot, hslot, by rwa [List.getElem?_set_ne heq]⟩, hspecial⟩

/-- A descriptor stays what it is if the slots stay what they are. -/
theorem IsEnd.of_files {s' : PipeTables}
    (h : s.IsEnd fd id side)
    (hfiles : s'.vfs.files = s.vfs.files) :
    s'.IsEnd fd id side := by
  obtain ⟨file, hfile, hspecial⟩ := h
  refine ⟨file, ?_, hspecial⟩
  rw [← hfile, PipeTables.file, PipeTables.file, Vfs.fileAt, Vfs.fileAt, hfiles]

theorem readPipe_files (s : PipeTables) (id len : Nat) :
    (s.readPipe id len).2.vfs.files = s.vfs.files := by
  rw [readPipe]
  repeat' split
  all_goals rfl

theorem writePipe_files (s : PipeTables) (id : Nat) (data : Bytes) :
    (s.writePipe id data).2.vfs.files = s.vfs.files := by
  rw [writePipe]
  repeat' split
  all_goals rfl

theorem read_files (s : PipeTables) (fd : Int) (len : Nat) :
    (s.after (.read fd len)).vfs.files = s.vfs.files := by
  simp only [after, PipeTables.read]
  repeat' split
  all_goals first | rfl | exact readPipe_files s _ len

theorem write_files (s : PipeTables) (fd : Int) (data : Bytes) :
    (s.after (.write fd data)).vfs.files = s.vfs.files := by
  simp only [after, PipeTables.write]
  repeat' split
  all_goals first | rfl | exact writePipe_files s _ data

theorem slotOf_injective {fd fd' : Int} {slot : Nat}
    (h : Vfs.slotOf fd = some slot)
    (h' : Vfs.slotOf fd' = some slot) :
    fd = fd' := by
  simp only [Vfs.slotOf, Option.ite_none_left_eq_some, Option.some.injEq] at h h'
  omega

theorem IsEnd.close {fd' : Int}
    (h : s.IsEnd fd id side)
    (hne : fd' ≠ fd) :
    (s.close fd').2.IsEnd fd id side := by
  simp only [PipeTables.close, Vfs.close]
  split
  next => exact h
  next slot hslot =>
    split
    next => exact h
    next => exact h
    next file hentry =>
      split
      next => exact h.set hentry fun hspecial => hspecial
      next =>
        refine IsEnd.of_files (s := ⟨⟨s.vfs.files.set slot none, s.vfs.pipes⟩, s.nextPipeId⟩) ?_
          (Vfs.files_releaseSpecial _ _)
        obtain ⟨file', hfile', hspecial⟩ := h
        obtain ⟨slot', hslot', hentry'⟩ := file_eq_some_iff.mp hfile'
        have hslots : slot ≠ slot' := by
          rintro rfl
          exact hne (slotOf_injective hslot hslot')
        exact ⟨file', file_eq_some_iff.mpr
          ⟨slot', hslot', by rwa [List.getElem?_set_ne hslots]⟩, hspecial⟩

theorem IsEnd.create (h : s.IsEnd fd id side) :
    s.createPipe.2.IsEnd fd id side := by
  obtain ⟨e, heq⟩ | ⟨rslot, wslot, hlt, hr, hw, heq⟩ := createPipe_cases s
  · rwa [heq]
  · rw [heq]
    have hfirst : IsEnd ⟨⟨s.vfs.files.set rslot (some (pipeFile 0 (.pipeRead s.nextPipeId))),
        s.vfs.pipes⟩, s.nextPipeId⟩ fd id side := h.set hr (fun hspecial => by cases hspecial)
    have hfree : (s.vfs.files.set rslot (some (pipeFile 0 (.pipeRead s.nextPipeId))))[wslot]? =
        some none := by
      rwa [List.getElem?_set_ne hlt.ne]
    exact hfirst.set hfree (fun hspecial => by cases hspecial)

theorem IsEnd.open {lookup : Vfs.Lookup} {path : Nt.Path} {flags : Int}
    (h : s.IsEnd fd id side) :
    (s.after (.open lookup path flags)).IsEnd fd id side := by
  rw [PipeTables.after]
  rcases s.vfs.open_cases lookup path flags with
    ⟨e, hopen⟩ | ⟨fd', v', hopen, slot, file, -, rfl, hfree, -⟩
  · rwa [hopen]
  · rw [hopen]
    exact h.set hfree (fun hspecial => by cases hspecial)

theorem IsEnd.dup {src minFd : Int} {cloexec : Bool}
    (h : s.IsEnd fd id side) :
    (s.dupFd src minFd cloexec).2.IsEnd fd id side := by
  rw [dupFd]
  split
  next => exact h
  next =>
    split
    next => exact h
    next slot hslot =>
      exact h.set (getElem?_of_firstFreeFrom hslot).2 (fun hspecial => by cases hspecial)

/-- An orderly `dup2` puts an end of a pipe in the place of the same end only. -/
theorem IsEnd.dup2 {oldfd newfd : Int} {cloexec : Bool}
    (h : s.IsEnd fd id side)
    (horderly : s.Orderly (.dup2 oldfd newfd cloexec)) :
    (s.dup2Fd oldfd newfd cloexec).2.IsEnd fd id side := by
  rw [dup2Fd]
  split
  next src slot hsrc hslot =>
    split
    next hlt =>
      have hold := List.getElem?_eq_getElem hlt
      have hsame := horderly src slot _ hsrc hslot hold id
      refine h.set hold fun hspecial => ?_
      cases side with
      | reading => exact hsame.1.mp hspecial
      | writing => exact hsame.2.mp hspecial
    next => exact h
  next => exact h

theorem IsEnd.clone {fd' : Int}
    (h : s.IsEnd fd id side) :
    (s.cloneHandle fd').2.IsEnd fd id side := by
  rw [cloneHandle]
  split
  next slot file hslot hfile =>
    obtain ⟨slot', hslot', hentry⟩ := file_eq_some_iff.mp hfile
    rw [hslot] at hslot'
    cases hslot'
    exact h.set hentry fun hspecial => hspecial
  next => exact h

theorem IsEnd.after {call : Call}
    (h : s.IsEnd fd id side)
    (horderly : s.Orderly call)
    (hspares : s.Spares fd id side call) :
    (s.after call).IsEnd fd id side := by
  cases call with
  | create => exact h.create
  | «open» lookup path flags => exact h.open
  | read fd' len => exact h.of_files (read_files s fd' len)
  | write fd' data => exact h.of_files (write_files s fd' data)
  | close fd' => exact h.close (by cases side <;> exact hspares)
  | dup src minFd cloexec => exact h.dup
  | dup2 oldfd newfd cloexec => exact h.dup2 horderly
  | clone fd' => exact h.clone

/-! ### The pipe -/

/-- What is left of the pipe is ready. -/
def ReadyIfThere (side : Side) (pipe : Option Pipe) : Prop :=
  ∀ p, pipe = some p → side.Ready p

theorem ReadyIfThere.update {pipes : Nat → Option Pipe} {k : Nat} {new : Option Pipe}
    (h : ReadyIfThere side (pipes id))
    (hnew : k = id → ReadyIfThere side new) :
    ReadyIfThere side (Function.update pipes k new id) := by
  by_cases heq : id = k
  · subst heq
    rw [Function.update_self]
    exact hnew rfl
  · rwa [Function.update_of_ne heq]

/-- A descriptor that goes leaves the other end of its pipe alone or ready. -/
theorem ReadyIfThere.releaseSpecial {v : Vfs} {special : Option SpecialFd}
    (h : ReadyIfThere side (v.pipes id)) :
    ReadyIfThere side ((v.releaseSpecial special).pipes id) := by
  rcases v.releaseSpecial_cases special id with ⟨-, hpipes⟩ | ⟨pipe, pipe', hpipe, hpipes, hend⟩
  · rwa [hpipes]
  · rw [hpipes]
    intro new hnew
    obtain ⟨-, ⟨⟩⟩ := Option.ite_none_left_eq_some.mp hnew
    have hready := h pipe hpipe
    -- one end less, which the end itself does not look at
    rcases hend with ⟨-, rfl⟩ | ⟨-, rfl⟩ <;> cases side
    · exact hready
    · exact hready.imp_left fun hzero => by simp [hzero]
    · exact hready.imp_right fun hzero => by simp [hzero]
    · exact hready

theorem ReadyIfThere.close {fd' : Int}
    (h : ReadyIfThere side (s.vfs.pipes id)) :
    ReadyIfThere side ((s.close fd').2.vfs.pipes id) := by
  simp only [PipeTables.close, Vfs.close]
  split
  next => exact h
  next slot hslot =>
    split
    next => exact h
    next => exact h
    next file hentry =>
      split
      next => exact h
      next => exact ReadyIfThere.releaseSpecial (v := ⟨s.vfs.files.set slot none, s.vfs.pipes⟩) h

/-- A new pipe takes no number that is in use. -/
theorem ReadyIfThere.create {pipe : Pipe}
    (h : ReadyIfThere side (s.vfs.pipes id))
    (hpipe : s.vfs.pipes id = some pipe)
    (horderly : s.Orderly .create) :
    ReadyIfThere side (s.createPipe.2.vfs.pipes id) := by
  obtain ⟨e, heq⟩ | ⟨rslot, wslot, hlt, hr, hw, heq⟩ := createPipe_cases s
  · rwa [heq]
  · have hunused := horderly ⟨rslot, wslot, hlt, hr, hw⟩
    rw [heq]
    refine h.update ?_
    rintro rfl
    rw [hunused] at hpipe
    cases hpipe

/-- Bytes that are taken make room. -/
theorem ReadyIfThere.readPipe {k len : Nat}
    (h : ReadyIfThere side (s.vfs.pipes id))
    (hother : side = .reading → k ≠ id) :
    ReadyIfThere side ((s.readPipe k len).2.vfs.pipes id) := by
  rw [PipeTables.readPipe]
  split
  next => exact h
  next =>
    split
    next => exact h
    next pipe hpipe =>
      split
      next => exact h
      next =>
        refine h.update ?_
        rintro rfl q ⟨⟩
        cases side with
        | reading => exact absurd rfl (hother rfl)
        | writing =>
          refine (h pipe hpipe).imp_right fun hroom => ?_
          exact lt_of_le_of_lt (List.drop_sublist _ _).length_le hroom

/-- Bytes that arrive can be read. -/
theorem ReadyIfThere.writePipe {k : Nat} {data : Bytes}
    (h : ReadyIfThere side (s.vfs.pipes id))
    (hother : side = .writing → k ≠ id) :
    ReadyIfThere side ((s.writePipe k data).2.vfs.pipes id) := by
  rw [PipeTables.writePipe]
  split
  next => exact h
  next =>
    split
    next => exact h
    next pipe hpipe =>
      split
      next => exact h
      next =>
        split
        next => exact h
        next =>
          refine h.update ?_
          rintro rfl q ⟨⟩
          cases side with
          | reading =>
            refine (h pipe hpipe).imp_left fun hbuf => ?_
            exact List.append_ne_nil_of_left_ne_nil hbuf _
          | writing => exact absurd rfl (hother rfl)

theorem ReadyIfThere.read {fd' : Int} {len : Nat}
    (h : ReadyIfThere side (s.vfs.pipes id))
    (hspares : s.Spares fd id side (.read fd' len)) :
    ReadyIfThere side ((s.after (.read fd' len)).vfs.pipes id) := by
  simp only [PipeTables.after, PipeTables.read]
  split
  next => exact h
  next file hfile =>
    split
    next k hspecial =>
      refine h.readPipe ?_
      rintro rfl rfl
      exact hspares ⟨file, hfile, hspecial⟩
    next => exact h
    next => exact h

theorem ReadyIfThere.write {fd' : Int} {data : Bytes}
    (h : ReadyIfThere side (s.vfs.pipes id))
    (hspares : s.Spares fd id side (.write fd' data)) :
    ReadyIfThere side ((s.after (.write fd' data)).vfs.pipes id) := by
  simp only [PipeTables.after, PipeTables.write]
  split
  next => exact h
  next file hfile =>
    split
    next k hspecial =>
      refine h.writePipe ?_
      rintro rfl rfl
      exact hspares ⟨file, hfile, hspecial⟩
    all_goals exact h

/-- The copies of a descriptor are not counted, and change no pipe. -/
theorem ReadyIfThere.after {call : Call} {pipe : Pipe}
    (h : ReadyIfThere side (s.vfs.pipes id))
    (hpipe : s.vfs.pipes id = some pipe)
    (horderly : s.Orderly call)
    (hspares : s.Spares fd id side call) :
    ReadyIfThere side ((s.after call).vfs.pipes id) := by
  cases call with
  | create => exact h.create hpipe horderly
  | «open» lookup path flags =>
    rw [PipeTables.after]
    rcases s.vfs.open_cases lookup path flags with
      ⟨e, hopen⟩ | ⟨fd', v', hopen, slot, file, -, rfl, -⟩ <;> rwa [hopen]
  | read fd' len => exact h.read hspares
  | write fd' data => exact h.write hspares
  | close fd' => exact h.close
  | dup src minFd cloexec =>
    simp only [PipeTables.after, dupFd]
    repeat' split
    all_goals exact h
  | dup2 oldfd newfd cloexec =>
    simp only [PipeTables.after, dup2Fd]
    repeat' split
    all_goals exact h
  | clone fd' =>
    simp only [PipeTables.after, cloneHandle]
    repeat' split
    all_goals exact h

/-! ### Runs -/

/-- What holds of an end of a pipe that is ready as long as nobody uses this end. -/
structure StaysReady (fd : Int) (id : Nat) (side : Side) (s : PipeTables) : Prop where
  counted : Counted s.vfs
  isEnd : s.IsEnd fd id side
  ready : ReadyIfThere side (s.vfs.pipes id)

theorem IsEnd.pipe
    (h : s.IsEnd fd id side)
    (hc : Counted s.vfs) :
    ∃ pipe, s.vfs.pipes id = some pipe := by
  obtain ⟨file, hfile, hspecial⟩ := h
  have hend : file.special = some (.pipeRead id) ∨ file.special = some (.pipeWrite id) := by
    cases side with
    | reading => exact .inl hspecial
    | writing => exact .inr hspecial
  obtain ⟨pipe, hpipe, -⟩ := hc.pipe_of_file hfile hend
  exact ⟨pipe, hpipe⟩

theorem StaysReady.step {call : Call}
    (h : StaysReady fd id side s)
    (horderly : s.Orderly call)
    (hspares : s.Spares fd id side call) :
    StaysReady fd id side (s.after call) := by
  obtain ⟨pipe, hpipe⟩ := h.isEnd.pipe h.counted
  exact ⟨(h.counted.after_iff call).mpr horderly, h.isEnd.after horderly hspares,
    h.ready.after hpipe horderly hspares⟩

/-- What `poll_mask` told of an end of a pipe stays true: when it was ready, it is ready after
every run of orderly calls in which nobody used this end of the pipe or closed the descriptor,
and a call on it does not have to wait. -/
theorem ready_stays {s' : PipeTables} {calls : List Call} {hasInput' : Bool}
    (hc : Counted s.vfs)
    (hend : s.IsEnd fd id side)
    (hready : s.pollMask hasInput fd ≠ .ok .empty)
    (hrun : Run (fun s call s' => s.Orderly call ∧ s.Spares fd id side call ∧ s' = s.after call)
      s calls s') :
    ∃ mask, s'.pollMask hasInput' fd = .ok mask ∧ mask ≠ .empty ∧ ¬ side.Blocks s' id := by
  obtain ⟨pipe, hpipe⟩ := hend.pipe hc
  have hstart : StaysReady fd id side s := by
    refine ⟨hc, hend, fun p hp => ?_⟩
    obtain ⟨mask, hmask, hempty, -⟩ := hend.pollMask hp
    refine not_not.mp fun hnot => hready ?_
    rw [hmask, hempty.mpr hnot]
  have hlast : StaysReady fd id side s' := by
    refine Run.invariant ?_ hrun hstart
    rintro s call _ h ⟨horderly, hspares, rfl⟩
    exact h.step horderly hspares
  obtain ⟨pipe', hpipe'⟩ := hlast.isEnd.pipe hlast.counted
  obtain ⟨mask, hmask, hempty, hblocks⟩ := hlast.isEnd.pollMask hpipe'
  have hne : mask ≠ .empty := fun heq => hempty.mp heq (hlast.ready pipe' hpipe')
  exact ⟨mask, hmask, hne, fun hwait => hne (hblocks.mpr hwait)⟩

/-- A byte that was written can be read after the writer wrote another one and left. -/
theorem ready_stays_writer_leaves :
    ∃ mask, ((((mount.after .create).after (.write 4 [7])).after (.write 4 [8])).after
      (.close 4)).pollMask false 3 = .ok mask ∧ mask ≠ .empty := by
  have hcreate : Counted (mount.after .create).vfs :=
    (counted_mount.after_iff .create).mpr fun _ => rfl
  have hc : Counted ((mount.after .create).after (.write 4 [7])).vfs :=
    (hcreate.after_iff (.write 4 [7])).mpr trivial
  have hend : ((mount.after .create).after (.write 4 [7])).IsEnd 3 1 .reading := ⟨_, rfl, rfl⟩
  have hready : ((mount.after .create).after (.write 4 [7])).pollMask false 3 ≠ .ok .empty := by
    decide
  have hrun : Run (fun s call s' => s.Orderly call ∧ s.Spares 3 1 .reading call ∧
      s' = s.after call) ((mount.after .create).after (.write 4 [7])) [.write 4 [8], .close 4]
      ((((mount.after .create).after (.write 4 [7])).after (.write 4 [8])).after (.close 4)) := by
    refine .cons ⟨trivial, trivial, rfl⟩ (.cons ⟨trivial, ?_, rfl⟩ (.nil _))
    exact fun (h : (4 : Int) = 3) => by omega
  obtain ⟨mask, hmask, hne, -⟩ := ready_stays hc hend hready hrun
  exact ⟨mask, hmask, hne⟩

end

end PipeTables
end Kernel
end Theos
