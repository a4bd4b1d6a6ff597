import Mathlib.Data.List.Basic
import Theos.Base.Run
import Theos.Kernel.BlockDevices

/-!
# Requests to the virtio device

`submit_rw` of `kernel/virtio_blk.rs` has one descriptor chain and one page for its requests.
It writes the request into the page, makes the chain available and waits until `used.idx`
moves.  The device works on its own: it fetches a chain that was made available, and some
time later it has carried the request out, writes the status into the page and moves
`used.idx`.

A request that times out stays with the device.  If another call begins then, the two share
the page: the completion of the old request is taken for that of the new one, with the data
of the old sector.  A call that begins while the device owns no chain is answered by its own
completion, whatever the device does in between and whatever happened before.
-/

namespace Theos
namespace Kernel
namespace VirtioQueue

open Base

/-- `read_sector` and `write_sector`. -/
inductive Call where
  | read (sector : Nat)
  | write (sector : Nat) (data : Sector)

def Call.sector : Call → Nat
  | .read sector => sector
  | .write sector _ => sector

/-- How far the driver is with its call. -/
inductive Phase where
  | idle
  /-- The request is in the page. -/
  | prepared (call : Call)
  /-- The chain is available, and the loop looks at `used.idx`. -/
  | waiting (call : Call)
  /-- `used.idx` has moved. -/
  | noticed (call : Call)

/-- What the header of a request and its data ask for: `VIRTIO_BLK_T_IN` and
`VIRTIO_BLK_T_OUT`. -/
inductive ReqType where
  | blkIn
  | blkOut

/-- A chain as the device has fetched it. -/
structure Fetched where
  reqType : ReqType
  sector : Nat
  data : Sector

/-- The page of the request, the indices of the rings, and the device with its sectors. -/
structure Queue where
  capacitySectors : Nat
  disk : Nat → Sector
  reqType : ReqType
  sector : Nat
  data : Sector
  status : UInt8
  availIdx : UInt16
  usedIdx : UInt16
  lastUsedIdx : UInt16
  /-- Where the device goes on in the ring of available chains. -/
  deviceIdx : UInt16
  fetched : List Fetched
  phase : Phase

/-- The steps of the driver and of the device. -/
inductive Step where
  | begin (call : Call)
  | publish
  | notice
  | timeout
  | finish
  | fetch
  /-- The device is done with the chain it fetched at this place. -/
  | complete (idx : Nat) (succeeded : Bool)

namespace Queue

/-- The request in the page.  The data of a read stay as they are, and the status is set to
a value that the device does not write. -/
def prepare (q : Queue) (call : Call) : Queue :=
  match call with
  | .read sector =>
    { q with reqType := .blkIn, sector := sector, status := 0xff, phase := .prepared call }
  | .write sector data =>
    { q with
      reqType := .blkOut, sector := sector, data := data, status := 0xff
      phase := .prepared call }

/-- The device carries a request out, or reports `VIRTIO_BLK_S_IOERR`. -/
def carryOut (q : Queue) (request : Fetched) (succeeded : Bool) : Queue :=
  if succeeded then
    match request.reqType with
    | .blkIn => { q with data := q.disk request.sector, status := 0, usedIdx := q.usedIdx + 1 }
    | .blkOut =>
      { q with
        disk := Function.update q.disk request.sector request.data, status := 0
        usedIdx := q.usedIdx + 1 }
  else { q with status := 1, usedIdx := q.usedIdx + 1 }

/-- The state after a step, if the step is possible. -/
def step (q : Queue) : Step → Option Queue
  | .begin call =>
    match q.phase with
    | .idle => if q.capacitySectors ≤ call.sector then some q else some (q.prepare call)
    | _ => none
  | .publish =>
    match q.phase with
    | .prepared call => some { q with availIdx := q.availIdx + 1, phase := .waiting call }
    | _ => none
  | .notice =>
    match q.phase with
    | .waiting call =>
      if q.usedIdx ≠ q.lastUsedIdx then
        some { q with lastUsedIdx := q.usedIdx, phase := .noticed call }
      else none
    | _ => none
  | .timeout =>
    match q.phase with
    | .waiting _ => if q.usedIdx = q.lastUsedIdx then some { q with phase := .idle } else none
    | _ => none
  | .finish =>
    match q.phase with
    | .noticed _ => some { q with phase := .idle }
    | _ => none
  | .fetch =>
    if q.deviceIdx ≠ q.availIdx then
      some { q with
        deviceIdx := q.deviceIdx + 1
        fetched := q.fetched ++ [⟨q.reqType, q.sector, q.data⟩] }
    else none
  | .complete idx succeeded =>
    match q.fetched[idx]? with
    | none => none
    | some request =>
      some (carryOut { q with fetched := q.fetched.eraseIdx idx } request succeeded)

/-- What the call returns when it finishes, with the buffer of the caller. -/
def outcome (q : Queue) : Option (Except VirtioBlkError Sector) :=
  match q.phase with
  | .noticed call =>
    if q.status ≠ 0 then some (.error .requestFailed)
    else
      match call with
      | .read _ => some (.ok q.data)
      | .write _ data => some (.ok data)
  | _ => none

/-- The device has no chain of the driver. -/
def DeviceIdle (q : Queue) : Prop :=
  q.deviceIdx = q.availIdx ∧ q.fetched = []

/-! ## A call -/

/-- The request is the one of the call. -/
def Asks (reqType : ReqType) (sector : Nat) (data : Sector) : Call → Prop
  | .read s => reqType = .blkIn ∧ sector = s
  | .write s d => reqType = .blkOut ∧ sector = s ∧ data = d

/-- The sectors once the call is done. -/
def after (disk : Nat → Sector) : Call → Nat → Sector
  | .read _ => disk
  | .write sector data => Function.update disk sector data

/-- The request that was made available is still in the page, the device has fetched it, or
the device is done with it. -/
inductive Stage (disk : Nat → Sector) (call : Call) (q : Queue) : Prop
  | published (status : q.status = 0xff) (asks : Asks q.reqType q.sector q.data call)
      (next : q.deviceIdx + 1 = q.availIdx) (none : q.fetched = []) (same : q.disk = disk)
  | fetched (request : Fetched) (status : q.status = 0xff)
      (asks : Asks request.reqType request.sector request.data call)
      (next : q.deviceIdx = q.availIdx) (one : q.fetched = [request]) (same : q.disk = disk)
  | failed (status : q.status = 1) (idle : q.DeviceIdle)
  | done (idle : q.DeviceIdle) (changed : q.disk = after disk call)
      (data : ∀ s, call = .read s → q.data = q.disk s)

/-- The call is under way. -/
inductive Underway (disk : Nat → Sector) (call : Call) (q : Queue) : Prop
  | prepared (phase : q.phase = .prepared call) (status : q.status = 0xff)
      (asks : Asks q.reqType q.sector q.data call) (idle : q.DeviceIdle) (same : q.disk = disk)
  | posted (phase : q.phase = .waiting call ∨ q.phase = .noticed call)
      (stage : Stage disk call q)

theorem underway_of_begin {q q' : Queue} {call : Call} (hidle : q.DeviceIdle)
    (h : q.step (.begin call) = some q') : q'.phase = .idle ∨ Underway q.disk call q' := by
  cases hphase : q.phase with
  | idle =>
    simp only [step, hphase] at h
    split_ifs at h
    · cases h
      exact Or.inl hphase
    · cases h
      right
      cases call with
      | read sector => exact .prepared rfl rfl ⟨rfl, rfl⟩ hidle rfl
      | write sector data => exact .prepared rfl rfl ⟨rfl, rfl, rfl⟩ hidle rfl
  | _ => simp [step, hphase] at h

section Steps

variable {disk : Nat → Sector} {call : Call} {q q' : Queue}

/-- The device fetches the request as the call has written it. -/
theorem Stage.fetch (h : Stage disk call q) (hstep : q.step .fetch = some q') :
    Stage disk call q' ∧ q'.phase = q.phase := by
  have hnext : q.deviceIdx ≠ q.availIdx ∧ q' = { q with
      deviceIdx := q.deviceIdx + 1
      fetched := q.fetched ++ [⟨q.reqType, q.sector, q.data⟩] } := by
    simp only [step] at hstep
    split_ifs at hstep with hne
    exact ⟨hne, (Option.some.inj hstep).symm⟩
  obtain ⟨hne, rfl⟩ := hnext
  refine ⟨?_, rfl⟩
  cases h with
  | published status asks next none same =>
    exact .fetched _ status asks next (by rw [none]; rfl) same
  | fetched _ _ _ next => exact absurd next hne
  | failed _ idle => exact absurd idle.1 hne
  | done idle => exact absurd idle.1 hne

/-- The device is done with the request of the call: it has no other. -/
theorem Stage.complete {idx : Nat} {succeeded : Bool} (h : Stage disk call q)
    (hstep : q.step (.complete idx succeeded) = some q') :
    Stage disk call q' ∧ q'.phase = q.phase := by
  simp only [step] at hstep
  cases h with
  | published _ _ _ none => simp [none] at hstep
  | failed _ idle => simp [idle.2] at hstep
  | done idle => simp [idle.2] at hstep
  | fetched request status asks next one same =>
    rw [one] at hstep
    cases idx with
    | succ idx => simp at hstep
    | zero =>
      simp only [List.getElem?_cons_zero, List.eraseIdx_cons_zero, Option.some.injEq] at hstep
      subst hstep
      unfold carryOut
      split
      · cases call with
        | read s =>
          obtain ⟨htype, hsector⟩ := asks
          rw [htype]
          refine ⟨.done ⟨next, rfl⟩ same fun s' hs' => ?_, rfl⟩
          cases hs'
          rw [hsector]
        | write s data =>
          obtain ⟨htype, hsector, hdata⟩ := asks
          rw [htype]
          refine ⟨.done ⟨next, rfl⟩ ?_ (fun _ hs' => by cases hs'), rfl⟩
          simp only [hsector, hdata, same, after]
      · exact ⟨.failed rfl ⟨next, rfl⟩, rfl⟩

/-- No step but the beginning of another call spoils a call. -/
theorem Underway.step {op : Step} (h : Underway disk call q) (hop : ∀ c, op ≠ .begin c)
    (hstep : q.step op = some q') : q'.phase = .idle ∨ Underway disk call q' := by
  cases h with
  | prepared phase status asks idle same =>
    cases op with
    | begin c => exact absurd rfl (hop c)
    | publish =>
      simp only [Queue.step, phase, Option.some.injEq] at hstep
      subst hstep
      exact Or.inr (.posted (Or.inl rfl) (.published status asks (by rw [idle.1]) idle.2 same))
    | fetch => simp [Queue.step, idle.1] at hstep
    | complete => simp [Queue.step, idle.2] at hstep
    | _ => simp [Queue.step, phase] at hstep
  | posted phase stage =>
    cases op with
    | begin c => exact absurd rfl (hop c)
    | fetch =>
      obtain ⟨hstage, hphase⟩ := stage.fetch hstep
      exact Or.inr (.posted (hphase ▸ phase) hstage)
    | complete =>
      obtain ⟨hstage, hphase⟩ := stage.complete hstep
      exact Or.inr (.posted (hphase ▸ phase) hstage)
    | publish => rcases phase with phase | phase <;> simp [Queue.step, phase] at hstep
    | notice =>
      rcases phase with phase | phase <;> simp only [Queue.step, phase] at hstep
      · split_ifs at hstep
        cases hstep
        refine Or.inr (.posted (Or.inr rfl) ?_)
        cases stage with
        | published status asks next none same => exact .published status asks next none same
        | fetched request status asks next one same =>
          exact .fetched request status asks next one same
        | failed status idle => exact .failed status idle
        | done idle changed data => exact .done idle changed data
      · cases hstep
    | timeout =>
      rcases phase with phase | phase <;> simp only [Queue.step, phase] at hstep
      · split_ifs at hstep
        cases hstep
        exact Or.inl rfl
      · cases hstep
    | finish =>
      rcases phase with phase | phase <;> simp only [Queue.step, phase] at hstep
      · cases hstep
      · cases hstep
        exact Or.inl rfl

/-- A driver that is idle stays so until a call begins. -/
theorem phase_idle_step {op : Step} (h : q.phase = .idle) (hop : ∀ c, op ≠ .begin c)
    (hstep : q.step op = some q') : q'.phase = .idle := by
  cases op with
  | begin c => exact absurd rfl (hop c)
  | fetch =>
    simp only [Queue.step] at hstep
    split_ifs at hstep
    cases hstep
    exact h
  | complete idx succeeded =>
    simp only [Queue.step] at hstep
    split at hstep
    · cases hstep
    · cases hstep
      unfold carryOut
      split
      · split <;> exact h
      · exact h
  | _ => simp [Queue.step, h] at hstep

theorem underway_of_run {ops : List Step}
    (hrun : Run (fun q op q' => q.step op = some q') q ops q')
    (hops : ∀ op ∈ ops, ∀ c, op ≠ .begin c) (h : q.phase = .idle ∨ Underway disk call q) :
    q'.phase = .idle ∨ Underway disk call q' := by
  induction hrun with
  | nil => exact h
  | cons hstep _ ih =>
    have hop := hops _ List.mem_cons_self
    refine ih (fun op hop' => hops op (List.mem_cons_of_mem _ hop')) ?_
    rcases h with h | h
    · exact Or.inl (phase_idle_step h hop hstep)
    · exact h.step hop hstep

end Steps

/-- A call that begins while the device owns no chain: if it returns `Ok`, a read has the
content of the sector, and a write has changed that sector and no other. -/
theorem sector_call_correct {q q₁ q₂ : Queue} {call : Call} {during : List Step} {out : Sector}
    (hidle : q.DeviceIdle) (hbegin : q.step (.begin call) = some q₁)
    (hduring : Run (fun q op q' => q.step op = some q') q₁ during q₂)
    (hone : ∀ op ∈ during, ∀ c, op ≠ .begin c) (hout : q₂.outcome = some (.ok out)) :
    match call with
    | .read sector => out = q₂.disk sector ∧ q₂.disk = q.disk
    | .write sector data => q₂.disk = Function.update q.disk sector data := by
  have hunderway := underway_of_run hduring hone (underway_of_begin hidle hbegin)
  unfold outcome at hout
  rcases hunderway with hphase | ⟨hphase, -, -, -, -⟩ | ⟨hphase | hphase, hstage⟩
  · simp [hphase] at hout
  · simp [hphase] at hout
  · simp [hphase] at hout
  · simp only [hphase] at hout
    by_cases hstatus : q₂.status = 0
    swap
    · rw [if_pos hstatus] at hout
      cases hout
    rw [if_neg (not_not.mpr hstatus)] at hout
    -- only a completion puts the status to zero
    rcases hstage with ⟨status, -, -, -, -⟩ | ⟨_, status, -, -, -, -⟩ | ⟨status, -⟩ |
      ⟨-, changed, data⟩
    · rw [status] at hstatus
      cases hstatus
    · rw [status] at hstatus
      cases hstatus
    · rw [status] at hstatus
      cases hstatus
    · cases call with
      | read sector =>
        cases hout
        exact ⟨data sector rfl, changed⟩
      | write sector data => exact changed

/-- A driver without a call, on a disk that is zero but for sector 2. -/
def quiet : Queue where
  capacitySectors := 8
  disk := Function.update (fun _ => Sector.zero) 2 ⟨List.replicate sectorSize 1, List.length_replicate⟩
  reqType := .blkIn
  sector := 0
  data := Sector.zero
  status := 0
  availIdx := 0
  usedIdx := 0
  lastUsedIdx := 0
  deviceIdx := 0
  fetched := []
  phase := .idle

/-- A read that the device completes. -/
theorem sector_call_correct_read :
    ∃ q₁ q₂ out, quiet.step (.begin (.read 2)) = some q₁ ∧
      Run (fun q op q' => q.step op = some q') q₁ [.publish, .fetch, .complete 0 true, .notice] q₂ ∧
      q₂.outcome = some (.ok out) ∧ out = q₂.disk 2 ∧ q₂.disk = quiet.disk := by
  obtain ⟨q₁, hbegin⟩ : ∃ q₁, quiet.step (.begin (.read 2)) = some q₁ := ⟨_, rfl⟩
  obtain ⟨q₂, out, hduring, hout⟩ : ∃ q₂ out,
      Run (fun q op q' => q.step op = some q') q₁ [.publish, .fetch, .complete 0 true, .notice] q₂ ∧
        q₂.outcome = some (.ok out) := by
    cases hbegin
    exact ⟨_, _, .cons rfl (.cons rfl (.cons rfl (.single rfl))), rfl⟩
  exact ⟨q₁, q₂, out, hbegin, hduring, hout,
    sector_call_correct ⟨rfl, rfl⟩ hbegin hduring (by simp) hout⟩

/-- The device fetches a read of sector 1, and the driver gives up.  The completion comes
while the driver waits for sector 2, which gets the content of sector 1. -/
theorem late_completion_answers_next_read :
    ∃ q, Run (fun q op q' => q.step op = some q') quiet
        [.begin (.read 1), .publish, .fetch, .timeout, .begin (.read 2), .publish,
          .complete 0 true, .notice] q ∧
      q.outcome = some (.ok (quiet.disk 1)) ∧ q.disk = quiet.disk ∧
      quiet.disk 1 ≠ quiet.disk 2 := by
  refine ⟨_, .cons rfl (.cons rfl (.cons rfl (.cons rfl (.cons rfl (.cons rfl
    (.cons rfl (.single rfl))))))), rfl, rfl, fun h => ?_⟩
  have hfirst : (quiet.disk 1).bytes.head? = (quiet.disk 2).bytes.head? := by rw [h]
  exact absurd hfirst (by decide)

end Queue
end VirtioQueue
end Kernel
end Theos
