import Mathlib.Data.List.Basic
import Mathlib.Data.List.Nodup
import Mathlib.Logic.Function.Basic
import Theos.Base.Run

/-!
# Writing files side by side

Several jobs write whole files at the same time.  A job creates its file, which empties it, and
writes its data in pieces, each behind the piece before.  Nothing keeps two jobs from writing
to the same file: one may empty it while the other is in the middle, and the pieces behind
that leave a gap in front of them, which is filled with a blank.

When all jobs are done, their files have the data of the jobs in every interleaving if and only
if jobs for the same file have the same data.
-/

namespace Theos
namespace Base
namespace Writers

universe u v

variable {κ : Type u} {α : Type v}

/-- A file and what is to be in it. -/
structure Job (κ : Type u) (α : Type v) where
  file : κ
  data : List α

structure State (κ : Type u) (α : Type v) where
  files : κ → Option (List α)
  /-- How much a job has written, if it has created its file. -/
  progress : Nat → Option Nat

inductive Op where
  | create (i : Nat)
  | write (i len : Nat)

/-- Write at a position; what is missing in front of it is filled. -/
def overwrite (blank : α) (k : Nat) (part content : List α) : List α :=
  (content ++ List.replicate (k - content.length) blank).take k ++
    (part ++ content.drop (k + part.length))

/-- One step of one of the jobs. -/
inductive Step [DecidableEq κ] (blank : α) (jobs : List (Job κ α)) :
    State κ α → Op → State κ α → Prop
  | create {s : State κ α} {i : Nat} {job : Job κ α} :
      jobs[i]? = some job → s.progress i = none →
      Step blank jobs s (.create i)
        ⟨Function.update s.files job.file (some []), Function.update s.progress i (some 0)⟩
  | write {s : State κ α} {i k len : Nat} {job : Job κ α} {content : List α} :
      jobs[i]? = some job → s.progress i = some k → s.files job.file = some content →
      k + len ≤ job.data.length →
      Step blank jobs s (.write i len)
        ⟨Function.update s.files job.file
            (some (overwrite blank k ((job.data.drop k).take len) content)),
          Function.update s.progress i (some (k + len))⟩

def start (files : κ → Option (List α)) : State κ α :=
  ⟨files, fun _ => none⟩

def Finished (jobs : List (Job κ α)) (s : State κ α) : Prop :=
  ∀ (i : Nat) (job : Job κ α), jobs[i]? = some job → s.progress i = some job.data.length

/-- Jobs for the same file have the same data. -/
def Agree (jobs : List (Job κ α)) : Prop :=
  ∀ (i i' : Nat) (job job' : Job κ α), jobs[i]? = some job → jobs[i']? = some job' →
    job.file = job'.file → job.data = job'.data

/-! ## Overwriting -/

section Overwrite

variable {blank : α} {k j : Nat} {part content : List α}

theorem length_front :
    ((content ++ List.replicate (k - content.length) blank).take k).length = k := by
  rw [List.length_take, List.length_append, List.length_replicate]
  omega

theorem overwrite_at (h : j < part.length) :
    (overwrite blank k part content)[k + j]? = part[j]? := by
  rw [overwrite, List.getElem?_append_right (by rw [length_front]; omega), length_front,
    Nat.add_sub_cancel_left, List.getElem?_append_left h]

theorem overwrite_before (hk : j < k) (h : j < content.length) :
    (overwrite blank k part content)[j]? = content[j]? := by
  rw [overwrite, List.getElem?_append_left (by rw [length_front]; exact hk),
    List.getElem?_take_of_lt hk, List.getElem?_append_left h]

theorem length_overwrite_le {n : Nat} (hpart : k + part.length ≤ n) (h : content.length ≤ n) :
    (overwrite blank k part content).length ≤ n := by
  rw [overwrite, List.length_append, length_front, List.length_append, List.length_drop]
  omega

@[simp] theorem overwrite_nil
    (data : List α) :
    overwrite blank 0 data [] = data := by
  simp [overwrite]

end Overwrite

/-! ## Every interleaving -/

variable {blank : α} {jobs : List (Job κ α)}

/-- A job has the position still to write. -/
def Owed (jobs : List (Job κ α)) (s : State κ α) (file : κ) (j : Nat) : Prop :=
  ∃ (i : Nat) (job : Job κ α) (k : Nat),
    jobs[i]? = some job ∧ job.file = file ∧ s.progress i = some k ∧ k ≤ j

/-- What is not as it should be in a file will still be written. -/
structure Underway (jobs : List (Job κ α)) (files : κ → Option (List α)) (s : State κ α) :
    Prop where
  content : ∀ (i : Nat) (job : Job κ α), jobs[i]? = some job → s.progress i ≠ none →
    ∃ content, s.files job.file = some content ∧ content.length ≤ job.data.length ∧
      ∀ j < job.data.length, content[j]? = job.data[j]? ∨ Owed jobs s job.file j
  untouched : ∀ file,
    (∀ (i : Nat) (job : Job κ α), jobs[i]? = some job → job.file = file →
      s.progress i = none) → s.files file = files file

theorem underway_start
    (files : κ → Option (List α)) :
    Underway jobs files (start files) where
  content _ _ _ h := absurd rfl h
  untouched _ _ := rfl

/-- A step for one file leaves the others alone. -/
theorem Owed.other {s s' : State κ α} {i j : Nat} {job : Job κ α} {file : κ} {new : Option Nat}
    (h : Owed jobs s file j) (hjob : jobs[i]? = some job) (hfile : file ≠ job.file)
    (hprogress : s'.progress = Function.update s.progress i new) :
    Owed jobs s' file j := by
  obtain ⟨i', job', k, hjob', hfile', hk, hle⟩ := h
  have hne : i' ≠ i := by
    rintro rfl
    cases hjob.symm.trans hjob'
    exact hfile hfile'.symm
  exact ⟨i', job', k, hjob', hfile', by rw [hprogress, Function.update_of_ne hne, hk], hle⟩

variable [DecidableEq κ]

/-- What has to be shown for a step: the file it writes to. -/
theorem Underway.of_file {files : κ → Option (List α)} {s s' : State κ α} {i new : Nat}
    {job : Job κ α} {content : List α}
    (h : Underway jobs files s) (hagree : Agree jobs) (hjob : jobs[i]? = some job)
    (hfiles : s'.files = Function.update s.files job.file (some content))
    (hprogress : s'.progress = Function.update s.progress i (some new))
    (hlen : content.length ≤ job.data.length)
    (hcontent : ∀ j < job.data.length, content[j]? = job.data[j]? ∨ Owed jobs s' job.file j) :
    Underway jobs files s' where
  content i' job' hjob' hstarted := by
    by_cases hfile : job'.file = job.file
    · rw [hfile, hagree i' i job' job hjob' hjob hfile]
      exact ⟨content, by rw [hfiles, Function.update_self], hlen, hcontent⟩
    · have hne : i' ≠ i := by
        rintro rfl
        cases hjob.symm.trans hjob'
        exact hfile rfl
      rw [hprogress, Function.update_of_ne hne] at hstarted
      obtain ⟨old, hold, holdlen, howed⟩ := h.content i' job' hjob' hstarted
      refine ⟨old, by rw [hfiles, Function.update_of_ne hfile, hold], holdlen, fun j hj => ?_⟩
      exact (howed j hj).imp_right fun howed => howed.other hjob hfile hprogress
  untouched file hnone := by
    have hne : file ≠ job.file := by
      rintro rfl
      have := hnone i job hjob rfl
      rw [hprogress, Function.update_self] at this
      cases this
    rw [hfiles, Function.update_of_ne hne]
    refine h.untouched file fun i' job' hjob' hfile' => ?_
    have hne' : i' ≠ i := by
      rintro rfl
      cases hjob.symm.trans hjob'
      exact hne hfile'.symm
    rw [← hnone i' job' hjob' hfile', hprogress, Function.update_of_ne hne']

theorem Underway.step {files : κ → Option (List α)} {s s' : State κ α} {op : Op}
    (hagree : Agree jobs) (h : Underway jobs files s) (hstep : Step blank jobs s op s') :
    Underway jobs files s' := by
  cases hstep with
  | @create i job hjob hnone =>
    exact h.of_file hagree hjob rfl rfl (Nat.zero_le _) fun j _ =>
      .inr ⟨i, job, 0, hjob, rfl, Function.update_self .., Nat.zero_le j⟩
  | @write i k len job content hjob hk hcontent hle =>
    obtain ⟨_, hcontent', hlen, howed⟩ := h.content i job hjob (by simp [hk])
    cases hcontent.symm.trans hcontent'
    have hpart : ((job.data.drop k).take len).length = len := by
      rw [List.length_take, List.length_drop]
      omega
    refine h.of_file hagree hjob rfl rfl
      (length_overwrite_le (by rw [hpart]; exact hle) hlen) fun j hj => ?_
    -- the piece itself is right, and behind it this job has still to write
    by_cases hbehind : k + len ≤ j
    · exact .inr ⟨i, job, k + len, hjob, rfl, Function.update_self .., hbehind⟩
    by_cases hbefore : j < k
    · rcases howed j hj with heq | ⟨i', job', k', hjob', hfile', hk', hle'⟩
      · have hin : j < content.length := by
          by_contra hout
          rw [List.getElem?_eq_none (by omega), List.getElem?_eq_getElem hj] at heq
          cases heq
        exact .inl ((overwrite_before hbefore hin).trans heq)
      · have hne : i' ≠ i := by
          rintro rfl
          cases hk.symm.trans hk'
          omega
        exact .inr ⟨i', job', k', hjob', hfile', by
          simp only [Function.update_of_ne hne, hk'], hle'⟩
    · obtain ⟨d, rfl⟩ : ∃ d, j = k + d := ⟨j - k, by omega⟩
      refine .inl ((overwrite_at (by omega)).trans ?_)
      rw [List.getElem?_take_of_lt (by omega), List.getElem?_drop]

/-- When all jobs are done, their files have their data and the others are as before. -/
theorem files_of_finished {files : κ → Option (List α)} {ops : List Op} {s : State κ α}
    (hagree : Agree jobs) (hrun : Run (Step blank jobs) (start files) ops s)
    (hfinished : Finished jobs s) :
    (∀ (i : Nat) (job : Job κ α), jobs[i]? = some job → s.files job.file = some job.data) ∧
      ∀ file, (∀ job ∈ jobs, job.file ≠ file) → s.files file = files file := by
  have h : Underway jobs files s :=
    hrun.invariant (fun _ _ _ h => h.step hagree) (underway_start files)
  refine ⟨fun i job hjob => ?_, fun file hfile => ?_⟩
  · obtain ⟨content, hcontent, hlen, howed⟩ := h.content i job hjob (by simp [hfinished i job hjob])
    rw [hcontent]
    congr 1
    refine List.ext_getElem? fun j => ?_
    by_cases hj : j < job.data.length
    · refine (howed j hj).resolve_right ?_
      rintro ⟨i', job', k, hjob', hfile', hk, hle⟩
      cases hk.symm.trans (hfinished i' job' hjob')
      rw [hagree i' i job' job hjob' hjob hfile'] at hle
      omega
    · rw [List.getElem?_eq_none (by omega), List.getElem?_eq_none (by omega)]
  · exact h.untouched file fun i job hjob hfile' =>
      absurd hfile' (hfile job (List.mem_of_getElem? hjob))

/-! ## One job after the other -/

/-- A job has created its file and written all of its data. -/
def State.done (s : State κ α) (i : Nat) (job : Job κ α) : State κ α :=
  ⟨Function.update s.files job.file (some job.data),
    Function.update s.progress i (some job.data.length)⟩

variable (blank) in
/-- A job by itself. -/
theorem run_job {s : State κ α} {i : Nat} {job : Job κ α}
    (hjob : jobs[i]? = some job) (hnone : s.progress i = none) :
    ∃ ops, Run (Step blank jobs) s ops (s.done i job) := by
  have hwrite : Step blank jobs
      ⟨Function.update s.files job.file (some []), Function.update s.progress i (some 0)⟩
      (.write i job.data.length) _ :=
    .write hjob (Function.update_self ..) (Function.update_self ..) (Nat.le_of_eq (Nat.zero_add _))
  simp only [List.drop_zero, List.take_length, overwrite_nil, Function.update_idem,
    Nat.zero_add] at hwrite
  exact ⟨_, .cons (.create hjob hnone) (.single hwrite)⟩

variable (blank) in
theorem run_order (jobs : List (Job κ α)) {order : List Nat} (s : State κ α)
    (hnodup : order.Nodup) (hnone : ∀ i ∈ order, s.progress i = none) :
    ∃ ops s', Run (Step blank jobs) s ops s' ∧
      (∀ i ∈ order, ∀ job, jobs[i]? = some job → s'.progress i = some job.data.length) ∧
      ∀ i, i ∉ order → s'.progress i = s.progress i := by
  induction order generalizing s with
  | nil =>
    exact ⟨[], s, .nil s, by simp, fun _ _ => rfl⟩
  | cons i order ih =>
    obtain ⟨hi, hnodup⟩ := List.nodup_cons.mp hnodup
    obtain ⟨hnone_i, hnone⟩ := List.forall_mem_cons.mp hnone
    cases hjob : jobs[i]? with
    | none =>
      obtain ⟨ops, s', hrun, hdone, hother⟩ := ih s hnodup hnone
      refine ⟨ops, s', hrun, ?_, fun i' hi' => hother i' (fun h => hi' (.tail _ h))⟩
      refine List.forall_mem_cons.mpr ⟨fun job h => ?_, hdone⟩
      cases hjob.symm.trans h
    | some job =>
      have hkept {i' : Nat} (hne : i' ≠ i) : (s.done i job).progress i' = s.progress i' :=
        Function.update_of_ne hne _ _
      obtain ⟨ops, hfirst⟩ := run_job blank hjob hnone_i
      obtain ⟨ops', s', hrun, hdone, hother⟩ := ih (s.done i job) hnodup fun i' hi' =>
        (hkept (ne_of_mem_of_not_mem hi' hi)).trans (hnone i' hi')
      refine ⟨ops ++ ops', s', hfirst.append hrun, ?_, fun i' hi' => ?_⟩
      · refine List.forall_mem_cons.mpr ⟨fun job' h => ?_, hdone⟩
        cases hjob.symm.trans h
        exact (hother i hi).trans (Function.update_self ..)
      · obtain ⟨hne, hmem⟩ := not_or.mp (mt List.mem_cons.mpr hi')
        exact (hother i' hmem).trans (hkept hne)

variable (blank) in
/-- Any job may be the last one. -/
theorem exists_run_last {i : Nat} {job : Job κ α} (files : κ → Option (List α))
    (hjob : jobs[i]? = some job) :
    ∃ ops s, Run (Step blank jobs) (start files) ops s ∧ Finished jobs s ∧
      s.files job.file = some job.data := by
  obtain ⟨ops, s, hrun, hdone, hother⟩ := run_order blank jobs (start files)
    ((List.nodup_range (n := jobs.length)).erase i) fun _ _ => rfl
  have hi : i ∉ (List.range jobs.length).erase i := List.nodup_range.not_mem_erase
  obtain ⟨ops', hlast⟩ := run_job blank hjob (hother i hi)
  refine ⟨ops ++ ops', _, hrun.append hlast, fun i' job' hjob' => ?_, Function.update_self ..⟩
  by_cases heq : i' = i
  · subst heq
    cases hjob.symm.trans hjob'
    exact Function.update_self ..
  · have hlt' : i' < jobs.length := (List.getElem?_eq_some_iff.mp hjob').1
    exact (Function.update_of_ne heq _ _).trans
      (hdone i' ((List.mem_erase_of_ne heq).mpr (List.mem_range.mpr hlt')) job' hjob')

variable (blank) in
/-- What is in the files in the end does not depend on the interleaving exactly if jobs for the
same file have the same data. -/
theorem files_unique_iff
    (files : κ → Option (List α)) :
    (∀ ops ops' s s', Run (Step blank jobs) (start files) ops s → Finished jobs s →
      Run (Step blank jobs) (start files) ops' s' → Finished jobs s' → s.files = s'.files) ↔
      Agree jobs := by
  constructor
  · intro h i i' job job' hjob hjob' hfile
    obtain ⟨ops, s, hrun, hdone, hdata⟩ := exists_run_last blank files hjob
    obtain ⟨ops', s', hrun', hdone', hdata'⟩ := exists_run_last blank files hjob'
    rw [h ops ops' s s' hrun hdone hrun' hdone', hfile, hdata'] at hdata
    exact (Option.some_inj.mp hdata).symm
  · intro hagree ops ops' s s' hrun hdone hrun' hdone'
    obtain ⟨hdata, hother⟩ := files_of_finished hagree hrun hdone
    obtain ⟨hdata', hother'⟩ := files_of_finished hagree hrun' hdone'
    funext file
    by_cases hfile : ∃ job ∈ jobs, job.file = file
    · obtain ⟨job, hmem, rfl⟩ := hfile
      obtain ⟨i, hjob⟩ := List.mem_iff_getElem?.mp hmem
      rw [hdata i job hjob, hdata' i job hjob]
    · have hnone : ∀ job ∈ jobs, job.file ≠ file := fun job hmem heq => hfile ⟨job, hmem, heq⟩
      rw [hother file hnone, hother' file hnone]

end Writers
end Base
end Theos
