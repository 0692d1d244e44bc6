import AlmightyReview.Job.Steps
import AlmightyReview.Lib.Sys

/-!
# Process-level fencing of jobs

The terminal updates test only the owner column. That is enough as long as the lock, owner and
status columns agree, which every operation on the queue has to keep.

* `JobOk`: the lock columns are set exactly on a running job, and only such a job has an owner.
* `queue`: the system whose steps are the operations on the queue, and changes of the database
  outside `review_job`.
* `jobs_fenced`: in every state of the queue, a terminal update by a process ends the job that
  this process runs, or raises `LeaseLostError` and changes nothing.
-/

namespace JobRepo

open Sql

/-! ## The invariant -/

/-- The lock and owner columns agree with the status. -/
structure JobOk (j : ReviewJob) : Prop where
  running : j.status = .running → j.lockedBy.isSome ∧ j.lockedAt.isSome
  free : j.status ≠ .running → j.lockedBy = none ∧ j.lockedAt = none ∧ j.ownerProcessId = none

namespace JobOk

variable {j : ReviewJob}

/-- A job that is not running and carries neither lock nor owner. -/
theorem of_free (hs : j.status ≠ .running) (hb : j.lockedBy = none) (ha : j.lockedAt = none)
    (ho : j.ownerProcessId = none) : JobOk j :=
  ⟨fun h => absurd h hs, fun _ => ⟨hb, ha, ho⟩⟩

theorem running_iff (h : JobOk j) :
    j.status = .running ↔ j.lockedBy.isSome ∧ j.lockedAt.isSome := by
  refine ⟨h.running, fun hl => ?_⟩
  by_contra hs
  rw [(h.free hs).1] at hl
  simp at hl

theorem running_of_owner (h : JobOk j) (ho : j.ownerProcessId ≠ none) : j.status = .running := by
  by_contra hs
  exact ho (h.free hs).2.2

/-- New jobs agree, and every statement other than the claim keeps the agreement. -/
theorem stable : Stable JobOk where
  new := fun _ _ _ _ _ _ _ => of_free (by simp [newJob]) rfl rfl rfl
  step := by
    intro j j' h hs
    cases hs with
    | enqueue he =>
      cases he with
      | promoted => exact ⟨h.running, h.free⟩
      | requeued trigger retryRunId hs =>
        have hs' : j.status ≠ .running := (EnqueueStep.requeued j trigger retryRunId hs).not_running
        exact of_free (by simp [requeue]) rfl rfl (h.free hs').2.2
    | canceled => exact of_free (by simp) rfl rfl rfl
    | dequeued error hs =>
      -- the statement clears `locked_by` only: a queued job has no other column to clear
      have hs' : j.status ≠ .running := by simp [hs]
      exact of_free (by simp) rfl (h.free hs').2.1 (h.free hs').2.2
    | recovered => exact of_free (by simp) rfl rfl rfl
  ended := by
    intro j now u h
    cases u with
    | done => exact of_free (by simp [Terminal.apply]) rfl rfl rfl
    | canceled => exact of_free (by simp [Terminal.apply]) rfl rfl rfl
    | failed error retry runId =>
      unfold Terminal.apply
      dsimp only
      split
      · exact of_free (by simp) rfl rfl rfl
      · exact of_free (by simp) rfl rfl rfl

theorem claimed (workerId : Text) (owner : Option ProcessId) (now : Time) (j : ReviewJob) :
    JobOk (claimed workerId owner now j) :=
  ⟨fun _ => ⟨rfl, rfl⟩, fun h => absurd rfl h⟩

end JobOk

/-! ## The queue as a system -/

/-- The operations on the queue. -/
inductive Op where
  | claimNext (workerId : Text) (owner : Option ProcessId) (locked : Bool)
  | terminal (u : Terminal) (jobId : Nat) (owner : Option ProcessId)
  | background (b : Background)

def Op.program : Op → Sql Db Exc Unit
  | .claimNext workerId owner locked => do
    let _ ← JobRepo.claimNext workerId owner locked
    pure ()
  | .terminal u jobId owner => u.program jobId owner
  | .background b => b.program

theorem Op.run_claimNext (workerId : Text) (owner : Option ProcessId) (locked : Bool) (db : Db) :
    ((Op.claimNext workerId owner locked).program.run db).2 =
      ((JobRepo.claimNext workerId owner locked).run db).2 := by
  unfold Op.program run
  rw [onConn_bind]
  split <;> simp [*]

theorem op_jobsOk (o : Op) {db : Db} (h : AllJobs JobOk db) :
    AllJobs JobOk (o.program.run db).2 := by
  cases o with
  | claimNext workerId owner locked =>
    rw [Op.run_claimNext]
    exact claimNext_allJobs locked (fun now j _ => JobOk.claimed _ _ now j) h
  | terminal u jobId owner => exact JobOk.stable.terminal u jobId owner h
  | background b => exact JobOk.stable.background b h

/-- A step of the queue: an operation, or a change of the database outside `review_job` (time,
leases, heads of pull requests, ..). -/
inductive QueueStep where
  | op (o : Op)
  | outside

/-- The queue, from an empty `review_job`. -/
def queue : Sys Db QueueStep where
  init db := db.reviewJobs = .empty
  step db a db' :=
    match a with
    | .op o => db' = (o.program.run db).2
    | .outside => db'.reviewJobs = db.reviewJobs

theorem reach_empty (now : Time) : queue.Reach Sys.anyStep (Db.empty now) :=
  have hi : queue.init (Db.empty now) := rfl
  .init hi

/-- An operation leads from a reachable state to one. -/
theorem reach_op {db : Db} (h : queue.Reach Sys.anyStep db) (o : Op) :
    queue.Reach Sys.anyStep (o.program.run db).2 :=
  have hs : queue.step db (.op o) (o.program.run db).2 := rfl
  .step h trivial hs

theorem jobsOk_inductive : queue.Inductive Sys.anyStep (AllJobs JobOk) where
  init := by
    intro db h j hj
    rw [show db.reviewJobs = .empty from h] at hj
    exact absurd hj Table.mem_empty
  step := by
    intro db a db' h _ hstep
    cases a with
    | op o =>
      rw [show db' = (o.program.run db).2 from hstep]
      exact op_jobsOk o h
    | outside =>
      unfold AllJobs
      rwa [show db'.reviewJobs = db.reviewJobs from hstep]

/-- The process `p` runs the job. -/
def RunBy (p : ProcessId) (jobId : Nat) (db : Db) : Prop :=
  ∃ j ∈ db.reviewJobs, j.id = jobId ∧ j.status = .running ∧ j.ownerProcessId = some p

/-- Jobs are fenced by process. -/
structure Fenced (db : Db) : Prop where
  /-- A job is running exactly when its lock columns are set. -/
  lock : ∀ j ∈ db.reviewJobs, j.status = .running ↔ j.lockedBy.isSome ∧ j.lockedAt.isSome
  /-- Only a running job has an owner. -/
  owner : ∀ j ∈ db.reviewJobs, j.ownerProcessId ≠ none → j.status = .running
  /-- A terminal update by `p` of a job that `p` runs ends this job and changes nothing else. -/
  ends : ∀ (p : ProcessId) (jobId : Nat) (u : Terminal), RunBy p jobId db →
    (u.program jobId (some p)).run db = (.ok (), u.ended jobId (some p) db)
  /-- Any other terminal update by `p` raises `LeaseLostError` and changes nothing. -/
  refuses : ∀ (p : ProcessId) (jobId : Nat) (u : Terminal), ¬RunBy p jobId db →
    (u.program jobId (some p)).run db = (.error (leaseLost jobId), db)

/-- While the columns agree, the owner test of a terminal update is the test of a running job. -/
theorem owns_iff_runBy {db : Db} (h : AllJobs JobOk db) (p : ProcessId) (jobId : Nat) :
    (∃ j ∈ db.reviewJobs, owns jobId (some p) j = true) ↔ RunBy p jobId db := by
  constructor
  · rintro ⟨j, hj, ho⟩
    simp only [owns, mayUpdate, Bool.and_eq_true, beq_iff_eq] at ho
    exact ⟨j, hj, ho.1, (h j hj).running_of_owner (by simp [ho.2]), ho.2⟩
  · rintro ⟨j, hj, hid, -, ho⟩
    exact ⟨j, hj, by simp [owns, mayUpdate, hid, ho]⟩

/-- **Process-level fencing.** In every state that the operations on the queue reach, jobs are
fenced by process. -/
theorem jobs_fenced {db : Db} (hr : queue.Reach Sys.anyStep db) : Fenced db := by
  have h : AllJobs JobOk db := jobsOk_inductive.reach hr
  refine ⟨fun j hj => (h j hj).running_iff, fun j hj => (h j hj).running_of_owner, ?_, ?_⟩
  · intro p jobId u hp
    rw [run_terminal, if_pos ((owns_iff_runBy h p jobId).mpr hp)]
  · intro p jobId u hp
    rw [run_terminal, if_neg fun ho => hp ((owns_iff_runBy h p jobId).mp ho)]

/-- A job that process `A` claimed is fenced. -/
theorem jobs_fenced_claimed :
    Fenced ((Op.claimNext "w1".toList (some "A".toList) false).program.run
      ((Op.background (.enqueueManual 1 "sha".toList 0)).program.run (Db.empty 0)).2).2 :=
  jobs_fenced (reach_op (reach_op (reach_empty 0) _) _)

end JobRepo
