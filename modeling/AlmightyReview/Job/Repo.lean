import AlmightyReview.Db
import Mathlib.Data.List.Sort

/-!
# The job queue

The functions of `job_repo`: `enqueueWithResult` and the other ways to enqueue, `claimNext`, the
terminal updates `markDone`, `markCanceled` and `markFailed`, `cancelStaleAndEnqueueLatest` and
`cancelQueued`. Each is a program on one connection, statement by statement as in the source.

* `commit` arguments are those of the source: `false` leaves the commit to the caller.
* `claimNext` gets `locked`: another connection holds the write lock past the busy timeout, so
  `BEGIN IMMEDIATE` raises an `OperationalError`.
* `mayUpdate` is the owner test `? IS NULL OR owner_process_id = ?` that the terminal updates
  share.
-/

namespace JobRepo

open Sql

/-! ## Texts -/

def closedPrCancelError : Text := "PR가 닫혀 리뷰 취소".toList
def disabledRepoCancelError : Text := "레포가 비활성화되어 리뷰 취소".toList
def noVendorCancelError : Text := "활성 리뷰 vendor가 없어 리뷰 취소".toList
def staleHeadCancelError : Text := "PR head가 변경되어 이전 리뷰 잡 취소".toList

def systemCancelErrors : List Text :=
  [closedPrCancelError, disabledRepoCancelError, noVendorCancelError, staleHeadCancelError]

/-- A cancellation by the system, which an automatic enqueue may undo. -/
def isSystemCancelError : Option Text → Bool
  | none => false
  | some error => systemCancelErrors.contains error

/-- The error of a terminal update that does not own its job. -/
def leaseLost (jobId : Nat) : Exc :=
  .leaseLostError ("job ".toList ++ Text.ofNat jobId ++ " lease lost".toList)

/-! ## Enqueue -/

/-- `review_job` has the row of `(pr_id, head_sha)`, which is `UNIQUE`. -/
def jobFor (prId : Nat) (headSha : Sha) (j : ReviewJob) : Bool :=
  j.prId == prId && j.headSha == headSha

/-- A new row of `review_job` with the columns that an enqueue sets; the others have the defaults
of the schema. -/
def newJob (prId : Nat) (headSha : Sha) (trigger : Trigger) (priority : Int)
    (retryRunId : Option Nat) (now : Time) (id : Nat) : ReviewJob where
  id := id
  prId := prId
  headSha := headSha
  trigger := trigger
  status := .queued
  priority := priority
  attempts := 0
  maxAttempts := 3
  lockedBy := none
  lockedAt := none
  ownerProcessId := none
  nextRunAt := none
  runId := none
  retryRunId := retryRunId
  error := none
  createdAt := some now

/-- `INSERT INTO review_job .. ON CONFLICT(pr_id, head_sha) DO NOTHING`; the number of rows. -/
def insertJob (prId : Nat) (headSha : Sha) (trigger : Trigger) (priority : Int)
    (retryRunId : Option Nat) : Sql Db Exc Nat :=
  execute fun db =>
    if (db.reviewJobs.find? (jobFor prId headSha)).isSome then (db, 0)
    else ({ db with reviewJobs :=
      db.reviewJobs.insert (newJob prId headSha trigger priority retryRunId db.now) }, 1)

/-- A job that an enqueue puts back into the queue. -/
def requeue (trigger : Trigger) (j : ReviewJob) : ReviewJob :=
  { j with status := .queued, trigger := trigger, lockedBy := none, lockedAt := none,
           nextRunAt := none, attempts := 0, error := none }

/-- The automatic enqueue: the job's id, and whether this call queued it. -/
def enqueueWithResult (prId : Nat) (headSha : Sha) (trigger : Trigger) (priority : Int)
    (commit : Bool) : Sql Db Exc (Nat × Bool) := do
  let inserted ← insertJob prId headSha trigger priority none
  when commit Sql.commit
  match ← select fun db => db.reviewJobs.find? (jobFor prId headSha) with
  | none => throw (.typeError "'NoneType' object is not subscriptable".toList)
  | some row =>
    if row.status = .canceled ∧ isSystemCancelError row.error then
      let revived ← updateRows Db.reviewJobTable
        (fun _ j => j.id == row.id && j.status == .canceled && j.error == row.error)
        (fun _ j => requeue trigger j)
      when commit Sql.commit
      pure (row.id, inserted == 1 || revived == 1)
    else pure (row.id, inserted == 1)

def enqueue (prId : Nat) (headSha : Sha) (trigger : Trigger) (priority : Int) (commit : Bool) :
    Sql Db Exc Nat := do
  let (id, _) ← enqueueWithResult prId headSha trigger priority commit
  pure id

def isFinished (s : JobStatus) : Bool := s == .done || s == .failed || s == .canceled

def isActive (s : JobStatus) : Bool := s == .queued || s == .running

/-- The active job `current` is not what an enqueue with this trigger asks for. -/
def conflicts (trigger : Trigger) (retryRunId : Option Nat) (current : ReviewJob) : Bool :=
  isActive current.status &&
    ((trigger == .retry && (current.trigger != .retry || current.retryRunId != retryRunId)) ||
      (trigger == .manual && current.trigger != .manual))

/-- The row of a `SELECT` that the code subscripts. -/
def rowOf {ρ : Type} (row : Option ρ) : Sql Db Exc ρ :=
  match row with
  | some r => pure r
  | none => throw (.typeError "'NoneType' object is not subscriptable".toList)

/-- The job of this head, after the insertion of a new one when there was none. -/
def jobOrInsert (prId : Nat) (headSha : Sha) (trigger : Trigger) (priority : Int)
    (retryRunId : Option Nat) : Sql Db Exc ReviewJob := do
  match ← select fun db => db.reviewJobs.find? (jobFor prId headSha) with
  | some row => pure row
  | none =>
    let _ ← insertJob prId headSha trigger priority retryRunId
    commit
    rowOf (← select fun db => db.reviewJobs.find? (jobFor prId headSha))

/-- A queued automatic job becomes a manual one. -/
def promote (jobId : Nat) : Sql Db Exc ReviewJob := do
  let _ ← updateRows Db.reviewJobTable
    (fun _ j => j.id == jobId && j.status == .queued && j.trigger == .auto)
    (fun _ j => { j with trigger := .manual })
  commit
  rowOf (← select fun db => db.reviewJobs.get? jobId)

/-- The manual and the retry enqueue: a finished job of the same head is queued again. -/
def enqueueOrRevive (prId : Nat) (headSha : Sha) (trigger : Trigger) (priority : Int)
    (retryRunId : Option Nat) : Sql Db Exc Nat := do
  let row ← jobOrInsert prId headSha trigger priority retryRunId
  when (isFinished row.status) do
    let _ ← updateRows Db.reviewJobTable (fun _ j => j.id == row.id && isFinished j.status)
      (fun _ j => { requeue trigger j with retryRunId := retryRunId })
    commit
  let found ← rowOf (← select fun db => db.reviewJobs.get? row.id)
  let current ← (if trigger = .manual ∧ found.status = .queued ∧ found.trigger = .auto then
    promote row.id else pure found)
  when (conflicts trigger retryRunId current)
    (throw (.valueError "다른 리뷰 작업이 이미 같은 PR head에서 진행 중입니다".toList))
  pure row.id

def enqueueManual (prId : Nat) (headSha : Sha) (priority : Int) : Sql Db Exc Nat :=
  enqueueOrRevive prId headSha .manual priority none

def enqueueRetry (prId : Nat) (headSha : Sha) (runId : Nat) : Sql Db Exc Nat :=
  enqueueOrRevive prId headSha .retry 0 (some runId)

/-! ## Claim -/

/-- The job may run: it is queued and its backoff is over. -/
def ready (now : Time) (j : ReviewJob) : Bool :=
  j.status == .queued && (match j.nextRunAt with | none => true | some t => t ≤ now)

/-- `ORDER BY priority DESC, id ASC`. -/
def claimsBefore (a b : ReviewJob) : Prop :=
  b.priority < a.priority ∨ a.priority = b.priority ∧ a.id ≤ b.id

instance : DecidableRel claimsBefore := fun a b =>
  inferInstanceAs (Decidable (b.priority < a.priority ∨ a.priority = b.priority ∧ a.id ≤ b.id))

/-- The job that the next claim takes. -/
def nextJob (db : Db) : Option ReviewJob :=
  ((db.reviewJobs.rows.filter (ready db.now)).insertionSort claimsBefore).head?

/-- A job as `claim_next` leaves it. -/
def claimed (workerId : Text) (ownerProcessId : Option ProcessId) (now : Time) (j : ReviewJob) :
    ReviewJob :=
  { j with status := .running, lockedBy := some workerId, lockedAt := some now,
           ownerProcessId := ownerProcessId, attempts := j.attempts + 1 }

/-- One queued job becomes running; `none` when there is none or the database is locked. -/
def claimNext (workerId : Text) (ownerProcessId : Option ProcessId) (locked : Bool) :
    Sql Db Exc (Option ReviewJob) := do
  if locked then
    pure none
  else
    beginImmediate
    match ← select nextJob with
    | none =>
      rollback
      pure none
    | some row =>
      let _ ← updateRows Db.reviewJobTable (fun _ j => j.id == row.id)
        (fun db j => claimed workerId ownerProcessId db.now j)
      commit
      select fun db => db.reviewJobs.get? row.id

/-! ## Terminal updates -/

/-- `? IS NULL OR owner_process_id = ?`. -/
def mayUpdate (ownerProcessId : Option ProcessId) (j : ReviewJob) : Bool :=
  match ownerProcessId with
  | none => true
  | some p => j.ownerProcessId == some p

/-- A job that nobody runs any more. -/
def unlocked (j : ReviewJob) : ReviewJob :=
  { j with lockedBy := none, lockedAt := none, ownerProcessId := none }

def markDone (jobId runId : Nat) (ownerProcessId : Option ProcessId) : Sql Db Exc Unit := do
  let rowcount ← updateRows Db.reviewJobTable
    (fun _ j => j.id == jobId && mayUpdate ownerProcessId j)
    (fun _ j => { unlocked j with status := .done, runId := some runId })
  when (rowcount ≠ 1) (throw (leaseLost jobId))
  commit

def markCanceled (jobId : Nat) (error : Text) (ownerProcessId : Option ProcessId) :
    Sql Db Exc Unit := do
  let rowcount ← updateRows Db.reviewJobTable
    (fun _ j => j.id == jobId && mayUpdate ownerProcessId j)
    (fun _ j => { unlocked j with status := .canceled, error := some error })
  when (rowcount ≠ 1) (throw (leaseLost jobId))
  commit

/-- `COALESCE(new, old)`. -/
def coalesce {α : Type} (new old : Option α) : Option α := new.or old

/-- The end of a failed attempt: back to the queue after `2 ^ attempts` minutes while attempts are
left and the error may pass, else failed. -/
def markFailed (jobId : Nat) (error : Text) (retry : Bool) (runId : Option Nat)
    (ownerProcessId : Option ProcessId) : Sql Db Exc Unit := do
  match ← select fun db => db.reviewJobs.get? jobId with
  | none => throw (leaseLost jobId)
  | some row =>
    when (!mayUpdate ownerProcessId row) (throw (leaseLost jobId))
    let _ ← (if retry ∧ row.attempts < row.maxAttempts then
      updateRows Db.reviewJobTable
        (fun _ j => j.id == jobId && mayUpdate ownerProcessId j)
        (fun db j => { unlocked j with
          status := .queued, error := some error, runId := coalesce runId j.runId,
          nextRunAt := some (db.now + 2 ^ j.attempts * 60) })
    else
      updateRows Db.reviewJobTable
        (fun _ j => j.id == jobId && mayUpdate ownerProcessId j)
        (fun _ j => { unlocked j with
          status := .failed, error := some error, runId := coalesce runId j.runId }))
    commit

/-! ## Cancellation -/

/-- The new head that a stale job is replaced for: the pull request's stored head, when it has one
and it is not the job's. -/
def replacementHead (pr : Option PullRequest) (job : ReviewJob) : Option Sha :=
  match pr with
  | none => none
  | some pr => if pr.headSha = [] ∨ pr.headSha = job.headSha then none else some pr.headSha

/-- The stale job is canceled and the job of the current head queued in one transaction; the new
job's id. -/
def cancelStaleAndEnqueueLatest (jobId : Nat) (ownerProcessId : Option ProcessId) :
    Sql Db Exc (Option Nat) := do
  try
    beginImmediate
    match ← select fun db => db.reviewJobs.get? jobId with
    | none =>
      rollback
      pure none
    | some job =>
      let pr ← select fun db => db.pullRequests.get? job.prId
      let _ ← updateRows Db.reviewJobTable
        (fun _ j => j.id == jobId && isActive j.status && mayUpdate ownerProcessId j)
        (fun _ j => { unlocked j with status := .canceled, error := some staleHeadCancelError })
      match replacementHead pr job with
      | none =>
        commit
        pure none
      | some head =>
        let trigger := if job.trigger = .auto then Trigger.auto else .manual
        let _ ← insertJob job.prId head trigger job.priority none
        let latest ← rowOf (← select fun db => db.reviewJobs.find? (jobFor job.prId head))
        when (latest.status = .canceled ∧ isSystemCancelError latest.error) do
          let _ ← updateRows Db.reviewJobTable
            (fun _ j => j.id == latest.id && j.status == .canceled && j.error == latest.error)
            (fun _ j => { requeue trigger j with retryRunId := none })
        commit
        pure (some latest.id)
  catch e =>
    rollback
    throw e

/-- All queued jobs of a pull request are canceled; their number. -/
def cancelQueued (prId : Nat) (error : Text) : Sql Db Exc Nat := do
  let rowcount ← updateRows Db.reviewJobTable
    (fun _ j => j.prId == prId && j.status == .queued)
    (fun _ j => { j with status := .canceled, error := some error, lockedBy := none })
  commit
  pure rowcount

end JobRepo
