import AlmightyReview.Review.Pipeline

/-!
# The worker

`run_one_job`: a lane claims a job, runs the pipeline for it, and ends the job by how that went.

* `attempt`: the part in `try`. The pipeline is canceled when the job takes too long; what awaits a
  canceled operation sees a `CancelledError`, which `waitFor` turns into a `TimeoutError`.
* `handle`: the handlers, in the order of the source.
-/

namespace Pipeline

open Prog

/-- `config.JOB_TIMEOUT_SEC`. -/
def jobTimeoutSec : Nat := 1800

/-- The errors that may pass. -/
def retryable : List Text :=
  ["rate limit", "rate_limit", "429", "overloaded", "timeout", "timed out",
    "temporarily unavailable", "service unavailable", "connection reset", "connection refused",
    "502", "503", "504"].map String.toList

def isRetryable (message : Text) : Bool :=
  retryable.any fun s => (Text.lower message).contains s

def timedOutError : Text :=
  "job timed out after ".toList ++ Text.ofNat jobTimeoutSec ++ "s".toList

/-- A lane of a worker. -/
structure Lane where
  workerId : Text
  ownerProcessId : Option ProcessId

/-- `asyncio.wait_for`. -/
def waitFor {α : Type} (p : Review α) : Review α :=
  tryCatch p fun e => if e = .cancelledError then throw .timeoutError else throw e

/-- The pipeline for a job. An execution without an owner has no job either. -/
def pipelineTask (lane : Lane) (job : ReviewJob) (deps : PipelineDeps) : Review Nat :=
  if job.trigger = .retry then
    retryPr ⟨job.prId, job.retryRunId, deps, some job.headSha, lane.ownerProcessId⟩
  else
    reviewPr ⟨job.prId, job.trigger, deps, some job.headSha, lane.ownerProcessId,
      if lane.ownerProcessId.isSome then some job.id else none⟩

def repoNotFound : Exc := .runtimeError "repo not found".toList

/-- The pipeline and the end of the job after it. -/
def runJob (lane : Lane) (job : ReviewJob) (repo : Repo) : Review Unit := do
  let _ ← ext .settings
  let deps ← ext (.buildDeps repo)
  let runId ← waitFor (pipelineTask lane job deps)
  write (.markDone job.id runId lane.ownerProcessId)
  let _ ← read (.findingCount runId)
  pure ()

/-- The checks of a job before the pipeline. -/
def attempt (lane : Lane) (job : ReviewJob) : Review Unit := do
  let pr ← subscript (← read (.getPr job.prId))
  if pr.state ≠ .opened then
    write (.markCanceled job.id JobRepo.closedPrCancelError lane.ownerProcessId)
  else if pr.headSha ≠ job.headSha then
    let _ ← write (.cancelStaleAndEnqueueLatest job.id lane.ownerProcessId)
    pure ()
  else
    match ← read (.getRepo pr.repoId) with
    | none => throw repoNotFound
    | some repo =>
      if !repo.enabled then
        write (.markCanceled job.id JobRepo.disabledRepoCancelError lane.ownerProcessId)
      else if !(repo.vendorClaudeOn || repo.vendorCodexOn) then
        write (.markCanceled job.id JobRepo.noVendorCancelError lane.ownerProcessId)
      else runJob lane job repo

/-- A failed attempt, and the look at its job for the notification. -/
def failJob (lane : Lane) (job : ReviewJob) (e : Exc) (runId : Option Nat) : Review Unit := do
  write (.markFailed job.id e.str (isRetryable e.str) runId lane.ownerProcessId)
  let _ ← read (.jobStatus job.id)
  pure ()

/-- The handlers of `run_one_job`. -/
def handle (lane : Lane) (job : ReviewJob) : Exc → Review Unit
  | .timeoutError => do
    write (.failJobRuns job.id timedOutError)
    write (.markFailed job.id timedOutError true none lane.ownerProcessId)
  | .pipelineLeaseLost .. => pure ()
  | .pipelineStaleHead .. => do
    let _ ← write (.cancelStaleAndEnqueueLatest job.id lane.ownerProcessId)
    pure ()
  | .leaseLostError _ => pure ()
  | .pipelineError runId message => failJob lane job (.pipelineError runId message) (some runId)
  | .cancelledError => throw .cancelledError
  | e => failJob lane job e none

/-- The claim of a job; a locked database is no job. -/
def claim (lane : Lane) : Review (Option ReviewJob) :=
  tryCatch (write (.claimNext lane.workerId lane.ownerProcessId)) fun e =>
    match e with
    | .operationalError _ => pure none
    | e => throw e

/-- `run_one_job`: whether there was a job. -/
def runOneJob (lane : Lane) : Review Bool := do
  match ← claim lane with
  | none => pure false
  | some job => do
    tryCatch (attempt lane job) (handle lane job)
    pure true

end Pipeline
