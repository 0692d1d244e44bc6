import AlmightyReview.Job.Repo
import AlmightyReview.Lib.Pool
import AlmightyReview.Review.Publish

/-!
# Operations of a review

A review is a program over the operations of this file. Other connections, and other reviews, work
between any two of them.

* `Read`, `Write`: a query, and a statement or transaction with its commit. Either may find the
  database locked and raise.
* `Ext`: what the world outside the database answers: git, GitHub, the vendors' CLIs, the clock
  that ends a job. Any answer is possible, except where `Ext.Answers` says otherwise.
-/

/-- The parts of `PipelineDeps` that a review depends on. -/
structure PipelineDeps where
  adapters : List Adapter
  /-- `gh_compare_diff` is there. -/
  compares : Bool
  /-- `verify` is there. -/
  verifies : Bool
  /-- `canonical_claim`: NFKC, case folding, and runs of other characters as one blank. -/
  canonicalClaim : Text → Text

namespace Pipeline

/-! ## The database -/

inductive Read : Type → Type
  | getPr (prId : Nat) : Read (Option PullRequest)
  | getRepo (repoId : Nat) : Read (Option Repo)
  | lastDoneHeadSha (prId : Nat) : Read (Option Sha)
  | getRun (runId : Nat) : Read (Option ReviewRun)
  | latestRunId (prId : Nat) : Read (Option Nat)
  | failedVendors (runId : Nat) : Read (List Text)
  | vendorExecutionMeta (runId : Nat) (vendor : Text) : Read (Option ExecutionEnvelope)
  | vendorResultId (runId : Nat) (vendor : Text) : Read (Option Nat)
  | findingCount (runId : Nat) : Read Nat
  | jobStatus (jobId : Nat) : Read (Option JobStatus)

def Read.query {β : Type} : Read β → Db → β
  | .getPr prId => fun db => db.pullRequests.get? prId
  | .getRepo repoId => fun db => db.repos.get? repoId
  | .lastDoneHeadSha prId => ReviewRepo.lastDoneHeadSha prId
  | .getRun runId => ReviewRepo.getRun runId
  | .latestRunId prId => ReviewRepo.latestRunId prId
  | .failedVendors runId => ReviewRepo.failedVendors runId
  | .vendorExecutionMeta runId vendor => ReviewRepo.vendorExecutionMeta runId vendor
  | .vendorResultId runId vendor => ReviewRepo.vendorResultId runId vendor
  | .findingCount runId => fun db => db.findings.count (·.runId == runId)
  | .jobStatus jobId => fun db => (db.reviewJobs.get? jobId).map (·.status)

/-- What a new run has of its pull request and its caller. -/
structure NewRun where
  prId : Nat
  headSha : Sha
  trigger : Trigger
  effort : Text
  mergeEnabled : Bool
  ownerProcessId : Option ProcessId
  ownerJobId : Option Nat

inductive Write : Type → Type
  | createRun (run : NewRun) : Write Nat
  | setBaseSha (runId : Nat) (baseSha : Sha) : Write Unit
  | finishRun (runId : Nat) (status : RunStatus) (error : Option Text) : Write Unit
  | markReviewed (prId : Nat) (headSha : Sha) : Write Unit
  | setContext (runId : Nat) (text : Text) : Write Unit
  | setContextChunks (runId : Nat) (chunks : List ContextChunk) : Write Unit
  | setPolicySnapshot (runId : Nat) (policy : FindingPolicy.PolicySnapshot) : Write Unit
  | addVendorResult (runId : Nat) (vendor : Text) : Write Nat
  | storeFailed (e : Ending) : Write Unit
  | publish (e : Ending) : Write (Option Sha)
  | cancelStale (e : Ending) : Write Unit
  | retryPublish (canonicalClaim : Text → Text) (e : RetryEnding) : Write Unit
  | claimNext (workerId : Text) (ownerProcessId : Option ProcessId) : Write (Option ReviewJob)
  | markDone (jobId runId : Nat) (ownerProcessId : Option ProcessId) : Write Unit
  | markCanceled (jobId : Nat) (error : Text) (ownerProcessId : Option ProcessId) : Write Unit
  | markFailed (jobId : Nat) (error : Text) (retry : Bool) (runId : Option Nat)
    (ownerProcessId : Option ProcessId) : Write Unit
  | cancelStaleAndEnqueueLatest (jobId : Nat) (ownerProcessId : Option ProcessId) :
    Write (Option Nat)
  | failJobRuns (jobId : Nat) (error : Text) : Write Unit

open Sql in
/-- The two updates of a job that timed out: its running runs, and their results. -/
def failJobRuns (jobId : Nat) (error : Text) : Sql Db Exc Unit := do
  let running (r : ReviewRun) : Bool := r.ownerJobId == some jobId && r.status == .running
  let _ ← updateRows Db.vendorResultTable
    (fun db v => v.status == .running &&
      db.reviewRuns.rows.any fun r => r.id == v.runId && running r)
    (fun _ v => { v with
      status := .failed
      error := some error })
  let _ ← updateRows Db.reviewRunTable (fun _ r => running r)
    (fun db r => { r with
      status := .failed
      error := some error
      finishedAt := some db.now })
  commit

/-- The statements, with their commit. -/
def Write.program {β : Type} : Write β → Sql Db Exc β
  | .createRun r => ReviewRepo.createRun r.prId r.headSha r.trigger r.effort r.mergeEnabled
    r.ownerProcessId r.ownerJobId none
  | .setBaseSha runId baseSha => ReviewRepo.setBaseSha runId baseSha
  | .finishRun runId status error => ReviewRepo.finishRun runId status error true
  | .markReviewed prId headSha => PrRepo.markReviewed prId headSha true
  | .setContext runId text => ReviewRepo.setContext runId text
  | .setContextChunks runId chunks => ReviewRepo.setContextChunks runId chunks
  | .setPolicySnapshot runId policy => ReviewRepo.setPolicySnapshot runId policy true
  | .addVendorResult runId vendor => ReviewRepo.addVendorResult runId vendor .running
  | .storeFailed e => Pipeline.storeFailed e
  | .publish e => Pipeline.publish e
  | .cancelStale e => Pipeline.cancelStale e
  | .retryPublish canonicalClaim e => Pipeline.retryPublish canonicalClaim e
  | .claimNext workerId owner => JobRepo.claimNext workerId owner false
  | .markDone jobId runId owner => JobRepo.markDone jobId runId owner
  | .markCanceled jobId error owner => JobRepo.markCanceled jobId error owner
  | .markFailed jobId error retry runId owner => JobRepo.markFailed jobId error retry runId owner
  | .cancelStaleAndEnqueueLatest jobId owner => JobRepo.cancelStaleAndEnqueueLatest jobId owner
  | .failJobRuns jobId error => Pipeline.failJobRuns jobId error

/-! ## The world -/

/-- What is entered and left again around a part of a review. -/
inductive Resource where
  | checkout
  /-- The snapshot of the checkout, and the directory for the vendors. -/
  | workspace
  | credentials (vendor : Text)

/-- A context, and whether its text may be kept. -/
structure Context where
  text : Text
  persistable : Bool

/-- A context that was rendered for a chunk. -/
structure Rendered where
  text : Text
  persistable : Bool
  manifest : List Text

/-- What the verification of findings leaves. -/
structure Verified where
  findings : List ReviewFinding
  chunks : List (Text × List ExecutionChunk)

inductive Ext : Type → Type
  | settings : Ext ReviewSettings
  | loadHarness (name : Text) : Ext HarnessProfile
  /-- The configuration of the policies, and the benchmark report. -/
  | policyConfig : Ext (FindingPolicy.PolicyConfig × Option FindingPolicy.ValidReport)
  | compareDiff (fullName : Text) (base head : Sha) : Ext Text
  | ghDiff (fullName : Text) (number : Nat) : Ext Text
  /-- `_prescreen_diff`: whether the diff may be skipped. -/
  | prescreen (prId : Nat) (diff : Text) : Ext Bool
  | enter (r : Resource) : Ext Unit
  | exit (r : Resource) : Ext Unit
  | gatherContext (budget : Nat) : Ext Context
  | renderContext (budget : Nat) (files : List Text) : Ext Rendered
  /-- `secrets.token_hex(4)`, so many times. -/
  | nonces (count : Nat) : Ext (List Text)
  | probeVersion (vendor : Text) : Ext Text
  /-- The review of a chunk, and how many milliseconds it took. -/
  | review (vendor : Text) (chunk : PromptChunk) (version : Option Text) : Ext (ChunkAnswer × Nat)
  /-- How many milliseconds a vendor took. -/
  | elapsed (vendor : Text) : Ext Nat
  /-- `_verify_singles` on the findings of a run. -/
  | verifySingles (findings : List ReviewFinding) (prompts : List PromptChunk) : Ext Verified
  | buildDeps (repo : Repo) : Ext PipelineDeps

/-- A verification changes the confidence of a finding and its own columns. -/
def SameButVerified (f f' : ReviewFinding) : Prop :=
  { f' with
    confidence := f.confidence
    verifyStatus := f.verifyStatus
    verifyRationale := f.verifyRationale
    verifyIndependent := f.verifyIndependent
    verifyEvidenceStatus := f.verifyEvidenceStatus } = f

/-- The exceptions by which the pipeline and the queue speak to the worker. -/
def Exc.isSignal : Exc → Bool
  | .leaseLostError _ => true
  | .pipelineLeaseLost .. => true
  | .pipelineStaleHead .. => true
  | .pipelineError .. => true
  | _ => false

/-- The answers that are possible. -/
def Ext.Answers {β : Type} : Ext β → Except Exc β → Prop
  | .nonces count, .ok ns => ns.length = count ∧ ∀ n ∈ ns, VendorTelemetry.isHex 8 n = true
  | .nonces _, .error _ => False
  | .elapsed _, .error _ => False
  -- every exception but a cancellation is an outcome of the chunk
  | .review .., .error e => e = .cancelledError
  | .verifySingles findings _, .ok v => List.Forall₂ SameButVerified findings v.findings
  | _, .ok _ => True
  -- nothing outside raises an exception of the pipeline or of the queue
  | _, .error e => Exc.isSignal e = false

/-! ## Operations -/

inductive Op : Type → Type
  | read {β : Type} (q : Read β) : Op β
  | write {β : Type} (q : Write β) : Op β
  | ext {β : Type} (q : Ext β) : Op β

/-- What an operation may answer and do to the database. -/
def Op.Exec {β : Type} (o : Op β) (db : Db) (r : Except Exc β) (db' : Db) : Prop :=
  match o with
  | .read q => db' = db ∧ (r = .ok (q.query db) ∨ ∃ m, r = .error (.operationalError m))
  | .write q => (r, db') = q.program.run db ∨ db' = db ∧ ∃ m, r = .error (.operationalError m)
  | .ext q => db' = db ∧ q.Answers r

end Pipeline
