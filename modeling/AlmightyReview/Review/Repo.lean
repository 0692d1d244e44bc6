import AlmightyReview.Lib.Sql
import AlmightyReview.Review.Findings
import AlmightyReview.Review.Policy

/-!
# Runs in the database

The functions of `review_repo`: a run, its context and policy, and the results of its vendors. Each
is a program on one connection.

* `createRun`, `finishRun`, `setPolicySnapshot`, ..: the columns of a run.
* `addVendorResult`, `finishVendorResult`: the result of a vendor, and the envelope of what was
  executed, to which a retry appends.
* `lastDoneHeadSha`, `failedVendors`, ..: what the pipeline reads.
* `FindingRepo.add`: a finding of a run.
-/

namespace ReviewRepo

open Sql VendorTelemetry

/-! ## Runs -/

/-- The `INSERT` of `create_run`; a trigger of the schema adds the repository. -/
def newRun (prId : Nat) (repoId : Option Nat) (headSha : Sha) (trigger : Trigger) (effort : Text)
    (mergeEnabled : Bool) (ownerProcessId : Option ProcessId) (ownerJobId : Option Nat)
    (policy : Option PolicyRecord) (now : Time) (id : Nat) : ReviewRun where
  id := id
  prId := prId
  repoId := repoId
  headSha := headSha
  trigger := trigger
  effort := effort
  mergeEnabled := mergeEnabled
  status := .running
  startedAt := some now
  finishedAt := none
  error := none
  ownerProcessId := ownerProcessId
  ownerJobId := ownerJobId
  policy := policy
  contextText := none
  contextChunks := none
  baseSha := none

def createRun (prId : Nat) (headSha : Sha) (trigger : Trigger) (effort : Text)
    (mergeEnabled : Bool) (ownerProcessId : Option ProcessId) (ownerJobId : Option Nat)
    (policySnapshot : Option FindingPolicy.PolicySnapshot) : Sql Db Exc Nat := do
  let policy := policySnapshot.map FindingPolicy.policySnapshotRecord
  let id ← insertInto Db.reviewRunTable fun db id =>
    newRun prId ((db.pullRequests.get? prId).map (·.repoId)) headSha trigger effort mergeEnabled
      ownerProcessId ownerJobId policy db.now id
  commit
  pure id

/-- `UPDATE review_run .. WHERE id = ?`. -/
def updateRun (runId : Nat) (f : Db → ReviewRun → ReviewRun)
    (hf : ∀ db r, Row.id (f db r) = Row.id r := by intros; exact id rfl) : Sql Db Exc Unit := do
  let _ ← updateRows Db.reviewRunTable (fun _ r => r.id == runId) f hf
  pure ()

/-- The policy is written once, while the run is running. -/
def setPolicySnapshot (runId : Nat) (policySnapshot : FindingPolicy.PolicySnapshot)
    (commit : Bool) : Sql Db Exc Unit := do
  let policy := FindingPolicy.policySnapshotRecord policySnapshot
  let rowcount ← updateRows Db.reviewRunTable
    (fun _ r => r.id == runId && r.status == .running && r.policy.isNone)
    (fun _ r => { r with policy := some policy })
  when (rowcount ≠ 1) (throw (.runtimeError "run policy snapshot is not mutable".toList))
  when commit Sql.commit

/-- `ORDER BY id DESC LIMIT 1`. -/
def latest (p : ReviewRun → Bool) (db : Db) : Option ReviewRun :=
  ((db.reviewRuns.rows.filter p).insertionSort fun a b => b.id ≤ a.id).head?

/-- The head of the last run that was reviewed to its end. -/
def lastDoneHeadSha (prId : Nat) (db : Db) : Option Sha :=
  (latest (fun r => r.prId == prId && r.status == .done) db).map (·.headSha)

/-- The last run of a pull request. -/
def latestRunId (prId : Nat) (db : Db) : Option Nat :=
  (latest (fun r => r.prId == prId) db).map (·.id)

def setBaseSha (runId : Nat) (baseSha : Sha) : Sql Db Exc Unit := do
  updateRun runId fun _ r => { r with baseSha := some baseSha }
  commit

def finishRun (runId : Nat) (status : RunStatus) (error : Option Text) (commit : Bool) :
    Sql Db Exc Unit := do
  updateRun runId fun db r => { r with
    status := status
    error := error
    finishedAt := some db.now }
  when commit Sql.commit

def getRun (runId : Nat) (db : Db) : Option ReviewRun := db.reviewRuns.get? runId

/-! ## Contexts -/

/-- `set_context`; the metadata, which nothing reads, is left out. -/
def setContext (runId : Nat) (text : Text) : Sql Db Exc Unit := do
  updateRun runId fun _ r => { r with contextText := some text }
  commit

/-- The chunks of a context one after the other, with `total` characters before them. -/
def validateChunksFrom : Nat → List ContextChunk → Except Exc Unit
  | _, [] => pure ()
  | total, c :: cs => do
    reject (c.chunkHash.length != 64 || c.contextHash.length != 64)
      "invalid context chunk hash".toList
    reject (2000000 < total + c.text.length) "context chunks exceed size cap".toList
    reject (2000 < c.manifest.length) "invalid context chunk manifest".toList
    validateChunksFrom (total + c.text.length) cs

/-- `_validate_context_chunks`. -/
def validateContextChunks (chunks : List ContextChunk) : Except Exc Unit := do
  reject (1000 < chunks.length) "invalid context chunk list".toList
  validateChunksFrom 0 chunks

def setContextChunks (runId : Nat) (chunks : List ContextChunk) : Sql Db Exc Unit := do
  lift (validateContextChunks chunks)
  updateRun runId fun _ r => { r with contextChunks := some chunks }
  commit

/-- The context chunks of a run, if it has some and they are valid. -/
def getContextChunks (run : ReviewRun) : Option (List ContextChunk) :=
  run.contextChunks.filter fun chunks => (validateContextChunks chunks).isOk

/-! ## Vendor results -/

/-- The `INSERT` of `add_vendor_result`. -/
def newVendorResult (runId : Nat) (vendor : Text) (status : VendorStatus) (now : Time)
    (id : Nat) : VendorResult where
  id := id
  runId := runId
  vendor := vendor
  status := status
  durationMs := none
  rawPath := none
  error := none
  startedAt := some now
  executionMeta := none

def addVendorResult (runId : Nat) (vendor : Text) (status : VendorStatus) : Sql Db Exc Nat := do
  let id ← insertInto Db.vendorResultTable fun db id =>
    newVendorResult runId vendor status db.now id
  commit
  pure id

/-- The envelope of a result after an execution. -/
def appended (executionMeta : ExecutionEnvelope) (row : Option VendorResult) :
    Except Exc ExecutionEnvelope :=
  match row with
  | none => throw (.valueError "vendor result not found".toList)
  | some row => appendExecutionAttempt (decodeExecutionMeta row.executionMeta) executionMeta

/-- The end of a vendor's part in a run; what was executed is appended. -/
def finishVendorResult (vrId : Nat) (status : VendorStatus) (error : Option Text)
    (durationMs : Option Nat) (executionMeta : ExecutionEnvelope) (commit : Bool) :
    Sql Db Exc Unit := do
  when (status = .running) (throw (.valueError "invalid vendor result status".toList))
  lift (validateExecutionEnvelope executionMeta)
  let row ← select fun db => db.vendorResults.get? vrId
  let merged ← lift (appended executionMeta row)
  let _ ← updateRows Db.vendorResultTable (fun _ v => v.id == vrId) fun _ v => { v with
    status := status
    error := error
    durationMs := durationMs
    executionMeta := some merged }
  when commit Sql.commit

def isFailed (s : VendorStatus) : Bool := s == .failed || s == .incomplete || s == .timeout

/-- The vendors whose part in the run failed, at least in part. -/
def failedVendors (runId : Nat) (db : Db) : List Text :=
  (db.vendorResults.rows.filter fun v => v.runId == runId && isFailed v.status).map (·.vendor)

def resultFor (runId : Nat) (vendor : Text) (v : VendorResult) : Bool :=
  v.runId == runId && v.vendor == vendor

/-- `vendor_result_id`; the row is subscripted. -/
def vendorResultId (runId : Nat) (vendor : Text) (db : Db) : Option Nat :=
  (db.vendorResults.find? (resultFor runId vendor)).map (·.id)

def vendorExecutionMeta (runId : Nat) (vendor : Text) (db : Db) : Option ExecutionEnvelope :=
  decodeExecutionMeta
    ((db.vendorResults.find? (resultFor runId vendor)).bind VendorResult.executionMeta)

/-- The greatest attempt number of a result. -/
def lastAttempt (db : Db) (vrId : Nat) : Nat :=
  match decodeExecutionMeta ((db.vendorResults.get? vrId).bind VendorResult.executionMeta) with
  | none => 0
  | some envelope => (envelope.attempts.map (·.attempt)).foldl max 0

def nextExecutionAttempt (vrIds : List Nat) (db : Db) : Nat :=
  (vrIds.map (lastAttempt db)).foldl max 0 + 1

end ReviewRepo

/-! ## Findings -/

/-- A finding on its way into the database, with the columns that a merge adds. -/
structure FindingItem where
  vendorResultId : Option Nat
  finding : ReviewFinding
  consensus : Consensus := .single
  consensusGroupId : Option Nat := none

namespace FindingRepo

open Sql

/-- The `INSERT` of `finding_repo.add`. -/
def newFinding (runId : Nat) (item : FindingItem) (now : Time) (id : Nat) : Finding where
  id := id
  runId := runId
  vendorResultId := item.vendorResultId
  vendor := item.finding.vendor
  file := item.finding.file
  line := item.finding.line
  severity := item.finding.severity
  category := item.finding.category
  claim := item.finding.claim
  rationale := item.finding.rationale
  confidence := some item.finding.confidence
  consensus := item.consensus
  consensusGroupId := item.consensusGroupId
  status := .pending
  editedText := none
  createdAt := some now
  postingOperationId := none
  sourceChunkIndex := item.finding.sourceChunkIndex
  ownerChunkIndex := item.finding.ownerChunkIndex
  scopeStatus := item.finding.scopeStatus
  postingEligible := item.finding.postingEligible
  duplicateGroupId := item.finding.duplicateGroupId
  duplicateSuggested := item.finding.duplicateSuggested
  verifyStatus := item.finding.verifyStatus
  verifyRationale := item.finding.verifyRationale
  verifyIndependent := item.finding.verifyIndependent
  verifyEvidenceStatus := item.finding.verifyEvidenceStatus

def add (runId : Nat) (item : FindingItem) (commit : Bool) : Sql Db Exc Nat := do
  let id ← insertInto Db.findingTable fun db id => newFinding runId item db.now id
  when commit Sql.commit
  pure id

end FindingRepo
