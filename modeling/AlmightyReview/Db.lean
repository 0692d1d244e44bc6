import AlmightyReview.Lib.Sql
import AlmightyReview.Lib.Text
import Mathlib.Data.Rat.Defs

/-!
# The database

The tables of the server, a row type for each, under the names of the schema. A column that may be
`NULL` is an `Option`; a column that holds one of a few words is an enumeration; an id list that
is stored as JSON is the list. Columns that no function of the development reads or writes are
left out (titles of listings, the virtual columns of a page order, ..).

* Time is a number of seconds; `now` is what `datetime('now')` gives.
* A `REAL` is a rational number: a finite double is one.
* `Db` is the database, `Db.empty` the one after the schema was created.
* `Exc` has the exceptions that the modelled functions raise.
-/

/-- A process id (`uuid4().hex` in the server). -/
abbrev ProcessId := Text

abbrev Sha := Text

abbrev Time := Nat

/-! ## Enumerations -/

/-- `pull_request.state`. -/
inductive PrState where
  | opened | closed | merged
  deriving DecidableEq, Repr

/-- `repo.trigger_mode`. -/
inductive TriggerMode where
  | auto | manual
  deriving DecidableEq, Repr

/-- `review_run.status`. -/
inductive RunStatus where
  | queued | running | done | failed | canceled
  deriving DecidableEq, Repr

/-- `review_job.status`. -/
inductive JobStatus where
  | queued | running | done | failed | canceled
  deriving DecidableEq, Repr

/-- What asked for a review (`trigger`). -/
inductive Trigger where
  | auto | manual | retry
  deriving DecidableEq, Repr

/-- `vendor_result.status`; `incomplete` is the word `partial` of the schema. -/
inductive VendorStatus where
  | running | done | incomplete | failed | timeout | canceled
  deriving DecidableEq, Repr

/-- `finding.status`. -/
inductive FindingStatus where
  | pending | approved | dismissed | edited | posted
  deriving DecidableEq, Repr

/-- `finding.severity`. -/
inductive Severity where
  | critical | high | medium | low
  deriving DecidableEq, Repr

/-- `finding.consensus`. -/
inductive Consensus where
  | single | consensus
  deriving DecidableEq, Repr

/-- `finding.scope_status`. -/
inductive ScopeStatus where
  | owned | reassigned | wouldReject | rejected
  deriving DecidableEq, Repr

/-- `github_post_operation.status`. -/
inductive OperationStatus where
  | pending | applying | remoteApplied | succeeded
  deriving DecidableEq, Repr

/-- `posted_comment.kind`. -/
inductive PostedKind where
  | issue | review
  deriving DecidableEq, Repr

/-- `wiki_page.status`. -/
inductive WikiStatus where
  | empty | generating | ready | failed
  deriving DecidableEq, Repr

/-! ## Execution metadata -/

/-- `EXECUTION_IDENTITY_FIELDS`. -/
structure ExecutionIdentity where
  protocolVersion : Text
  vendor : Text
  model : Text
  effort : Text
  promptHash : Text
  harnessConfigHash : Text
  adapterName : Text
  adapterVersion : Text
  adapterConfigHash : Text
  cliVersion : Text
  eventSchemaVersion : Text
  diffHash : Text
  contextHash : Text
  chunkerVersion : Text
  scopePolicyMode : Text
  dedupePolicyMode : Text
  policyDecisionHash : Text
  policyConfigHash : Text
  deriving DecidableEq, Repr

/-- The outcome of a chunk. -/
inductive ChunkStatus where
  | done | failed | timeout | canceled
  deriving DecidableEq, Repr

inductive ExecutionPhase where
  | review | verify
  deriving DecidableEq, Repr

/-- What is kept of the execution of one chunk. -/
structure ExecutionChunk where
  index : Nat
  status : ChunkStatus
  safeErrorCode : Option Text
  durationMs : Option Nat
  inputTokens : Option Nat
  cachedInputTokens : Option Nat
  outputTokens : Option Nat
  reasoningOutputTokens : Option Nat
  totalTokens : Option Nat
  toolCalls : Option Nat
  eventCount : Option Nat
  streamTruncated : Bool
  telemetryStatus : Text
  cliName : Option Text
  cliVersion : Option Text
  eventSchema : Option Text
  chunkHash : Option Text
  contextHash : Option Text
  chunkerVersion : Option Text
  promptNonce : Text
  scopeReassigned : Nat
  scopeRejected : Nat
  duplicateGroups : Nat
  deriving DecidableEq, Repr

structure ExecutionAttempt where
  attempt : Nat
  phase : ExecutionPhase
  chunks : List ExecutionChunk
  deriving DecidableEq, Repr

/-- `vendor_result.execution_meta`, which is stored as JSON. -/
structure ExecutionEnvelope where
  identity : ExecutionIdentity
  attempts : List ExecutionAttempt
  deriving DecidableEq, Repr

/-! ## Rows -/

structure Repo where
  id : Nat
  fullName : Text
  enabled : Bool
  triggerMode : TriggerMode
  claudeModel : Option Text
  claudeEffort : Option Text
  codexModel : Option Text
  codexEffort : Option Text
  vendorClaudeOn : Bool
  vendorCodexOn : Bool
  mergeEnabled : Bool
  harnessName : Text
  incrementalReviewOn : Option Bool
  verifySinglesOn : Option Bool
  skipDraftOn : Option Bool
  reviewScopeGuardMode : Option Text
  reviewDedupeMode : Option Text
  deriving DecidableEq, Repr

structure PullRequest where
  id : Nat
  repoId : Nat
  number : Nat
  title : Option Text
  author : Option Text
  headSha : Sha
  baseRef : Option Text
  baseSha : Option Sha
  state : PrState
  url : Option Text
  createdAt : Option Text
  headRef : Option Text
  body : Option Text
  isDraft : Bool
  lastReviewedSha : Option Sha
  updatedAt : Option Time
  deriving DecidableEq, Repr

/-- The policy columns of a run: all `NULL`, or written together once. -/
structure PolicyRecord where
  scopeRequestedMode : Text
  scopeEffectiveMode : Text
  scopePolicyReason : Text
  scopeSelectionSource : Text
  dedupeRequestedMode : Text
  dedupeEffectiveMode : Text
  dedupePolicyReason : Text
  dedupeSelectionSource : Text
  policyCohortKey : Text
  policyDecisionHash : Text
  policyConfigHash : Text
  benchmarkAttestationHash : Option Text
  deriving DecidableEq, Repr

/-- An item of `review_run.context_chunks`; an item of a manifest is its JSON text. -/
structure ContextChunk where
  chunkHash : Text
  contextHash : Text
  text : Text
  manifest : List Text
  deriving DecidableEq, Repr

structure ReviewRun where
  id : Nat
  prId : Nat
  repoId : Option Nat
  headSha : Sha
  trigger : Trigger
  effort : Text
  mergeEnabled : Bool
  status : RunStatus
  startedAt : Option Time
  finishedAt : Option Time
  error : Option Text
  ownerProcessId : Option ProcessId
  ownerJobId : Option Nat
  policy : Option PolicyRecord
  contextText : Option Text
  contextChunks : Option (List ContextChunk)
  baseSha : Option Sha
  deriving DecidableEq, Repr

structure VendorResult where
  id : Nat
  runId : Nat
  vendor : Text
  status : VendorStatus
  durationMs : Option Nat
  rawPath : Option Text
  error : Option Text
  startedAt : Option Time
  executionMeta : Option ExecutionEnvelope
  deriving DecidableEq, Repr

structure Finding where
  id : Nat
  runId : Nat
  vendorResultId : Option Nat
  vendor : Text
  file : Text
  line : Int
  severity : Severity
  category : Text
  claim : Text
  rationale : Text
  confidence : Option Rat
  consensus : Consensus
  consensusGroupId : Option Nat
  status : FindingStatus
  editedText : Option Text
  createdAt : Option Time
  postingOperationId : Option Nat
  sourceChunkIndex : Option Nat
  ownerChunkIndex : Option Nat
  scopeStatus : Option ScopeStatus
  postingEligible : Bool
  duplicateGroupId : Option Nat
  duplicateSuggested : Bool
  verifyStatus : Option Text
  verifyRationale : Option Text
  verifyIndependent : Option Bool
  verifyEvidenceStatus : Option Text
  deriving DecidableEq, Repr

structure FindingDecision where
  id : Nat
  findingId : Nat
  fromStatus : Option FindingStatus
  toStatus : FindingStatus
  decidedAt : Time
  deriving DecidableEq, Repr

structure PostedComment where
  id : Nat
  runId : Nat
  vendor : Text
  githubCommentId : Option Text
  url : Option Text
  marker : Option Text
  body : Option Text
  postedAt : Option Time
  headSha : Option Sha
  findingIds : List Nat
  kind : PostedKind
  supersededAt : Option Time
  deriving DecidableEq, Repr

structure ReviewJob where
  id : Nat
  prId : Nat
  headSha : Sha
  trigger : Trigger
  status : JobStatus
  priority : Int
  attempts : Nat
  maxAttempts : Nat
  lockedBy : Option Text
  lockedAt : Option Time
  ownerProcessId : Option ProcessId
  nextRunAt : Option Time
  runId : Option Nat
  retryRunId : Option Nat
  error : Option Text
  createdAt : Option Time
  deriving DecidableEq, Repr

/-- A row of `process_lease`; its key is `processId`. -/
structure ProcessLease where
  processId : ProcessId
  startedAt : Time
  heartbeatAt : Time
  expiresAt : Time
  deriving DecidableEq, Repr

/-- A row of `github_post_operation`. -/
structure PostOperation where
  id : Nat
  operationKey : Text
  runId : Nat
  vendor : Text
  marker : Text
  body : Text
  bodyHash : Option Text
  identityJson : Option Text
  findingIds : List Nat
  newFindingIds : List Nat
  status : OperationStatus
  ownerToken : Option Text
  lockedAt : Option Time
  remoteReviewId : Option Text
  remoteUrl : Option Text
  error : Option Text
  createdAt : Time
  updatedAt : Time
  completedAt : Option Time
  deriving DecidableEq, Repr

/-- A row of `wiki_page`; its key is the repository's id. -/
structure WikiPage where
  repoId : Nat
  status : WikiStatus
  error : Option Text
  attempts : Nat
  maxAttempts : Nat
  nextRunAt : Option Time
  lockedBy : Option Text
  lockedAt : Option Time
  ownerProcessId : Option ProcessId
  updatedAt : Time
  deriving DecidableEq, Repr

instance : Row Repo := ⟨Repo.id⟩
instance : Row PullRequest := ⟨PullRequest.id⟩
instance : Row ReviewRun := ⟨ReviewRun.id⟩
instance : Row VendorResult := ⟨VendorResult.id⟩
instance : Row Finding := ⟨Finding.id⟩
instance : Row FindingDecision := ⟨FindingDecision.id⟩
instance : Row PostedComment := ⟨PostedComment.id⟩
instance : Row ReviewJob := ⟨ReviewJob.id⟩
instance : Row PostOperation := ⟨PostOperation.id⟩
instance : Row WikiPage := ⟨WikiPage.repoId⟩

@[simp] theorem Finding.row_id (f : Finding) : Row.id f = f.id := rfl

/-- The database. `now` is the clock of `datetime('now')`. -/
structure Db where
  now : Time
  repos : Table Repo
  pullRequests : Table PullRequest
  reviewRuns : Table ReviewRun
  vendorResults : Table VendorResult
  findings : Table Finding
  findingDecisions : Table FindingDecision
  postedComments : Table PostedComment
  reviewJobs : Table ReviewJob
  processLeases : List ProcessLease
  postOperations : Table PostOperation
  wikiPages : Table WikiPage

namespace Db

/-- The database after `init_schema`, at time `now`. -/
def empty (now : Time) : Db :=
  ⟨now, .empty, .empty, .empty, .empty, .empty, .empty, .empty, .empty, [], .empty, .empty⟩

def repoTable : TableIn Db Repo where
  get := repos
  set t db := { db with repos := t }

def pullRequestTable : TableIn Db PullRequest where
  get := pullRequests
  set t db := { db with pullRequests := t }

def reviewRunTable : TableIn Db ReviewRun where
  get := reviewRuns
  set t db := { db with reviewRuns := t }

def vendorResultTable : TableIn Db VendorResult where
  get := vendorResults
  set t db := { db with vendorResults := t }

def findingTable : TableIn Db Finding where
  get := findings
  set t db := { db with findings := t }

def findingDecisionTable : TableIn Db FindingDecision where
  get := findingDecisions
  set t db := { db with findingDecisions := t }

def postedCommentTable : TableIn Db PostedComment where
  get := postedComments
  set t db := { db with postedComments := t }

def reviewJobTable : TableIn Db ReviewJob where
  get := reviewJobs
  set t db := { db with reviewJobs := t }

def postOperationTable : TableIn Db PostOperation where
  get := postOperations
  set t db := { db with postOperations := t }

def wikiPageTable : TableIn Db WikiPage where
  get := wikiPages
  set t db := { db with wikiPages := t }

end Db

/-! ## Findings outside the database -/

/-- `models.Finding`: a finding as a vendor reports it and the pipeline hands it on. -/
structure ReviewFinding where
  vendor : Text
  file : Text
  line : Int
  severity : Severity
  category : Text
  claim : Text
  rationale : Text
  confidence : Rat
  vendorResultId : Option Nat := none
  verifyStatus : Option Text := none
  verifyRationale : Option Text := none
  verifyIndependent : Option Bool := none
  verifyEvidenceStatus : Option Text := none
  sourceChunkIndex : Option Nat := none
  ownerChunkIndex : Option Nat := none
  scopeStatus : Option ScopeStatus := none
  postingEligible : Bool := true
  duplicateGroupId : Option Nat := none
  duplicateSuggested : Bool := false
  deriving DecidableEq, Repr

/-! ## Exceptions -/

/-- The exceptions of the modelled functions. -/
inductive Exc where
  | postingConflict (message : Text)
  | httpException (status : Nat) (detail : Text)
  | gitHubCliError (httpStatus : Option Nat) (message : Text)
  | leaseLostError (message : Text)
  | pipelineLeaseLost (runId : Nat) (message : Text)
  | pipelineStaleHead (runId : Nat) (expected actual : Sha)
  | pipelineError (runId : Nat) (message : Text)
  | newFullRunRequired
  | integrityError (message : Text)
  | operationalError (message : Text)
  | valueError (message : Text)
  | runtimeError (message : Text)
  | typeError (message : Text)
  | keyError (key : Text)
  | runtimeCredentialError (safeErrorCode : Text)
  /-- `asyncio.TimeoutError`. -/
  | timeoutError
  /-- `asyncio.CancelledError`, which `except Exception` does not catch. -/
  | cancelledError
  deriving DecidableEq, Repr

namespace Exc

/-- The message of `PipelineStaleHead`. -/
def staleHeadMessage : Text := "PR head가 변경되어 이전 리뷰 실행 취소".toList

/-- `str(e)`. -/
def str : Exc → Text
  | postingConflict message => message
  | httpException status detail => Text.ofNat status ++ ": ".toList ++ detail
  | gitHubCliError _ message => message
  | leaseLostError message => message
  | pipelineLeaseLost _ message => message
  | pipelineStaleHead .. => staleHeadMessage
  | pipelineError _ message => message
  | newFullRunRequired => "new_full_run_required".toList
  | integrityError message => message
  | operationalError message => message
  | valueError message => message
  | runtimeError message => message
  | typeError message => message
  | keyError key => '\'' :: key ++ ['\'']
  | runtimeCredentialError safeErrorCode => safeErrorCode
  | timeoutError => []
  | cancelledError => []

theorem bind_ok {ε α β : Type} {x : Except ε α} {f : α → Except ε β} {b : β}
    (h : x >>= f = .ok b) : ∃ a, x = .ok a ∧ f a = .ok b := by
  cases x with
  | error e => cases h
  | ok a => exact ⟨a, rfl, h⟩

theorem map_ok {ε α β : Type} {x : Except ε α} {f : α → β} {b : β}
    (h : x.map f = .ok b) : ∃ a, x = .ok a ∧ f a = b := by
  cases x with
  | error e => cases h
  | ok a => exact ⟨a, rfl, Except.ok.inj h⟩

end Exc
