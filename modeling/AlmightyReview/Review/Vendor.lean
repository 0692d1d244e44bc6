import AlmightyReview.Review.Identity

/-!
# What a vendor made of its chunks

The pure part of `_run_vendor`: an outcome for each chunk, and the status that follows from them.

* `ChunkAnswer`: what a vendor answered for a chunk. `chunkOutcome`: what is kept of it.
* `runStatus`: the status of a vendor, from the outcomes of the chunks that it was given.
* `runtimeFailureResult`: the result of a vendor whose credentials could not be prepared.
-/

/-- The telemetry of one execution of a CLI. -/
structure Telemetry where
  safeErrorCode : Option Text
  durationMs : Option Nat
  inputTokens : Option Nat
  cachedInputTokens : Option Nat
  outputTokens : Option Nat
  reasoningOutputTokens : Option Nat
  totalTokens : Option Nat
  toolCalls : Option Nat
  eventCount : Option Nat
  streamTruncated : Bool
  telemetryStatus : Text
  cliName : Option Text
  cliVersion : Option Text
  eventSchema : Option Text

/-- How a review of a chunk ended. -/
inductive ChunkAnswer where
  | reviewed (findings : List ReviewFinding) (execution : Option Telemetry)
  /-- `VendorTimeout`. -/
  | timedOut
  /-- `VendorProcessError`. -/
  | processError (execution : Telemetry)
  /-- Any other exception. -/
  | failed

namespace Pipeline

/-- `unavailable_meta`. -/
def unavailableMeta (vendor : Text) (safeErrorCode : Option Text) (durationMs : Option Nat) :
    Telemetry where
  safeErrorCode := safeErrorCode
  durationMs := durationMs
  inputTokens := none
  cachedInputTokens := none
  outputTokens := none
  reasoningOutputTokens := none
  totalTokens := none
  toolCalls := none
  eventCount := none
  streamTruncated := false
  telemetryStatus := "unavailable".toList
  cliName := some vendor
  cliVersion := none
  eventSchema := none

/-- The error code of an execution without telemetry. -/
def fallbackCode (status : ChunkStatus) (safeErrorCode : Option Text) : Option Text :=
  match safeErrorCode with
  | some code => some code
  | none =>
    match status with
    | .done => none
    | .timeout => some "timeout".toList
    | _ => some "unknown".toList

/-- `_chunk_execution_meta`. -/
def chunkExecutionMeta (c : PromptChunk) (status : ChunkStatus) (t : Telemetry) :
    ExecutionChunk where
  index := c.index
  status := status
  safeErrorCode := t.safeErrorCode
  durationMs := t.durationMs
  inputTokens := t.inputTokens
  cachedInputTokens := t.cachedInputTokens
  outputTokens := t.outputTokens
  reasoningOutputTokens := t.reasoningOutputTokens
  totalTokens := t.totalTokens
  toolCalls := t.toolCalls
  eventCount := t.eventCount
  streamTruncated := t.streamTruncated
  telemetryStatus := t.telemetryStatus
  cliName := t.cliName
  cliVersion := t.cliVersion
  eventSchema := t.eventSchema
  chunkHash := some c.diffHash
  contextHash := some c.contextHash
  chunkerVersion := some c.chunkerVersion
  promptNonce := c.promptNonce
  scopeReassigned := 0
  scopeRejected := 0
  duplicateGroups := 0

def answerStatus : ChunkAnswer → ChunkStatus
  | .reviewed .. => .done
  | .timedOut => .timeout
  | .processError _ => .failed
  | .failed => .failed

/-- The telemetry of an answer that took `elapsedMs`. -/
def answerTelemetry (vendor : Text) (answer : ChunkAnswer) (elapsedMs : Nat) : Telemetry :=
  match answer with
  | .reviewed _ (some t) => t
  | .processError t => t
  | _ => unavailableMeta vendor (fallbackCode (answerStatus answer) none) (some elapsedMs)

/-- The outcome of a chunk, and its findings. -/
def chunkOutcome (vendor : Text) (c : PromptChunk) (answer : ChunkAnswer) (elapsedMs : Nat) :
    ExecutionChunk × List ReviewFinding :=
  (chunkExecutionMeta c (answerStatus answer) (answerTelemetry vendor answer elapsedMs),
    match answer with
    | .reviewed findings _ => findings.map fun f => { f with sourceChunkIndex := some c.index }
    | _ => [])

/-- The status of a vendor, from the outcomes of its chunks. -/
def runStatus (chunks : List ExecutionChunk) : VendorStatus :=
  let done := chunks.countP (·.status == .done)
  if done = chunks.length then .done
  else if 0 < done then .incomplete
  else if chunks ≠ [] ∧ chunks.all (·.status == .timeout) then .timeout
  else .failed

/-- The end of `_run_vendor_prepared`. -/
def vendorRunResult (vendor : Text) (outcomes : List (ExecutionChunk × List ReviewFinding))
    (durationMs : Nat) : VendorRunResult where
  vendor := vendor
  status := runStatus (outcomes.map Prod.fst)
  findings := outcomes.flatMap Prod.snd
  durationMs := durationMs
  chunks := outcomes.map Prod.fst

/-- `_runtime_failure_result`. -/
def runtimeFailureResult (vendor : Text) (prompts : List PromptChunk) (safeErrorCode : Text) :
    VendorRunResult where
  vendor := vendor
  status := .failed
  findings := []
  durationMs := 0
  chunks := prompts.map fun c => chunkExecutionMeta c .failed
    (unavailableMeta vendor (fallbackCode .failed (some safeErrorCode)) none)

end Pipeline
