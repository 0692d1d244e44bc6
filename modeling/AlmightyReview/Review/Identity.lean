import AlmightyReview.Review.Policy
import AlmightyReview.Review.Prompt

/-!
# Execution identities

What a vendor is run with, and the part of a retry that asks whether it still is.

* `Adapter`, `HarnessProfile`, `ReviewSettings`: the vendors, the harness and the settings.
* `executionIdentity`: `_vendor_execution_identity` after the CLI was asked for its version.
* `requireRetryIdentity`, `retryPromptNonces`, `retryPromptChunks`: a retry compares what it would
  run with what was recorded, and takes the nonces and the chunks that failed from there.
-/

/-- The columns of `app_settings` that a review reads. -/
structure ReviewSettings where
  reviewModel : Option Text
  defaultEffort : Option Text
  claudeEffort : Option Text
  codexEffort : Option Text
  codexModel : Option Text
  incrementalReviewOn : Bool
  verifySinglesOn : Bool

structure HarnessProfile where
  name : Text
  systemPrompt : Text
  claudeAllowedTools : List Text
  codexSandbox : Text
  model : Text
  effort : Text
  codexModel : Text
  codexEffort : Text
  vendorPrompts : List (Text × Text)

/-- What an adapter says of itself. -/
structure AdapterContract where
  adapterName : Text
  adapterVersion : Text
  cliVersion : Text
  eventSchemaVersion : Text

/-- A vendor adapter. What it makes of prompts and the harness depends on the version of its CLI,
which it may be able to ask for (`probes`). -/
structure Adapter where
  vendor : Text
  probes : Bool
  contract : HarnessProfile → Option Text → AdapterContract
  wirePrompts : HarnessProfile → Option Text → List Text → List Text
  reviewArgv : HarnessProfile → Option Text → Option (List Text)
  timeout : Json.Value
  /-- The names are not empty. -/
  named : ∀ hp version, (contract hp version).adapterName ≠ [] ∧
    (contract hp version).adapterVersion ≠ [] ∧ (contract hp version).eventSchemaVersion ≠ []

namespace Pipeline

open Json FindingPolicy

/-! ## Models -/

/-- `row_value`: the column, unless it is `NULL` or empty. -/
def rowValue (value : Option Text) (default : Text) : Text :=
  match value with
  | none => default
  | some v => if v = [] then default else v

def defaultEffort : Text := "medium".toList
def defaultReviewModel : Text := "sonnet".toList

/-- The CLI's own model. -/
def defaultCodexModel : Text := []

/-- `_apply_models`. -/
def applyModels (hp : HarnessProfile) (repo : Repo) (settings : ReviewSettings) : HarnessProfile :=
  let effort := rowValue settings.defaultEffort defaultEffort
  { hp with
    model := rowValue repo.claudeModel (rowValue settings.reviewModel defaultReviewModel)
    effort := rowValue repo.claudeEffort (rowValue settings.claudeEffort effort)
    codexModel := rowValue repo.codexModel (rowValue settings.codexModel defaultCodexModel)
    codexEffort := rowValue repo.codexEffort (rowValue settings.codexEffort effort) }

/-- The effort that a run records. -/
def runEffort (repo : Repo) (settings : ReviewSettings) : Text :=
  rowValue repo.codexEffort
    (rowValue settings.codexEffort (rowValue settings.defaultEffort defaultEffort))

def claude : Text := "claude".toList
def codex : Text := "codex".toList

def HarnessProfile.systemPromptFor (hp : HarnessProfile) (vendor : Text) : Text :=
  match hp.vendorPrompts.lookup vendor with
  | none => hp.systemPrompt
  | some p => if p = [] then hp.systemPrompt else p

/-! ## Identities -/

def harnessConfig (hp : HarnessProfile) (vendor : Text) : Value :=
  .obj [("name".toList, .str hp.name),
    ("system_prompt".toList, .str (HarnessProfile.systemPromptFor hp vendor)),
    ("tools".toList, if vendor = claude then .arr (hp.claudeAllowedTools.map .str) else .null),
    ("sandbox".toList, if vendor = codex then .str hp.codexSandbox else .null)]

def contractJson (c : AdapterContract) : Value :=
  .obj [("adapter_name".toList, .str c.adapterName),
    ("adapter_version".toList, .str c.adapterVersion), ("cli_version".toList, .str c.cliVersion),
    ("event_schema_version".toList, .str c.eventSchemaVersion)]

def adapterConfig (ad : Adapter) (hp : HarnessProfile) (version : Option Text) : Value :=
  .obj [("contract".toList, contractJson (ad.contract hp version)),
    ("review_argv".toList, ofOption (fun argv => .arr (argv.map .str)) (ad.reviewArgv hp version)),
    ("timeout".toList, ad.timeout)]

/-- The checks before the CLI is asked. -/
def requireVendor (ad : Adapter) (prompts : List PromptChunk) : Except Exc Unit :=
  VendorTelemetry.reject (!VendorTelemetry.isVendor ad.vendor || prompts.isEmpty)
    "invalid vendor execution identity".toList

/-- The model and the effort of a vendor. -/
def modelOf (hp : HarnessProfile) (vendor : Text) : Text × Text :=
  if vendor = codex then (hp.codexModel, hp.codexEffort) else (hp.model, hp.effort)

/-- The chunker of the prompts, if it is one. -/
def chunkerOf (prompts : List PromptChunk) : Except Exc Text :=
  match (prompts.map PromptChunk.chunkerVersion).dedup with
  | [version] => pure version
  | _ => throw (.valueError "mixed chunker versions".toList)

/-- `_vendor_execution_identity`, when the CLI has this version. -/
def executionIdentity (ad : Adapter) (hp : HarnessProfile) (version : Option Text)
    (prompts : List PromptChunk) (diff : Text) (policy : PolicySnapshot) :
    Except Exc ExecutionIdentity := do
  let contract := ad.contract hp version
  let chunker ← chunkerOf prompts
  let wire := ad.wirePrompts hp version (prompts.map PromptChunk.prompt)
  VendorTelemetry.reject (wire.length != prompts.length)
    "invalid adapter review execution inputs".toList
  pure {
    protocolVersion := "evidence-v1".toList
    vendor := ad.vendor
    model := (modelOf hp ad.vendor).1
    effort := (modelOf hp ad.vendor).2
    promptHash := canonicalHash (.arr (wire.map .str))
    harnessConfigHash := canonicalHash (harnessConfig hp ad.vendor)
    adapterName := contract.adapterName
    adapterVersion := contract.adapterVersion
    adapterConfigHash := canonicalHash (adapterConfig ad hp version)
    cliVersion := contract.cliVersion
    eventSchemaVersion := contract.eventSchemaVersion
    diffHash := textHash diff
    contextHash := canonicalHash (.arr (prompts.map fun c => .str c.contextHash))
    chunkerVersion := chunker
    scopePolicyMode := policy.scope.effectiveMode
    dedupePolicyMode := policy.dedupe.effectiveMode
    policyDecisionHash := policy.decisionHash
    policyConfigHash := policy.configHash }

/-- What a benchmark report is compared with. -/
def runtimeIdentityOf (i : ExecutionIdentity) : BenchmarkRuntimeIdentity where
  vendor := i.vendor
  model := i.model
  effort := i.effort
  promptSha256 := i.harnessConfigHash
  protocolSha256 := canonicalHash (.str i.protocolVersion)
  chunkerSha256 := canonicalHash (.str i.chunkerVersion)
  chunkBudget := maxInlineDiffChars
  adapterSha256 := i.adapterConfigHash
  cliVersion := i.cliVersion
  eventSchemaSha256 := canonicalHash (.str i.eventSchemaVersion)

/-- `_benchmark_runtime_identity`: a report describes one vendor. -/
def benchmarkRuntimeIdentity (identities : List (Text × ExecutionIdentity)) :
    Option BenchmarkRuntimeIdentity :=
  match identities with
  | [i] => some (runtimeIdentityOf i.2)
  | _ => none

/-- `_bind_policy_identity`. -/
def bindPolicyIdentity (i : ExecutionIdentity) (policy : PolicySnapshot) : ExecutionIdentity :=
  { i with
    scopePolicyMode := policy.scope.effectiveMode
    dedupePolicyMode := policy.dedupe.effectiveMode
    policyDecisionHash := policy.decisionHash
    policyConfigHash := policy.configHash }

/-! ## Envelopes -/

/-- A chunk was executed with the CLI of the identity. -/
def sameCli (i : ExecutionIdentity) (c : ExecutionChunk) : Bool :=
  c.cliName.all (· == i.vendor) && c.cliVersion.all (· == i.cliVersion) &&
    c.eventSchema.all (· == i.eventSchemaVersion)

/-- `_vendor_execution_envelope`. -/
def vendorExecutionEnvelope (result : VendorRunResult) (i : ExecutionIdentity) (attempt : Nat)
    (phase : ExecutionPhase) : Except Exc ExecutionEnvelope :=
  if (result.chunks ++ result.verifyChunks).all (sameCli i) then
    VendorTelemetry.buildExecutionEnvelope i attempt phase result.chunks
  else throw (.runtimeError "vendor execution identity changed".toList)

/-- The envelope of an attempt, with the verification of its findings after it. -/
def attemptEnvelope (result : VendorRunResult) (i : ExecutionIdentity) (attempt : Nat) :
    Except Exc ExecutionEnvelope := do
  let envelope ← vendorExecutionEnvelope result i attempt .review
  if result.verifyChunks = [] then pure envelope
  else do
    let verified ← VendorTelemetry.buildExecutionEnvelope i (attempt + 1) .verify
      result.verifyChunks
    pure { envelope with attempts := envelope.attempts ++ verified.attempts }

/-! ## Retries -/

/-- `_require_retry_identity`. -/
def requireRetryIdentity (stored : Option ExecutionEnvelope) (current : ExecutionIdentity) :
    Except Exc Unit :=
  let known := (VendorTelemetry.identityFields current).all (·.2 != []) &&
    current.cliVersion != "unknown".toList
  if known ∧ stored.map ExecutionEnvelope.identity = some current then pure ()
  else throw .newFullRunRequired

/-- The attempts at a review, not at a verification. -/
def reviewAttempts (e : ExecutionEnvelope) : List ExecutionAttempt :=
  e.attempts.filter (·.phase == .review)

/-- The nonces of chunks, in a dictionary of those before them. -/
def addNonces (current : List (Nat × Text)) : List ExecutionChunk → Except Exc (List (Nat × Text))
  | [] => pure current
  | c :: cs =>
    match current.lookup c.index with
    | none => addNonces (current ++ [(c.index, c.promptNonce)]) cs
    | some nonce =>
      if nonce = c.promptNonce then addNonces current cs else throw .newFullRunRequired

/-- The nonces that a vendor's chunks were executed with. -/
def vendorNonces (stored : Option ExecutionEnvelope) : Except Exc (List (Nat × Text)) :=
  match stored with
  | none => throw .newFullRunRequired
  | some e =>
    let attempts := (reviewAttempts e).insertionSort fun a b => a.attempt ≤ b.attempt
    if attempts = [] then throw .newFullRunRequired
    else addNonces [] (attempts.flatMap ExecutionAttempt.chunks)

/-- Two dictionaries are equal. -/
def sameDict (a b : List (Nat × Text)) : Bool :=
  a.length == b.length && a.all fun e => b.lookup e.1 == some e.2

/-- The nonces of the vendors after the first. -/
def agreeNonces (nonces : List (Nat × Text)) :
    List (Option ExecutionEnvelope) → Except Exc (List (Nat × Text))
  | [] => pure nonces
  | stored :: rest => do
    let current ← vendorNonces stored
    if sameDict nonces current then agreeNonces nonces rest else throw .newFullRunRequired

/-- `_retry_prompt_nonces`: the nonces, which all vendors had in common. -/
def retryPromptNonces : List (Option ExecutionEnvelope) → Except Exc (List (Nat × Text))
  | [] => pure []
  | stored :: rest => do
    let nonces ← vendorNonces stored
    agreeNonces nonces rest

/-- The last attempt at a review. -/
def latestReview (e : ExecutionEnvelope) : Option ExecutionAttempt :=
  ((reviewAttempts e).insertionSort fun a b => b.attempt ≤ a.attempt).head?

/-- The prompt is the one that the chunk was executed with. -/
def samePrompt (saved : ExecutionChunk) (candidate : PromptChunk) : Bool :=
  saved.chunkHash == some candidate.diffHash && saved.contextHash == some candidate.contextHash &&
    saved.chunkerVersion == some candidate.chunkerVersion &&
    saved.promptNonce == candidate.promptNonce

def isUnresolved (c : ExecutionChunk) : Bool := c.status == .failed || c.status == .timeout

/-- The prompts of the chunks that were not resolved. -/
def unresolvedPrompts (prompts : List PromptChunk) :
    List ExecutionChunk → Except Exc (List PromptChunk)
  | [] => pure []
  | saved :: rest =>
    match prompts.reverse.find? (·.index == saved.index) with
    | none => throw .newFullRunRequired
    | some candidate =>
      if samePrompt saved candidate then do
        let retry ← unresolvedPrompts prompts rest
        pure (if isUnresolved saved then candidate :: retry else retry)
      else throw .newFullRunRequired

/-- `_retry_prompt_chunks`. -/
def retryPromptChunks (stored : Option ExecutionEnvelope) (prompts : List PromptChunk) :
    Except Exc (List PromptChunk) :=
  match stored.bind latestReview with
  | none => throw .newFullRunRequired
  | some attempt => unresolvedPrompts prompts attempt.chunks

end Pipeline
