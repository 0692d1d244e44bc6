import AlmightyReview.Db
import AlmightyReview.Lib.Json

/-!
# Execution envelopes

The part of `vendor_telemetry` that keeps what was executed: an envelope has the identity of the
execution and its attempts, the last one last.

* `validateExecutionEnvelope`: the checks of a stored envelope, its size among them.
* `buildExecutionEnvelope`, `appendExecutionAttempt`: a new envelope, and one after another.
* `append_ok`: an appended envelope has the old identity and the attempts of both.
-/

namespace VendorTelemetry

/-- `MAX_META_BYTES`. -/
def maxMetaBytes : Nat := 64 * 1024

def maxAttempts : Nat := 20

/-- `EXECUTION_SCHEMA_VERSION`. -/
def executionSchemaVersion : Nat := 2

def safeErrorCodes : List Text :=
  ["auth", "rate_limit", "overloaded", "invalid_output", "output_limit", "unsupported_cli",
    "process_exit", "timeout", "canceled", "runtime_setup_failed", "runtime_cleanup_failed",
    "snapshot_cleanup_failed", "unknown"].map String.toList

def isHexDigit (c : Char) : Bool := ('0' ≤ c && c ≤ '9') || ('a' ≤ c && c ≤ 'f')

/-- A lower-case hexadecimal text of this length. -/
def isHex (length : Nat) (s : Text) : Bool := s.length == length && s.all isHexDigit

/-! ## JSON -/

def statusText : ChunkStatus → Text
  | .done => "done".toList
  | .failed => "failed".toList
  | .timeout => "timeout".toList
  | .canceled => "canceled".toList

def phaseText : ExecutionPhase → Text
  | .review => "review".toList
  | .verify => "verify".toList

open Json in
def chunkJson (c : ExecutionChunk) : Value :=
  .obj [("index".toList, ofNat c.index), ("status".toList, .str (statusText c.status)),
    ("safe_error_code".toList, ofOption .str c.safeErrorCode),
    ("duration_ms".toList, ofOption ofNat c.durationMs),
    ("input_tokens".toList, ofOption ofNat c.inputTokens),
    ("cached_input_tokens".toList, ofOption ofNat c.cachedInputTokens),
    ("output_tokens".toList, ofOption ofNat c.outputTokens),
    ("reasoning_output_tokens".toList, ofOption ofNat c.reasoningOutputTokens),
    ("total_tokens".toList, ofOption ofNat c.totalTokens),
    ("tool_calls".toList, ofOption ofNat c.toolCalls),
    ("event_count".toList, ofOption ofNat c.eventCount),
    ("stream_truncated".toList, .bool c.streamTruncated),
    ("telemetry_status".toList, .str c.telemetryStatus),
    ("cli_name".toList, ofOption .str c.cliName),
    ("cli_version".toList, ofOption .str c.cliVersion),
    ("event_schema".toList, ofOption .str c.eventSchema),
    ("chunk_hash".toList, ofOption .str c.chunkHash),
    ("context_hash".toList, ofOption .str c.contextHash),
    ("chunker_version".toList, ofOption .str c.chunkerVersion),
    ("prompt_nonce".toList, .str c.promptNonce),
    ("scope_reassigned".toList, ofNat c.scopeReassigned),
    ("scope_rejected".toList, ofNat c.scopeRejected),
    ("duplicate_groups".toList, ofNat c.duplicateGroups)]

open Json in
def attemptJson (a : ExecutionAttempt) : Value :=
  .obj [("attempt".toList, ofNat a.attempt), ("phase".toList, .str (phaseText a.phase)),
    ("chunks".toList, .arr (a.chunks.map chunkJson))]

/-- The fields of an identity, under their keys. -/
def identityFields (i : ExecutionIdentity) : List (Text × Text) :=
  [("protocol_version".toList, i.protocolVersion), ("vendor".toList, i.vendor),
    ("model".toList, i.model), ("effort".toList, i.effort), ("prompt_hash".toList, i.promptHash),
    ("harness_config_hash".toList, i.harnessConfigHash), ("adapter_name".toList, i.adapterName),
    ("adapter_version".toList, i.adapterVersion),
    ("adapter_config_hash".toList, i.adapterConfigHash), ("cli_version".toList, i.cliVersion),
    ("event_schema_version".toList, i.eventSchemaVersion), ("diff_hash".toList, i.diffHash),
    ("context_hash".toList, i.contextHash), ("chunker_version".toList, i.chunkerVersion),
    ("scope_policy_mode".toList, i.scopePolicyMode),
    ("dedupe_policy_mode".toList, i.dedupePolicyMode),
    ("policy_decision_hash".toList, i.policyDecisionHash),
    ("policy_config_hash".toList, i.policyConfigHash)]

open Json in
def envelopeJson (e : ExecutionEnvelope) : Value :=
  .obj ([("schema_version".toList, ofNat executionSchemaVersion),
    ("attempts".toList, .arr (e.attempts.map attemptJson))] ++
    (identityFields e.identity).map fun f => (f.1, .str f.2))

/-- The JSON text as `vendor_result.execution_meta` holds it. -/
def encoded (e : ExecutionEnvelope) : Text := (envelopeJson e).dumps true

/-! ## Checks -/

/-- `if c: raise ValueError(message)`. -/
def reject (c : Bool) (message : Text) : Except Exc Unit :=
  if c then throw (.valueError message) else pure ()

def limits (i : ExecutionIdentity) : List (Text × Text × Nat) :=
  [("protocol_version".toList, i.protocolVersion, 64), ("vendor".toList, i.vendor, 16),
    ("model".toList, i.model, 128), ("effort".toList, i.effort, 32),
    ("adapter_name".toList, i.adapterName, 256),
    ("adapter_version".toList, i.adapterVersion, 128), ("cli_version".toList, i.cliVersion, 128),
    ("event_schema_version".toList, i.eventSchemaVersion, 128),
    ("chunker_version".toList, i.chunkerVersion, 128),
    ("scope_policy_mode".toList, i.scopePolicyMode, 16),
    ("dedupe_policy_mode".toList, i.dedupePolicyMode, 16)]

def policyModes (i : ExecutionIdentity) : List (Text × Text) :=
  [("scope_policy_mode".toList, i.scopePolicyMode),
    ("dedupe_policy_mode".toList, i.dedupePolicyMode)]

/-- The fields of `_EXECUTION_HASH_FIELDS`. -/
def hashFields (i : ExecutionIdentity) : List (Text × Text) :=
  [("prompt_hash".toList, i.promptHash), ("harness_config_hash".toList, i.harnessConfigHash),
    ("adapter_config_hash".toList, i.adapterConfigHash), ("diff_hash".toList, i.diffHash),
    ("context_hash".toList, i.contextHash), ("policy_decision_hash".toList, i.policyDecisionHash),
    ("policy_config_hash".toList, i.policyConfigHash)]

def invalidField (key : Text) : Text := "invalid execution envelope ".toList ++ key

/-- The two vendors. -/
def isVendor (vendor : Text) : Bool := vendor == "claude".toList || vendor == "codex".toList

def validateIdentity (i : ExecutionIdentity) : Except Exc Unit := do
  (limits i).forM fun f => reject (f.2.2 < f.2.1.length) (invalidField f.1)
  reject (!isVendor i.vendor) (invalidField "vendor".toList)
  (policyModes i).forM fun f =>
    reject (f.2 != "observe".toList && f.2 != "enforce".toList) (invalidField f.1)
  (hashFields i).forM fun f => reject (!isHex 64 f.2) (invalidField f.1)

def chunkStrings (c : ExecutionChunk) : List (Text × Option Text) :=
  [("cli_name".toList, c.cliName), ("cli_version".toList, c.cliVersion),
    ("event_schema".toList, c.eventSchema), ("chunk_hash".toList, c.chunkHash),
    ("context_hash".toList, c.contextHash), ("chunker_version".toList, c.chunkerVersion)]

/-- `_validate_execution_chunk`: the checks that the types do not make. -/
def validateExecutionChunk (c : ExecutionChunk) : Except Exc Unit := do
  reject (!(c.safeErrorCode.all safeErrorCodes.contains))
    "invalid execution chunk error".toList
  reject (!(["ok".toList, "partial".toList, "unavailable".toList].contains c.telemetryStatus))
    "invalid execution chunk telemetry status".toList
  (chunkStrings c).forM fun f => reject (!(f.2.all fun s => s.length ≤ 128))
    ("invalid execution chunk string field: ".toList ++ f.1)
  reject (!isHex 8 c.promptNonce) "invalid execution chunk prompt nonce".toList

/-- The attempts after the attempt number `previous`. -/
def validateAttempts : Nat → List ExecutionAttempt → Except Exc Unit
  | _, [] => pure ()
  | previous, record :: rest => do
    reject (record.attempt ≤ previous) "execution attempts must be strictly increasing".toList
    reject (1000 < record.chunks.length) "invalid execution chunks".toList
    record.chunks.forM validateExecutionChunk
    validateAttempts record.attempt rest

/-- `validate_execution_envelope`. -/
def validateExecutionEnvelope (e : ExecutionEnvelope) : Except Exc Unit := do
  validateIdentity e.identity
  reject (maxAttempts < e.attempts.length) "invalid execution attempts".toList
  validateAttempts 0 e.attempts
  reject (maxMetaBytes < (encoded e).encode.length)
    "vendor execution envelope exceeds size cap".toList

/-! ## Envelopes -/

def buildExecutionEnvelope (identity : ExecutionIdentity) (attempt : Nat) (phase : ExecutionPhase)
    (chunks : List ExecutionChunk) : Except Exc ExecutionEnvelope := do
  let envelope : ExecutionEnvelope := ⟨identity, [⟨attempt, phase, chunks⟩]⟩
  validateExecutionEnvelope envelope
  pure envelope

def appendExecutionAttempt (existing : Option ExecutionEnvelope) (addition : ExecutionEnvelope) :
    Except Exc ExecutionEnvelope := do
  validateExecutionEnvelope addition
  match existing with
  | none => pure addition
  | some old =>
    validateExecutionEnvelope old
    reject (old.identity != addition.identity)
      "vendor execution envelope identity mismatch".toList
    let merged : ExecutionEnvelope := { old with attempts := old.attempts ++ addition.attempts }
    validateExecutionEnvelope merged
    pure merged

/-- `_decode_execution_meta`. -/
def decodeExecutionMeta (value : Option ExecutionEnvelope) : Option ExecutionEnvelope :=
  value.filter fun e => (validateExecutionEnvelope e).isOk

/-! ## What they give -/

theorem reject_ok {c : Bool} {message : Text} {u : Unit} (h : reject c message = .ok u) :
    c = false := by
  cases c with
  | false => rfl
  | true => cases h

theorem build_ok {identity : ExecutionIdentity} {attempt : Nat} {phase : ExecutionPhase}
    {chunks : List ExecutionChunk} {e : ExecutionEnvelope}
    (h : buildExecutionEnvelope identity attempt phase chunks = .ok e) :
    e = ⟨identity, [⟨attempt, phase, chunks⟩]⟩ ∧ validateExecutionEnvelope e = .ok () := by
  obtain ⟨u, hu, h⟩ := Exc.bind_ok h
  cases h
  exact ⟨rfl, hu⟩

/-- **What an append gives**: the addition, or the old envelope with its attempts, valid. -/
theorem append_ok {existing : Option ExecutionEnvelope} {addition e : ExecutionEnvelope}
    (h : appendExecutionAttempt existing addition = .ok e) :
    validateExecutionEnvelope e = .ok () ∧ match existing with
      | none => e = addition
      | some old => old.identity = addition.identity ∧ e.identity = old.identity ∧
        e.attempts = old.attempts ++ addition.attempts := by
  obtain ⟨u, hu, h⟩ := Exc.bind_ok h
  cases existing with
  | none =>
    cases h
    exact ⟨hu, rfl⟩
  | some old =>
    obtain ⟨_, -, h⟩ := Exc.bind_ok h
    obtain ⟨_, hid, h⟩ := Exc.bind_ok h
    obtain ⟨u', hu', h⟩ := Exc.bind_ok h
    cases h
    exact ⟨hu', by simpa using reject_ok hid, rfl, rfl⟩

theorem decode_eq_some {value : Option ExecutionEnvelope} {e : ExecutionEnvelope} :
    decodeExecutionMeta value = some e ↔
      value = some e ∧ validateExecutionEnvelope e = .ok () := by
  unfold decodeExecutionMeta
  rw [Option.filter_eq_some_iff]
  refine and_congr_right fun _ => ?_
  cases validateExecutionEnvelope e <;> simp [Except.isOk, Except.toBool]

end VendorTelemetry
