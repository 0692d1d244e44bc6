import AlmightyReview.Lib.Loads
import AlmightyReview.Review.Telemetry

/-!
# Events of vendor CLIs

The part of `vendor_telemetry` that reads the structured output of a CLI: the final message and
numbers about the execution.

* `jsonLines`, `jsonPayload`: the events of an output, whose lines may hold anything.
* `parseCodexJsonl`, `parseClaudeJson`: the message and the metadata. A Python set raises for a
  value that cannot be hashed (`memberOf`).
* `makeMeta`: the metadata, which `validateMeta` checks before it is returned.
-/

namespace VendorTelemetry

open Json (Loaded get)

/-! ## Limits -/

/-- `SCHEMA_VERSION`. -/
def schemaVersion : Nat := 1

def maxEventLines : Nat := 20000

def maxEventBytes : Nat := 10 * 1024 * 1024

def maxFinalOutputBytes : Nat := 2 * 1024 * 1024

def supportedEventSchemas : List ((Text × Text) × Text) :=
  [(("codex".toList, "codex-cli 0.144.5".toList), "codex-jsonl-v0.144.5".toList)]

def attestationEventSchemas : List ((Text × Text) × Text) :=
  [(("claude".toList, "2.1.198 (Claude Code)".toList), "claude-json-v2.1.198".toList)]

/-- `event_schema`. -/
def eventSchema (vendor : Text) (cliVersion : Option Text) (attestation : Bool) : Option Text :=
  match cliVersion with
  | none => none
  | some version =>
    if version = [] then none
    else
      match supportedEventSchemas.lookup (vendor, version) with
      | some schema => some schema
      | none => if attestation then attestationEventSchemas.lookup (vendor, version) else none

/-! ## Metadata -/

structure Meta where
  schemaVersion : Nat
  cliName : Text
  cliVersion : Option Text
  eventSchema : Option Text
  status : Text
  safeErrorCode : Option Text
  exitCode : Option Int
  streamTruncated : Bool
  inputTokens : Option Int
  cachedInputTokens : Option Int
  outputTokens : Option Int
  reasoningOutputTokens : Option Int
  totalTokens : Option Int
  toolCalls : Option Int
  eventCount : Option Int
  telemetryStatus : Text

/-- The counts of the metadata, under their keys. -/
def Meta.counts (m : Meta) : List (Text × Option Int) :=
  [("input_tokens".toList, m.inputTokens), ("cached_input_tokens".toList, m.cachedInputTokens),
    ("output_tokens".toList, m.outputTokens),
    ("reasoning_output_tokens".toList, m.reasoningOutputTokens),
    ("total_tokens".toList, m.totalTokens), ("tool_calls".toList, m.toolCalls),
    ("event_count".toList, m.eventCount)]

open Json in
def Meta.texts (m : Meta) : List (Text × Value) :=
  [("schema_version".toList, ofNat m.schemaVersion), ("cli_name".toList, .str m.cliName),
    ("cli_version".toList, ofOption .str m.cliVersion),
    ("event_schema".toList, ofOption .str m.eventSchema), ("status".toList, .str m.status),
    ("safe_error_code".toList, ofOption .str m.safeErrorCode),
    ("stream_truncated".toList, .bool m.streamTruncated),
    ("telemetry_status".toList, .str m.telemetryStatus)]

/-- The numbers of the metadata, under their keys. -/
def Meta.numbers (m : Meta) : List (Text × Option Int) :=
  ("exit_code".toList, m.exitCode) :: m.counts

def metaJson (m : Meta) : Json.Value :=
  .obj (m.texts ++ m.numbers.map fun f => (f.1, Json.ofOption .int f.2))

/-- `json.dumps` of the metadata: an integer with too many digits is not written. -/
def dumpsMeta (m : Meta) : Except Exc Text :=
  if ∀ f ∈ m.numbers, ∀ n ∈ f.2, n.natAbs < Json.intLimit then .ok ((metaJson m).dumps true)
  else .error (.valueError ("Exceeds the limit (4300 digits) for integer string conversion; " ++
    "use sys.set_int_max_str_digits() to increase the limit").toList)

/-- `validate_meta`: the checks that the types do not make. -/
def validateMeta (m : Meta) : Except Exc Unit := do
  reject (m.schemaVersion != schemaVersion) "unsupported vendor telemetry schema".toList
  reject (!isVendor m.cliName) "invalid vendor telemetry cli".toList
  reject
    (!(["done".toList, "failed".toList, "timeout".toList, "canceled".toList].contains m.status))
    "invalid vendor telemetry status".toList
  reject (!(["ok".toList, "partial".toList, "unavailable".toList].contains m.telemetryStatus))
    "invalid telemetry availability".toList
  reject (!m.safeErrorCode.all safeErrorCodes.contains) "invalid safe vendor error code".toList
  m.counts.forM fun f =>
    reject (f.2.any fun n => decide (n < 0)) ("invalid numeric telemetry: ".toList ++ f.1)
  [("cli_version".toList, m.cliVersion), ("event_schema".toList, m.eventSchema)].forM fun f =>
    reject (f.2.any fun s => decide (128 < s.length)) ("invalid telemetry string: ".toList ++ f.1)
  let encoded ← dumpsMeta m
  reject (maxMetaBytes < encoded.encode.length) "vendor telemetry exceeds size cap".toList

/-- `unavailable_meta`. -/
def unavailableMeta (vendor : Text) (cliVersion : Option Text) (status : Text)
    (safeErrorCode : Option Text) (exitCode : Option Int) (streamTruncated : Bool) :
    Except Exc Meta := do
  let m : Meta :=
    { schemaVersion := schemaVersion
      cliName := vendor
      cliVersion := cliVersion
      eventSchema := eventSchema vendor cliVersion false
      status := status
      safeErrorCode := safeErrorCode
      exitCode := exitCode
      streamTruncated := streamTruncated
      inputTokens := none
      cachedInputTokens := none
      outputTokens := none
      reasoningOutputTokens := none
      totalTokens := none
      toolCalls := none
      eventCount := none
      telemetryStatus := "unavailable".toList }
  validateMeta m
  pure m

/-- Counts of tokens, under the keys of the vendor. -/
abbrev Usage := List (Text × Nat)

/-- The tokens in and out, when both are known. -/
def totalTokens (usage : Usage) : Option Nat :=
  match usage.lookup "input_tokens".toList, usage.lookup "output_tokens".toList with
  | some i, some o => some (i + o)
  | _, _ => none

/-- The metadata that `_meta` makes. -/
def metaOf (vendor cliVersion schema status : Text) (safeErrorCode : Option Text)
    (exitCode : Int) (streamTruncated : Bool) (usage : Usage) (toolCalls eventCount : Nat)
    (telemetryStatus : Text) : Meta where
  schemaVersion := schemaVersion
  cliName := vendor
  cliVersion := some cliVersion
  eventSchema := some schema
  status := status
  safeErrorCode := safeErrorCode
  exitCode := some exitCode
  streamTruncated := streamTruncated
  inputTokens := (usage.lookup "input_tokens".toList).map Int.ofNat
  cachedInputTokens := ((usage.lookup "cached_input_tokens".toList).or
    (usage.lookup "cache_read_input_tokens".toList)).map Int.ofNat
  outputTokens := (usage.lookup "output_tokens".toList).map Int.ofNat
  reasoningOutputTokens := (usage.lookup "reasoning_output_tokens".toList).map Int.ofNat
  totalTokens := (totalTokens usage).map Int.ofNat
  toolCalls := some toolCalls
  eventCount := some eventCount
  telemetryStatus := telemetryStatus

/-- `_meta`: the metadata after their check. -/
def makeMeta (m : Meta) : Except Exc Meta := do
  validateMeta m
  pure m

/-! ## Values of events -/

/-- The fields of an event. -/
abbrev Event := List (Text × Loaded)

/-- `event.get(key)`. -/
def getItem (e : Event) (key : Text) : Loaded := (get e key).getD .null

/-- `value == text`. -/
def isText (text : Text) : Loaded → Bool
  | .str s => s == text
  | _ => false

/-- Lists and dictionaries have no hash. -/
def Hashable : Loaded → Prop
  | .arr _ | .obj _ => False
  | _ => True

instance (v : Loaded) : Decidable (Hashable v) := by
  cases v <;> unfold Hashable <;> infer_instance

/-- `hash(value)`. -/
def checkHash (v : Loaded) : Except Exc Unit :=
  match v with
  | .arr _ => .error (.typeError "unhashable type: 'list'".toList)
  | .obj _ => .error (.typeError "unhashable type: 'dict'".toList)
  | _ => .ok ()

/-- `value in {...}` with these texts. -/
def memberOf (texts : List Text) (v : Loaded) : Except Exc Bool := do
  checkHash v
  pure (texts.any fun text => isText text v)

/-- `value == n`. -/
def isNumber (n : Nat) : Loaded → Bool
  | .int m _ => m == n
  | .bool b => b.toNat == n
  | .float (.finite x) => x.val == n
  | _ => false

/-- `bool(value)`. -/
def truthy : Loaded → Bool
  | .null => false
  | .bool b => b
  | .int n _ => n != 0
  | .float (.finite x) => x.val != 0
  | .float _ => true
  | .str s => !s.isEmpty
  | .arr xs => !xs.isEmpty
  | .obj fields => !fields.isEmpty

def usageKeys : List Text :=
  ["input_tokens", "cached_input_tokens", "cache_read_input_tokens", "cache_creation_input_tokens",
    "output_tokens", "reasoning_output_tokens"].map String.toList

/-- The entry of a key whose value is a count. -/
def countOf (fields : Event) (key : Text) : Option (Text × Nat) :=
  match get fields key with
  | some (.int n _) => if 0 ≤ n then some (key, n.toNat) else none
  | _ => none

/-- `_numeric_usage`. -/
def numericUsage : Loaded → Option Usage
  | .obj fields =>
    match usageKeys.filterMap (countOf fields) with
    | [] => none
    | out => some out
  | _ => none

/-- `_safe_error_from_event`. -/
def safeErrorFromEvent (e : Event) : Text :=
  match getItem e "code".toList with
  | .str code =>
    let lowered := code.lower
    if lowered.contains "rate".toList then "rate_limit".toList
    else if lowered.contains "auth".toList || lowered.contains "unauthorized".toList ||
        lowered.contains "forbidden".toList then "auth".toList
    else if lowered.contains "overload".toList then "overloaded".toList
    else "process_exit".toList
  | _ => "process_exit".toList

/-- `_safe_error_from_status`. -/
def safeErrorFromStatus (status : Loaded) : Except Exc Text := do
  checkHash status
  if isNumber 401 status || isNumber 403 status then pure "auth".toList
  else if isNumber 429 status then pure "rate_limit".toList
  else if isNumber 529 status || isNumber 503 status then pure "overloaded".toList
  else pure "process_exit".toList

/-! ## Outputs -/

/-- `s.encode()[:n].decode("utf-8", "ignore")`: the characters that fit whole. -/
def takeBytes : Nat → Text → Text
  | _, [] => []
  | n, c :: s =>
    if (Text.utf8 c).length ≤ n then c :: takeBytes (n - (Text.utf8 c).length) s else []

/-- `_bounded_event_payload`. -/
def boundedEventPayload (payload : Text) : Text × Bool :=
  if payload.encode.length ≤ maxEventBytes then (payload, false)
  else (takeBytes maxEventBytes payload, true)

/-- `RecursionError`, which is a `RuntimeError`. -/
def recursionError : Exc := .runtimeError "maximum recursion depth exceeded".toList

/-- The events of lines from number `index` on. -/
def eventsFrom (depth : Nat) : Nat → List Text → Except Exc (List Event × Bool)
  | _, [] => .ok ([], false)
  | index, line :: lines =>
    if maxEventLines ≤ index then .ok ([], true)
    else
      match Json.loads depth line with
      | .error .recursionError => .error recursionError
      | .ok (.obj fields) => (eventsFrom depth (index + 1) lines).map fun r => (fields :: r.1, r.2)
      | _ => (eventsFrom depth (index + 1) lines).map fun r => (r.1, true)

/-- `_json_lines`. -/
def jsonLines (depth : Nat) (payload : Text) : Except Exc (List Event × Bool) :=
  let bounded := boundedEventPayload payload
  (eventsFrom depth 0 bounded.1.lines).map fun r => (r.1, bounded.2 || r.2)

/-- The fields of elements that are all objects. -/
def allObjects : List Loaded → Option (List Event)
  | [] => some []
  | .obj fields :: xs => (allObjects xs).map (fields :: ·)
  | _ :: _ => none

/-- `_json_payload`. -/
def jsonPayload (depth : Nat) (payload : Text) : Except Exc (List Event × Bool) :=
  let bounded := boundedEventPayload payload
  let stripped := bounded.1.strip
  if stripped = [] then .ok ([], true)
  else
    match Json.loads depth stripped with
    | .error .recursionError => .error recursionError
    | .error _ => (jsonLines depth bounded.1).map fun r => (r.1, bounded.2 || r.2)
    | .ok (.obj one) => .ok ([one], bounded.2)
    | .ok (.arr xs) =>
      match allObjects xs with
      | some one => .ok (one.take maxEventLines, bounded.2 || decide (maxEventLines < one.length))
      | none => .ok ([], true)
    | .ok _ => .ok ([], true)

structure ParsedVendorTelemetry where
  output : Text
  metadata : Meta

/-- `_bounded_output`. -/
def boundedOutput (output : Text) : Except Exc Text := do
  reject (maxFinalOutputBytes < output.encode.length) "vendor final output exceeds size cap".toList
  pure output

/-! ## Codex -/

def toolItemTypes : List Text :=
  ["command_execution", "mcp_tool_call", "web_search", "file_change"].map String.toList

/-- What the loop over the events has found. -/
structure CodexState where
  usage : Option Usage
  toolCalls : Nat
  terminalSeen : Bool
  unknownEvent : Bool
  safeErrorCode : Option Text

def codexEvent (st : CodexState) (e : Event) : Except Exc CodexState := do
  let typ := getItem e "type".toList
  if isText "turn.completed".toList typ then
    match getItem e "usage".toList with
    | .obj fields => pure { st with terminalSeen := true, usage := numericUsage (.obj fields) }
    | _ => pure { st with terminalSeen := true }
  else if isText "item.completed".toList typ then
    match getItem e "item".toList with
    | .obj nested =>
      if ← memberOf toolItemTypes (getItem nested "type".toList) then
        pure { st with toolCalls := st.toolCalls + 1 }
      else pure st
    | _ => pure st
  else if ← memberOf ["turn.failed".toList, "error".toList] typ then
    pure { st with terminalSeen := true, safeErrorCode := some (safeErrorFromEvent e) }
  else if ← memberOf ["thread.started".toList, "turn.started".toList, "item.started".toList,
      "item.updated".toList] typ then
    pure st
  else pure { st with unknownEvent := true }

def codexStart : CodexState := ⟨none, 0, false, false, none⟩

/-- The metadata of an execution whose version has no schema. -/
def unsupportedMeta (vendor cliVersion : Text) (exitCode : Int) (streamTruncated : Bool) :
    Except Exc Meta :=
  unavailableMeta vendor (some cliVersion) (if exitCode = 0 then "done".toList else "failed".toList)
    (if exitCode = 0 then none else some "unsupported_cli".toList) (some exitCode) streamTruncated

def parseCodexJsonl (depth : Nat) (payload lastMessage cliVersion : Text) (exitCode : Int)
    (streamTruncated : Bool) : Except Exc ParsedVendorTelemetry := do
  match eventSchema "codex".toList (some cliVersion) false with
  | none =>
    let output ← boundedOutput lastMessage
    let metadata ← unsupportedMeta "codex".toList cliVersion exitCode streamTruncated
    pure ⟨output, metadata⟩
  | some schema =>
    let (events, parsePartial) ← jsonLines depth payload
    let st ← events.foldlM codexEvent codexStart
    let done := exitCode = 0 ∧ st.terminalSeen = true ∧ st.safeErrorCode = none ∧
      streamTruncated = false
    let safeErrorCode :=
      if streamTruncated then some "output_limit".toList
      else if exitCode ≠ 0 ∧ st.safeErrorCode = none then some "process_exit".toList
      else st.safeErrorCode
    let incomplete := parsePartial || st.unknownEvent || streamTruncated || st.usage.isNone
    let metadata ← makeMeta (metaOf "codex".toList cliVersion schema
      (if done then "done".toList else "failed".toList) safeErrorCode exitCode streamTruncated
      (st.usage.getD []) st.toolCalls events.length
      (if incomplete then "partial".toList else "ok".toList))
    let output ← boundedOutput lastMessage
    pure ⟨output, metadata⟩

/-! ## Claude -/

/-- The last event of type `result`. -/
def lastResult (events : List Event) : Option Event :=
  events.reverse.find? fun e => isText "result".toList (getItem e "type".toList)

/-- The blocks of a message that use a tool. -/
def toolUses (e : Event) : Nat :=
  if isText "assistant".toList (getItem e "type".toList) then
    match getItem e "message".toList with
    | .obj message =>
      match getItem message "content".toList with
      | .arr content => content.countP fun block =>
          match block with
          | .obj fields => isText "tool_use".toList (getItem fields "type".toList)
          | _ => false
      | _ => 0
    | _ => 0
  else 0

/-- The text of a result, and whether it is none. -/
def resultOutput (result : Option Event) : Text × Bool :=
  match result with
  | none => ([], false)
  | some e =>
    match get e "result".toList with
    | none => ([], false)
    | some (.str s) => (s, false)
    | some _ => ([], true)

/-- A result says whether it is an error; where there is none, the exit code does. -/
def resultIsError (result : Option Event) (exitCode : Int) : Bool :=
  match result with
  | some e => truthy (getItem e "is_error".toList)
  | none => decide (exitCode ≠ 0)

/-- The error code of an execution, from the status of the API in its result. -/
def resultErrorCode (streamTruncated failed : Bool) (status : Loaded) :
    Except Exc (Option Text) :=
  if streamTruncated then pure (some "output_limit".toList)
  else if failed then (safeErrorFromStatus status).map some
  else pure none

def parseClaudeJson (depth : Nat) (payload cliVersion : Text) (exitCode : Int)
    (streamTruncated attestation : Bool) : Except Exc ParsedVendorTelemetry := do
  match eventSchema "claude".toList (some cliVersion) attestation with
  | none =>
    let metadata ← unsupportedMeta "claude".toList cliVersion exitCode streamTruncated
    pure ⟨[], metadata⟩
  | some schema =>
    let (events, parsePartial) ← jsonPayload depth payload
    let result := lastResult events
    let usage := result.bind fun e => numericUsage (getItem e "usage".toList)
    let failed := resultIsError result exitCode || decide (exitCode ≠ 0) || streamTruncated
    let safeErrorCode ← resultErrorCode streamTruncated failed
      (result.elim .null fun e => getItem e "api_error_status".toList)
    let (output, notText) := resultOutput result
    let incomplete := parsePartial || notText || streamTruncated || result.isNone || usage.isNone
    let metadata ← makeMeta (metaOf "claude".toList cliVersion schema
      (if failed then "failed".toList else "done".toList) safeErrorCode exitCode streamTruncated
      (usage.getD []) (events.map toolUses).sum events.length
      (if incomplete then "partial".toList else "ok".toList))
    let output ← boundedOutput output
    pure ⟨output, metadata⟩

end VendorTelemetry
