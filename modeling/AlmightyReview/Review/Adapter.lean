import AlmightyReview.Review.ContentFree
import AlmightyReview.Review.FindingsSchema
import AlmightyReview.Lib.Scan

/-!
# Vendor adapters

`vendors`: one execution of the CLI of a vendor, from the bytes that it writes to its findings.

* `drainLimited`: a stream is read to its end, and kept up to a limit (`drainLimited_eq`: however it
  was cut into reads).
* `reviewExecution`: what an output says about the execution. Claude's is plain text, or else JSON;
  Codex writes events, and its last message to a file.
* `review`: the findings, or one of the errors that the pipeline tells apart.
* `review_complete`: findings are only taken of a CLI that ended well and whose streams were kept
  whole, and only of its answer.
-/

namespace Vendors

open FindingsSchema (FindingsError parseFindings)
open VendorTelemetry

/-! ## Processes -/

/-- `_MAX_STREAM_BYTES`. -/
def maxStreamBytes : Nat := 10 * 1024 * 1024

/-- The limit of the file with the last message. -/
def maxLastMessageBytes : Nat := 2 * 1024 * 1024

/-- The variables of `_drain_limited`. -/
structure Drain where
  kept : List Nat
  truncated : Bool

/-- The body of its loop. -/
def drainChunk (limit : Nat) (d : Drain) (chunk : List Nat) : Drain :=
  let remaining : Int := limit - d.kept.length
  { kept := if 0 < remaining then d.kept ++ chunk.take remaining.toNat else d.kept
    truncated := d.truncated || decide (remaining < chunk.length) }

/-- `_drain_limited`: a stream ends with an empty read. -/
def drainLimited (limit : Nat) (reads : List (List Nat)) : Drain :=
  (reads.takeWhile (· ≠ [])).foldl (drainChunk limit) ⟨[], false⟩

/-- How a CLI that was started ran. -/
structure CliRun where
  /-- What the reads of a stream gave. -/
  stdout : List (List Nat)
  stderr : List (List Nat)
  exitCode : Int
  durationMs : Nat
  /-- The file for the last message, if it can be read. -/
  lastMessage : Option (List Nat)

inductive RunEnd where
  /-- It could not be started, or not be read. -/
  | raised (e : Exc)
  | timedOut
  | ended (run : CliRun)

structure ProcessOutput where
  stdout : Text
  stderr : Text
  exitCode : Int
  durationMs : Nat
  stdoutTruncated : Bool
  stderrTruncated : Bool

/-- The output of `run_bounded_process`. -/
def processOutput (run : CliRun) : ProcessOutput :=
  let out := drainLimited maxStreamBytes run.stdout
  let err := drainLimited maxStreamBytes run.stderr
  { stdout := Text.decodeUtf8 out.kept
    stderr := Text.decodeUtf8 err.kept
    exitCode := run.exitCode
    durationMs := run.durationMs
    stdoutTruncated := out.truncated
    stderrTruncated := err.truncated }

/-- Either stream was cut. -/
def ProcessOutput.truncated (raw : ProcessOutput) : Bool :=
  raw.stdoutTruncated || raw.stderrTruncated

/-- `_read_file_bounded`. -/
def readFileBounded (file : Option (List Nat)) (limit : Nat) : List Nat × Bool :=
  match file with
  | none => ([], false)
  | some data => (data.take limit, decide (limit < data.length))

/-! ## Executions -/

structure VendorExecution where
  output : Text
  status : Text
  safeErrorCode : Option Text
  exitCode : Option Int
  cliName : Text
  cliVersion : Option Text
  eventSchema : Option Text
  streamTruncated : Bool
  telemetry : Meta
  durationMs : Option Nat

/-- `_from_parsed`. -/
def fromParsed (parsed : ParsedVendorTelemetry) (raw : ProcessOutput) : VendorExecution where
  output := parsed.output
  status := parsed.metadata.status
  safeErrorCode := parsed.metadata.safeErrorCode
  exitCode := parsed.metadata.exitCode
  cliName := parsed.metadata.cliName
  cliVersion := parsed.metadata.cliVersion
  eventSchema := parsed.metadata.eventSchema
  streamTruncated := parsed.metadata.streamTruncated
  telemetry := parsed.metadata
  durationMs := some raw.durationMs

/-- The two adapters. -/
inductive Vendor where
  | claude
  | codex
  deriving DecidableEq, Repr

def Vendor.name : Vendor → Text
  | .claude => "claude".toList
  | .codex => "codex".toList

def unknownVersion : Text := "unknown".toList

/-- `normalize_legacy_output`. -/
def normalizeLegacyOutput (vendor output : Text) (cliVersion : Option Text) :
    Except Exc ParsedVendorTelemetry := do
  let output ← boundedOutput output
  let metadata ← unavailableMeta vendor cliVersion "done".toList none none false
  pure ⟨output, metadata⟩

/-- `_legacy_execution` of the output of a process. -/
def legacyExecution (v : Vendor) (raw : ProcessOutput) (version : Text) :
    Except Exc VendorExecution := do
  let normalizedVersion := if version = unknownVersion then none else some version
  let parsed ←
    if raw.exitCode = 0 ∧ raw.truncated = false then
      normalizeLegacyOutput v.name raw.stdout normalizedVersion
    else do
      let metadata ← unavailableMeta v.name normalizedVersion "failed".toList
        (some (if raw.truncated then "output_limit".toList else "process_exit".toList))
        (some raw.exitCode) raw.truncated
      pure ⟨[], metadata⟩
  pure (fromParsed parsed raw)

/-- The output begins like JSON. -/
def looksLikeJson (output : Text) : Bool := Text.startsWith (Text.lstrip output) ['{']

/-- The version for a parser. -/
def parserVersion (version : Text) : Text := if version = unknownVersion then [] else version

/-- `ClaudeAdapter._review_execution`. -/
def claudeExecution (depth : Nat) (raw : ProcessOutput) (version : Text) :
    Except Exc VendorExecution :=
  if looksLikeJson raw.stdout then do
    let parsed ← parseClaudeJson depth raw.stdout (parserVersion version) raw.exitCode
      raw.truncated false
    pure (fromParsed parsed raw)
  else legacyExecution .claude raw version

/-- `CodexAdapter._review_execution`. -/
def codexExecution (depth : Nat) (raw : ProcessOutput) (file : Option (List Nat))
    (version : Text) : Except Exc VendorExecution :=
  if eventSchema "codex".toList (some version) false = none then
    legacyExecution .codex raw version
  else
    let (data, finalTruncated) := readFileBounded file maxLastMessageBytes
    let lastMessage := Text.decodeUtf8 data
    -- an older binary that prints the answer itself
    if lastMessage = [] ∧ looksLikeJson raw.stdout = false then
      legacyExecution .codex raw version
    else do
      let parsed ← parseCodexJsonl depth raw.stdout lastMessage (parserVersion version)
        raw.exitCode (raw.truncated || finalTruncated)
      pure (fromParsed parsed raw)

def reviewExecution (depth : Nat) (v : Vendor) (run : CliRun) (version : Text) :
    Except Exc VendorExecution :=
  match v with
  | .claude => claudeExecution depth (processOutput run) version
  | .codex => codexExecution depth (processOutput run) run.lastMessage version

/-! ## Reviews -/

/-- The errors of a review, as `_run_vendor_prepared` tells them apart. -/
inductive ReviewError where
  /-- `VendorTimeout`. -/
  | timeout
  /-- `VendorProcessError`. -/
  | process (execution : VendorExecution)
  | raised (e : Exc)

structure VendorReviewResult where
  findings : List ReviewFinding
  execution : VendorExecution

/-- `cli_version or self.probe_cli_version()`. -/
def boundVersion (cliVersion probed : Option Text) : Text :=
  (cliVersion.filter (· ≠ [])).getD ((probed.filter (· ≠ [])).getD unknownVersion)

/-- The execution whose answer has no findings that can be read. -/
def invalidOutput (execution : VendorExecution) : VendorExecution :=
  { execution with
    output := []
    status := "failed".toList
    safeErrorCode := some "invalid_output".toList
    telemetry := { execution.telemetry with
      status := "failed".toList
      safeErrorCode := some "invalid_output".toList } }

/-- `review`, after its CLI was run. -/
def reviewOf (printable : Char → Bool) (depth : Nat) (v : Vendor)
    (execution : Except Exc VendorExecution) : Except ReviewError VendorReviewResult :=
  match execution with
  | .error e => .error (.raised e)
  | .ok execution =>
    if execution.status ≠ "done".toList then .error (.process execution)
    else
      match parseFindings printable depth execution.output v.name with
      | .error _ => .error (.process (invalidOutput execution))
      | .ok findings => .ok ⟨findings, execution⟩

def review (printable : Char → Bool) (depth : Nat) (v : Vendor) (cliVersion probed : Option Text)
    (e : RunEnd) : Except ReviewError VendorReviewResult :=
  match e with
  | .raised e => .error (.raised e)
  | .timedOut => .error .timeout
  | .ended run =>
    reviewOf printable depth v (reviewExecution depth v run (boundVersion cliVersion probed))

/-! ## Streams -/

/-- What a stream has up to its end. -/
def streamOf (reads : List (List Nat)) : List Nat := (reads.takeWhile (· ≠ [])).flatten

/-- One read: the state is that of what was read so far. -/
theorem drainChunk_eq (limit : Nat) (read chunk : List Nat) (hne : chunk ≠ []) :
    drainChunk limit ⟨read.take limit, decide (limit < read.length)⟩ chunk =
      ⟨(read ++ chunk).take limit, decide (limit < (read ++ chunk).length)⟩ := by
  have hpos : 0 < chunk.length := List.length_pos_iff.mpr hne
  unfold drainChunk
  simp only [List.length_take, List.length_append, Drain.mk.injEq]
  constructor
  · split
    · rw [List.take_append]
      congr 2
      omega
    · rw [List.take_append, Nat.sub_eq_zero_of_le (by omega), List.take_zero, List.append_nil]
  · rw [← Bool.decide_or, decide_eq_decide]
    omega

/-- **A stream.** However it is cut into reads, its first bytes are kept, and it counts as cut when
there are more. -/
theorem drainLimited_eq (limit : Nat) (reads : List (List Nat)) :
    drainLimited limit reads =
      ⟨(streamOf reads).take limit, decide (limit < (streamOf reads).length)⟩ := by
  have hgen : ∀ (chunks : List (List Nat)) (read : List Nat), (∀ c ∈ chunks, c ≠ []) →
      chunks.foldl (drainChunk limit) ⟨read.take limit, decide (limit < read.length)⟩ =
        ⟨(read ++ chunks.flatten).take limit,
          decide (limit < (read ++ chunks.flatten).length)⟩ := by
    intro chunks
    induction chunks with
    | nil =>
      intro read _
      rw [List.flatten_nil, List.append_nil]
      rfl
    | cons chunk chunks ih =>
      intro read hne
      rw [List.foldl_cons, drainChunk_eq limit read chunk (hne chunk List.mem_cons_self),
        ih (read ++ chunk) fun c hc => hne c (List.mem_cons_of_mem _ hc), List.flatten_cons,
        List.append_assoc]
  have hreads : ∀ c ∈ reads.takeWhile (· ≠ []), c ≠ [] := fun c hc => by
    simpa using List.mem_takeWhile_imp hc
  have := hgen (reads.takeWhile (· ≠ [])) [] hreads
  simpa [drainLimited, streamOf] using this

/-! ## Turns of Codex -/

/-- The event ends a turn well. -/
def Completes (e : Event) : Prop := ofType ["turn.completed"] e = true

/-- The event is that of an error. -/
def Fails (e : Event) : Prop := ofType ["turn.failed", "error"] e = true

/-- What the state says of the turns so far. -/
structure Turned (events : List Event) (st : CodexState) : Prop where
  seen : st.terminalSeen = true → st.safeErrorCode = none → ∃ e ∈ events, Completes e
  code : st.safeErrorCode = none → ∀ e ∈ events, ¬Fails e

theorem turned_start : Turned [] codexStart where
  seen h := nomatch h
  code _ _ he := nomatch he

theorem ofType_one (t : String) (e : Event) :
    ofType [t] e = isText t.toList (getItem e "type".toList) := by
  rw [ofType, List.any_cons, List.any_nil, Bool.or_false]

/-- An event has one type. -/
theorem not_fails {e : Event} {text : Text} (h : isText text (getItem e "type".toList) = true)
    (hne : ∀ t ∈ ["turn.failed", "error"], t.toList ≠ text) : ¬Fails e := by
  intro hf
  unfold Fails ofType at hf
  obtain ⟨t, hmem, ht⟩ := List.any_eq_true.mp hf
  cases hv : getItem e "type".toList with
  | str s =>
    rw [hv] at h ht
    simp only [isText, beq_iff_eq] at h ht
    exact hne t hmem (ht.symm.trans h)
  | _ =>
    rw [hv] at h
    cases h

/-- An event that is no error leaves the error code. -/
theorem codexEvent_turned {e : Event} {events : List Event} {st st' : CodexState}
    (h : Turned events st) (hstep : codexEvent st e = .ok st') : Turned (events ++ [e]) st' := by
  have hkeep : ∀ st'' : CodexState, st''.safeErrorCode = st.safeErrorCode →
      (st''.terminalSeen = true → st.terminalSeen = true ∨ Completes e) → ¬Fails e →
      Turned (events ++ [e]) st'' := by
    intro st'' hcode hseen hfails
    constructor
    · intro ht hc
      rcases hseen ht with ht | hcompletes
      · obtain ⟨d, hd, hcompletes⟩ := h.seen ht (hcode ▸ hc)
        exact ⟨d, List.mem_append_left _ hd, hcompletes⟩
      · exact ⟨e, List.mem_append_right _ (List.mem_singleton_self e), hcompletes⟩
    · intro hc d hd
      rcases List.mem_append.mp hd with hd | hd
      · exact h.code (hcode ▸ hc) d hd
      · rwa [List.mem_singleton.mp hd]
  unfold codexEvent at hstep
  dsimp only at hstep
  by_cases hturn : isText "turn.completed".toList (getItem e "type".toList) = true
  · have hcompletes : Completes e := (ofType_one _ e).trans hturn
    have hfails := not_fails hturn (by decide +kernel)
    rw [if_pos hturn] at hstep
    split at hstep
    · obtain rfl := Except.ok.inj hstep
      exact hkeep _ rfl (fun _ => .inr hcompletes) hfails
    · obtain rfl := Except.ok.inj hstep
      exact hkeep _ rfl (fun _ => .inr hcompletes) hfails
  rw [if_neg hturn] at hstep
  by_cases hitem : isText "item.completed".toList (getItem e "type".toList) = true
  · have hfails := not_fails hitem (by decide +kernel)
    rw [if_pos hitem] at hstep
    split at hstep
    · obtain ⟨tool, -, hstep⟩ := Exc.bind_ok hstep
      split at hstep
      · obtain rfl := Except.ok.inj hstep
        exact hkeep _ rfl .inl hfails
      · obtain rfl := Except.ok.inj hstep
        exact hkeep _ rfl .inl hfails
    · obtain rfl := Except.ok.inj hstep
      exact hkeep _ rfl .inl hfails
  rw [if_neg hitem] at hstep
  obtain ⟨failed, hfailed, hstep⟩ := Exc.bind_ok hstep
  split at hstep
  · obtain rfl := Except.ok.inj hstep
    exact ⟨fun _ hc => (nomatch hc), fun hc => (nomatch hc)⟩
  · next hfalse =>
    have hfails : ¬Fails e := by
      obtain ⟨u, -, hfailed⟩ := Exc.bind_ok hfailed
      have : ofType ["turn.failed", "error"] e = failed := by
        simpa [ofType] using Except.ok.inj hfailed
      unfold Fails
      rwa [this]
    obtain ⟨known, -, hstep⟩ := Exc.bind_ok hstep
    split at hstep
    · obtain rfl := Except.ok.inj hstep
      exact hkeep _ rfl .inl hfails
    · obtain rfl := Except.ok.inj hstep
      exact hkeep _ rfl .inl hfails

theorem foldlM_turned {events : List Event} : ∀ {read : List Event} {st st' : CodexState},
    Turned read st → events.foldlM codexEvent st = .ok st' → Turned (read ++ events) st' := by
  induction events with
  | nil =>
    intro read st st' h hrun
    obtain rfl := Except.ok.inj hrun
    rwa [List.append_nil]
  | cons e events ih =>
    intro read st st' h hrun
    rw [List.foldlM_cons] at hrun
    obtain ⟨st₁, hstep, hrun⟩ := Exc.bind_ok hrun
    have := ih (codexEvent_turned h hstep) hrun
    rwa [List.append_assoc] at this

/-! ## Answers that are taken -/

/-- A stream is kept whole. -/
def Whole (reads : List (List Nat)) : Prop := (streamOf reads).length ≤ maxStreamBytes

/-- The answer is what the CLI printed. -/
def Printed (run : CliRun) (output : Text) : Prop :=
  output = Text.decodeUtf8 (streamOf run.stdout)

/-- The answer is the last message of Codex, whose events say that a turn ended well and that
nothing failed. -/
structure Reported (depth : Nat) (run : CliRun) (output : Text) : Prop where
  message : ∃ data ∈ run.lastMessage, data.length ≤ maxLastMessageBytes ∧
    output = Text.decodeUtf8 data
  events : ∃ events p, jsonLines depth (Text.decodeUtf8 (streamOf run.stdout)) = .ok (events, p) ∧
    (∃ e ∈ events, Completes e) ∧ ∀ e ∈ events, ¬Fails e

/-- A run whose answer may be taken. -/
structure Complete (depth : Nat) (v : Vendor) (run : CliRun) (output : Text) : Prop where
  exitCode : run.exitCode = 0
  stdout : Whole run.stdout
  stderr : Whole run.stderr
  size : output.encode.length ≤ maxFinalOutputBytes
  answer : Printed run output ∨ v = .codex ∧ Reported depth run output

theorem boundedOutput_ok {output out : Text} (h : boundedOutput output = .ok out) :
    out = output ∧ output.encode.length ≤ maxFinalOutputBytes := by
  obtain ⟨u, hu, h⟩ := Exc.bind_ok h
  refine ⟨(Except.ok.inj h).symm, ?_⟩
  have := reject_ok hu
  simpa using this

theorem drain_whole {reads : List (List Nat)}
    (h : (drainLimited maxStreamBytes reads).truncated = false) :
    Whole reads ∧ (drainLimited maxStreamBytes reads).kept = streamOf reads := by
  rw [drainLimited_eq] at h ⊢
  have hle : (streamOf reads).length ≤ maxStreamBytes := by simpa using h
  exact ⟨hle, List.take_of_length_le hle⟩

/-- Both streams are kept whole. -/
theorem processOutput_whole {run : CliRun} (h : (processOutput run).truncated = false) :
    Whole run.stdout ∧ Whole run.stderr ∧
      (processOutput run).stdout = Text.decodeUtf8 (streamOf run.stdout) := by
  unfold ProcessOutput.truncated at h
  obtain ⟨hout, herr⟩ := Bool.or_eq_false_iff.mp h
  obtain ⟨hout, hkept⟩ := drain_whole hout
  obtain ⟨herr, -⟩ := drain_whole herr
  refine ⟨hout, herr, ?_⟩
  show Text.decodeUtf8 (drainLimited maxStreamBytes run.stdout).kept = _
  rw [hkept]

/-- An answer that was printed is only taken of a run that ended well. -/
theorem legacy_complete {depth : Nat} {v : Vendor} {run : CliRun} {version : Text}
    {execution : VendorExecution}
    (h : legacyExecution v (processOutput run) version = .ok execution)
    (hdone : execution.status = "done".toList) : Complete depth v run execution.output := by
  unfold legacyExecution at h
  dsimp only at h
  split at h
  · next hended =>
    obtain ⟨parsed, hparsed, h⟩ := Exc.bind_ok h
    obtain ⟨out, hbounded, hparsed⟩ := Exc.bind_ok hparsed
    obtain ⟨m, -, hparsed⟩ := Exc.bind_ok hparsed
    obtain rfl := Except.ok.inj hparsed
    obtain rfl := Except.ok.inj h
    obtain ⟨hout, herr, hprinted⟩ := processOutput_whole hended.2
    obtain ⟨rfl, hsize⟩ := boundedOutput_ok hbounded
    exact ⟨hended.1, hout, herr, hsize, .inl hprinted⟩
  · obtain ⟨m, hm, h⟩ := Exc.bind_ok h
    obtain ⟨u, -, hm⟩ := Exc.bind_ok hm
    obtain rfl := Except.ok.inj hm
    obtain rfl := Except.ok.inj h
    exact absurd hdone (show "failed".toList ≠ "done".toList by decide +kernel)

/-! ### JSON and events -/

/-- No version of Claude has a schema here. -/
theorem eventSchema_claude (version : Option Text) :
    eventSchema "claude".toList version false = none := by
  unfold eventSchema supportedEventSchemas
  cases version with
  | none => rfl
  | some version =>
    dsimp only
    split
    · rfl
    · have hne : (("claude".toList, version) == ("codex".toList, "codex-cli 0.144.5".toList)) =
          false := by
        rw [beq_eq_false_iff_ne]
        intro h
        have hvendor : "claude".toList = "codex".toList := congrArg Prod.fst h
        exact absurd hvendor (by decide +kernel)
      rw [List.lookup_cons, hne]
      rfl

/-- The answer of Claude in JSON is not read. -/
theorem parseClaudeJson_output {depth : Nat} {payload cliVersion : Text} {exitCode : Int}
    {streamTruncated : Bool} {parsed : ParsedVendorTelemetry}
    (h : parseClaudeJson depth payload cliVersion exitCode streamTruncated false = .ok parsed) :
    parsed.output = [] := by
  unfold parseClaudeJson at h
  rw [eventSchema_claude] at h
  obtain ⟨m, -, h⟩ := Exc.bind_ok h
  obtain rfl := Except.ok.inj h
  rfl

/-- An empty answer has no findings that can be read. -/
theorem parseFindings_nil (printable : Char → Bool) (depth : Nat) (vendor : Text) :
    parseFindings printable depth [] vendor = .error (.unreadable .noBlock) := rfl

/-- Codex is done when it ended well, its streams were kept whole, and its events say so. -/
theorem parseCodexJsonl_done {depth : Nat} {payload lastMessage cliVersion : Text} {exitCode : Int}
    {streamTruncated : Bool} {parsed : ParsedVendorTelemetry}
    (hschema : eventSchema "codex".toList (some cliVersion) false ≠ none)
    (h : parseCodexJsonl depth payload lastMessage cliVersion exitCode streamTruncated = .ok parsed)
    (hdone : parsed.metadata.status = "done".toList) :
    exitCode = 0 ∧ streamTruncated = false ∧ parsed.output = lastMessage ∧
      lastMessage.encode.length ≤ maxFinalOutputBytes ∧
      ∃ events p, jsonLines depth payload = .ok (events, p) ∧
        (∃ e ∈ events, Completes e) ∧ ∀ e ∈ events, ¬Fails e := by
  unfold parseCodexJsonl at h
  split at h
  · next hnone => exact absurd hnone hschema
  · obtain ⟨⟨events, p⟩, hevents, h⟩ := Exc.bind_ok h
    obtain ⟨st, hst, h⟩ := Exc.bind_ok h
    obtain ⟨m, hm, h⟩ := Exc.bind_ok h
    obtain ⟨out, hout, h⟩ := Exc.bind_ok h
    obtain rfl := Except.ok.inj h
    obtain ⟨u, -, hm⟩ := Exc.bind_ok hm
    obtain rfl := Except.ok.inj hm
    obtain ⟨rfl, hsize⟩ := boundedOutput_ok hout
    have hturned := foldlM_turned turned_start hst
    rw [List.nil_append] at hturned
    unfold metaOf at hdone
    dsimp only at hdone
    split at hdone
    · next hended =>
      obtain ⟨hexit, hseen, hcode, hcut⟩ := hended
      exact ⟨hexit, hcut, rfl, hsize, events, p, hevents, hturned.seen hseen hcode,
        hturned.code hcode⟩
    · exact absurd hdone (by decide +kernel)

theorem readFileBounded_whole {file : Option (List Nat)} {limit : Nat}
    (h : (readFileBounded file limit).2 = false) (hne : (readFileBounded file limit).1 ≠ []) :
    ∃ data ∈ file, data.length ≤ limit ∧ (readFileBounded file limit).1 = data := by
  unfold readFileBounded at h hne ⊢
  cases file with
  | none => exact absurd rfl hne
  | some data =>
    have hle : data.length ≤ limit := by simpa using h
    exact ⟨data, rfl, hle, List.take_of_length_le hle⟩

/-- A version with a schema is known. -/
theorem parserVersion_eq {version : Text}
    (h : eventSchema "codex".toList (some version) false ≠ none) :
    parserVersion version = version := by
  refine if_neg fun hunknown => h ?_
  rw [hunknown]
  decide +kernel

/-- **An execution that is done**, with an answer that is not empty, is a complete run. -/
theorem reviewExecution_complete {depth : Nat} {v : Vendor} {run : CliRun} {version : Text}
    {execution : VendorExecution} (h : reviewExecution depth v run version = .ok execution)
    (hdone : execution.status = "done".toList) (hne : execution.output ≠ []) :
    Complete depth v run execution.output := by
  cases v with
  | claude =>
    unfold reviewExecution claudeExecution at h
    dsimp only at h
    split at h
    · obtain ⟨parsed, hparsed, h⟩ := Exc.bind_ok h
      obtain rfl := Except.ok.inj h
      exact absurd (parseClaudeJson_output hparsed) hne
    · exact legacy_complete h hdone
  | codex =>
    unfold reviewExecution codexExecution at h
    dsimp only at h
    split at h
    · exact legacy_complete h hdone
    next hschema =>
    split at h
    · exact legacy_complete h hdone
    · obtain ⟨parsed, hparsed, h⟩ := Exc.bind_ok h
      obtain rfl := Except.ok.inj h
      obtain ⟨hexit, hcut, hout, hsize, hevents⟩ :=
        parseCodexJsonl_done (by rwa [parserVersion_eq hschema]) hparsed hdone
      obtain ⟨hcut, hfile⟩ := Bool.or_eq_false_iff.mp hcut
      obtain ⟨hstdout, hstderr, hprinted⟩ := processOutput_whole hcut
      have hdata : (readFileBounded run.lastMessage maxLastMessageBytes).1 ≠ [] := by
        intro hnil
        rw [hnil] at hout
        exact hne hout
      obtain ⟨data, hmem, hle, hread⟩ := readFileBounded_whole hfile hdata
      rw [hread] at hout hsize
      rw [hprinted] at hevents
      refine ⟨hexit, hstdout, hstderr, ?_, .inr ⟨rfl, ⟨data, hmem, hle, hout⟩, hevents⟩⟩
      show parsed.output.encode.length ≤ maxFinalOutputBytes
      rwa [hout]

/-- What a review gives. -/
structure Reviewed (printable : Char → Bool) (depth : Nat) (v : Vendor) (run : CliRun)
    (r : VendorReviewResult) : Prop where
  complete : Complete depth v run r.execution.output
  findings : parseFindings printable depth r.execution.output v.name = .ok r.findings
  status : r.execution.status = "done".toList

/-- **Findings are only taken of a run that is complete**: its CLI exited with 0, neither stream
was cut, and the answer is what was printed, or else the last message of Codex. -/
theorem review_complete (printable : Char → Bool) (depth : Nat) (v : Vendor)
    (cliVersion probed : Option Text) (e : RunEnd) (r : VendorReviewResult)
    (h : review printable depth v cliVersion probed e = .ok r) :
    ∃ run, e = .ended run ∧ Reviewed printable depth v run r := by
  cases e with
  | raised e => cases h
  | timedOut => cases h
  | ended run =>
    refine ⟨run, rfl, ?_⟩
    unfold review reviewOf at h
    dsimp only at h
    split at h
    · cases h
    · next execution hexecution =>
      split at h
      · cases h
      · next hstatus =>
        have hdone : execution.status = "done".toList := not_not.mp hstatus
        split at h
        · cases h
        · next findings hfindings =>
          obtain rfl := Except.ok.inj h
          refine ⟨reviewExecution_complete hexecution hdone ?_, hfindings, hdone⟩
          intro hnil
          rw [hnil, parseFindings_nil] at hfindings
          cases hfindings

/-- The version of the run below. -/
def reportedVersion : Text := "codex-cli 0.144.5".toList

/-- A run of Codex whose answer is its last message; its events came in two reads. -/
def reportedRun : CliRun where
  stdout := [Text.encode "\x7b\"type\":\"turn.comp".toList, Text.encode "leted\"\x7d\n".toList]
  stderr := []
  exitCode := 0
  durationMs := 5
  lastMessage := some (Text.encode (FindingsSchema.answer "\"high\""))

theorem review_complete_reported : ∃ r run,
    review (fun _ => false) 100 .codex (some reportedVersion) none (.ended reportedRun) = .ok r ∧
      RunEnd.ended reportedRun = .ended run ∧
      Reviewed (fun _ => false) 100 .codex run r := by
  have hok : (review (fun _ => false) 100 .codex (some reportedVersion) none
      (.ended reportedRun)).isOk = true := by decide +kernel
  cases hr : review (fun _ => false) 100 .codex (some reportedVersion) none
      (.ended reportedRun) with
  | error e =>
    rw [hr] at hok
    cases hok
  | ok r =>
    obtain ⟨run, hrun, hreviewed⟩ := review_complete _ _ _ _ _ _ r hr
    exact ⟨r, run, rfl, hrun, hreviewed⟩

end Vendors
