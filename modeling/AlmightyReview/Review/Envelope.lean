import AlmightyReview.Lib.Raise
import AlmightyReview.Review.Adapter
import AlmightyReview.Review.Converge
import AlmightyReview.Review.Metadata
import AlmightyReview.Review.Recorded

/-!
# What is recorded of an execution

What an adapter says of an execution is stored in the envelope of its vendor.

* `answerOf`: what `_run_vendor_prepared` sees of a review.
* `Valid`: metadata that pass `validateMeta`, of the CLI with this version. `reviewExecution_valid`:
  those of an execution are valid, whether its findings are taken or not.
* `answers_valid`: what is recorded of a chunk passes the checks of an envelope.
* `envelope_ok_iff`: no output of a CLI whose version is known keeps the envelope of a run from
  being built, unless it is too large.
-/

namespace Vendors

open VendorTelemetry
open Pipeline (answerTelemetry buildPromptChunks chunkExecutionMeta chunkOutcome sameCli
  vendorExecutionEnvelope)

/-! ## Answers -/

/-- What `_run_vendor_prepared` sees of a review; a cancellation is not caught. -/
def answerOf (r : Except ReviewError VendorReviewResult) : Except Exc ChunkAnswer :=
  match r with
  | .ok r => .ok (.reviewed r.findings (some (telemetryOf r.execution.telemetry
      r.execution.durationMs)))
  | .error .timeout => .ok .timedOut
  | .error (.process execution) => .ok (.processError (telemetryOf execution.telemetry
      execution.durationMs))
  | .error (.raised .cancelledError) => .error .cancelledError
  | .error (.raised _) => .ok .failed

/-- `execution_contract`. -/
def executionContract (v : Vendor) (version : Text) : AdapterContract where
  adapterName :=
    match v with
    | .claude => "server.review.vendors.ClaudeAdapter".toList
    | .codex => "server.review.vendors.CodexAdapter".toList
  adapterVersion := "review-adapter-v1".toList
  cliVersion := version
  eventSchemaVersion := (eventSchema v.name (some version) false).getD "unavailable".toList

/-- What is recorded of a chunk after some execution of the CLI with this version. -/
def Answers (printable : Char → Bool) (depth : Nat) (v : Vendor) (version : Text)
    (p : PromptChunk) (c : ExecutionChunk) : Prop :=
  ∃ (probed : Option Text) (e : RunEnd) (answer : ChunkAnswer) (elapsedMs : Nat),
    answerOf (review printable depth v (some version) probed e) = .ok answer ∧
      c = (chunkOutcome v.name p answer elapsedMs).1

/-- The identity has the contract of the adapter. -/
structure Contracted (v : Vendor) (version : Text) (i : ExecutionIdentity) : Prop where
  vendor : i.vendor = v.name
  cliVersion : i.cliVersion = (executionContract v version).cliVersion
  eventSchemaVersion : i.eventSchemaVersion = (executionContract v version).eventSchemaVersion

/-! ## Metadata -/

/-- The states of telemetry. -/
def telemetryStates : List Text := ["ok".toList, "partial".toList, "unavailable".toList]

/-- What the checks say of metadata, as far as it is stored. -/
structure Checked (m : Meta) : Prop where
  code : m.safeErrorCode.all safeErrorCodes.contains = true
  telemetryStatus : telemetryStates.contains m.telemetryStatus = true
  texts : ∀ f ∈ [("cli_version".toList, m.cliVersion), ("event_schema".toList, m.eventSchema)],
    f.2.all (fun s => decide (s.length ≤ 128)) = true

/-- The metadata are those of the CLI of a vendor with this version. -/
structure Told (v : Vendor) (version : Text) (m : Meta) : Prop where
  cliName : m.cliName = v.name
  cliVersion : ∀ s ∈ m.cliVersion, s = version
  eventSchema : ∀ s ∈ m.eventSchema,
    VendorTelemetry.eventSchema v.name (some version) false = some s

structure Valid (v : Vendor) (version : Text) (m : Meta) : Prop where
  checked : Checked m
  told : Told v version m

theorem validateMeta_checked {m : Meta} {u : Unit} (h : validateMeta m = .ok u) : Checked m := by
  obtain ⟨_, -, h⟩ := Exc.bind_ok h
  obtain ⟨_, -, h⟩ := Exc.bind_ok h
  obtain ⟨_, -, h⟩ := Exc.bind_ok h
  obtain ⟨_, htelemetry, h⟩ := Exc.bind_ok h
  obtain ⟨_, hcode, h⟩ := Exc.bind_ok h
  obtain ⟨_, -, h⟩ := Exc.bind_ok h
  obtain ⟨_, htexts, h⟩ := Exc.bind_ok h
  refine ⟨(Bool.not_eq_false' _).mp (reject_ok hcode),
    (Bool.not_eq_false' _).mp (reject_ok htelemetry), fun f hf => ?_⟩
  have hany := reject_ok (Raise.forall_of_forM htexts f hf)
  rw [Option.any_eq_false] at hany
  rw [Option.all_eq_true]
  intro s hs
  simpa using hany s hs

/-- Metadata without numbers. -/
theorem unavailableMeta_valid {v : Vendor} {version status : Text}
    {cliVersion safeErrorCode : Option Text} {exitCode : Option Int} {streamTruncated : Bool}
    {m : Meta} (hversion : ∀ s ∈ cliVersion, s = version)
    (h : unavailableMeta v.name cliVersion status safeErrorCode exitCode streamTruncated = .ok m) :
    Valid v version m := by
  obtain ⟨u, hu, h⟩ := Exc.bind_ok h
  obtain rfl := Except.ok.inj h
  refine ⟨validateMeta_checked hu, rfl, hversion, fun s hs => ?_⟩
  cases cliVersion with
  | none => cases hs
  | some s' =>
    rw [← hversion s' rfl]
    exact hs

theorem legacyExecution_valid {v : Vendor} {raw : ProcessOutput} {version : Text}
    {execution : VendorExecution} (h : legacyExecution v raw version = .ok execution) :
    Valid v version execution.telemetry := by
  have hversion : ∀ s ∈ (if version = unknownVersion then none else some version),
      s = version := by
    intro s hs
    split at hs
    · cases hs
    · exact (Option.mem_some_iff.mp hs).symm
  unfold legacyExecution at h
  dsimp only at h
  split at h
  · obtain ⟨parsed, hparsed, h⟩ := Exc.bind_ok h
    obtain ⟨out, -, hparsed⟩ := Exc.bind_ok hparsed
    obtain ⟨m, hm, hparsed⟩ := Exc.bind_ok hparsed
    obtain rfl := Except.ok.inj hparsed
    obtain rfl := Except.ok.inj h
    exact unavailableMeta_valid hversion hm
  · obtain ⟨m, hm, h⟩ := Exc.bind_ok h
    obtain rfl := Except.ok.inj h
    exact unavailableMeta_valid hversion hm

theorem parseClaudeJson_valid {depth : Nat} {payload version : Text} {exitCode : Int}
    {streamTruncated : Bool} {parsed : ParsedVendorTelemetry}
    (h : parseClaudeJson depth payload version exitCode streamTruncated false = .ok parsed) :
    Valid .claude version parsed.metadata := by
  unfold parseClaudeJson at h
  rw [eventSchema_claude] at h
  obtain ⟨m, hm, h⟩ := Exc.bind_ok h
  obtain rfl := Except.ok.inj h
  exact unavailableMeta_valid (v := .claude) (fun s hs => (Option.mem_some_iff.mp hs).symm) hm

theorem parseCodexJsonl_valid {depth : Nat} {payload lastMessage version : Text}
    {exitCode : Int} {streamTruncated : Bool} {parsed : ParsedVendorTelemetry}
    (h : parseCodexJsonl depth payload lastMessage version exitCode streamTruncated =
      .ok parsed) : Valid .codex version parsed.metadata := by
  unfold parseCodexJsonl at h
  split at h
  · obtain ⟨out, -, h⟩ := Exc.bind_ok h
    obtain ⟨m, hm, h⟩ := Exc.bind_ok h
    obtain rfl := Except.ok.inj h
    exact unavailableMeta_valid (v := .codex) (fun s hs => (Option.mem_some_iff.mp hs).symm) hm
  · next schema hschema =>
    obtain ⟨⟨events, p⟩, -, h⟩ := Exc.bind_ok h
    obtain ⟨st, -, h⟩ := Exc.bind_ok h
    obtain ⟨m, hm, h⟩ := Exc.bind_ok h
    obtain ⟨out, -, h⟩ := Exc.bind_ok h
    obtain rfl := Except.ok.inj h
    obtain ⟨u, hu, hm⟩ := Exc.bind_ok hm
    obtain rfl := Except.ok.inj hm
    refine ⟨validateMeta_checked hu, rfl, fun s hs => (Option.mem_some_iff.mp hs).symm,
      fun s hs => ?_⟩
    rw [← Option.mem_some_iff.mp hs]
    exact hschema

/-- **An execution** has valid metadata, if the version of its CLI is known. -/
theorem reviewExecution_valid {depth : Nat} {v : Vendor} {run : CliRun} {version : Text}
    {execution : VendorExecution} (hknown : version ≠ unknownVersion)
    (h : reviewExecution depth v run version = .ok execution) :
    Valid v version execution.telemetry := by
  have hparser : parserVersion version = version := if_neg hknown
  cases v with
  | claude =>
    unfold reviewExecution claudeExecution at h
    dsimp only at h
    split at h
    · obtain ⟨parsed, hparsed, h⟩ := Exc.bind_ok h
      obtain rfl := Except.ok.inj h
      rw [hparser] at hparsed
      exact parseClaudeJson_valid hparsed
    · exact legacyExecution_valid h
  | codex =>
    unfold reviewExecution codexExecution at h
    dsimp only at h
    split at h
    · exact legacyExecution_valid h
    split at h
    · exact legacyExecution_valid h
    · obtain ⟨parsed, hparsed, h⟩ := Exc.bind_ok h
      obtain rfl := Except.ok.inj h
      rw [hparser] at hparsed
      exact parseCodexJsonl_valid hparsed

/-- An answer without findings has valid metadata as well. -/
theorem invalidOutput_valid {v : Vendor} {version : Text} {execution : VendorExecution}
    (h : Valid v version execution.telemetry) :
    Valid v version (invalidOutput execution).telemetry where
  checked := {
    code := by
      show (some "invalid_output".toList).all safeErrorCodes.contains = true
      decide +kernel
    telemetryStatus := h.checked.telemetryStatus
    texts := h.checked.texts }
  told := ⟨h.told.cliName, h.told.cliVersion, h.told.eventSchema⟩

/-! ## Chunks -/

/-- What the checks of a chunk and of its identity look at. -/
structure Storable (v : Vendor) (version : Text) (t : Telemetry) : Prop where
  code : t.safeErrorCode.all safeErrorCodes.contains = true
  telemetryStatus : telemetryStates.contains t.telemetryStatus = true
  cliName : t.cliName = some v.name
  cliVersion : t.cliVersion.all (fun s => decide (s.length ≤ 128)) = true
  eventSchema : t.eventSchema.all (fun s => decide (s.length ≤ 128)) = true
  sameVersion : ∀ s ∈ t.cliVersion, s = version
  sameSchema : ∀ s ∈ t.eventSchema,
    VendorTelemetry.eventSchema v.name (some version) false = some s

theorem telemetryOf_storable {v : Vendor} {version : Text} {m : Meta} (h : Valid v version m)
    (durationMs : Option Nat) : Storable v version (telemetryOf m durationMs) where
  code := h.checked.code
  telemetryStatus := h.checked.telemetryStatus
  cliName := congrArg some h.told.cliName
  cliVersion := h.checked.texts _ List.mem_cons_self
  eventSchema := h.checked.texts _ (List.mem_cons_of_mem _ List.mem_cons_self)
  sameVersion := h.told.cliVersion
  sameSchema := h.told.eventSchema

/-- The telemetry of a chunk that has none. -/
theorem unavailable_storable (v : Vendor) (version : Text) (status : ChunkStatus)
    (durationMs : Option Nat) :
    Storable v version
      (Pipeline.unavailableMeta v.name (Pipeline.fallbackCode status none) durationMs) where
  code := by
    show (Pipeline.fallbackCode status none).all safeErrorCodes.contains = true
    cases status <;> decide +kernel
  telemetryStatus := by
    show telemetryStates.contains "unavailable".toList = true
    decide +kernel
  cliName := rfl
  cliVersion := rfl
  eventSchema := rfl
  sameVersion s hs := by cases hs
  sameSchema s hs := by cases hs

theorem answerOf_raised {e : Exc} {answer : ChunkAnswer}
    (h : answerOf (.error (.raised e)) = .ok answer) : answer = .failed := by
  cases e <;> cases h <;> rfl

/-- Whatever a review gives, its telemetry can be stored. -/
theorem answerTelemetry_storable {printable : Char → Bool} {depth : Nat} {v : Vendor}
    {version : Text} {probed : Option Text} {e : RunEnd} {answer : ChunkAnswer}
    (hne : version ≠ []) (hknown : version ≠ unknownVersion)
    (h : answerOf (review printable depth v (some version) probed e) = .ok answer)
    (elapsedMs : Nat) : Storable v version (answerTelemetry v.name answer elapsedMs) := by
  have hbound : boundVersion (some version) probed = version := by
    unfold boundVersion
    rw [Option.filter_some, if_pos (decide_eq_true hne), Option.getD_some]
  cases e with
  | raised e =>
    rw [answerOf_raised h]
    exact unavailable_storable v version _ _
  | timedOut =>
    obtain rfl := Except.ok.inj h
    exact unavailable_storable v version _ _
  | ended run =>
    unfold review reviewOf at h
    dsimp only at h
    rw [hbound] at h
    cases hexecution : reviewExecution depth v run version with
    | error e =>
      rw [hexecution] at h
      rw [answerOf_raised h]
      exact unavailable_storable v version _ _
    | ok execution =>
      have hm := reviewExecution_valid hknown hexecution
      rw [hexecution] at h
      dsimp only at h
      split at h
      · obtain rfl := Except.ok.inj h
        exact telemetryOf_storable hm _
      split at h
      · obtain rfl := Except.ok.inj h
        exact telemetryOf_storable (invalidOutput_valid hm) _
      · obtain rfl := Except.ok.inj h
        exact telemetryOf_storable hm _

/-- What the checks of a chunk look at in its prompt. -/
structure Marked (p : PromptChunk) : Prop where
  diffHash : p.diffHash.length ≤ 128
  contextHash : p.contextHash.length ≤ 128
  chunkerVersion : p.chunkerVersion.length ≤ 128
  promptNonce : isHex 8 p.promptNonce = true

theorem length_name (v : Vendor) : v.name.length ≤ 128 := by
  cases v <;> decide +kernel

theorem validateExecutionChunk_ok {v : Vendor} {version : Text} {p : PromptChunk} {t : Telemetry}
    (hp : Marked p) (ht : Storable v version t) (status : ChunkStatus) :
    validateExecutionChunk (chunkExecutionMeta p status t) = .ok () := by
  have hcode : (!((chunkExecutionMeta p status t).safeErrorCode.all safeErrorCodes.contains)) =
      false := (Bool.not_eq_false' _).mpr ht.code
  have hstatus : (!(["ok".toList, "partial".toList, "unavailable".toList].contains
      (chunkExecutionMeta p status t).telemetryStatus)) = false :=
    (Bool.not_eq_false' _).mpr ht.telemetryStatus
  have hnonce : (!isHex 8 (chunkExecutionMeta p status t).promptNonce) = false :=
    (Bool.not_eq_false' _).mpr hp.promptNonce
  have hname : (chunkExecutionMeta p status t).cliName.all (fun s => decide (s.length ≤ 128)) =
      true := by
    show t.cliName.all _ = true
    rw [ht.cliName]
    exact decide_eq_true (length_name v)
  have hstrings : (chunkStrings (chunkExecutionMeta p status t)).forM (fun f =>
      reject (!(f.2.all fun s => s.length ≤ 128))
        ("invalid execution chunk string field: ".toList ++ f.1)) = .ok () := by
    have hall : ∀ f ∈ chunkStrings (chunkExecutionMeta p status t),
        f.2.all (fun s => decide (s.length ≤ 128)) = true := by
      simp only [chunkStrings, List.forall_mem_cons]
      exact ⟨hname, ht.cliVersion, ht.eventSchema, decide_eq_true hp.diffHash,
        decide_eq_true hp.contextHash, decide_eq_true hp.chunkerVersion, List.forall_mem_nil _⟩
    refine forM_ok fun f hf => ?_
    rw [hall f hf]
    rfl
  unfold validateExecutionChunk
  rw [hcode, hstatus, hnonce, hstrings]
  rfl

theorem sameCli_ok {v : Vendor} {version : Text} {i : ExecutionIdentity} {p : PromptChunk}
    {t : Telemetry} (hi : Contracted v version i) (ht : Storable v version t)
    (status : ChunkStatus) : sameCli i (chunkExecutionMeta p status t) = true := by
  unfold sameCli
  rw [Bool.and_eq_true, Bool.and_eq_true]
  refine ⟨⟨?_, ?_⟩, ?_⟩
  · show t.cliName.all (· == i.vendor) = true
    rw [ht.cliName, hi.vendor]
    exact beq_self_eq_true _
  · show t.cliVersion.all (· == i.cliVersion) = true
    rw [Option.all_eq_true, hi.cliVersion]
    intro s hs
    exact beq_iff_eq.mpr (ht.sameVersion s hs)
  · show t.eventSchema.all (· == i.eventSchemaVersion) = true
    rw [Option.all_eq_true, hi.eventSchemaVersion]
    intro s hs
    show (s == (VendorTelemetry.eventSchema v.name (some version) false).getD _) = true
    rw [ht.sameSchema s hs, Option.getD_some]
    exact beq_self_eq_true s

/-- **A chunk** is recorded whatever the CLI does. -/
theorem answers_valid {printable : Char → Bool} {depth : Nat} {v : Vendor} {version : Text}
    {p : PromptChunk} {c : ExecutionChunk} {i : ExecutionIdentity} (hne : version ≠ [])
    (hknown : version ≠ unknownVersion) (hi : Contracted v version i) (hp : Marked p)
    (h : Answers printable depth v version p c) :
    validateExecutionChunk c = .ok () ∧ sameCli i c = true := by
  obtain ⟨probed, e, answer, elapsedMs, hanswer, rfl⟩ := h
  have ht := answerTelemetry_storable hne hknown hanswer elapsedMs
  exact ⟨validateExecutionChunk_ok hp ht _, sameCli_ok hi ht _⟩

/-! ### Prompts -/

theorem recordsFrom_hash {i : Nat} {seen : Finset (Text × Nat)}
    {chunks : List (Text × SetDict Text Nat)}
    {out : List DiffFilter.DiffChunk × Finset (Text × Nat)}
    (h : DiffFilter.recordsFrom i seen chunks = .ok out) :
    ∀ c ∈ out.1, c.diffHash = Sha256.hexdigest (Text.encode c.text) := by
  induction chunks generalizing i seen out with
  | nil =>
    obtain rfl := Except.ok.inj h
    exact fun c hc => absurd hc List.not_mem_nil
  | cons chunk chunks ih =>
    unfold DiffFilter.recordsFrom at h
    dsimp only at h
    split at h
    · obtain ⟨r, hr, rfl⟩ := Exc.map_ok h
      intro c hc
      rcases List.mem_cons.mp hc with rfl | hc
      · rfl
      · exact ih hr c hc
    · cases h

/-- The hash of a chunk of a diff is that of its text. -/
theorem chunkRecords_hash {diff : Text} {budget : Nat} {chunks : List DiffFilter.DiffChunk}
    (h : DiffFilter.chunkRecordsByBudget diff budget = .ok chunks) :
    ∀ c ∈ chunks, c.diffHash = Sha256.hexdigest (Text.encode c.text) := by
  unfold DiffFilter.chunkRecordsByBudget at h
  split at h
  · cases h
  split at h
  · obtain rfl := Except.ok.inj h
    exact fun c hc => absurd hc List.not_mem_nil
  obtain ⟨blocks, -, h⟩ := Exc.bind_ok h
  obtain ⟨pieces, -, h⟩ := Exc.bind_ok h
  obtain ⟨⟨records, seen⟩, hr, h⟩ := Exc.bind_ok h
  obtain ⟨expected, -, h⟩ := Exc.bind_ok h
  split at h
  · obtain rfl := Except.ok.inj h
    exact recordsFrom_hash hr
  · cases h

theorem requireNonce_ok {nonce : Option Text} {n : Text}
    (h : Pipeline.requireNonce nonce = .ok n) : isHex 8 n = true := by
  unfold Pipeline.requireNonce at h
  split at h
  · split at h
    · next hhex =>
      obtain rfl := Except.ok.inj h
      exact hhex
    · cases h
  · cases h

/-- The prompts of a review have hashes and a nonce. -/
theorem buildPromptChunks_marked {pr : PullRequest} {diff context : Text}
    {contexts : Option (List (Text × Text))} {nonces : Nat → Option Text}
    {prompts : List PromptChunk}
    (h : buildPromptChunks pr diff context contexts nonces = .ok prompts) :
    ∀ p ∈ prompts, Marked p := by
  obtain ⟨chunks, hchunks, h⟩ := Exc.bind_ok h
  intro p hp
  obtain ⟨chunk, hchunk, hp⟩ := forall₂_mem_right (forall₂_of_mapM h) p hp
  obtain ⟨nonce, hnonce, hp⟩ := Exc.bind_ok hp
  obtain rfl := Except.ok.inj hp
  exact {
    diffHash := by
      show chunk.diffHash.length ≤ 128
      rw [chunkRecords_hash hchunks chunk hchunk, Sha256.length_hexdigest]
      decide
    contextHash := by
      show (Sha256.hexdigest _).length ≤ 128
      rw [Sha256.length_hexdigest]
      decide
    chunkerVersion := by
      show Pipeline.reviewChunkerVersion.length ≤ 128
      decide +kernel
    promptNonce := requireNonce_ok hnonce }

/-! ## Envelopes -/

/-- An attempt alone is checked chunk by chunk. -/
theorem validateAttempts_one {attempt : Nat} {phase : ExecutionPhase}
    {chunks : List ExecutionChunk} (hchunks : ∀ c ∈ chunks, validateExecutionChunk c = .ok ()) :
    validateAttempts 0 [⟨attempt, phase, chunks⟩] = .ok () ↔
      0 < attempt ∧ chunks.length ≤ 1000 := by
  have hforM : chunks.forM validateExecutionChunk = .ok () := forM_ok hchunks
  unfold validateAttempts
  constructor
  · intro h
    obtain ⟨_, hattempt, h⟩ := Exc.bind_ok h
    obtain ⟨_, hlength, -⟩ := Exc.bind_ok h
    have h₁ := reject_ok hattempt
    have h₂ := reject_ok hlength
    simp only [decide_eq_false_iff_not] at h₁ h₂
    omega
  · rintro ⟨hattempt, hlength⟩
    rw [decide_eq_false (Nat.not_le.mpr hattempt), decide_eq_false (Nat.not_lt.mpr hlength), hforM]
    rfl

theorem validateEnvelope_one {i : ExecutionIdentity} {attempt : Nat} {phase : ExecutionPhase}
    {chunks : List ExecutionChunk} (hchunks : ∀ c ∈ chunks, validateExecutionChunk c = .ok ()) :
    validateExecutionEnvelope ⟨i, [⟨attempt, phase, chunks⟩]⟩ = .ok () ↔
      validateIdentity i = .ok () ∧ (0 < attempt ∧ chunks.length ≤ 1000) ∧
        (encoded ⟨i, [⟨attempt, phase, chunks⟩]⟩).encode.length ≤ maxMetaBytes := by
  have hone : validateAttempts 0 [⟨attempt, phase, chunks⟩] = .ok () ↔
      0 < attempt ∧ chunks.length ≤ 1000 := validateAttempts_one hchunks
  rw [← hone]
  generalize hsize : (encoded ⟨i, [⟨attempt, phase, chunks⟩]⟩).encode.length = size
  unfold validateExecutionEnvelope
  rw [hsize]
  constructor
  · intro h
    obtain ⟨⟨⟩, hid, h⟩ := Exc.bind_ok h
    obtain ⟨_, -, h⟩ := Exc.bind_ok h
    obtain ⟨⟨⟩, hattempts, h⟩ := Exc.bind_ok h
    have hcap := reject_ok h
    exact ⟨hid, hattempts, Nat.not_lt.mp (of_decide_eq_false hcap)⟩
  · rintro ⟨hid, hattempts, hcap⟩
    rw [hid, hattempts, decide_eq_false (Nat.not_lt.mpr hcap)]
    rfl

/-- **The envelope of a run.** Whatever the CLI with the version of the identity prints for the
prompts, and however it ends, the envelope is built exactly when its identity is valid, it is the
envelope of an attempt with at most 1000 chunks, and it is not too large. -/
theorem envelope_ok_iff (printable : Char → Bool) (depth : Nat) (v : Vendor) (version : Text)
    (hne : version ≠ []) (hknown : version ≠ unknownVersion) (pr : PullRequest)
    (diff context : Text) (contexts : Option (List (Text × Text))) (nonces : Nat → Option Text)
    (prompts : List PromptChunk) (i : ExecutionIdentity) (r : VendorRunResult) (attempt : Nat)
    (hprompts : buildPromptChunks pr diff context contexts nonces = .ok prompts)
    (hi : Contracted v version i)
    (hran : List.Forall₂ (Answers printable depth v version) prompts r.chunks)
    (hverify : r.verifyChunks = []) :
    (∃ e, vendorExecutionEnvelope r i attempt .review = .ok e) ↔
      validateIdentity i = .ok () ∧ (0 < attempt ∧ prompts.length ≤ 1000) ∧
        (encoded ⟨i, [⟨attempt, .review, r.chunks⟩]⟩).encode.length ≤ maxMetaBytes := by
  have hvalid : ∀ c ∈ r.chunks, validateExecutionChunk c = .ok () ∧ sameCli i c = true := by
    intro c hc
    obtain ⟨p, hp, hanswers⟩ := forall₂_mem_right hran c hc
    exact answers_valid hne hknown hi (buildPromptChunks_marked hprompts p hp) hanswers
  have hsame : (r.chunks ++ r.verifyChunks).all (sameCli i) = true := by
    rw [hverify, List.append_nil, List.all_eq_true]
    exact fun c hc => (hvalid c hc).2
  rw [hran.length_eq, ← validateEnvelope_one fun c hc => (hvalid c hc).1]
  unfold vendorExecutionEnvelope
  rw [if_pos hsame]
  constructor
  · rintro ⟨e, he⟩
    obtain ⟨rfl, hvalid⟩ := build_ok he
    exact hvalid
  · intro h
    refine ⟨⟨i, [⟨attempt, .review, r.chunks⟩]⟩, ?_⟩
    unfold buildExecutionEnvelope
    dsimp only
    rw [h]
    rfl

/-- The identity of the run below. -/
def reportedIdentity : ExecutionIdentity :=
  { Pipeline.zeroIdentity with
    vendor := "codex".toList
    cliVersion := reportedVersion
    eventSchemaVersion := "codex-jsonl-v0.144.5".toList }

/-- What is recorded of a chunk whose answer was reported. -/
def reportedChunk (p : PromptChunk) : Except Exc ExecutionChunk := do
  let answer ← answerOf
    (review (fun _ => false) 100 .codex (some reportedVersion) none (.ended reportedRun))
  pure (chunkOutcome Vendor.codex.name p answer 5).1

/-- The one prompt of a diff, and what is recorded of its chunk. -/
def reportedChunks : Except Exc (List PromptChunk × List ExecutionChunk) := do
  let prompts ← buildPromptChunks Pipeline.oneLine Pipeline.oneLineDiff [] none fun _ =>
    some (List.replicate 8 '0')
  let chunks ← prompts.mapM reportedChunk
  pure (prompts, chunks)

def reportedResult (chunks : List ExecutionChunk) : VendorRunResult where
  vendor := "codex".toList
  status := .done
  findings := []
  durationMs := 5
  chunks := chunks

theorem envelope_ok_iff_reported : ∃ (prompts : List PromptChunk) (chunks : List ExecutionChunk),
    reportedChunks = .ok (prompts, chunks) ∧ prompts.length = 1 ∧
      ((∃ e, vendorExecutionEnvelope (reportedResult chunks) reportedIdentity 1 .review =
          .ok e) ↔
        validateIdentity reportedIdentity = .ok () ∧ (0 < 1 ∧ prompts.length ≤ 1000) ∧
          (encoded ⟨reportedIdentity, [⟨1, .review, (reportedResult chunks).chunks⟩]⟩
            ).encode.length ≤ maxMetaBytes) := by
  have hone : reportedChunks.toOption.map (·.1.length) = some 1 := by decide +kernel
  cases hp : reportedChunks with
  | error e =>
    rw [hp] at hone
    cases hone
  | ok p =>
    obtain ⟨prompts, chunks⟩ := p
    rw [hp] at hone
    obtain ⟨built, hprompts, h⟩ := Exc.bind_ok hp
    obtain ⟨recorded, hchunks, h⟩ := Exc.bind_ok h
    cases h
    have hran : List.Forall₂ (Answers (fun _ => false) 100 .codex reportedVersion) prompts
        (reportedResult chunks).chunks := by
      refine (forall₂_of_mapM hchunks).imp fun p c hc => ?_
      obtain ⟨answer, hanswer, hc⟩ := Exc.bind_ok hc
      exact ⟨none, .ended reportedRun, answer, 5, hanswer, (Except.ok.inj hc).symm⟩
    refine ⟨prompts, chunks, rfl, Option.some.inj hone, ?_⟩
    exact envelope_ok_iff _ _ .codex reportedVersion (by decide +kernel) (by decide +kernel)
      Pipeline.oneLine Pipeline.oneLineDiff [] none _ prompts reportedIdentity
      (reportedResult chunks) 1 hprompts ⟨rfl, rfl, by decide +kernel⟩ hran rfl

end Vendors
