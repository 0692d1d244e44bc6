import AlmightyReview.Review.Policy
import AlmightyReview.Diff.Chunk
import AlmightyReview.Lib.Lists
import AlmightyReview.Lib.Loads

/-!
# Benchmark artifacts

What `review-benchmark-score` reads, and the checks that it makes before it scores. What the JSON
schemas say of texts is left out here: it only refuses more.

* `Manifest`, `Prediction`, `Run`, `Answer`: the four kinds of artifacts. A file has a name, a hash
  and a value.
* `Host`: what the scorer takes from elsewhere: its own sources, the files beside a manifest, and
  the two normalisations of claims.
* `join`: the checks; it leaves the primary run of each case.
-/

namespace Benchmark

/-! ## Values -/

inductive Stratum where
  | small
  | medium
  | large
deriving DecidableEq, Repr

structure Manifest where
  caseId : Text
  prSizeStratum : Stratum
  inputPath : Text
  inputSha256 : Text
  claimNormalizationVersion : Text
  claimTokenizerSha256 : Text

inductive Arm where
  | baseline
  | candidate
deriving DecidableEq, Repr

inductive Status where
  | completed
  | incomplete
  | timeout
  | failed
  | notInvokedSetupFailure
deriving DecidableEq, Repr

inductive TokenTelemetry where
  | available
  | unavailable
deriving DecidableEq, Repr

/-- The keys `IDENTITY_KEYS` of a run. -/
structure Identity where
  vendor : Text
  model : Text
  effort : Text
  protocolSha256 : Text
  promptSha256 : Text
  chunkerSha256 : Text
  chunkBudget : Nat
  adapterSha256 : Text
  cliVersion : Text
  eventSchemaSha256 : Text
deriving DecidableEq

structure Run where
  runId : Text
  caseId : Text
  manifestSha256 : Text
  arm : Arm
  repetitionIndex : Nat
  primaryRepetitionIndex : Nat
  seed : Nat
  scheduleSha256 : Text
  identity : Identity
  diffSha256 : Text
  contextSha256 : Text
  predictionArtifactPath : Text
  predictionArtifactSha256 : Text
  status : Status
  coverageEvidenceSha256 : Text
  tokenTelemetryStatus : TokenTelemetry
  inputTokens : Option Nat
  cachedInputTokens : Option Nat
  outputTokens : Option Nat
  reasoningTokens : Option Nat
deriving DecidableEq

inductive ScopeStatus where
  | owned
  | reassigned
  | wouldReject
deriving DecidableEq, Repr

inductive PostingStatus where
  | post
  | suppress
deriving DecidableEq, Repr

structure Prediction where
  predictionId : Text
  caseId : Text
  runId : Text
  file : Text
  line : Nat
  category : Text
  claimNormalizationVersion : Text
  claimTokenizerSha256 : Text
  normalizedClaimTokens : List Text
  productionClaimKey : Text
  scopeStatus : ScopeStatus
  postingStatus : PostingStatus
  sourceChunkIndex : Nat
  emissionIndex : Nat
deriving DecidableEq

structure Location where
  file : Text
  lineStart : Nat
  lineEnd : Nat

structure Issue where
  issueId : Text
  allowedLocations : List Location
  acceptedCategories : List Text
  allowedTokenSequences : List (List Text)

inductive PairLabel where
  | sameIssueDuplicate
  | distinctIssueHardNegative
deriving DecidableEq, Repr

structure IssuePair where
  firstPredictionId : Text
  secondPredictionId : Text
  label : PairLabel

inductive IndependentVerdict where
  | accept
  | reject
  | uncertain
deriving DecidableEq, Repr

inductive Disagreement where
  | none
  | disputed
  | resolved
deriving DecidableEq, Repr

structure Verdict where
  adjudicatorId : Text
  independentVerdict : IndependentVerdict
  disagreementStatus : Disagreement

inductive ResolutionStatus where
  | unanimous
  | resolved
  | unresolved
deriving DecidableEq, Repr

/-- The status of a prediction: resolved to an issue, or unmatched. -/
structure Resolution where
  predictionId : Text
  resolved : Bool
  issueId : Option Text

structure Answer where
  caseId : Text
  manifestSha256 : Text
  claimNormalizationVersion : Text
  claimTokenizerSha256 : Text
  issues : List Issue
  knownCleanRanges : List Location
  issuePairs : List IssuePair
  verdicts : List Verdict
  resolutionStatus : ResolutionStatus
  hasResolutionRecord : Bool
  ownershipFunctionVersion : Text
  ownershipFunctionSha256 : Text
  chunkerVersion : Text
  chunkerSha256 : Text
  predictionIssueResolutions : List Resolution

/-- A file, by its name. -/
structure Artifact (α : Type) where
  name : Text
  sha256 : Text
  value : α

structure DataSet where
  manifests : List (Artifact Manifest)
  predictions : List (Artifact Prediction)
  runs : List Run
  answers : List Answer

/-- What is around the artifacts. -/
structure Host where
  /-- `sha256_file` of `diff_filter.py`. -/
  ownershipHash : Text
  /-- A regular file beside a manifest: its hash, and its text, if it is UTF-8. -/
  readInput : Artifact Manifest → Option (Text × Option Text)
  normalizeClaim : Text → List Text
  productionCanonicalClaim : Text → Text

/-! ## Checks -/

/-- `if c: raise BenchmarkError(message)`. -/
def reject (c : Prop) [Decidable c] (message : String) : Except Text Unit :=
  if c then .error message.toList else .ok ()

theorem reject_ok {c : Prop} [Decidable c] {message : String} {u : Unit}
    (h : reject c message = .ok u) : ¬c := by
  intro hc
  rw [reject, if_pos hc] at h
  cases h

/-- `for x in xs: f(x)`. -/
def forAll {α : Type} (f : α → Except Text Unit) : List α → Except Text Unit
  | [] => .ok ()
  | x :: xs => do
    f x
    forAll f xs

theorem forAll_ok {α : Type} {f : α → Except Text Unit} {xs : List α} {u : Unit}
    (h : forAll f xs = .ok u) : ∀ x ∈ xs, f x = .ok () := by
  induction xs with
  | nil => simp
  | cons x xs ih =>
    obtain ⟨_, hx, hxs⟩ := Exc.bind_ok h
    exact List.forall_mem_cons.mpr ⟨hx, ih hxs⟩

def claimNormalizationVersion : Text := "claim-normalization-v1".toList

def claimTokenizerSha256 : Text :=
  "9787d268171dfc88884d9961c1ae8608b111eda1eda892656a4db17622937458".toList

/-- `REVIEW_CHUNKER_VERSION`. -/
def reviewChunkerVersion : Text := "char-v1".toList

/-- `canonical_claim_tokens`. -/
def canonicalClaimTokens (host : Host) (tokens : List Text) : Except Text (List Text) := do
  reject (tokens = []) "normalized claim tokens are required"
  let normalized := host.normalizeClaim (tokens.intersperse [' ']).flatten
  reject (tokens ≠ normalized) "normalized claim tokens are not canonical"
  pure normalized

/-- `sorted((first, second))`. -/
def sortedPair (first second : Text) : Text × Text :=
  if first ≤ second then (first, second) else (second, first)

/-- `validate_schema` of an adjudication, beyond its JSON schema. -/
def validateAdjudication (answer : Answer) : Except Text Unit := do
  reject (answer.resolutionStatus = .unresolved) "adjudication: unresolved gold answer"
  let issueIds := answer.issues.map Issue.issueId
  reject (¬issueIds.Nodup) "adjudication: duplicate issue ID"
  let resolutions := answer.predictionIssueResolutions
  reject (¬(resolutions.map Resolution.predictionId).Nodup)
    "adjudication: duplicate prediction resolution"
  forAll (fun r => do
    reject (r.resolved ∧ ∀ id ∈ issueIds, r.issueId ≠ some id)
      "adjudication: resolution issue is unknown"
    reject (¬r.resolved ∧ r.issueId ≠ none) "adjudication: unmatched resolution names issue")
    resolutions
  reject (∃ p ∈ answer.issuePairs, p.firstPredictionId = p.secondPredictionId)
    "adjudication: pair must name distinct predictions"
  reject (¬(answer.issuePairs.map fun p =>
      sortedPair p.firstPredictionId p.secondPredictionId).Nodup)
    "adjudication: duplicate or conflicting pair label"
  let verdicts := answer.verdicts
  reject (verdicts.length < 2 ∨ ¬(verdicts.map Verdict.adjudicatorId).Nodup)
    "adjudication: two independent adjudicators required"
  reject (answer.resolutionStatus = .unanimous ∧ ¬∀ v ∈ verdicts,
      v.independentVerdict = .accept ∧ v.disagreementStatus = .none)
    "adjudication: unanimous verdicts conflict"
  reject (answer.resolutionStatus = .resolved ∧
      ((∃ v ∈ verdicts, v.disagreementStatus = .disputed) ∨
        (∀ v ∈ verdicts, v.disagreementStatus ≠ .resolved) ∨ ¬answer.hasResolutionRecord))
    "adjudication: resolver status is incomplete"
  reject (∃ i ∈ answer.issues, ∃ l ∈ i.allowedLocations, l.lineEnd < l.lineStart)
    "adjudication: location line_end precedes line_start"
  reject (∃ l ∈ answer.knownCleanRanges, l.lineEnd < l.lineStart)
    "adjudication: clean range line_end precedes line_start"

/-! ## Joins -/

namespace DataSet

def manifestOf (d : DataSet) (caseId : Text) : Except Text (Artifact Manifest) :=
  match d.manifests.find? fun m => m.value.caseId = caseId with
  | some m => .ok m
  | none => .error "unbound case".toList

def answerOf (d : DataSet) (caseId : Text) : Except Text Answer :=
  match d.answers.find? fun a => a.caseId = caseId with
  | some a => .ok a
  | none => .error "unbound case".toList

/-- `predictions_by_run`, with their files. -/
def predictionsOf (d : DataSet) (runId : Text) : List (Artifact Prediction) :=
  d.predictions.filter fun p => p.value.runId = runId

end DataSet

/-- The manifests and the answers have the same cases, each once. -/
def checkCases (d : DataSet) : Except Text Unit := do
  reject (d.manifests = []) "no manifest JSON artifacts"
  reject (¬(d.manifests.map (·.value.caseId)).Nodup) "duplicate manifest case ID"
  reject (d.predictions.length = 0) "no prediction JSON artifacts"
  reject (d.runs = []) "no run-result JSON artifacts"
  reject (d.answers.length = 0) "no adjudication JSON artifacts"
  forAll validateAdjudication d.answers
  let cases := d.manifests.map (·.value.caseId)
  reject (¬(d.answers.map Answer.caseId).Nodup ∨ (∃ a ∈ d.answers, a.caseId ∉ cases) ∨
      ∃ c ∈ cases, c ∉ d.answers.map Answer.caseId)
    "adjudications must be one-to-one with manifests"

def checkAnswer (host : Host) (d : DataSet) (m : Artifact Manifest) : Except Text Unit := do
  let answer ← d.answerOf m.value.caseId
  reject (answer.manifestSha256 ≠ m.sha256) "adjudication manifest hash mismatch"
  reject ((m.value.claimNormalizationVersion, m.value.claimTokenizerSha256,
      answer.claimNormalizationVersion, answer.claimTokenizerSha256) ≠
      (claimNormalizationVersion, claimTokenizerSha256, claimNormalizationVersion,
        claimTokenizerSha256))
    "claim normalization version or tokenizer hash mismatch"
  reject (answer.ownershipFunctionVersion ≠ "diff-ownership-v1".toList ∨
      answer.ownershipFunctionSha256 ≠ host.ownershipHash ∨
      answer.chunkerVersion ≠ reviewChunkerVersion ∨ answer.chunkerSha256 ≠ host.ownershipHash)
    "adjudication ownership oracle identity mismatch"

def Arm.name : Arm → Text
  | .baseline => "baseline".toList
  | .candidate => "candidate".toList

def Status.name : Status → Text
  | .completed => "completed".toList
  | .incomplete => "partial".toList
  | .timeout => "timeout".toList
  | .failed => "failed".toList
  | .notInvokedSetupFailure => "not_invoked_setup_failure".toList

/-- The hash of what `coverage_evidence_sha256` is about. -/
def coverageEvidence (run : Run) : Text :=
  FindingPolicy.canonicalHash (.obj [("case_id".toList, .str run.caseId),
    ("arm".toList, .str run.arm.name), ("repetition_index".toList, Json.ofNat run.repetitionIndex),
    ("seed".toList, Json.ofNat run.seed), ("status".toList, .str run.status.name),
    ("schedule_sha256".toList, .str run.scheduleSha256)])

def checkRun (d : DataSet) (run : Run) : Except Text Unit := do
  let manifest ← d.manifestOf run.caseId
  reject (run.manifestSha256 ≠ manifest.sha256) "run manifest hash mismatch"
  reject (run.coverageEvidenceSha256 ≠ coverageEvidence run)
    "run coverage evidence identity mismatch"

def runOf (d : DataSet) (runId : Text) : Except Text Run :=
  match d.runs.find? fun r => r.runId = runId with
  | some r => .ok r
  | none => .error "duplicate or unbound prediction".toList

def checkPrediction (host : Host) (d : DataSet) (prediction : Prediction) : Except Text Unit := do
  let run ← runOf d prediction.runId
  reject (prediction.caseId ≠ run.caseId ∨
      (prediction.claimNormalizationVersion, prediction.claimTokenizerSha256) ≠
        (claimNormalizationVersion, claimTokenizerSha256))
    "prediction join or tokenizer mismatch"
  let _ ← canonicalClaimTokens host prediction.normalizedClaimTokens
  reject (host.productionCanonicalClaim prediction.productionClaimKey ≠
      prediction.productionClaimKey)
    "production duplicate claim key is not canonical"
  reject (FindingPolicy.normalizeFindingPath prediction.file ≠ some prediction.file)
    "prediction path is not production-normalized"

/-- `bytes.fromhex`. -/
def fromHex : Text → List Nat
  | a :: b :: s => (16 * (Json.hexValue a).getD 0 + (Json.hexValue b).getD 0) :: fromHex s
  | _ => []

/-- The hash over the files of the predictions of a run. -/
def combinedHash (paths : List (Artifact Prediction)) : Text :=
  Sha256.hexdigest (paths.flatMap fun p =>
    Sha256.bigEndian p.name.encode.length 4 ++ p.name.encode ++ fromHex p.sha256)

/-- `Path(value).parts`, without the root. -/
def pathParts (value : Text) : List Text :=
  (value.splitOn '/').filter fun p => p != [] && p != ['.']

def checkRunFiles (d : DataSet) (run : Run) : Except Text Unit := do
  let manifest ← d.manifestOf run.caseId
  reject (run.diffSha256 ≠ manifest.value.inputSha256)
    "run diff identity does not match manifest input"
  let paths := (d.predictionsOf run.runId).insertionSort fun a b => a.name ≤ b.name
  match paths with
  | [] => reject (run.status ≠ .failed ∧ run.status ≠ .timeout ∧
      run.status ≠ .notInvokedSetupFailure) "invoked run is missing prediction artifacts"
  | first :: _ =>
    let parts := pathParts run.predictionArtifactPath
    reject (run.predictionArtifactPath.head? = some '/' ∨ "..".toList ∈ parts ∨
        parts.getLast? ≠ some first.name)
      "run prediction artifact path mismatch"
    reject (combinedHash paths ≠ run.predictionArtifactSha256)
      "run prediction artifact hash mismatch"

/-- The primary candidate run of a case. -/
def primaryRun (d : DataSet) (caseId : Text) : Except Text Run :=
  match d.runs.filter fun run => run.caseId = caseId ∧ run.arm = .candidate ∧
      run.repetitionIndex = run.primaryRepetitionIndex with
  | [run] => .ok run
  | _ => .error "exactly one primary candidate run is required per case".toList

/-- `sorted(manifest_by_case)`. -/
def DataSet.cases (d : DataSet) : List Text :=
  (d.manifests.map (·.value.caseId)).insertionSort (· ≤ ·)

/-- The checks before the scoring. What is left are the primary runs, by case. -/
def join (host : Host) (d : DataSet) : Except Text (List Run) := do
  checkCases d
  forAll (checkAnswer host d) d.manifests
  reject (¬(d.runs.map Run.runId).Nodup) "duplicate or unbound run"
  forAll (checkRun d) d.runs
  reject (¬(d.predictions.map (·.value.predictionId)).Nodup) "duplicate or unbound prediction"
  forAll (fun p => checkPrediction host d p.value) d.predictions
  forAll (fun run => reject (¬((d.predictionsOf run.runId).map (·.value.emissionIndex)).Nodup)
    "duplicate prediction emission index") d.runs
  forAll (checkRunFiles d) d.runs
  let primary ← d.cases.mapM (primaryRun d)
  reject (¬primary.Pairwise fun a b => a.identity = b.identity)
    "primary candidate identity is not deterministic"
  pure primary

/-! ## What the joins leave -/

/-- `_adjudication_complete`. -/
def adjudicationComplete (answer : Answer) : Bool :=
  let verdicts := answer.verdicts
  if verdicts.length < 2 ∨ ¬(verdicts.map Verdict.adjudicatorId).Nodup then false
  else
    match answer.resolutionStatus with
    | .unanimous => verdicts.all fun v =>
        v.independentVerdict = .accept ∧ v.disagreementStatus = .none
    | .resolved => answer.hasResolutionRecord
    | .unresolved => false

/-- An answer that was accepted is complete, and it names no issue twice. -/
theorem validateAdjudication_ok {answer : Answer} {u : Unit}
    (h : validateAdjudication answer = .ok u) :
    (answer.issues.map Issue.issueId).Nodup ∧ adjudicationComplete answer = true := by
  obtain ⟨_, hstatus, h⟩ := Exc.bind_ok h
  obtain ⟨_, hids, h⟩ := Exc.bind_ok h
  obtain ⟨_, -, h⟩ := Exc.bind_ok h
  obtain ⟨_, -, h⟩ := Exc.bind_ok h
  obtain ⟨_, -, h⟩ := Exc.bind_ok h
  obtain ⟨_, -, h⟩ := Exc.bind_ok h
  obtain ⟨_, hverdicts, h⟩ := Exc.bind_ok h
  obtain ⟨_, hunanimous, h⟩ := Exc.bind_ok h
  obtain ⟨_, hresolved, -⟩ := Exc.bind_ok h
  have hstatus := reject_ok hstatus
  have hunanimous := reject_ok hunanimous
  have hresolved := reject_ok hresolved
  refine ⟨not_not.mp (reject_ok hids), ?_⟩
  unfold adjudicationComplete
  dsimp only
  rw [if_neg (reject_ok hverdicts)]
  cases hs : answer.resolutionStatus with
  | unanimous =>
    have := not_not.mp fun hn => hunanimous ⟨hs, hn⟩
    simpa using this
  | resolved =>
    by_contra hn
    exact hresolved ⟨hs, .inr (.inr (by simpa using hn))⟩
  | unresolved => exact absurd hs hstatus

/-- What is known after the joins. -/
structure Joined (d : DataSet) (primary : List Run) : Prop where
  issueIds : ∀ a ∈ d.answers, (a.issues.map Issue.issueId).Nodup
  adjudicated : d.answers.all adjudicationComplete = true
  answerCases : (d.answers.map Answer.caseId).Nodup
  /-- Every answer belongs to the case of one primary run. -/
  cases : (primary.map Run.caseId).Perm (d.answers.map Answer.caseId)

theorem primaryRun_caseId {d : DataSet} {caseId : Text} {run : Run}
    (h : primaryRun d caseId = .ok run) : run.caseId = caseId := by
  unfold primaryRun at h
  split at h
  · next r hr =>
    obtain rfl := Except.ok.inj h
    have hmem : r ∈ d.runs.filter fun run => run.caseId = caseId ∧ run.arm = .candidate ∧
        run.repetitionIndex = run.primaryRepetitionIndex := by
      rw [hr]
      exact List.mem_cons_self
    have := (List.mem_filter.mp hmem).2
    simp only [decide_eq_true_eq] at this
    exact this.1
  · cases h

theorem caseIds_primary {d : DataSet} {cases : List Text} {primary : List Run}
    (h : List.Forall₂ (fun c run => primaryRun d c = .ok run) cases primary) :
    primary.map Run.caseId = cases := by
  induction h with
  | nil => rfl
  | cons hr _ ih => rw [List.map_cons, primaryRun_caseId hr, ih]

theorem join_ok {host : Host} {d : DataSet} {primary : List Run} (h : join host d = .ok primary) :
    Joined d primary := by
  obtain ⟨_, hcases, h⟩ := Exc.bind_ok h
  obtain ⟨_, -, h⟩ := Exc.bind_ok h
  obtain ⟨_, -, h⟩ := Exc.bind_ok h
  obtain ⟨_, -, h⟩ := Exc.bind_ok h
  obtain ⟨_, -, h⟩ := Exc.bind_ok h
  obtain ⟨_, -, h⟩ := Exc.bind_ok h
  obtain ⟨_, -, h⟩ := Exc.bind_ok h
  obtain ⟨_, -, h⟩ := Exc.bind_ok h
  obtain ⟨primary', hprimary, h⟩ := Exc.bind_ok h
  obtain ⟨_, -, h⟩ := Exc.bind_ok h
  obtain rfl := Except.ok.inj h
  -- the checks of the cases
  obtain ⟨_, -, hcases⟩ := Exc.bind_ok hcases
  obtain ⟨_, hnodup, hcases⟩ := Exc.bind_ok hcases
  obtain ⟨_, -, hcases⟩ := Exc.bind_ok hcases
  obtain ⟨_, -, hcases⟩ := Exc.bind_ok hcases
  obtain ⟨_, -, hcases⟩ := Exc.bind_ok hcases
  obtain ⟨_, hanswers, hcases⟩ := Exc.bind_ok hcases
  have hvalid a ha := validateAdjudication_ok (forAll_ok hanswers a ha)
  have hone := reject_ok hcases
  push Not at hone
  obtain ⟨hanswerCases, hsub, hsup⟩ := hone
  refine ⟨fun a ha => (hvalid a ha).1, List.all_eq_true.mpr fun a ha => (hvalid a ha).2,
    hanswerCases, ?_⟩
  have hmap : primary'.map Run.caseId = d.cases := caseIds_primary (forall₂_of_mapM hprimary)
  rw [hmap]
  refine (List.perm_insertionSort _ _).trans
    ((List.perm_ext_iff_of_nodup (not_not.mp (reject_ok hnodup)) hanswerCases).mpr fun c => ?_)
  constructor
  · exact fun hc => hsup c hc
  · intro hc
    obtain ⟨a, ha, rfl⟩ := List.mem_map.mp hc
    exact hsub a ha

end Benchmark
