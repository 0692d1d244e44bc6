import AlmightyReview.Bench.Artifacts
import AlmightyReview.Review.Prompt
import Mathlib.Data.Rat.Defs
import Mathlib.Algebra.Order.Ring.Unbundled.Rat

/-!
# The score of a benchmark

`score`, from the primary runs that the joins leave to the report. Rates are rational numbers, and
the square root in the Wilson bound is a parameter.

* `bernoulliMetric`: a rate with its bound, its threshold and what is missing.
* `scoreCase`: the predictions of a primary run against the answer of its case.
* `pairCosts`: the costs of the pairs of runs that differ in nothing but the arm.
* `score`: the report. `CaseTotals` and `score_totals` say which of its counts agree.
-/

namespace Benchmark

/-! ## Metrics -/

/-- `WILSON_Z_95`. -/
def wilsonZ95 : Rat := 1959963984540054 / 1000000000000000

/-- `wilson_95_lower_bound`, of counts that were checked. -/
def wilson95LowerBound (sqrt : Rat → Rat) (numerator denominator : Nat) : Rat :=
  if denominator = 0 then 0
  else
    let n : Rat := denominator
    let point := numerator / n
    let z2 := wilsonZ95 * wilsonZ95
    (point + z2 / (2 * n) - wilsonZ95 * sqrt (point * (1 - point) / n + z2 / (4 * n * n))) /
      (1 + z2 / n)

/-- `required_denominator_for_wilson`, of counts that were checked. -/
def requiredDenominatorForWilson (sqrt : Rat → Rat) (numerator denominator : Nat)
    (lowerThreshold : Rat) : Nat :=
  if denominator ≠ 0 ∧ lowerThreshold ≤ wilson95LowerBound sqrt numerator denominator then 0
  else
    let start := max 1 denominator
    match (List.range' start (10000001 - start)).find? fun total =>
        lowerThreshold ≤ wilson95LowerBound sqrt (numerator + total - denominator) total with
    | some total => total - denominator
    | none => 10000000

structure Metric where
  numerator : Nat
  denominator : Nat
  pointEstimate : Rat
  wilson95LowerBound : Rat
  threshold : Rat
  passed : Bool
  requiredSampleShortfall : Nat
deriving DecidableEq

/-- A point threshold, a lower threshold and the least denominator. -/
structure MetricRule where
  point : Rat
  lower : Rat
  minimum : Nat

/-- `bernoulli_metric`; it raises when there are more successes than trials. -/
def bernoulliMetric (sqrt : Rat → Rat) (rule : MetricRule) (numerator denominator : Nat) :
    Except Text Metric := do
  reject (denominator < numerator) "invalid Bernoulli metric counts"
  let lower := wilson95LowerBound sqrt numerator denominator
  let shortfall := requiredDenominatorForWilson sqrt numerator denominator rule.lower
  pure {
    numerator := numerator
    denominator := denominator
    pointEstimate := if denominator = 0 then 0 else numerator / (denominator : Rat)
    wilson95LowerBound := lower
    threshold := rule.point
    passed := rule.minimum ≤ denominator ∧ rule.point ≤ numerator / (denominator : Rat) ∧
      rule.lower ≤ lower
    requiredSampleShortfall :=
      if denominator < rule.minimum then max shortfall (rule.minimum - denominator)
      else shortfall }

inductive MetricName where
  | issuePrecision
  | issueRecall
  | duplicatePrecision
  | duplicateRecall
  | scopeAccuracy
  | postingAccuracy
deriving DecidableEq, Repr

/-- `METRIC_RULES`. -/
def metricRules : MetricName → MetricRule
  | .issuePrecision => ⟨995 / 1000, 99 / 100, 1⟩
  | .issueRecall => ⟨95 / 100, 90 / 100, 1⟩
  | .duplicatePrecision => ⟨1, 88 / 100, 30⟩
  | .duplicateRecall => ⟨95 / 100, 85 / 100, 30⟩
  | .scopeAccuracy => ⟨995 / 1000, 99 / 100, 1⟩
  | .postingAccuracy => ⟨995 / 1000, 99 / 100, 1⟩

structure Metrics where
  issuePrecision : Metric
  issueRecall : Metric
  duplicatePrecision : Metric
  duplicateRecall : Metric
  scopeAccuracy : Metric
  postingAccuracy : Metric
  costRegression : Metric

/-- `metrics[name]`. -/
def Metrics.get (m : Metrics) : MetricName → Metric
  | .issuePrecision => m.issuePrecision
  | .issueRecall => m.issueRecall
  | .duplicatePrecision => m.duplicatePrecision
  | .duplicateRecall => m.duplicateRecall
  | .scopeAccuracy => m.scopeAccuracy
  | .postingAccuracy => m.postingAccuracy

def metricNames : List MetricName :=
  [.issuePrecision, .issueRecall, .duplicatePrecision, .duplicateRecall, .scopeAccuracy,
    .postingAccuracy]

theorem mem_metricNames (name : MetricName) : name ∈ metricNames := by
  cases name <;> decide

/-! ## Cases -/

/-- The chunk of each changed line, and the number of chunks. -/
def chunkOwnership (host : Host) (m : Artifact Manifest) (chunkBudget : Nat) :
    Except Text (List ((Text × Nat) × Nat) × Nat) := do
  match host.readInput m with
  | none => .error "model-visible input is missing or hash mismatched".toList
  | some (hash, text) =>
    reject (hash ≠ m.value.inputSha256) "model-visible input is missing or hash mismatched"
    match text.map fun diff => DiffFilter.chunkRecordsByBudget diff chunkBudget with
    | some (.ok records) =>
      pure (records.flatMap fun record => record.ownedChangedLines.entries.flatMap fun e =>
        (Pipeline.sortedLines e.2).map fun line => ((e.1, line), record.index), records.length)
    | _ => .error "diff ownership recomputation failed".toList

def locationMatches (prediction : Prediction) (issue : Issue) : Bool :=
  issue.acceptedCategories.contains prediction.category && issue.allowedLocations.any fun l =>
    l.file == prediction.file && l.lineStart ≤ prediction.line && prediction.line ≤ l.lineEnd

/-- The issues at the place of the prediction that have a claim like it. -/
def candidateIssues (host : Host) (prediction : Prediction) (tokens : List Text) :
    List Issue → Except Text (List Text)
  | [] => .ok []
  | issue :: issues => do
    let same ← (if locationMatches prediction issue then do
        let sequences ← issue.allowedTokenSequences.mapM (canonicalClaimTokens host)
        pure (sequences.contains tokens)
      else pure false)
    let more ← candidateIssues host prediction tokens issues
    pure (if same then issue.issueId :: more else more)

def resolvePrediction (host : Host) (prediction : Prediction) (answer : Answer) :
    Except Text (Option Text) := do
  let tokens ← canonicalClaimTokens host prediction.normalizedClaimTokens
  let candidates ← candidateIssues host prediction tokens answer.issues
  let resolution := answer.predictionIssueResolutions.find? fun r =>
    r.predictionId = prediction.predictionId
  match candidates with
  | [candidate] =>
    reject (∃ r ∈ resolution, ¬r.resolved ∨ r.issueId ≠ some candidate)
      "prediction resolution conflicts with unique issue"
    pure (some candidate)
  | [] =>
    reject (∃ r ∈ resolution, r.resolved) "prediction resolution names an unmatched issue"
    pure none
  | _ =>
    match resolution.bind fun r => if r.resolved then r.issueId else none with
    | some issueId =>
      reject (issueId ∉ candidates) "ambiguous prediction issue match has no explicit resolution"
      pure (some issueId)
    | none => .error "ambiguous prediction issue match has no explicit resolution".toList

/-- A prediction of a primary run, with its issue and its scope. -/
structure Scored where
  prediction : Prediction
  issue : Option Text
  scope : ScopeStatus

/-- What the scoring of the cases collects. -/
structure Tally where
  issueTp : List Text := []
  issueFp : List Text := []
  issueFn : List Text := []
  scopeOk : List Text := []
  scopeBad : List Text := []
  scored : List Scored := []

/-- `f"{case_id}:{prediction_id}"`. -/
def stableId (prediction : Prediction) : Text :=
  prediction.caseId ++ ":".toList ++ prediction.predictionId

/-- The scope that the ownership of the lines gives. -/
def expectedScope (ownership : List ((Text × Nat) × Nat)) (prediction : Prediction) :
    ScopeStatus :=
  match ownership.reverse.lookup (prediction.file, prediction.line) with
  | none => .wouldReject
  | some chunk => if chunk = prediction.sourceChunkIndex then .owned else .reassigned

/-- The issue of a prediction; `s.1` are the issues that the case has found so far. -/
def countIssue (stable : Text) (resolved : Option Text) (s : List Text × Tally) :
    List Text × Tally :=
  match resolved with
  | none => (s.1, { s.2 with issueFp := s.2.issueFp ++ [stable] })
  | some issue =>
    if issue ∈ s.1 then s
    else (issue :: s.1,
      { s.2 with issueTp := s.2.issueTp ++ [stable ++ ":".toList ++ issue] })

/-- The scope of a prediction. -/
def countScope (stable : Text) (scored : Scored) (tally : Tally) : Tally :=
  if scored.prediction.scopeStatus = scored.scope then
    { tally with scopeOk := tally.scopeOk ++ [stable], scored := tally.scored ++ [scored] }
  else { tally with scopeBad := tally.scopeBad ++ [stable], scored := tally.scored ++ [scored] }

def scorePrediction (host : Host) (answer : Answer) (ownership : List ((Text × Nat) × Nat))
    (chunkCount : Nat) (s : List Text × Tally) (prediction : Prediction) :
    Except Text (List Text × Tally) := do
  let resolved ← resolvePrediction host prediction answer
  reject (chunkCount ≤ prediction.sourceChunkIndex)
    "prediction source chunk is outside recomputed chunks"
  let stable := stableId prediction
  let counted := countIssue stable resolved s
  pure (counted.1,
    countScope stable ⟨prediction, resolved, expectedScope ownership prediction⟩ counted.2)

/-- The issues that were not found. -/
def missed (answer : Answer) (seen : List Text) : List Text :=
  (answer.issues.filter fun issue => issue.issueId ∉ seen).map fun issue =>
    answer.caseId ++ ":".toList ++ issue.issueId

/-- `for x in xs: s = f(s, x)`. -/
def loop {σ α : Type} (f : σ → α → Except Text σ) : σ → List α → Except Text σ
  | s, [] => .ok s
  | s, x :: xs => do
    let s ← f s x
    loop f s xs

def scoreCase (host : Host) (d : DataSet) (tally : Tally) (run : Run) : Except Text Tally := do
  let answer ← d.answerOf run.caseId
  if run.status = .notInvokedSetupFailure then
    pure { tally with issueFn := tally.issueFn ++ missed answer [] }
  else
    let manifest ← d.manifestOf run.caseId
    reject (run.identity.chunkerSha256 ≠ answer.chunkerSha256)
      "run chunker identity does not match oracle"
    let (ownership, chunkCount) ← chunkOwnership host manifest run.identity.chunkBudget
    let predictions := ((d.predictionsOf run.runId).map Artifact.value).insertionSort fun a b =>
      a.predictionId ≤ b.predictionId
    let (seen, tally) ← loop (scorePrediction host answer ownership chunkCount) ([], tally)
      predictions
    pure { tally with issueFn := tally.issueFn ++ missed answer seen }

/-! ## Postings and duplicates -/

/-- `run_by_id[prediction["run_id"]]["vendor"]`. -/
def vendorOf (d : DataSet) (prediction : Prediction) : Option Text :=
  (d.runs.find? fun run => run.runId = prediction.runId).map fun run => run.identity.vendor

/-- What predictions that could be duplicates have in common. -/
structure Universe where
  caseId : Text
  vendor : Option Text
  file : Text
  line : Nat
  category : Text
deriving DecidableEq

def universeKey (d : DataSet) (p : Prediction) : Universe :=
  ⟨p.caseId, vendorOf d p, p.file, p.line, p.category⟩

/-- The predictions that repeat an earlier one of their run. -/
def suppressed (d : DataSet) (predictions : List Prediction) : List Text :=
  (groups (fun p => (universeKey d p, p.productionClaimKey)) predictions).flatMap fun group =>
    ((group.insertionSort fun a b => a.emissionIndex ≤ b.emissionIndex).tail).map
      Prediction.predictionId

def expectedPosting (suppressed : List Text) (s : Scored) : PostingStatus :=
  if s.scope = .wouldReject ∨ s.prediction.predictionId ∈ suppressed then .suppress else .post

abbrev Labels := List ((Text × Text) × PairLabel)

/-- A resolution is of a primary prediction of its case. -/
def checkResolution (scored : List Scored) (answer : Answer) (r : Resolution) :
    Except Text Unit :=
  reject (∀ s ∈ scored, s.prediction.predictionId ≠ r.predictionId ∨
      s.prediction.caseId ≠ answer.caseId)
    "prediction resolution references unknown primary prediction"

def labelPair (scored : List Scored) (answer : Answer) (labels : Labels) (pair : IssuePair) :
    Except Text Labels := do
  let key := sortedPair pair.firstPredictionId pair.secondPredictionId
  reject (key ∈ labels.map Prod.fst) "duplicate or conflicting prediction pair label"
  let byId id := scored.find? fun s => s.prediction.predictionId = id
  match byId key.1, byId key.2 with
  | some first, some second =>
    reject (first.prediction.caseId ≠ answer.caseId ∨ second.prediction.caseId ≠ answer.caseId)
      "pair label crosses benchmark cases"
    reject (pair.label = .sameIssueDuplicate ∧ (first.issue = none ∨ first.issue ≠ second.issue))
      "same-issue pair contradicts resolved issues"
    reject (pair.label = .distinctIssueHardNegative ∧
        (first.issue = none ∨ second.issue = none ∨ first.issue = second.issue))
      "hard-negative pair contradicts resolved issues"
    pure (labels ++ [(key, pair.label)])
  | _, _ => .error "pair label references unknown primary prediction".toList

def labelAnswer (scored : List Scored) (labels : Labels) (answer : Answer) :
    Except Text Labels := do
  forAll (checkResolution scored answer) answer.predictionIssueResolutions
  loop (labelPair scored answer) labels answer.issuePairs

/-- `itertools.combinations(xs, 2)`. -/
def combinations {α : Type} : List α → List (α × α)
  | [] => []
  | x :: xs => xs.map (Prod.mk x) ++ combinations xs

/-- The pairs of predictions that could be duplicates. -/
def candidatePairs (d : DataSet) (predictions : List Prediction) :
    List (Prediction × Prediction) :=
  (groups (universeKey d) predictions).flatMap fun group =>
    combinations (group.insertionSort fun a b => a.predictionId ≤ b.predictionId)

def pairKey (pair : Prediction × Prediction) : Text × Text :=
  sortedPair pair.1.predictionId pair.2.predictionId

structure Duplicates where
  tp : List (Text × Text) := []
  fp : List (Text × Text) := []
  fn : List (Text × Text) := []
  hardNegatives : List (Text × Text) := []

def comparePair (host : Host) (labels : Labels) (s : Duplicates)
    (pair : Prediction × Prediction) : Except Text Duplicates := do
  let key := pairKey pair
  let label := labels.lookup key
  let left ← canonicalClaimTokens host pair.1.normalizedClaimTokens
  let right ← canonicalClaimTokens host pair.2.normalizedClaimTokens
  let trueSame := label = some .sameIssueDuplicate
  pure {
    tp := if left = right ∧ trueSame then s.tp ++ [key] else s.tp
    fp := if left = right ∧ ¬trueSame then s.fp ++ [key] else s.fp
    fn := if left ≠ right ∧ trueSame then s.fn ++ [key] else s.fn
    hardNegatives :=
      if label = some .distinctIssueHardNegative then s.hardNegatives ++ [key]
      else s.hardNegatives }

/-! ## Costs -/

/-- `_cost`. -/
def cost (run : Run) : Nat :=
  run.inputTokens.getD 0 + run.cachedInputTokens.getD 0 + run.outputTokens.getD 0 +
    run.reasoningTokens.getD 0

/-- What the two arms of a pair share. -/
def costKey (run : Run) : Text × Nat × Nat × Text :=
  (run.caseId, run.repetitionIndex, run.seed, run.scheduleSha256)

def invoked (run : Run) : Bool := run.status ≠ .notInvokedSetupFailure

/-- The runs with a cost: no arm of a pair is there twice, and telemetry that is there is
complete. -/
def checkCostRuns : List Run → List Run → Except Text Unit
  | _, [] => .ok ()
  | before, run :: runs => do
    reject (∃ r ∈ before, costKey r = costKey run ∧ r.arm = run.arm)
      "duplicate cost arm for paired repetition"
    reject (run.tokenTelemetryStatus = .available ∧
        (run.inputTokens = none ∨ run.cachedInputTokens = none ∨ run.outputTokens = none ∨
          run.reasoningTokens = none))
      "available token telemetry is incomplete"
    checkCostRuns (run :: before) runs

/-- The costs of a pair, if both arms are there. -/
def pairCost (group : List Run) : Except Text (Option (Nat × Nat)) :=
  match group.find? fun r => r.arm = .baseline, group.find? fun r => r.arm = .candidate with
  | some baseline, some candidate => do
    reject (baseline.diffSha256 ≠ candidate.diffSha256 ∨
        baseline.contextSha256 ≠ candidate.contextSha256 ∨ baseline.seed ≠ candidate.seed ∨
        baseline.scheduleSha256 ≠ candidate.scheduleSha256 ∨
        baseline.identity.chunkBudget ≠ candidate.identity.chunkBudget)
      "paired cost input identity mismatch"
    pure (some (cost baseline, cost candidate))
  | _, _ => pure none

structure Costs where
  locked : Bool
  baseline : Nat
  candidate : Nat

def pairCosts (runs : List Run) : Except Text Costs := do
  let runs := runs.filter invoked
  checkCostRuns [] runs
  let pairs ← (groups costKey runs).mapM pairCost
  let valid := pairs.filterMap id
  let baseline := (valid.map Prod.fst).sum
  pure {
    locked := (runs.any fun r => r.tokenTelemetryStatus ≠ .available) ||
      pairs.any Option.isNone || valid.isEmpty || baseline = 0
    baseline := baseline
    candidate := (valid.map Prod.snd).sum }

/-- The metric `cost_regression`. -/
def costMetric (costs : Costs) : Metric :=
  let ratio : Rat := if costs.locked then 0 else costs.candidate / (costs.baseline : Rat)
  { numerator := costs.candidate
    denominator := costs.baseline
    pointEstimate := ratio
    wilson95LowerBound := 0
    threshold := 110 / 100
    passed := !costs.locked && ratio ≤ 110 / 100
    requiredSampleShortfall := if costs.locked then 1 else 0 }

/-! ## The report -/

structure RolloutEvidence where
  caseCount : Nat
  prSizeStrataCovered : Nat
  partialTimeoutCases : Nat
  hardNegativePairs : Nat

inductive FailureReason where
  | costLocked
  | costRegression
  | findingSample
  | hardNegativeSample
  | insufficientSample
  | notInvokedSetupFailure
  | partialTimeoutCoverage
  | prSizeStrata
  | qualityLocked
  | adjudicationIncomplete
deriving DecidableEq, Repr

structure Report where
  metrics : Metrics
  findingCount : Nat
  issueCount : Nat
  rolloutEvidence : RolloutEvidence
  canEnforce : Bool
  failureReasons : List FailureReason

/-- The counts of the metrics. -/
structure Counts where
  numerator : MetricName → Nat
  denominator : MetricName → Nat

def counts (tally : Tally) (postingOk postingBad : Nat) (duplicates : Duplicates) : Counts where
  numerator
    | .issuePrecision | .issueRecall => tally.issueTp.length
    | .duplicatePrecision | .duplicateRecall => duplicates.tp.length
    | .scopeAccuracy => tally.scopeOk.length
    | .postingAccuracy => postingOk
  denominator
    | .issuePrecision => tally.issueTp.length + tally.issueFp.length
    | .issueRecall => tally.issueTp.length + tally.issueFn.length
    | .duplicatePrecision => duplicates.tp.length + duplicates.fp.length
    | .duplicateRecall => duplicates.tp.length + duplicates.fn.length
    | .scopeAccuracy => tally.scopeOk.length + tally.scopeBad.length
    | .postingAccuracy => postingOk + postingBad

/-- `metric_values`. -/
def metricValues (sqrt : Rat → Rat) (c : Counts) (costs : Costs) : Except Text Metrics := do
  let metric name := bernoulliMetric sqrt (metricRules name) (c.numerator name) (c.denominator name)
  let issuePrecision ← metric .issuePrecision
  let issueRecall ← metric .issueRecall
  let duplicatePrecision ← metric .duplicatePrecision
  let duplicateRecall ← metric .duplicateRecall
  let scopeAccuracy ← metric .scopeAccuracy
  let postingAccuracy ← metric .postingAccuracy
  pure ⟨issuePrecision, issueRecall, duplicatePrecision, duplicateRecall, scopeAccuracy,
    postingAccuracy, costMetric costs⟩

def strata (d : DataSet) (runs : List Run) : List Stratum :=
  (runs.filterMap fun run => (d.manifestOf run.caseId).toOption.map fun m =>
    m.value.prSizeStratum).dedup

/-- The reasons against an enforcement, in the order of their names. -/
def failureReasons (adjudicated setupFailed : Bool) (costs : Costs) (metrics : Metrics)
    (findings : Nat) (evidence : RolloutEvidence) : List FailureReason :=
  let holds : FailureReason → Bool
    | .adjudicationIncomplete => !adjudicated
    | .costLocked => costs.locked
    | .costRegression => !metrics.costRegression.passed && !costs.locked
    | .findingSample => findings < 100
    | .hardNegativeSample => evidence.hardNegativePairs < 30
    | .insufficientSample => metricNames.any fun name => !(metrics.get name).passed
    | .notInvokedSetupFailure => setupFailed
    | .partialTimeoutCoverage => evidence.partialTimeoutCases < 10
    | .prSizeStrata => evidence.prSizeStrataCovered < 3
    | .qualityLocked => setupFailed
  [.adjudicationIncomplete, .costLocked, .costRegression, .findingSample, .hardNegativeSample,
    .insufficientSample, .notInvokedSetupFailure, .partialTimeoutCoverage, .prSizeStrata,
    .qualityLocked].filter holds

/-- `validate_schema` of the report: its numbers are not negative. -/
def validateReport (report : Report) : Except Text Unit :=
  reject (∃ name ∈ metricNames, (report.metrics.get name).wilson95LowerBound < 0)
    "benchmark-report: number outside permitted range"

/-- What the scorer has counted. -/
structure Measured where
  counts : Counts
  costs : Costs
  findingCount : Nat
  issueCount : Nat
  evidence : RolloutEvidence
  adjudicated : Bool
  setupFailed : Bool

def measure (host : Host) (d : DataSet) : Except Text Measured := do
  let primary ← join host d
  let tally ← loop (scoreCase host d) {} primary
  let predictions := tally.scored.map Scored.prediction
  let repeated := suppressed d predictions
  let posted (s : Scored) : Bool := s.prediction.postingStatus = expectedPosting repeated s
  let labels ← loop (labelAnswer tally.scored) [] d.answers
  let pairs := candidatePairs d predictions
  let duplicates ← loop (comparePair host labels) {} pairs
  reject (∃ label ∈ labels, label.1 ∉ pairs.map pairKey)
    "labeled pair is outside duplicate candidate universe"
  let costs ← pairCosts d.runs
  pure {
    counts := counts tally (tally.scored.filter posted).length
      (tally.scored.filter fun s => !posted s).length duplicates
    costs := costs
    findingCount := predictions.length
    issueCount := (d.answers.map fun answer => answer.issues.length).sum
    evidence := {
      caseCount := primary.length
      prSizeStrataCovered := (strata d (primary.filter invoked)).length
      partialTimeoutCases :=
        (primary.filter fun run => run.status = .incomplete ∨ run.status = .timeout).length
      hardNegativePairs := duplicates.hardNegatives.length }
    adjudicated := d.answers.all adjudicationComplete
    setupFailed := primary.any fun run => !invoked run }

/-- The report of what was counted, with these metrics. -/
def reportWith (m : Measured) (metrics : Metrics) : Report :=
  let reasons :=
    failureReasons m.adjudicated m.setupFailed m.costs metrics m.findingCount m.evidence
  { metrics := metrics
    findingCount := m.findingCount
    issueCount := m.issueCount
    rolloutEvidence := m.evidence
    canEnforce := reasons.isEmpty
    failureReasons := reasons }

def score (sqrt : Rat → Rat) (host : Host) (d : DataSet) : Except Text Report := do
  let m ← measure host d
  let metrics ← metricValues sqrt m.counts m.costs
  let report := reportWith m metrics
  validateReport report
  pure report

/-! ## Loops -/

section Loop

variable {σ α : Type} {f : σ → α → Except Text σ} {s s' : σ} {xs : List α}

/-- What one turn preserves, the loop does. -/
theorem loop_inv {I : σ → Prop} (h : loop f s xs = .ok s') (hs : I s)
    (hstep : ∀ x ∈ xs, ∀ s s', I s → f s x = .ok s' → I s') : I s' := by
  induction xs generalizing s with
  | nil =>
    cases h
    exact hs
  | cons x xs ih =>
    obtain ⟨s₁, hx, hxs⟩ := Exc.bind_ok h
    exact ih hxs (hstep x List.mem_cons_self s s₁ hs hx) fun y hy =>
      hstep y (List.mem_cons_of_mem x hy)

/-- A measure that grows by `w x` in the turn of `x`. -/
theorem loop_sum {μ : σ → Nat} {w : α → Nat} (h : loop f s xs = .ok s')
    (hstep : ∀ x ∈ xs, ∀ s s', f s x = .ok s' → μ s' = μ s + w x) :
    μ s' = μ s + (xs.map w).sum := by
  induction xs generalizing s with
  | nil =>
    cases h
    rfl
  | cons x xs ih =>
    obtain ⟨s₁, hx, hxs⟩ := Exc.bind_ok h
    rw [ih hxs fun y hy => hstep y (List.mem_cons_of_mem x hy),
      hstep x List.mem_cons_self s s₁ hx, List.map_cons, List.sum_cons, Nat.add_assoc]

end Loop

/-! ## Totals -/

section Totals

variable {sqrt : Rat → Rat} {host : Host} {d : DataSet}

theorem candidateIssues_subset {prediction : Prediction} {tokens : List Text} {issues : List Issue}
    {candidates : List Text} (h : candidateIssues host prediction tokens issues = .ok candidates) :
    candidates ⊆ issues.map Issue.issueId := by
  induction issues generalizing candidates with
  | nil =>
    cases h
    exact List.nil_subset _
  | cons issue issues ih =>
    obtain ⟨same, -, h⟩ := Exc.bind_ok h
    obtain ⟨more, hmore, h⟩ := Exc.bind_ok h
    cases h
    cases same with
    | true => exact List.cons_subset_cons _ (ih hmore)
    | false => exact List.Subset.trans (ih hmore) (List.subset_cons_self _ _)

/-- A prediction is resolved to an issue of the answer. -/
theorem resolvePrediction_mem {prediction : Prediction} {answer : Answer} {issue : Text}
    (h : resolvePrediction host prediction answer = .ok (some issue)) :
    issue ∈ answer.issues.map Issue.issueId := by
  obtain ⟨tokens, -, h⟩ := Exc.bind_ok h
  obtain ⟨candidates, hc, h⟩ := Exc.bind_ok h
  have hsub := candidateIssues_subset hc
  dsimp only at h
  split at h
  · obtain ⟨_, -, h⟩ := Exc.bind_ok h
    cases h
    exact hsub List.mem_cons_self
  · obtain ⟨_, -, h⟩ := Exc.bind_ok h
    cases h
  · split at h
    · obtain ⟨_, hmem, h⟩ := Exc.bind_ok h
      cases h
      exact hsub (not_not.mp (reject_ok hmem))
    · cases h

/-- What the predictions of a case do to the tally that the case began with. -/
structure InCase (answer : Answer) (before : Tally) (s : List Text × Tally) : Prop where
  seen : s.1.Nodup
  known : s.1 ⊆ answer.issues.map Issue.issueId
  issueTp : s.2.issueTp.length = before.issueTp.length + s.1.length
  issueFn : s.2.issueFn = before.issueFn
  scope : s.2.scopeOk.length + s.2.scopeBad.length + before.scored.length =
    s.2.scored.length + (before.scopeOk.length + before.scopeBad.length)

theorem InCase.countIssue {answer : Answer} {before : Tally} {s : List Text × Tally}
    (hs : InCase answer before s) (stable : Text) {resolved : Option Text}
    (hr : ∀ issue, resolved = some issue → issue ∈ answer.issues.map Issue.issueId) :
    InCase answer before (countIssue stable resolved s) := by
  unfold Benchmark.countIssue
  split
  · exact ⟨hs.seen, hs.known, hs.issueTp, hs.issueFn, hs.scope⟩
  · next issue =>
    split
    · exact hs
    · next hi =>
      refine ⟨List.nodup_cons.mpr ⟨hi, hs.seen⟩, List.cons_subset.mpr ⟨hr issue rfl, hs.known⟩, ?_,
        hs.issueFn, hs.scope⟩
      rw [List.length_append, hs.issueTp]
      rfl

theorem InCase.scorePrediction {answer : Answer} {before : Tally}
    {ownership : List ((Text × Nat) × Nat)} {chunkCount : Nat} {prediction : Prediction}
    {s s' : List Text × Tally} (hs : InCase answer before s)
    (h : scorePrediction host answer ownership chunkCount s prediction = .ok s') :
    InCase answer before s' := by
  obtain ⟨resolved, hresolved, h⟩ := Exc.bind_ok h
  obtain ⟨_, -, h⟩ := Exc.bind_ok h
  have hc := hs.countIssue (stableId prediction) fun issue hi =>
    resolvePrediction_mem (hresolved.trans (congrArg Except.ok hi))
  dsimp only at h
  generalize Benchmark.countIssue (stableId prediction) resolved s = counted at h hc
  obtain rfl : (counted.1, countScope (stableId prediction) ⟨prediction, resolved,
    expectedScope ownership prediction⟩ counted.2) = s' := Except.ok.inj h
  have hscope := hc.scope
  unfold countScope
  split <;> refine ⟨hc.seen, hc.known, hc.issueTp, hc.issueFn, ?_⟩
  · simp only [List.length_append, List.length_singleton]
    omega
  · simp only [List.length_append, List.length_singleton]
    omega

/-- The issues of an answer are those that were found and those that were missed. -/
theorem length_missed {answer : Answer} {seen : List Text}
    (hids : (answer.issues.map Issue.issueId).Nodup) (hseen : seen.Nodup)
    (hknown : seen ⊆ answer.issues.map Issue.issueId) :
    seen.length + (missed answer seen).length = answer.issues.length := by
  have hfound : ((answer.issues.filter fun i => i.issueId ∈ seen).map Issue.issueId).Perm seen := by
    refine (List.perm_ext_iff_of_nodup (hids.sublist (List.filter_sublist.map _)) hseen).mpr
      fun id => ?_
    rw [List.mem_map]
    constructor
    · rintro ⟨i, hi, rfl⟩
      simpa using (List.mem_filter.mp hi).2
    · intro hid
      obtain ⟨i, hi, rfl⟩ := List.mem_map.mp (hknown hid)
      exact ⟨i, List.mem_filter.mpr ⟨hi, by simpa using hid⟩, rfl⟩
  have hlength := hfound.length_eq
  rw [List.length_map, ← List.countP_eq_length_filter] at hlength
  unfold missed
  rw [List.length_map, ← List.countP_eq_length_filter, ← hlength]
  have hadd := List.length_eq_countP_add_countP (fun i : Issue => decide (i.issueId ∈ seen))
    (l := answer.issues)
  rw [hadd]
  simp

/-- The issues of the answer of a case. -/
def DataSet.issueCount (d : DataSet) (caseId : Text) : Nat :=
  match d.answerOf caseId with
  | .ok answer => answer.issues.length
  | .error _ => 0

def Tally.issues (t : Tally) : Nat := t.issueTp.length + t.issueFn.length

/-- Every issue of a case is found or missed, and every prediction has a scope. -/
theorem scoreCase_ok (hids : ∀ a ∈ d.answers, (a.issues.map Issue.issueId).Nodup) {run : Run}
    {tally tally' : Tally} (h : scoreCase host d tally run = .ok tally') :
    tally'.issues = tally.issues + d.issueCount run.caseId ∧
      tally'.scopeOk.length + tally'.scopeBad.length + tally.scored.length =
        tally'.scored.length + (tally.scopeOk.length + tally.scopeBad.length) := by
  obtain ⟨answer, ha, h⟩ := Exc.bind_ok h
  have hanswer : (answer.issues.map Issue.issueId).Nodup := by
    refine hids answer ?_
    unfold DataSet.answerOf at ha
    split at ha
    · next a hfind =>
      obtain rfl := Except.ok.inj ha
      exact List.mem_of_find?_eq_some hfind
    · cases ha
  have hcount : d.issueCount run.caseId = answer.issues.length := by
    unfold DataSet.issueCount
    rw [ha]
  rw [hcount]
  dsimp only at h
  split at h
  · obtain rfl := Except.ok.inj h
    have hmissed := length_missed hanswer List.nodup_nil (List.nil_subset _)
    refine ⟨?_, Nat.add_comm _ _⟩
    unfold Tally.issues
    dsimp only
    rw [List.length_append]
    rw [List.length_nil] at hmissed
    omega
  · obtain ⟨manifest, -, h⟩ := Exc.bind_ok h
    obtain ⟨_, -, h⟩ := Exc.bind_ok h
    obtain ⟨⟨ownership, chunkCount⟩, -, h⟩ := Exc.bind_ok h
    obtain ⟨⟨seen, tally₁⟩, hloop, h⟩ := Exc.bind_ok h
    obtain rfl := Except.ok.inj h
    have hcase : InCase answer tally (seen, tally₁) :=
      loop_inv hloop ⟨List.nodup_nil, List.nil_subset _, rfl, rfl, Nat.add_comm _ _⟩
        fun _ _ _ _ hs hstep => hs.scorePrediction hstep
    refine ⟨?_, hcase.scope⟩
    have hmissed := length_missed hanswer hcase.seen hcase.known
    have htp := hcase.issueTp
    have hfn := hcase.issueFn
    unfold Tally.issues
    dsimp only at htp hfn hmissed ⊢
    rw [List.length_append, hfn]
    omega

theorem answerOf_caseId (hd : (d.answers.map Answer.caseId).Nodup) {answer : Answer}
    (ha : answer ∈ d.answers) : d.answerOf answer.caseId = .ok answer := by
  unfold DataSet.answerOf
  cases hf : d.answers.find? fun a => a.caseId = answer.caseId with
  | none => simpa using List.find?_eq_none.mp hf answer ha
  | some b =>
    have hid : b.caseId = answer.caseId := by simpa using List.find?_some hf
    obtain rfl := List.inj_on_of_nodup_map hd (List.mem_of_find?_eq_some hf) ha hid
    rfl

theorem sum_issueCount {primary : List Run} (hj : Joined d primary) :
    (primary.map fun run => d.issueCount run.caseId).sum =
      (d.answers.map fun answer => answer.issues.length).sum := by
  have hperm := (hj.cases.map d.issueCount).sum_eq
  rw [List.map_map, List.map_map] at hperm
  refine hperm.trans (congrArg List.sum (List.map_congr_left fun a ha => ?_))
  show d.issueCount a.caseId = a.issues.length
  unfold DataSet.issueCount
  rw [answerOf_caseId hj.answerCases ha]

theorem length_strata_le (runs : List Run) :
    (strata d runs).length ≤ 3 ∧ (strata d runs).length ≤ runs.length := by
  unfold strata
  refine ⟨?_, ((List.dedup_sublist _).length_le).trans (List.length_filterMap_le _ _)⟩
  have hsub : (runs.filterMap fun run => (d.manifestOf run.caseId).toOption.map fun m =>
      m.value.prSizeStratum).dedup ⊆ [Stratum.small, .medium, .large] := by
    intro x _
    cases x <;> decide
  exact ((List.nodup_dedup _).subperm hsub).length_le

theorem bernoulliMetric_ok {rule : MetricRule} {n m : Nat} {metric : Metric}
    (h : bernoulliMetric sqrt rule n m = .ok metric) :
    metric.numerator = n ∧ metric.denominator = m := by
  obtain ⟨_, -, h⟩ := Exc.bind_ok h
  obtain rfl := Except.ok.inj h
  exact ⟨rfl, rfl⟩

theorem metricValues_ok {c : Counts} {costs : Costs} {metrics : Metrics}
    (h : metricValues sqrt c costs = .ok metrics) :
    (∀ name, bernoulliMetric sqrt (metricRules name) (c.numerator name) (c.denominator name) =
      .ok (metrics.get name)) ∧ metrics.costRegression = costMetric costs := by
  obtain ⟨_, h₁, h⟩ := Exc.bind_ok h
  obtain ⟨_, h₂, h⟩ := Exc.bind_ok h
  obtain ⟨_, h₃, h⟩ := Exc.bind_ok h
  obtain ⟨_, h₄, h⟩ := Exc.bind_ok h
  obtain ⟨_, h₅, h⟩ := Exc.bind_ok h
  obtain ⟨_, h₆, h⟩ := Exc.bind_ok h
  obtain rfl := Except.ok.inj h
  refine ⟨fun name => ?_, rfl⟩
  cases name
  · exact h₁
  · exact h₂
  · exact h₃
  · exact h₄
  · exact h₅
  · exact h₆

/-- What the counts have to do with each other and with the data. -/
structure Tallies (d : DataSet) (m : Measured) : Prop where
  costs : pairCosts d.runs = .ok m.costs
  scope : m.counts.denominator .scopeAccuracy = m.findingCount
  posting : m.counts.denominator .postingAccuracy = m.findingCount
  issues : m.counts.denominator .issueRecall = m.issueCount
  strata : m.evidence.prSizeStrataCovered ≤ min 3 m.evidence.caseCount
  timeouts : m.evidence.partialTimeoutCases ≤ m.evidence.caseCount
  adjudicated : m.adjudicated = true
  le : ∀ name, m.counts.numerator name ≤ m.counts.denominator name

theorem counts_le (tally : Tally) (postingOk postingBad : Nat) (duplicates : Duplicates)
    (name : MetricName) : (counts tally postingOk postingBad duplicates).numerator name ≤
      (counts tally postingOk postingBad duplicates).denominator name := by
  cases name <;> exact Nat.le_add_right _ _

theorem measure_ok {m : Measured} (h : measure host d = .ok m) : Tallies d m := by
  obtain ⟨primary, hjoin, h⟩ := Exc.bind_ok h
  obtain ⟨tally, htally, h⟩ := Exc.bind_ok h
  obtain ⟨labels, -, h⟩ := Exc.bind_ok h
  obtain ⟨duplicates, -, h⟩ := Exc.bind_ok h
  obtain ⟨_, -, h⟩ := Exc.bind_ok h
  obtain ⟨costs, hcosts, h⟩ := Exc.bind_ok h
  have hj := join_ok hjoin
  have hissues := loop_sum htally fun run _ t t' hstep => (scoreCase_ok hj.issueIds hstep).1
  rw [sum_issueCount hj] at hissues
  have hscope : tally.scopeOk.length + tally.scopeBad.length = tally.scored.length := by
    refine @loop_inv _ _ _ _ _ _
      (fun t : Tally => t.scopeOk.length + t.scopeBad.length = t.scored.length) htally rfl ?_
    intro run _ t t' ht hstep
    have := (scoreCase_ok hj.issueIds hstep).2
    omega
  have hstrata := length_strata_le (d := d) (primary.filter invoked)
  obtain rfl := Except.ok.inj h
  refine ⟨hcosts, ?_, ?_, ?_, ?_, ?_, hj.adjudicated, counts_le _ _ _ _⟩
  · show tally.scopeOk.length + tally.scopeBad.length = (tally.scored.map Scored.prediction).length
    rw [hscope, List.length_map]
  · exact (length_filter_add _ _).trans (List.length_map _).symm
  · exact hissues.trans (Nat.zero_add _)
  · exact le_min hstrata.1 (hstrata.2.trans (List.length_filter_le _ _))
  · exact List.length_filter_le _ _

/-- What the numbers of a report have to do with each other and with the data. -/
structure Scores (sqrt : Rat → Rat) (d : DataSet) (costs : Costs) (setupFailed : Bool)
    (report : Report) : Prop where
  metrics : ∀ name, bernoulliMetric sqrt (metricRules name) (report.metrics.get name).numerator
    (report.metrics.get name).denominator = .ok (report.metrics.get name)
  paired : pairCosts d.runs = .ok costs
  costRegression : report.metrics.costRegression = costMetric costs
  scope : report.metrics.scopeAccuracy.denominator = report.findingCount
  posting : report.metrics.postingAccuracy.denominator = report.findingCount
  issues : report.metrics.issueRecall.denominator = report.issueCount
  strata : report.rolloutEvidence.prSizeStrataCovered ≤ min 3 report.rolloutEvidence.caseCount
  timeouts : report.rolloutEvidence.partialTimeoutCases ≤ report.rolloutEvidence.caseCount
  reasons : report.failureReasons = failureReasons true setupFailed costs report.metrics
    report.findingCount report.rolloutEvidence
  canEnforce : report.canEnforce = report.failureReasons.isEmpty

/-- **A report of the scorer.** -/
theorem score_ok {report : Report} (h : score sqrt host d = .ok report) :
    ∃ costs setupFailed, Scores sqrt d costs setupFailed report := by
  obtain ⟨m, hm, h⟩ := Exc.bind_ok h
  obtain ⟨metrics, hmetrics, h⟩ := Exc.bind_ok h
  obtain ⟨_, -, h⟩ := Exc.bind_ok h
  have ht := measure_ok hm
  obtain ⟨hvalues, hcost⟩ := metricValues_ok hmetrics
  have hcounts name := bernoulliMetric_ok (hvalues name)
  obtain rfl := Except.ok.inj h
  refine ⟨m.costs, m.setupFailed, ?_, ht.costs, hcost, (hcounts .scopeAccuracy).2.trans ht.scope,
    (hcounts .postingAccuracy).2.trans ht.posting, (hcounts .issueRecall).2.trans ht.issues,
    ht.strata, ht.timeouts, ?_, rfl⟩
  · intro name
    show bernoulliMetric sqrt (metricRules name) (metrics.get name).numerator
      (metrics.get name).denominator = .ok (metrics.get name)
    rw [(hcounts name).1, (hcounts name).2]
    exact hvalues name
  · unfold reportWith
    rw [ht.adjudicated]

/-- What was counted has a report when no bound is negative. -/
theorem score_exists {m : Measured} (h : measure host d = .ok m)
    (hw : ∀ name ∈ metricNames, 0 ≤ wilson95LowerBound sqrt (m.counts.numerator name)
      (m.counts.denominator name)) : ∃ report, score sqrt host d = .ok report := by
  have hle := (measure_ok h).le
  have hmetric name : ∃ metric, bernoulliMetric sqrt (metricRules name) (m.counts.numerator name)
      (m.counts.denominator name) = .ok metric ∧ 0 ≤ metric.wilson95LowerBound := by
    unfold bernoulliMetric reject
    rw [if_neg (Nat.not_lt.mpr (hle name))]
    exact ⟨_, rfl, hw name (mem_metricNames name)⟩
  choose f hf hnonneg using hmetric
  obtain ⟨metrics, hmetrics, hget⟩ : ∃ metrics, metricValues sqrt m.counts m.costs = .ok metrics ∧
      ∀ name, metrics.get name = f name := by
    refine ⟨⟨f .issuePrecision, f .issueRecall, f .duplicatePrecision, f .duplicateRecall,
      f .scopeAccuracy, f .postingAccuracy, costMetric m.costs⟩, ?_,
        fun name => by cases name <;> rfl⟩
    unfold metricValues
    simp only [hf]
    rfl
  have hvalid : validateReport (reportWith m metrics) = .ok () := by
    unfold validateReport reject
    refine if_neg ?_
    rintro ⟨name, -, hlt⟩
    rw [show (reportWith m metrics).metrics = metrics from rfl, hget] at hlt
    exact absurd hlt (not_lt.mpr (hnonneg name))
  refine ⟨reportWith m metrics, ?_⟩
  unfold score
  rw [h]
  show (metricValues sqrt m.counts m.costs >>= fun metrics =>
    validateReport (reportWith m metrics) >>= fun _ => pure (reportWith m metrics)) = _
  rw [hmetrics]
  show (validateReport (reportWith m metrics) >>= fun _ => pure (reportWith m metrics)) = _
  rw [hvalid]
  rfl

end Totals

end Benchmark
