import AlmightyReview.Bench.Score

/-!
# Reports and the rollout gate

A report of the scorer, as `benchmark_attestation` and `rollout` read it.

* `evaluateScopeDedupeRollout`: the gate. It decides as the scorer does (`gate_eq`).
* `reportMetricsAreConsistent`: everything is computed again from the counts. That knows nothing of
  a lock of the costs, so a report with locked costs and a cost is taken for a forged one.
* `CostsComplete`, `NoBaselineCost`: the two kinds of data whose reports are accepted.
-/

namespace Benchmark

/-! ## The gate -/

structure RolloutDecision where
  canEnforce : Bool
  reasons : List Text

/-- The defaults of `evaluate_scope_dedupe_rollout`. -/
structure RolloutLimits where
  minFindings : Nat := 100
  minPrSizeStrata : Nat := 3
  minPartialTimeoutCases : Nat := 10
  minHardNegativePairs : Nat := 30
  maxCostRegressionRatio : Rat := 110 / 100

def MetricName.text : MetricName → Text
  | .issuePrecision => "issue_precision".toList
  | .issueRecall => "issue_recall".toList
  | .duplicatePrecision => "duplicate_precision".toList
  | .duplicateRecall => "duplicate_recall".toList
  | .scopeAccuracy => "scope_accuracy".toList
  | .postingAccuracy => "posting_accuracy".toList

/-- The text of a failure that the gate takes from the report. -/
def lockReason : FailureReason → Option Text
  | .costLocked => some "cost_locked".toList
  | .notInvokedSetupFailure => some "not_invoked_setup_failure".toList
  | .qualityLocked => some "quality_locked".toList
  | _ => none

/-- `if c: reasons.append(reason)`. -/
def reasonIf (c : Bool) (reason : String) : List Text := if c then [reason.toList] else []

/-- `_report_gate`. -/
def reportGate (limits : RolloutLimits) (report : Report) : RolloutDecision :=
  let cost := report.metrics.costRegression
  let evidence := report.rolloutEvidence
  let names : List MetricName := [.scopeAccuracy, .postingAccuracy, .duplicatePrecision,
    .duplicateRecall, .issuePrecision, .issueRecall]
  let reasons :=
    reasonIf (report.findingCount < limits.minFindings) "insufficient_sample" ++
    (names.filter fun name => !(report.metrics.get name).passed).map MetricName.text ++
    reasonIf (!cost.passed || limits.maxCostRegressionRatio < cost.pointEstimate)
      "cost_regression" ++
    reasonIf (evidence.prSizeStrataCovered < limits.minPrSizeStrata) "pr_size_strata" ++
    reasonIf (evidence.partialTimeoutCases < limits.minPartialTimeoutCases)
      "partial_timeout_coverage" ++
    reasonIf (evidence.hardNegativePairs < limits.minHardNegativePairs) "hard_negative_sample" ++
    if report.canEnforce then [] else report.failureReasons.filterMap lockReason
  ⟨reasons.isEmpty, firsts reasons⟩

/-- `evaluate_scope_dedupe_rollout` of a report. -/
def evaluateScopeDedupeRollout (report : Report) : RolloutDecision := reportGate {} report

/-! ## Consistency -/

/-- `rules` of `_report_metrics_are_consistent`. -/
def attestationRules : MetricName → MetricRule
  | .issuePrecision => ⟨995 / 1000, 99 / 100, 1⟩
  | .issueRecall => ⟨95 / 100, 90 / 100, 1⟩
  | .duplicatePrecision => ⟨1, 88 / 100, 30⟩
  | .duplicateRecall => ⟨95 / 100, 85 / 100, 30⟩
  | .scopeAccuracy => ⟨995 / 1000, 99 / 100, 1⟩
  | .postingAccuracy => ⟨995 / 1000, 99 / 100, 1⟩

/-- `expected_cost`. -/
def expectedCost (cost : Metric) : Metric :=
  let ratio : Rat :=
    if cost.denominator = 0 then 0 else cost.numerator / (cost.denominator : Rat)
  { numerator := cost.numerator
    denominator := cost.denominator
    pointEstimate := ratio
    wilson95LowerBound := 0
    threshold := 110 / 100
    passed := 0 < cost.denominator ∧ ratio ≤ 110 / 100
    requiredSampleShortfall := if 0 < cost.denominator then 0 else 1 }

/-- The metric is what its counts make of it. -/
def metricIsConsistent (sqrt : Rat → Rat) (report : Report) (name : MetricName) : Bool :=
  let metric := report.metrics.get name
  match bernoulliMetric sqrt (attestationRules name) metric.numerator metric.denominator with
  | .ok expected => metric = expected
  | .error _ => false

/-- `_report_metrics_are_consistent`. -/
def reportMetricsAreConsistent (sqrt : Rat → Rat) (report : Report) : Bool :=
  let metrics := report.metrics
  let evidence := report.rolloutEvidence
  if ¬metricNames.all (metricIsConsistent sqrt report) then false
  else if metrics.costRegression ≠ expectedCost metrics.costRegression then false
  else if report.findingCount ≠ metrics.scopeAccuracy.denominator ∨
      report.findingCount ≠ metrics.postingAccuracy.denominator ∨
      report.issueCount ≠ metrics.issueRecall.denominator ∨
      min 3 evidence.caseCount < evidence.prSizeStrataCovered ∨
      evidence.caseCount < evidence.partialTimeoutCases then false
  else if report.canEnforce ≠ (evaluateScopeDedupeRollout report).canEnforce then false
  else if report.canEnforce ∧ report.failureReasons ≠ [] then false
  else true

/-! ## Reports of the scorer -/

section Report

variable {sqrt : Rat → Rat} {d : DataSet} {costs : Costs} {setupFailed : Bool} {report : Report}

/-- Nothing fails: the same conditions for the scorer and for the gate. -/
structure Passes (report : Report) : Prop where
  metrics : ∀ name, (report.metrics.get name).passed = true
  cost : report.metrics.costRegression.passed = true
  findings : 100 ≤ report.findingCount
  strata : 3 ≤ report.rolloutEvidence.prSizeStrataCovered
  timeouts : 10 ≤ report.rolloutEvidence.partialTimeoutCases
  hardNegatives : 30 ≤ report.rolloutEvidence.hardNegativePairs

theorem costMetric_passed (costs : Costs) (h : (costMetric costs).passed = true) :
    costs.locked = false ∧ (costMetric costs).pointEstimate ≤ 110 / 100 := by
  unfold costMetric at h ⊢
  simpa using h

theorem mem_failureReasons {r : FailureReason} (h : Scores sqrt d costs setupFailed report) :
    r ∈ report.failureReasons ↔ match r with
      | .adjudicationIncomplete => False
      | .costLocked => costs.locked = true
      | .costRegression => report.metrics.costRegression.passed = false ∧ costs.locked = false
      | .findingSample => report.findingCount < 100
      | .hardNegativeSample => report.rolloutEvidence.hardNegativePairs < 30
      | .insufficientSample => ∃ name, (report.metrics.get name).passed = false
      | .notInvokedSetupFailure => setupFailed = true
      | .partialTimeoutCoverage => report.rolloutEvidence.partialTimeoutCases < 10
      | .prSizeStrata => report.rolloutEvidence.prSizeStrataCovered < 3
      | .qualityLocked => setupFailed = true := by
  rw [h.reasons]
  unfold failureReasons
  rw [List.mem_filter]
  cases r <;> simp [mem_metricNames]

/-- The scorer enforces exactly when nothing fails and every primary run was invoked. -/
theorem canEnforce_iff (h : Scores sqrt d costs setupFailed report) :
    report.canEnforce = true ↔ Passes report ∧ setupFailed = false := by
  rw [h.canEnforce, List.isEmpty_iff, List.eq_nil_iff_forall_not_mem]
  constructor
  · intro hnone
    have hno r := (mem_failureReasons h).not.mp (hnone r)
    have hlocked := hno .costLocked
    have hcost := hno .costRegression
    have hmetrics := hno .insufficientSample
    have hsetup := hno .qualityLocked
    have hfindings := hno .findingSample
    have hstrata := hno .prSizeStrata
    have htimeouts := hno .partialTimeoutCoverage
    have hnegatives := hno .hardNegativeSample
    dsimp only at hlocked hcost hmetrics hsetup hfindings hstrata htimeouts hnegatives
    refine ⟨⟨fun name => ?_, ?_, ?_, ?_, ?_, ?_⟩, by simpa using hsetup⟩
    · by_contra hf
      exact hmetrics ⟨name, by simpa using hf⟩
    · by_contra hf
      exact hcost ⟨by simpa using hf, by simpa using hlocked⟩
    · omega
    · omega
    · omega
    · omega
  · rintro ⟨hp, hsetup⟩ r
    rw [mem_failureReasons h]
    have hunlocked := (costMetric_passed costs (h.costRegression ▸ hp.cost)).1
    have := hp.findings
    have := hp.strata
    have := hp.timeouts
    have := hp.hardNegatives
    cases r <;> simp [hp.metrics, hp.cost, hunlocked, hsetup] <;> omega

theorem reasonIf_eq_nil {c : Bool} {reason : String} : reasonIf c reason = [] ↔ c = false := by
  unfold reasonIf
  cases c <;> simp

/-- **The gate decides as the scorer does.** -/
theorem gate_eq (h : Scores sqrt d costs setupFailed report) :
    (evaluateScopeDedupeRollout report).canEnforce = report.canEnforce := by
  rw [Bool.eq_iff_iff]
  unfold evaluateScopeDedupeRollout reportGate
  simp only [List.isEmpty_iff, List.append_eq_nil_iff, reasonIf_eq_nil, List.map_eq_nil_iff,
    List.filter_eq_nil_iff, decide_eq_false_iff_not, Nat.not_lt, Bool.or_eq_false_iff,
    Bool.not_eq_false', and_assoc]
  constructor
  · rintro ⟨hfindings, hmetrics, hcost, -, hstrata, htimeouts, hnegatives, hlocks⟩
    cases hcan : report.canEnforce with
    | true => rfl
    | false =>
      -- without an enforcement some reason is in the report, and it must be a lock
      rw [hcan, if_neg Bool.false_ne_true, List.filterMap_eq_nil_iff] at hlocks
      have hsetup : setupFailed = false := by
        by_contra hs
        have hmem : FailureReason.qualityLocked ∈ report.failureReasons :=
          (mem_failureReasons h).mpr (by simpa using hs)
        cases hlocks _ hmem
      have hpasses : Passes report :=
        ⟨fun name => by have := hmetrics name (by cases name <;> decide); simpa using this, hcost,
          hfindings, hstrata, htimeouts, hnegatives⟩
      exact hcan.symm.trans ((canEnforce_iff h).mpr ⟨hpasses, hsetup⟩)
  · intro hcan
    obtain ⟨hp, -⟩ := (canEnforce_iff h).mp hcan
    have hratio := (costMetric_passed costs (h.costRegression ▸ hp.cost)).2
    refine ⟨hp.findings, fun name _ => by simp [hp.metrics], hp.cost, ?_, hp.strata, hp.timeouts,
      hp.hardNegatives, by rw [if_pos hcan]⟩
    rw [h.costRegression]
    exact not_lt.mpr hratio

theorem attestationRules_eq : attestationRules = metricRules := by
  funext name
  cases name <;> rfl

theorem metricIsConsistent_eq (h : Scores sqrt d costs setupFailed report) (name : MetricName) :
    metricIsConsistent sqrt report name = true := by
  unfold metricIsConsistent
  dsimp only
  rw [attestationRules_eq, h.metrics name]
  exact decide_eq_true rfl

/-- The costs are computed again to the same metric, unless they are locked and there are some. -/
theorem expectedCost_eq_iff {costs : Costs} (hl : costs.baseline = 0 → costs.locked = true) :
    costMetric costs = expectedCost (costMetric costs) ↔
      costs.locked = false ∨ costs.baseline = 0 := by
  obtain ⟨locked, baseline, candidate⟩ := costs
  dsimp only at hl ⊢
  by_cases hb : baseline = 0
  · subst hb
    rw [hl rfl]
    simp [costMetric, expectedCost]
  · cases locked with
    | false => simp [costMetric, expectedCost, hb, Nat.pos_of_ne_zero hb]
    | true => simp [costMetric, expectedCost, hb, Nat.pos_of_ne_zero hb]

theorem consistent_iff (h : Scores sqrt d costs setupFailed report)
    (hl : costs.baseline = 0 → costs.locked = true) :
    reportMetricsAreConsistent sqrt report = true ↔
      costs.locked = false ∨ costs.baseline = 0 := by
  have hmetrics : metricNames.all (metricIsConsistent sqrt report) = true :=
    List.all_eq_true.mpr fun name _ => metricIsConsistent_eq h name
  have hcounts : ¬(report.findingCount ≠ report.metrics.scopeAccuracy.denominator ∨
      report.findingCount ≠ report.metrics.postingAccuracy.denominator ∨
      report.issueCount ≠ report.metrics.issueRecall.denominator ∨
      min 3 report.rolloutEvidence.caseCount < report.rolloutEvidence.prSizeStrataCovered ∨
      report.rolloutEvidence.caseCount < report.rolloutEvidence.partialTimeoutCases) := by
    have := h.scope
    have := h.posting
    have := h.issues
    have := h.strata
    have := h.timeouts
    omega
  have hreasons : ¬(report.canEnforce = true ∧ report.failureReasons ≠ []) := by
    rintro ⟨hcan, hne⟩
    rw [h.canEnforce, List.isEmpty_iff] at hcan
    exact hne hcan
  unfold reportMetricsAreConsistent
  dsimp only
  rw [if_neg (not_not.mpr hmetrics), if_neg hcounts, if_neg (not_not.mpr (gate_eq h).symm),
    if_neg hreasons, ← expectedCost_eq_iff hl, h.costRegression]
  by_cases hc : costMetric costs = expectedCost (costMetric costs)
  · rw [if_neg (not_not.mpr hc)]
    exact iff_of_true rfl hc
  · rw [if_pos hc]
    exact iff_of_false Bool.false_ne_true hc

end Report

/-! ## Costs of the data -/

/-- Every run that was invoked has its telemetry and a run of the other arm. -/
structure CostsComplete (d : DataSet) : Prop where
  telemetry : ∀ run ∈ d.runs, invoked run → run.tokenTelemetryStatus = .available
  paired : ∀ run ∈ d.runs, invoked run →
    ∃ other ∈ d.runs, invoked other ∧ costKey other = costKey run ∧ other.arm ≠ run.arm

/-- No baseline run of a pair has a cost. -/
def NoBaselineCost (d : DataSet) : Prop :=
  ∀ baseline ∈ d.runs, ∀ candidate ∈ d.runs, invoked baseline → invoked candidate →
    costKey baseline = costKey candidate → baseline.arm = .baseline →
    candidate.arm = .candidate → cost baseline = 0

section Costs

variable {runs : List Run} {group : List Run}

theorem checkCostRuns_ok {before : List Run} {u : Unit} (h : checkCostRuns before runs = .ok u) :
    (∀ r ∈ before, ∀ run ∈ runs, ¬(costKey r = costKey run ∧ r.arm = run.arm)) ∧
      runs.Pairwise fun r run => ¬(costKey r = costKey run ∧ r.arm = run.arm) := by
  induction runs generalizing before with
  | nil => exact ⟨fun _ _ _ hr => (by cases hr), .nil⟩
  | cons run runs ih =>
    obtain ⟨_, hone, h⟩ := Exc.bind_ok h
    obtain ⟨_, -, h⟩ := Exc.bind_ok h
    obtain ⟨hbefore, hpairs⟩ := ih h
    have hone := reject_ok hone
    push Not at hone
    refine ⟨fun r hr x hx => ?_, .cons (fun x hx => ?_) hpairs⟩
    · rcases List.mem_cons.mp hx with rfl | hx
      · exact fun hs => hone r hr hs.1 hs.2
      · exact hbefore r (List.mem_cons_of_mem _ hr) x hx
    · exact hbefore run List.mem_cons_self x hx

/-- An arm of a pair is one run. -/
theorem arm_unique {u : Unit} (h : checkCostRuns [] runs = .ok u) {a b : Run} (ha : a ∈ runs)
    (hb : b ∈ runs) (hkey : costKey a = costKey b) (harm : a.arm = b.arm) : a = b := by
  by_contra hne
  have hsymm : Std.Symm fun r run : Run => ¬(costKey r = costKey run ∧ r.arm = run.arm) :=
    ⟨fun r run hr hs => hr ⟨hs.1.symm, hs.2.symm⟩⟩
  exact (checkCostRuns_ok h).2.forall ha hb hne ⟨hkey, harm⟩

/-- A group has both arms, or one of them is missing. -/
theorem pairCost_cases {r : Option (Nat × Nat)} (h : pairCost group = .ok r) :
    (∃ b ∈ group, ∃ c ∈ group, b.arm = .baseline ∧ c.arm = .candidate ∧
      r = some (cost b, cost c)) ∨
    (r = none ∧ ∃ arm : Arm, ∀ run ∈ group, run.arm ≠ arm) := by
  unfold pairCost at h
  split at h
  · next b c hb hc =>
    obtain ⟨_, -, h⟩ := Exc.bind_ok h
    obtain rfl := Except.ok.inj h
    exact .inl ⟨b, List.mem_of_find?_eq_some hb, c, List.mem_of_find?_eq_some hc,
      by simpa using List.find?_some hb, by simpa using List.find?_some hc, rfl⟩
  · next hnot =>
    obtain rfl := Except.ok.inj h
    refine .inr ⟨rfl, ?_⟩
    cases hb : group.find? fun r => r.arm = .baseline with
    | none => exact ⟨.baseline, fun run hr => by simpa using List.find?_eq_none.mp hb run hr⟩
    | some b =>
      cases hc : group.find? fun r => r.arm = .candidate with
      | none => exact ⟨.candidate, fun run hr => by simpa using List.find?_eq_none.mp hc run hr⟩
      | some c => exact absurd hc (hnot b c hb)

/-- What the costs are computed from: a result for each group of runs. -/
structure Paired (d : DataSet) (pairs : List (Option (Nat × Nat))) (costs : Costs) : Prop where
  unique : ∃ u, checkCostRuns [] (d.runs.filter invoked) = .ok u
  results : List.Forall₂ (fun g r => pairCost g = .ok r)
    (groups costKey (d.runs.filter invoked)) pairs
  baseline : costs.baseline = ((pairs.filterMap id).map Prod.fst).sum
  locked : costs.locked =
    ((d.runs.filter invoked).any (fun r => r.tokenTelemetryStatus ≠ .available) ||
      pairs.any Option.isNone || (pairs.filterMap id).isEmpty || costs.baseline = 0)

theorem pairCosts_ok {d : DataSet} {costs : Costs} (h : pairCosts d.runs = .ok costs) :
    ∃ pairs, Paired d pairs costs := by
  obtain ⟨u, hunique, h⟩ := Exc.bind_ok h
  obtain ⟨pairs, hpairs, h⟩ := Exc.bind_ok h
  obtain rfl := Except.ok.inj h
  exact ⟨pairs, ⟨u, hunique⟩, forall₂_of_mapM hpairs, rfl, rfl⟩

variable {d : DataSet} {costs : Costs} {pairs : List (Option (Nat × Nat))}

theorem Paired.locked_of_baseline (h : Paired d pairs costs) (hb : costs.baseline = 0) :
    costs.locked = true := by
  rw [h.locked, hb]
  simp

/-- The result for the group of a run. -/
theorem Paired.result (h : Paired d pairs costs) {run : Run} (hr : run ∈ d.runs)
    (hi : invoked run = true) : ∃ r ∈ pairs,
      pairCost ((d.runs.filter invoked).filter fun x => costKey x = costKey run) = .ok r :=
  forall₂_mem_left h.results _ (mem_groups.mpr ⟨run, List.mem_filter.mpr ⟨hr, hi⟩, rfl⟩)

/-- The group of a result. -/
theorem Paired.exists_run (h : Paired d pairs costs) {r : Option (Nat × Nat)} (hr : r ∈ pairs) :
    ∃ run ∈ d.runs.filter invoked,
      pairCost ((d.runs.filter invoked).filter fun x => costKey x = costKey run) = .ok r := by
  obtain ⟨g, hg, hrun⟩ := forall₂_mem_right h.results r hr
  obtain ⟨run, hmem, rfl⟩ := mem_groups.mp hg
  exact ⟨run, hmem, hrun⟩

theorem mem_group {run x : Run} :
    x ∈ (d.runs.filter invoked).filter (fun x => costKey x = costKey run) ↔
      (x ∈ d.runs ∧ invoked x = true) ∧ costKey x = costKey run := by
  rw [List.mem_filter, List.mem_filter, decide_eq_true_eq]

theorem Paired.complete_of_unlocked (h : Paired d pairs costs) (hl : costs.locked = false) :
    CostsComplete d := by
  have hlocked := h.locked.symm.trans hl
  simp only [Bool.or_eq_false_iff, List.any_eq_false, List.mem_filter] at hlocked
  obtain ⟨⟨⟨htelemetry, hnone⟩, -⟩, -⟩ := hlocked
  refine ⟨fun run hr hi => ?_, fun run hr hi => ?_⟩
  · by_contra hn
    exact htelemetry run ⟨hr, hi⟩ (by simpa using hn)
  · obtain ⟨r, hmem, hpair⟩ := h.result hr hi
    rcases pairCost_cases hpair with ⟨b, hb, c, hc, hba, hca, -⟩ | ⟨rfl, -⟩
    · obtain ⟨⟨hbr, hbi⟩, hbk⟩ := mem_group.mp hb
      obtain ⟨⟨hcr, hci⟩, hck⟩ := mem_group.mp hc
      cases harm : run.arm with
      | baseline => exact ⟨c, hcr, hci, hck, by rw [hca]; decide⟩
      | candidate => exact ⟨b, hbr, hbi, hbk, by rw [hba]; decide⟩
    · exact absurd rfl (hnone none hmem)

theorem Paired.noCost_of_baseline (h : Paired d pairs costs) (hb : costs.baseline = 0) :
    NoBaselineCost d := by
  intro b hb' c hc hbi hci hkey hba hca
  obtain ⟨u, hunique⟩ := h.unique
  obtain ⟨r, hmem, hpair⟩ := h.result hb' hbi
  rcases pairCost_cases hpair with ⟨b', hbg, c', -, hba', -, rfl⟩ | ⟨-, arm, harm⟩
  · obtain ⟨⟨hbr, hbi'⟩, hbk⟩ := mem_group.mp hbg
    obtain rfl : b' = b := arm_unique hunique (List.mem_filter.mpr ⟨hbr, hbi'⟩)
      (List.mem_filter.mpr ⟨hb', hbi⟩) hbk (hba'.trans hba.symm)
    rw [h.baseline, List.sum_eq_zero_iff_forall_eq_nat] at hb
    have hvalid : (cost b', cost c') ∈ pairs.filterMap id := List.mem_filterMap.mpr ⟨_, hmem, rfl⟩
    exact hb (cost b') (List.mem_map.mpr ⟨_, hvalid, rfl⟩)
  · -- both arms are in the group
    cases arm with
    | baseline => exact absurd hba (harm b (mem_group.mpr ⟨⟨hb', hbi⟩, rfl⟩))
    | candidate => exact absurd hca (harm c (mem_group.mpr ⟨⟨hc, hci⟩, hkey.symm⟩))

theorem Paired.baseline_of_noCost (h : Paired d pairs costs) (hn : NoBaselineCost d) :
    costs.baseline = 0 := by
  rw [h.baseline, List.sum_eq_zero_iff_forall_eq_nat]
  intro n hn'
  obtain ⟨v, hv, rfl⟩ := List.mem_map.mp hn'
  obtain ⟨r, hr, rfl⟩ := List.mem_filterMap.mp hv
  obtain ⟨run, -, hpair⟩ := h.exists_run hr
  rcases pairCost_cases hpair with ⟨b, hb, c, hc, hba, hca, hrv⟩ | ⟨hnone, -⟩
  · obtain ⟨⟨hbr, hbi⟩, hbk⟩ := mem_group.mp hb
    obtain ⟨⟨hcr, hci⟩, hck⟩ := mem_group.mp hc
    obtain rfl : (cost b, cost c) = v := (Option.some.inj hrv).symm
    exact hn b hbr c hcr hbi hci (hbk.trans hck.symm) hba hca
  · cases hnone

theorem Paired.unlocked_of_complete (h : Paired d pairs costs) (hc : CostsComplete d)
    (hb : costs.baseline ≠ 0) : costs.locked = false := by
  rw [h.locked]
  simp only [Bool.or_eq_false_iff, List.any_eq_false, List.mem_filter, decide_eq_true_eq,
    decide_eq_false_iff_not, List.isEmpty_eq_false_iff]
  refine ⟨⟨⟨fun run hr hne => hne (hc.telemetry run hr.1 hr.2), fun r hr hnone => ?_⟩, ?_⟩, hb⟩
  · obtain ⟨run, hmem, hpair⟩ := h.exists_run hr
    obtain ⟨hrun, hi⟩ := List.mem_filter.mp hmem
    obtain ⟨other, ho, hoi, hok, hne⟩ := hc.paired run hrun hi
    rcases pairCost_cases hpair with ⟨_, _, _, _, _, _, rfl⟩ | ⟨-, arm, harm⟩
    · cases hnone
    · -- the two runs have the two arms
      have h₁ := harm run (mem_group.mpr ⟨⟨hrun, hi⟩, rfl⟩)
      have h₂ := harm other (mem_group.mpr ⟨⟨ho, hoi⟩, hok⟩)
      cases arm <;> cases hra : run.arm <;> cases hoa : other.arm <;> simp_all
  · intro hempty
    rw [h.baseline, hempty] at hb
    exact hb rfl

end Costs

/-- **Which reports are accepted.** The gate always decides as the scorer. The report passes the
consistency check exactly when its costs could not be locked while there are some: every run that
was invoked has its telemetry and its pair, or the baseline runs of the pairs cost nothing. -/
theorem report_accepted_iff {sqrt : Rat → Rat} {host : Host} {d : DataSet} {report : Report}
    (h : score sqrt host d = .ok report) :
    (report.canEnforce = (evaluateScopeDedupeRollout report).canEnforce ∧
      reportMetricsAreConsistent sqrt report = true) ↔ CostsComplete d ∨ NoBaselineCost d := by
  obtain ⟨costs, setupFailed, hs⟩ := score_ok h
  obtain ⟨pairs, hp⟩ := pairCosts_ok hs.paired
  rw [and_iff_right (gate_eq hs).symm, consistent_iff hs hp.locked_of_baseline]
  constructor
  · rintro (hl | hb)
    · exact .inl (hp.complete_of_unlocked hl)
    · exact .inr (hp.noCost_of_baseline hb)
  · rintro (hc | hn)
    · by_cases hb : costs.baseline = 0
      · exact .inr hb
      · exact .inl (hp.unlocked_of_complete hc hb)
    · exact .inr (hp.baseline_of_noCost hn)

/-! ## A small data set -/

/-- Square roots with twelve decimals. -/
def decimalSqrt (q : Rat) : Rat := (Nat.sqrt (q.num.toNat * 10 ^ 24 / q.den) : Rat) / 10 ^ 12

def sha (c : Char) : Text := List.replicate 64 c

/-- One file with one new line. -/
def sampleHost : Host where
  ownershipHash := sha 'a'
  readInput _ := some (sha 'b', some (DiffFilter.newFile "diff --git a/x.py b/x.py"))
  normalizeClaim claim := [claim]
  productionCanonicalClaim claim := claim

def sampleManifest : Artifact Manifest where
  name := "case-one.json".toList
  sha256 := sha 'c'
  value := {
    caseId := "case-one".toList
    prSizeStratum := .small
    inputPath := "case-one.diff".toList
    inputSha256 := sha 'b'
    claimNormalizationVersion := claimNormalizationVersion
    claimTokenizerSha256 := claimTokenizerSha256 }

def samplePrediction : Artifact Prediction where
  name := "prediction-one.json".toList
  sha256 := sha 'd'
  value := {
    predictionId := "prediction-one".toList
    caseId := "case-one".toList
    runId := "run-one".toList
    file := "x.py".toList
    line := 1
    category := "bug".toList
    claimNormalizationVersion := claimNormalizationVersion
    claimTokenizerSha256 := claimTokenizerSha256
    normalizedClaimTokens := ["leak".toList]
    productionClaimKey := "leak".toList
    scopeStatus := .owned
    postingStatus := .post
    sourceChunkIndex := 0
    emissionIndex := 0 }

def sampleAnswer : Answer where
  caseId := "case-one".toList
  manifestSha256 := sha 'c'
  claimNormalizationVersion := claimNormalizationVersion
  claimTokenizerSha256 := claimTokenizerSha256
  issues := [⟨"issue-one".toList, [⟨"x.py".toList, 1, 1⟩], ["bug".toList], [["leak".toList]]⟩]
  knownCleanRanges := []
  issuePairs := []
  verdicts := [⟨"adj-aaaaaa".toList, .accept, .none⟩, ⟨"adj-bbbbbb".toList, .accept, .none⟩]
  resolutionStatus := .unanimous
  hasResolutionRecord := false
  ownershipFunctionVersion := "diff-ownership-v1".toList
  ownershipFunctionSha256 := sha 'a'
  chunkerVersion := reviewChunkerVersion
  chunkerSha256 := sha 'a'
  predictionIssueResolutions := []

/-- A run of the case; with telemetry it used 15 tokens. -/
def sampleRun (runId : String) (arm : Arm) (status : Status) (repetitionIndex : Nat)
    (telemetry : TokenTelemetry) : Run :=
  let run : Run := {
    runId := runId.toList
    caseId := "case-one".toList
    manifestSha256 := sha 'c'
    arm := arm
    repetitionIndex := repetitionIndex
    primaryRepetitionIndex := 0
    seed := 7
    scheduleSha256 := sha 'e'
    identity := ⟨"codex".toList, "gpt".toList, "high".toList, sha 'f', sha 'f', sha 'a', 100000,
      sha 'f', "1.2.3".toList, sha 'f'⟩
    diffSha256 := sha 'b'
    contextSha256 := sha 'f'
    predictionArtifactPath :=
      "benchmarks/review_pipeline/private/predictions/prediction-one.json".toList
    predictionArtifactSha256 := combinedHash [samplePrediction]
    status := status
    coverageEvidenceSha256 := []
    tokenTelemetryStatus := telemetry
    inputTokens := if telemetry = .available then some 10 else none
    cachedInputTokens := if telemetry = .available then some 0 else none
    outputTokens := if telemetry = .available then some 5 else none
    reasoningTokens := if telemetry = .available then some 0 else none }
  { run with coverageEvidenceSha256 := coverageEvidence run }

def sampleData (runs : List Run) : DataSet :=
  ⟨[sampleManifest], [samplePrediction], runs, [sampleAnswer]⟩

/-- The primary run, with its baseline. -/
def pairedRuns : List Run :=
  [sampleRun "run-one" .candidate .completed 0 .available,
    sampleRun "run-two" .baseline .failed 0 .available]

/-- A further run that timed out before it told how many tokens it used. -/
def unpairedRun : Run := sampleRun "run-three" .candidate .timeout 1 .unavailable

/-- The scorer gives a report. -/
def Scorable (d : DataSet) : Prop :=
  (measure sampleHost d).toOption.any (fun m => metricNames.all fun name =>
    0 ≤ wilson95LowerBound decimalSqrt (m.counts.numerator name) (m.counts.denominator name)) = true

theorem Scorable.exists_report {d : DataSet} (h : Scorable d) :
    ∃ report, score decimalSqrt sampleHost d = .ok report := by
  unfold Scorable at h
  cases hm : measure sampleHost d with
  | error e =>
    rw [hm] at h
    cases h
  | ok m =>
    rw [hm] at h
    refine score_exists hm fun name hname => ?_
    have := List.all_eq_true.mp h name hname
    simpa using this

set_option maxRecDepth 100000 in
theorem scorable_paired : Scorable (sampleData pairedRuns) := by
  unfold Scorable
  decide +kernel

set_option maxRecDepth 100000 in
theorem scorable_unpaired : Scorable (sampleData (pairedRuns ++ [unpairedRun])) := by
  unfold Scorable
  decide +kernel

theorem report_accepted_paired : ∃ report,
    score decimalSqrt sampleHost (sampleData pairedRuns) = .ok report ∧
      report.canEnforce = (evaluateScopeDedupeRollout report).canEnforce ∧
      reportMetricsAreConsistent decimalSqrt report = true := by
  obtain ⟨report, h⟩ := scorable_paired.exists_report
  refine ⟨report, h, (report_accepted_iff h).mpr (.inl ⟨?_, ?_⟩)⟩
  · decide +kernel
  · decide +kernel

/-- **A report that is rejected.** The costs are locked, since a run has no telemetry and no
pair; the baseline of the one pair cost 15. -/
theorem report_rejected : ¬∀ sqrt host d report, score sqrt host d = .ok report →
    report.canEnforce = (evaluateScopeDedupeRollout report).canEnforce ∧
      reportMetricsAreConsistent sqrt report = true := by
  intro hall
  obtain ⟨report, h⟩ := scorable_unpaired.exists_report
  obtain ⟨costs, setupFailed, hs⟩ := score_ok h
  obtain ⟨pairs, hp⟩ := pairCosts_ok hs.paired
  rcases (consistent_iff hs hp.locked_of_baseline).mp (hall _ _ _ _ h).2 with hl | hb
  · have htelemetry := (hp.complete_of_unlocked hl).telemetry unpairedRun
      (List.mem_append_right _ List.mem_cons_self) (by decide +kernel)
    revert htelemetry
    decide +kernel
  · have hcost := hp.noCost_of_baseline hb
    have := hcost (sampleRun "run-two" .baseline .failed 0 .available)
      (List.mem_append_left _ (List.mem_cons_of_mem _ List.mem_cons_self))
      (sampleRun "run-one" .candidate .completed 0 .available)
      (List.mem_append_left _ List.mem_cons_self) (by decide +kernel) (by decide +kernel)
      (by decide +kernel) (by decide +kernel) (by decide +kernel)
    revert this
    decide +kernel

end Benchmark
