import AlmightyReview.Review.Findings
import AlmightyReview.Review.Telemetry
import AlmightyReview.Lib.Sha256

/-!
# Policy snapshots

The part of `finding_policy` that decides whether the policies of a run observe or enforce.

* `ValidReport`: the benchmark report, after it passed all checks but the one of the runtime
  identity. `resolveBenchmarkAttestation` makes that one.
* `resolvePolicySnapshot`: the decisions for a repository, with the hashes that identify them.
* `policySnapshotRecord`, `policySnapshotFromRow`: the columns of a run, and back.
-/

/-- `BenchmarkRuntimeIdentity`: what a benchmark report was measured with. -/
structure BenchmarkRuntimeIdentity where
  vendor : Text
  model : Text
  effort : Text
  promptSha256 : Text
  protocolSha256 : Text
  chunkerSha256 : Text
  chunkBudget : Nat
  adapterSha256 : Text
  cliVersion : Text
  eventSchemaSha256 : Text
  deriving DecidableEq, Repr

namespace FindingPolicy

open Json

/-- `_canonical_hash`. -/
def canonicalHash (value : Value) : Text := Sha256.hexdigest (value.dumps false).encode

/-! ## Attestation -/

/-- The benchmark report that the operator pinned, when it is valid, fresh and enforceable, and the
checked-out implementation is the one that it describes. -/
structure ValidReport where
  identity : BenchmarkRuntimeIdentity
  hash : Text
  deriving DecidableEq, Repr

structure BenchmarkAttestationDecision where
  canEnforce : Bool
  reportHash : Option Text
  deriving DecidableEq, Repr

/-- The last checks of `resolve_benchmark_attestation`. -/
def resolveBenchmarkAttestation (report : Option ValidReport)
    (identity : Option BenchmarkRuntimeIdentity) : BenchmarkAttestationDecision :=
  match report, identity with
  | some r, some i => if r.identity = i then ⟨true, some r.hash⟩ else ⟨false, none⟩
  | _, _ => ⟨false, none⟩

/-! ## Decisions -/

/-- The settings of the server that the policies depend on. -/
structure PolicyConfig where
  scopeMode : Text
  dedupeMode : Text
  scopeEnforceRepos : List Text
  dedupeEnforceRepos : List Text
  scopeKillSwitch : Bool
  dedupeKillSwitch : Bool
  enforcementUnlocked : Bool

structure PolicyDecision where
  policy : Text
  requestedMode : Text
  effectiveMode : Text
  reason : Text
  selectionSource : Text
  deriving DecidableEq, Repr

structure PolicySnapshot where
  scope : PolicyDecision
  dedupe : PolicyDecision
  cohortKey : Text
  decisionHash : Text
  configHash : Text
  benchmarkAttestationHash : Option Text
  deriving DecidableEq, Repr

def isMode (mode : Text) : Bool := mode == observe || mode == enforce

/-- What is different between the two policies. -/
structure PolicyInputs where
  policy : Text
  explicitValue : Option Text
  default : Text
  canaries : List Text
  killSwitch : Bool

def scopeInputs (cfg : PolicyConfig) (repo : Repo) : PolicyInputs :=
  ⟨"scope".toList, repo.reviewScopeGuardMode, cfg.scopeMode, cfg.scopeEnforceRepos,
    cfg.scopeKillSwitch⟩

def dedupeInputs (cfg : PolicyConfig) (repo : Repo) : PolicyInputs :=
  ⟨"dedupe".toList, repo.reviewDedupeMode, cfg.dedupeMode, cfg.dedupeEnforceRepos,
    cfg.dedupeKillSwitch⟩

/-- The effective mode and its reason. -/
def effectiveMode (cfg : PolicyConfig) (inputs : PolicyInputs) (fullName requested : Text)
    (explicit : Option Text) (attestation : BenchmarkAttestationDecision) : Text × Text :=
  if requested ≠ enforce then (observe, "requested".toList)
  else if inputs.killSwitch then (observe, "kill_switch".toList)
  else if !cfg.enforcementUnlocked then (observe, "benchmark_gate_locked".toList)
  else if !attestation.canEnforce then (observe, "benchmark_gate_locked".toList)
  else if explicit = some enforce then (enforce, "repo_canary".toList)
  else if fullName ∈ inputs.canaries then (enforce, "global_canary".toList)
  else (observe, "not_in_global_canary".toList)

def resolvePolicyDecision (cfg : PolicyConfig) (inputs : PolicyInputs) (fullName : Text)
    (attestation : BenchmarkAttestationDecision) : PolicyDecision :=
  let explicit := inputs.explicitValue.filter isMode
  let wanted := explicit.getD inputs.default
  let requested := if isMode wanted then wanted else observe
  let effective := effectiveMode cfg inputs fullName requested explicit attestation
  ⟨inputs.policy, requested, effective.1, effective.2,
    if explicit.isSome then "repo_override".toList else "global_default".toList⟩

/-! ## Snapshots -/

def decisionJson (d : PolicyDecision) : Value :=
  .obj [("policy".toList, .str d.policy), ("requested_mode".toList, .str d.requestedMode),
    ("effective_mode".toList, .str d.effectiveMode), ("reason".toList, .str d.reason),
    ("selection_source".toList, .str d.selectionSource)]

def decisionPayload (scope dedupe : PolicyDecision) : Value :=
  .obj [("scope".toList, decisionJson scope), ("dedupe".toList, decisionJson dedupe)]

def runtimeIdentityJson (i : BenchmarkRuntimeIdentity) : Value :=
  .obj [("vendor".toList, .str i.vendor), ("model".toList, .str i.model),
    ("effort".toList, .str i.effort), ("prompt_sha256".toList, .str i.promptSha256),
    ("protocol_sha256".toList, .str i.protocolSha256),
    ("chunker_sha256".toList, .str i.chunkerSha256),
    ("chunk_budget".toList, ofNat i.chunkBudget),
    ("adapter_sha256".toList, .str i.adapterSha256), ("cli_version".toList, .str i.cliVersion),
    ("event_schema_sha256".toList, .str i.eventSchemaSha256)]

/-- `relevant_config` of `resolve_policy_snapshot`. -/
def relevantConfig (cfg : PolicyConfig) (repo : Repo) (attestation : BenchmarkAttestationDecision)
    (identity : Option BenchmarkRuntimeIdentity) (payload : Value) : Value :=
  .obj [("version".toList, .str "policy-config-v1".toList), ("repo".toList, .str repo.fullName),
    ("scope_override".toList, ofOption .str repo.reviewScopeGuardMode),
    ("dedupe_override".toList, ofOption .str repo.reviewDedupeMode),
    ("scope_default".toList, .str cfg.scopeMode), ("dedupe_default".toList, .str cfg.dedupeMode),
    ("scope_global_canary".toList, .bool (cfg.scopeEnforceRepos.contains repo.fullName)),
    ("dedupe_global_canary".toList, .bool (cfg.dedupeEnforceRepos.contains repo.fullName)),
    ("enforcement_unlocked".toList, .bool cfg.enforcementUnlocked),
    ("scope_kill_switch".toList, .bool cfg.scopeKillSwitch),
    ("dedupe_kill_switch".toList, .bool cfg.dedupeKillSwitch),
    ("benchmark_attestation_hash".toList, ofOption .str attestation.reportHash),
    ("benchmark_runtime_identity".toList,
      if attestation.reportHash.isSome then ofOption runtimeIdentityJson identity else .null),
    ("decisions".toList, payload)]

def cohortKey (scope dedupe : PolicyDecision) : Text :=
  "scope=".toList ++ scope.selectionSource ++ ":".toList ++ scope.effectiveMode ++
    ";dedupe=".toList ++ dedupe.selectionSource ++ ":".toList ++ dedupe.effectiveMode

def resolvePolicySnapshot (cfg : PolicyConfig) (report : Option ValidReport) (repo : Repo)
    (identity : Option BenchmarkRuntimeIdentity) : PolicySnapshot :=
  let attestation := resolveBenchmarkAttestation report identity
  let scope := resolvePolicyDecision cfg (scopeInputs cfg repo) repo.fullName attestation
  let dedupe := resolvePolicyDecision cfg (dedupeInputs cfg repo) repo.fullName attestation
  let payload := decisionPayload scope dedupe
  ⟨scope, dedupe, cohortKey scope dedupe, canonicalHash payload,
    canonicalHash (relevantConfig cfg repo attestation identity payload), attestation.reportHash⟩

/-! ## Columns -/

def policySnapshotRecord (s : PolicySnapshot) : PolicyRecord where
  scopeRequestedMode := s.scope.requestedMode
  scopeEffectiveMode := s.scope.effectiveMode
  scopePolicyReason := s.scope.reason
  scopeSelectionSource := s.scope.selectionSource
  dedupeRequestedMode := s.dedupe.requestedMode
  dedupeEffectiveMode := s.dedupe.effectiveMode
  dedupePolicyReason := s.dedupe.reason
  dedupeSelectionSource := s.dedupe.selectionSource
  policyCohortKey := s.cohortKey
  policyDecisionHash := s.decisionHash
  policyConfigHash := s.configHash
  benchmarkAttestationHash := s.benchmarkAttestationHash

/-- The decisions of the columns. -/
def recordScope (r : PolicyRecord) : PolicyDecision :=
  ⟨"scope".toList, r.scopeRequestedMode, r.scopeEffectiveMode, r.scopePolicyReason,
    r.scopeSelectionSource⟩

def recordDedupe (r : PolicyRecord) : PolicyDecision :=
  ⟨"dedupe".toList, r.dedupeRequestedMode, r.dedupeEffectiveMode, r.dedupePolicyReason,
    r.dedupeSelectionSource⟩

def requiredColumns (r : PolicyRecord) : List Text :=
  [r.scopeRequestedMode, r.scopeEffectiveMode, r.scopePolicyReason, r.scopeSelectionSource,
    r.dedupeRequestedMode, r.dedupeEffectiveMode, r.dedupePolicyReason, r.dedupeSelectionSource,
    r.policyCohortKey, r.policyDecisionHash, r.policyConfigHash]

def validDecision (d : PolicyDecision) : Bool :=
  isMode d.requestedMode && isMode d.effectiveMode &&
    (d.selectionSource == "repo_override".toList || d.selectionSource == "global_default".toList)

/-- The snapshot of a run, if its columns were written by `set_policy_snapshot`. -/
def policySnapshotFromRow (policy : Option PolicyRecord) : Option PolicySnapshot :=
  match policy with
  | none => none
  | some r =>
    let scope := recordScope r
    let dedupe := recordDedupe r
    if (requiredColumns r).all (· != []) &&
        r.policyDecisionHash == canonicalHash (decisionPayload scope dedupe) &&
        validDecision scope && validDecision dedupe &&
        r.policyCohortKey == cohortKey scope dedupe &&
        VendorTelemetry.isHex 64 r.policyDecisionHash &&
        VendorTelemetry.isHex 64 r.policyConfigHash &&
        r.benchmarkAttestationHash.all (VendorTelemetry.isHex 64) then
      some ⟨scope, dedupe, r.policyCohortKey, r.policyDecisionHash, r.policyConfigHash,
        r.benchmarkAttestationHash⟩
    else none

/-! ## Attestation and snapshots -/

/-- Without a runtime identity nothing is attested. -/
theorem resolveBenchmarkAttestation_none (report : Option ValidReport) :
    resolveBenchmarkAttestation report none = ⟨false, none⟩ := by
  cases report <;> rfl

/-- The report is for another runtime. -/
theorem resolveBenchmarkAttestation_other {report : Option ValidReport}
    {identity : BenchmarkRuntimeIdentity} (h : ∀ r, report = some r → r.identity ≠ identity) :
    resolveBenchmarkAttestation report (some identity) = ⟨false, none⟩ := by
  cases report with
  | none => rfl
  | some r => exact if_neg (h r rfl)

/-- **A runtime that is not attested** gets the snapshot that no runtime gets. -/
theorem resolvePolicySnapshot_other {cfg : PolicyConfig} {report : Option ValidReport} {repo : Repo}
    {identity : BenchmarkRuntimeIdentity} (h : ∀ r, report = some r → r.identity ≠ identity) :
    resolvePolicySnapshot cfg report repo (some identity) =
      resolvePolicySnapshot cfg report repo none := by
  simp only [resolvePolicySnapshot, resolveBenchmarkAttestation_other h,
    resolveBenchmarkAttestation_none, relevantConfig]
  rfl

theorem resolvePolicySnapshot_attested {cfg : PolicyConfig} {r : ValidReport} {repo : Repo} :
    (resolvePolicySnapshot cfg (some r) repo (some r.identity)).benchmarkAttestationHash =
      some r.hash := by
  simp [resolvePolicySnapshot, resolveBenchmarkAttestation]

theorem resolvePolicySnapshot_unattested {cfg : PolicyConfig} {report : Option ValidReport}
    {repo : Repo} :
    (resolvePolicySnapshot cfg report repo none).benchmarkAttestationHash = none := by
  simp [resolvePolicySnapshot, resolveBenchmarkAttestation_none]

end FindingPolicy
