import AlmightyReview.Review.Policy

/-!
# The columns of a policy

* `policySnapshotRecord_fromRow`: a snapshot that is read is the one of its columns.
* `policySnapshotFromRow_resolve`: a snapshot that was resolved passes every check of the columns,
  and is read as it was written. `policy_round_trip`: both.
-/

namespace FindingPolicy

theorem isHex_hexdigest (m : List Nat) :
    VendorTelemetry.isHex 64 (Sha256.hexdigest m) = true := by
  unfold VendorTelemetry.isHex
  rw [Sha256.length_hexdigest, beq_self_eq_true, Bool.true_and, List.all_eq_true]
  intro c hc
  have hall : ∀ d ∈ Sha256.hexDigits, VendorTelemetry.isHexDigit d = true := by decide
  exact hall c (Sha256.mem_hexdigest hc)

theorem hexdigest_ne_nil (m : List Nat) : Sha256.hexdigest m ≠ [] := by
  intro h
  have hlength := Sha256.length_hexdigest m
  rw [h] at hlength
  cases hlength

section Decisions

variable (cfg : PolicyConfig) (inputs : PolicyInputs) (fullName : Text)
  (attestation : BenchmarkAttestationDecision)

/-- The effective mode is a mode, and its reason is given. -/
theorem effectiveMode_valid (requested : Text) (explicit : Option Text) :
    isMode (effectiveMode cfg inputs fullName requested explicit attestation).1 = true ∧
      (effectiveMode cfg inputs fullName requested explicit attestation).2 ≠ [] := by
  have hobserve : isMode observe = true := by decide
  have henforce : isMode enforce = true := by decide
  unfold effectiveMode
  split
  · exact ⟨hobserve, by decide⟩
  split
  · exact ⟨hobserve, by decide⟩
  split
  · exact ⟨hobserve, by decide⟩
  split
  · exact ⟨hobserve, by decide⟩
  split
  · exact ⟨henforce, by decide⟩
  split
  · exact ⟨henforce, by decide⟩
  · exact ⟨hobserve, by decide⟩

theorem isMode_ne_nil {mode : Text} (h : isMode mode = true) : mode ≠ [] := by
  rintro rfl
  revert h
  decide

/-- A decision passes the checks of its columns. -/
theorem resolvePolicyDecision_valid :
    validDecision (resolvePolicyDecision cfg inputs fullName attestation) = true ∧
      (resolvePolicyDecision cfg inputs fullName attestation).reason ≠ [] := by
  obtain ⟨hmode, hreason⟩ := effectiveMode_valid cfg inputs fullName attestation
    (resolvePolicyDecision cfg inputs fullName attestation).requestedMode
    (inputs.explicitValue.filter isMode)
  refine ⟨?_, hreason⟩
  have hrequested :
      isMode (resolvePolicyDecision cfg inputs fullName attestation).requestedMode = true := by
    unfold resolvePolicyDecision
    dsimp only
    split
    · assumption
    · decide
  have hsource :
      (resolvePolicyDecision cfg inputs fullName attestation).selectionSource =
        "repo_override".toList ∨
      (resolvePolicyDecision cfg inputs fullName attestation).selectionSource =
        "global_default".toList := by
    unfold resolvePolicyDecision
    dsimp only
    split
    · exact .inl rfl
    · exact .inr rfl
  unfold validDecision
  simp only [Bool.and_eq_true, Bool.or_eq_true, beq_iff_eq]
  exact ⟨⟨hrequested, hmode⟩, hsource⟩

end Decisions

theorem selectionSource_ne_nil {d : PolicyDecision} (h : validDecision d = true) :
    d.selectionSource ≠ [] := by
  unfold validDecision at h
  simp only [Bool.and_eq_true, Bool.or_eq_true, beq_iff_eq] at h
  obtain ⟨-, hs | hs⟩ := h
  · rw [hs]
    decide
  · rw [hs]
    decide

/-- **What is read** is what the columns say. -/
theorem policySnapshotRecord_fromRow {r : PolicyRecord} {s : PolicySnapshot}
    (h : policySnapshotFromRow (some r) = some s) : policySnapshotRecord s = r := by
  unfold policySnapshotFromRow at h
  dsimp only at h
  split at h
  · cases h
    rfl
  · cases h

/-- The snapshot is read if its decisions and its hashes are valid. -/
theorem policySnapshotFromRow_record {s : PolicySnapshot} (hscope : s.scope.policy = "scope".toList)
    (hdedupe : s.dedupe.policy = "dedupe".toList) (hvscope : validDecision s.scope = true)
    (hvdedupe : validDecision s.dedupe = true) (hrscope : s.scope.reason ≠ [])
    (hrdedupe : s.dedupe.reason ≠ []) (hcohort : s.cohortKey = cohortKey s.scope s.dedupe)
    (hdecision : s.decisionHash = canonicalHash (decisionPayload s.scope s.dedupe))
    (hconfig : ∃ m, s.configHash = Sha256.hexdigest m)
    (hbenchmark : s.benchmarkAttestationHash.all (VendorTelemetry.isHex 64) = true) :
    policySnapshotFromRow (some (policySnapshotRecord s)) = some s := by
  have hs : recordScope (policySnapshotRecord s) = s.scope := by
    unfold recordScope policySnapshotRecord
    rw [← hscope]
  have hd : recordDedupe (policySnapshotRecord s) = s.dedupe := by
    unfold recordDedupe policySnapshotRecord
    rw [← hdedupe]
  obtain ⟨m, hm⟩ := hconfig
  have hmodes : ∀ d, validDecision d = true → d.requestedMode ≠ [] ∧ d.effectiveMode ≠ [] := by
    intro d h
    unfold validDecision at h
    simp only [Bool.and_eq_true] at h
    exact ⟨isMode_ne_nil h.1.1, isMode_ne_nil h.1.2⟩
  have hrequired : (requiredColumns (policySnapshotRecord s)).all (· != []) = true := by
    rw [List.all_eq_true]
    intro column hcolumn
    have hne : column ≠ [] := by
      unfold requiredColumns policySnapshotRecord at hcolumn
      simp only [List.mem_cons, List.not_mem_nil, or_false] at hcolumn
      obtain rfl | rfl | rfl | rfl | rfl | rfl | rfl | rfl | rfl | rfl | rfl := hcolumn
      · exact (hmodes _ hvscope).1
      · exact (hmodes _ hvscope).2
      · exact hrscope
      · exact selectionSource_ne_nil hvscope
      · exact (hmodes _ hvdedupe).1
      · exact (hmodes _ hvdedupe).2
      · exact hrdedupe
      · exact selectionSource_ne_nil hvdedupe
      · rw [hcohort]
        exact List.cons_ne_nil _ _
      · rw [hdecision]
        exact hexdigest_ne_nil _
      · rw [hm]
        exact hexdigest_ne_nil m
    simpa using hne
  have hhash : VendorTelemetry.isHex 64 s.decisionHash = true := by
    rw [hdecision]
    exact isHex_hexdigest _
  have hconfig : VendorTelemetry.isHex 64 s.configHash = true := by
    rw [hm]
    exact isHex_hexdigest m
  unfold policySnapshotFromRow
  dsimp only
  rw [hs, hd, if_pos]
  · rfl
  · have hc : (policySnapshotRecord s).policyCohortKey = cohortKey s.scope s.dedupe := hcohort
    have hp : (policySnapshotRecord s).policyDecisionHash =
        canonicalHash (decisionPayload s.scope s.dedupe) := hdecision
    simp only [Bool.and_eq_true, beq_iff_eq]
    exact ⟨⟨⟨⟨⟨⟨⟨hrequired, hp⟩, hvscope⟩, hvdedupe⟩, hc⟩, hhash⟩, hconfig⟩, hbenchmark⟩

/-- **What is resolved is read back.** The hash of a report is a digest. -/
theorem policySnapshotFromRow_resolve {cfg : PolicyConfig} {report : Option ValidReport}
    {repo : Repo} {identity : Option BenchmarkRuntimeIdentity}
    (hreport : ∀ r, report = some r → VendorTelemetry.isHex 64 r.hash = true) :
    policySnapshotFromRow
        (some (policySnapshotRecord (resolvePolicySnapshot cfg report repo identity))) =
      some (resolvePolicySnapshot cfg report repo identity) := by
  obtain ⟨hscope, hrscope⟩ := resolvePolicyDecision_valid cfg (scopeInputs cfg repo) repo.fullName
    (resolveBenchmarkAttestation report identity)
  obtain ⟨hdedupe, hrdedupe⟩ := resolvePolicyDecision_valid cfg (dedupeInputs cfg repo)
    repo.fullName (resolveBenchmarkAttestation report identity)
  refine policySnapshotFromRow_record rfl rfl hscope hdedupe hrscope hrdedupe rfl rfl ⟨_, rfl⟩ ?_
  show (resolveBenchmarkAttestation report identity).reportHash.all _ = true
  unfold resolveBenchmarkAttestation
  split
  · rename_i r i
    split
    · exact hreport r rfl
    · rfl
  · rfl

/-- **The round trip of the policy of a run**, both ways. -/
theorem policy_round_trip {cfg : PolicyConfig} {report : Option ValidReport} {repo : Repo}
    {identity : Option BenchmarkRuntimeIdentity}
    (hreport : ∀ r, report = some r → VendorTelemetry.isHex 64 r.hash = true) :
    policySnapshotFromRow
        (some (policySnapshotRecord (resolvePolicySnapshot cfg report repo identity))) =
      some (resolvePolicySnapshot cfg report repo identity) ∧
    ∀ r s, policySnapshotFromRow (some r) = some s → policySnapshotRecord s = r :=
  ⟨policySnapshotFromRow_resolve hreport, fun _ _ => policySnapshotRecord_fromRow⟩

/-- A repository that enforces its scope. -/
def canaryRepo : Repo where
  id := 1
  fullName := "o/r".toList
  enabled := true
  triggerMode := .auto
  claudeModel := none
  claudeEffort := none
  codexModel := none
  codexEffort := none
  vendorClaudeOn := true
  vendorCodexOn := false
  mergeEnabled := false
  harnessName := "default".toList
  incrementalReviewOn := none
  verifySinglesOn := none
  skipDraftOn := none
  reviewScopeGuardMode := some enforce
  reviewDedupeMode := none

def unlockedConfig : PolicyConfig where
  scopeMode := observe
  dedupeMode := observe
  scopeEnforceRepos := []
  dedupeEnforceRepos := []
  scopeKillSwitch := false
  dedupeKillSwitch := false
  enforcementUnlocked := true

def measured : BenchmarkRuntimeIdentity :=
  ⟨"claude".toList, [], [], [], [], [], 100000, [], [], []⟩

/-- The scope of the repository is enforced, and this is what is read back. -/
theorem policy_round_trip_canary :
    (resolvePolicySnapshot unlockedConfig (some ⟨measured, List.replicate 64 '0'⟩) canaryRepo
      (some measured)).scope.effectiveMode = enforce ∧
    policySnapshotFromRow (some (policySnapshotRecord (resolvePolicySnapshot unlockedConfig
        (some ⟨measured, List.replicate 64 '0'⟩) canaryRepo (some measured)))) =
      some (resolvePolicySnapshot unlockedConfig (some ⟨measured, List.replicate 64 '0'⟩) canaryRepo
        (some measured)) ∧
    ∀ r s, policySnapshotFromRow (some r) = some s → policySnapshotRecord s = r := by
  refine ⟨by decide +kernel, policy_round_trip fun r hr => ?_⟩
  obtain rfl := Option.some.inj hr
  decide

end FindingPolicy
