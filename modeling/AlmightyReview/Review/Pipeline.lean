import AlmightyReview.Review.Op
import AlmightyReview.Pr.Poll

/-!
# The pipeline

`review_pr` and `retry_pr`, operation by operation.

* `resolveDiff`, `resolveRetryDiff`: what is reviewed.
* `runVendor`: the chunks of a vendor one after the other. The vendors of a run do not touch the
  database, so here they come one after the other as well.
* `executeRun`: `_execute_run`, with its exits; `reviewPr` closes the run when an exception leaves
  it.
* `retryFailedVendors`: `_retry_failed_vendors`; it compares everything before a vendor runs.
-/

namespace Pipeline

open Prog

abbrev Review (α : Type) := Prog Op Exc α

def read {β : Type} (q : Read β) : Review β := perform (.read q)
def write {β : Type} (q : Write β) : Review β := perform (.write q)
def ext {β : Type} (q : Ext β) : Review β := perform (.ext q)

/-- `try: p except Exception: h`; a cancellation is not an `Exception`. -/
def catchException {α : Type} (p : Review α) (h : Exc → Review α) : Review α :=
  tryCatch p fun e => if e = .cancelledError then throw e else h e

/-- `with r: p`. -/
def within {α : Type} (r : Resource) (p : Review α) : Review α := do
  ext (.enter r)
  let a ← tryCatch p fun e => do
    ext (.exit r)
    throw e
  ext (.exit r)
  pure a

/-- The row of a `SELECT` that the code subscripts. -/
def subscript {ρ : Type} (row : Option ρ) : Review ρ :=
  match row with
  | some r => pure r
  | none => throw (.typeError "'NoneType' object is not subscriptable".toList)

/-! ## Diffs -/

/-- What an execution of a run works with. -/
structure RunArgs where
  runId : Nat
  pr : PullRequest
  repo : Repo
  settings : ReviewSettings
  deps : PipelineDeps
  trigger : Trigger
  requireExactHead : Bool
  ownerProcessId : Option ProcessId

def noExactDiff : Exc := .runtimeError "고정된 PR head diff를 가져오지 못했습니다".toList
def noExactBase : Exc := .runtimeError "고정된 PR head diff를 조회할 기준 SHA가 없습니다".toList

/-- The diff of the whole pull request, when no comparison gave it. -/
def ghDiff (repo : Repo) (pr : PullRequest) (requireExactHead : Bool) : Review Text := do
  when requireExactHead (throw noExactBase)
  ext (.ghDiff repo.fullName pr.number)

/-- The diff from the base of the pull request to its head. -/
def fullDiff (deps : PipelineDeps) (repo : Repo) (pr : PullRequest) (requireExactHead : Bool) :
    Review Text := do
  let base := pr.baseSha.getD []
  if deps.compares && base != [] then
    let diff ← catchException
        (some <$> ext (.compareDiff repo.fullName base pr.headSha)) fun _ => do
      when requireExactHead (throw noExactDiff)
      pure none
    match diff with
    | some diff => pure diff
    | none => ghDiff repo pr requireExactHead
  else ghDiff repo pr requireExactHead

/-- The head that an incremental review begins from. -/
def incrementalBase (x : RunArgs) : Review (Option Sha) := do
  if effective x.repo.incrementalReviewOn x.settings.incrementalReviewOn && x.deps.compares then
    let prior ← read (.lastDoneHeadSha x.pr.id)
    pure (prior.filter fun sha => sha != [] && sha != x.pr.headSha)
  else pure none

/-- A comparison whose failure is not one of the review. -/
def tryCompare (fullName : Text) (base head : Sha) : Review (Option Text) :=
  catchException (some <$> ext (.compareDiff fullName base head)) fun _ => pure none

/-- `_resolve_diff`. -/
def resolveDiff (x : RunArgs) : Review Text := do
  match ← incrementalBase x with
  | none => fullDiff x.deps x.repo x.pr x.requireExactHead
  | some base =>
    match ← tryCompare x.repo.fullName base x.pr.headSha with
    | none => fullDiff x.deps x.repo x.pr x.requireExactHead
    | some delta =>
      -- an empty delta is no base to build on
      if Text.strip delta = [] then fullDiff x.deps x.repo x.pr x.requireExactHead
      else
        write (.setBaseSha x.runId base)
        pure delta

/-- `_resolve_retry_diff`. -/
def resolveRetryDiff (deps : PipelineDeps) (repo : Repo) (pr : PullRequest) (run : ReviewRun)
    (requireExactHead : Bool) : Review Text := do
  let base := run.baseSha.getD []
  let delta ← (if base != [] && deps.compares then tryCompare repo.fullName base pr.headSha
    else pure none)
  match delta with
  | some delta => pure delta
  | none => fullDiff deps repo pr requireExactHead

/-! ## Vendors -/

/-- `_enabled_adapters`. -/
def enabledAdapters (adapters : List Adapter) (repo : Repo) : List Adapter :=
  adapters.filter fun ad =>
    !(ad.vendor == claude && !repo.vendorClaudeOn) && !(ad.vendor == codex && !repo.vendorCodexOn)

/-- The version of a vendor's CLI, if its adapter can ask for it. -/
def probe (ad : Adapter) : Review (Option Text) :=
  if ad.probes then some <$> ext (.probeVersion ad.vendor) else pure none

/-- The chunks of a vendor, as long as its CLI has the version `expected`. -/
def reviewChunks (ad : Adapter) (expected : Text) :
    List PromptChunk → Review (List (ExecutionChunk × List ReviewFinding))
  | [] => pure []
  | c :: cs => do
    let version ← probe ad
    when (version.any (· != expected)) (throw .newFullRunRequired)
    let (answer, elapsedMs) ← ext (.review ad.vendor c version)
    let outcomes ← reviewChunks ad expected cs
    pure (chunkOutcome ad.vendor c answer elapsedMs :: outcomes)

/-- `_run_vendor_prepared`. -/
def runVendorPrepared (ad : Adapter) (expected : Text) (prompts : List PromptChunk) :
    Review VendorRunResult := do
  let outcomes ← reviewChunks ad expected prompts
  let durationMs ← ext (.elapsed ad.vendor)
  pure (vendorRunResult ad.vendor outcomes durationMs)

/-- `hp.runtime_credentials`: an error of the body hides one of the cleanup. -/
def withCredentials {α : Type} (vendor : Text) (p : Review α) : Review α := do
  ext (.enter (.credentials vendor))
  let a ← tryCatch p fun e => do
    let _ ← tryCatch (ext (.exit (.credentials vendor))) fun _ => pure ()
    throw e
  ext (.exit (.credentials vendor))
  pure a

/-- `_run_vendor`. -/
def runVendor (ad : Adapter) (expected : Text) (prompts : List PromptChunk) :
    Review VendorRunResult :=
  tryCatch (withCredentials ad.vendor (runVendorPrepared ad expected prompts)) fun e =>
    match e with
    | .runtimeCredentialError code => pure (runtimeFailureResult ad.vendor prompts code)
    | e => throw e

/-- `_vendor_execution_identity`, under the vendor. -/
def vendorExecutionIdentity (hp : HarnessProfile) (prompts : List PromptChunk) (diff : Text)
    (policy : FindingPolicy.PolicySnapshot) (ad : Adapter) : Review (Text × ExecutionIdentity) := do
  lift (requireVendor ad prompts)
  let version ← probe ad
  let identity ← lift (executionIdentity ad hp version prompts diff policy)
  pure (ad.vendor, identity)

/-- `d[vendor]`. -/
def identityFor (identities : List (Text × ExecutionIdentity)) (vendor : Text) :
    Review ExecutionIdentity :=
  match identities.lookup vendor with
  | some identity => pure identity
  | none => throw (.keyError vendor)

/-! ## Contexts and policies -/

/-- `MAX_CONTEXT_CHARS_TOTAL`. -/
def maxContextCharsTotal : Nat := 20000

/-- `_context_budget`. -/
def contextBudget (promptCount vendorCount : Nat) : Nat :=
  maxContextCharsTotal / (max 1 promptCount * max 1 vendorCount)

/-- `_gather_context`. -/
def gatherContext (runId budget : Nat) : Review Text := do
  let context ← catchException (ext (.gatherContext budget)) fun _ => pure ⟨[], true⟩
  write (.setContext runId (if context.persistable then context.text else []))
  pure context.text

/-- The context of one chunk: its row, and its text under the hash of the chunk. -/
def renderChunkContext (budget : Nat) (chunk : DiffFilter.DiffChunk) :
    Review (ContextChunk × (Text × Text)) := do
  let rendered ← ext (.renderContext budget (chunk.ownedChangedLines.entries.map Prod.fst))
  pure (⟨chunk.diffHash, textHash rendered.text,
    if rendered.persistable then rendered.text else [], rendered.manifest⟩,
    (chunk.diffHash, rendered.text))

/-- `_render_and_store_chunk_contexts`. -/
def renderAndStoreChunkContexts (runId budget : Nat) (diff : Text) :
    Review (List (Text × Text)) := do
  let chunks ← lift (DiffFilter.chunkRecordsByBudget diff maxInlineDiffChars)
  let rendered ← forEach (renderChunkContext budget) chunks
  write (.setContextChunks runId (rendered.map Prod.fst))
  pure (rendered.map Prod.snd)

/-- `resolve_policy_snapshot`, which reads the configuration. -/
def resolvePolicy (repo : Repo) (identity : Option BenchmarkRuntimeIdentity) :
    Review FindingPolicy.PolicySnapshot := do
  let (cfg, report) ← ext .policyConfig
  pure (FindingPolicy.resolvePolicySnapshot cfg report repo identity)

/-! ## Heads -/

/-- `_ensure_current_head` of a run. -/
def ensureCurrentHead (x : RunArgs) : Review Unit := do
  let current ← read (.getPr x.pr.id)
  let actual := match current with
    | some pr => pr.headSha
    | none => []
  when (actual ≠ x.pr.headSha) do
    when (x.runId ≠ 0) (write (.finishRun x.runId .canceled (some Exc.staleHeadMessage)))
    throw (.pipelineStaleHead x.runId x.pr.headSha actual)

/-- An early end: there is nothing to review at this head. -/
def skipRun (x : RunArgs) (error : Option Text) : Review Unit := do
  ensureCurrentHead x
  write (.finishRun x.runId .canceled error)
  write (.markReviewed x.pr.id x.pr.headSha)

def noiseOnly : Text := "리뷰할 변경이 없습니다(노이즈 파일만 변경).".toList
def noVendorEnabled : Text := "no vendor enabled".toList

/-! ## A run -/

/-- What the vendors of a run made of it. -/
structure Reviewed where
  prompts : List PromptChunk
  policy : FindingPolicy.PolicySnapshot
  rows : List VendorRow
  results : List VendorRunResult

/-- The identities with the policy that was stored. -/
def rebind (identities : List (Text × ExecutionIdentity))
    (policy bound : FindingPolicy.PolicySnapshot) : List (Text × ExecutionIdentity) :=
  if bound ≠ policy then identities.map fun i => (i.1, bindPolicyIdentity i.2 bound) else identities

/-- The row of a vendor, as running. -/
def addRow (runId : Nat) (identities : List (Text × ExecutionIdentity)) (ad : Adapter) :
    Review VendorRow := do
  let identity ← identityFor identities ad.vendor
  let vrId ← write (.addVendorResult runId ad.vendor)
  pure ⟨ad.vendor, vrId, identity⟩

/-- The vendor of a row, on its prompts. -/
def runRow (prompts : Adapter → List PromptChunk) (rows : List VendorRow) (ad : Adapter) :
    Review VendorRunResult := do
  let row ← lift (rowFor rows ad.vendor)
  runVendor ad row.identity.cliVersion (prompts ad)

/-- The part of `_execute_run` inside the checkout. -/
def reviewInCheckout (x : RunArgs) (hp : HarnessProfile) (diff : Text) (adapters : List Adapter)
    (budget : Nat) (policy : FindingPolicy.PolicySnapshot) : Review Reviewed := do
  let contextText ← gatherContext x.runId budget
  let contextByHash ← renderAndStoreChunkContexts x.runId budget diff
  let chunks ← lift (DiffFilter.chunkRecordsByBudget diff maxInlineDiffChars)
  let nonces ← ext (.nonces chunks.length)
  let prompts ← lift (buildPromptChunks x.pr diff contextText (some contextByHash) (nonces[·]?))
  when (¬(adapters.map Adapter.vendor).Nodup)
    (throw (.valueError "duplicate vendor adapter".toList))
  let identities ← forEach (vendorExecutionIdentity hp prompts diff policy) adapters
  let bound ← resolvePolicy x.repo (benchmarkRuntimeIdentity identities)
  write (.setPolicySnapshot x.runId bound)
  let identities := rebind identities policy bound
  within .workspace do
    let rows ← forEach (addRow x.runId identities) adapters
    let results ← forEach (runRow (fun _ => prompts) rows) adapters
    pure ⟨prompts, bound, rows, results⟩

/-- The chunks of the verification of a vendor. -/
def withVerifyChunks (chunks : List (Text × List ExecutionChunk)) (r : VendorRunResult) :
    VendorRunResult :=
  { r with verifyChunks := (chunks.lookup r.vendor).getD [] }

/-- The findings as they are stored: merged, or one by one. -/
def findingItems (mergeEnabled : Bool) (findings : List ReviewFinding) : List FindingItem :=
  if mergeEnabled then
    (FindingPolicy.deterministicMerge id findings).map fun m =>
      ⟨m.finding.vendorResultId, m.finding, m.consensus, some m.consensusGroupId⟩
  else findings.map fun f => ⟨f.vendorResultId, f, .single, none⟩

/-- Single findings of high severity are verified, if that is on. -/
def verifyFindings (x : RunArgs) (prompts : List PromptChunk) (findings : List ReviewFinding) :
    Review Verified :=
  if effective x.repo.verifySinglesOn x.settings.verifySinglesOn && x.deps.verifies &&
      !findings.isEmpty then
    ext (.verifySingles findings prompts)
  else pure ⟨findings, []⟩

/-- The end of a run. -/
def publishRun (x : RunArgs) (e : Ending) : Review Unit := do
  match ← write (.publish e) with
  | none => pure ()
  | some actual =>
    write (.cancelStale e)
    throw (.pipelineStaleHead x.runId x.pr.headSha actual)

/-- The part of `_execute_run` after the checkout. -/
def concludeRun (x : RunArgs) (v : Reviewed) : Review Unit := do
  let results ← lift (FindingPolicy.applyScopeAndDuplicatePolicy x.deps.canonicalClaim v.prompts
    v.policy.scope.effectiveMode v.policy.dedupe.effectiveMode v.results)
  let findings ← lift (preparedFindings v.rows results)
  let ending : Ending :=
    ⟨x.runId, x.pr.id, x.pr.headSha, x.ownerProcessId, results, v.rows, []⟩
  if results.any VendorRunResult.succeeded then
    let verified ← verifyFindings x v.prompts findings
    publishRun x { ending with
      results := results.map (withVerifyChunks verified.chunks)
      items := findingItems x.repo.mergeEnabled verified.findings }
  else
    write (.storeFailed ending)
    throw (.runtimeError (allFailedError results))

/-- The part of `_execute_run` that needs vendors. -/
def reviewDiff (x : RunArgs) (hp : HarnessProfile) (diff : Text) (adapters : List Adapter)
    (policy : FindingPolicy.PolicySnapshot) : Review Unit := do
  let texts ← lift (DiffFilter.chunkByBudget diff maxInlineDiffChars)
  let reviewed ← within .checkout
    (reviewInCheckout x hp diff adapters (contextBudget texts.length adapters.length) policy)
  concludeRun x reviewed

/-- `_execute_run`. -/
def executeRun (x : RunArgs) (policy : FindingPolicy.PolicySnapshot) : Review Unit := do
  let hp ← ext (.loadHarness x.repo.harnessName)
  let resolved ← resolveDiff x
  let diff ← lift (DiffFilter.filterReviewable resolved)
  if Text.strip diff = [] then skipRun x (some noiseOnly)
  else
    let skips ← ext (.prescreen x.pr.id diff)
    if skips ∧ x.trigger = .auto then skipRun x none
    else
      let adapters := enabledAdapters x.deps.adapters x.repo
      if adapters.isEmpty then write (.finishRun x.runId .canceled (some noVendorEnabled))
      else reviewDiff x (applyModels hp x.repo x.settings) diff adapters policy

/-- What a review is asked for. -/
structure ReviewArgs where
  prId : Nat
  trigger : Trigger
  deps : PipelineDeps
  expectedHeadSha : Option Sha
  ownerProcessId : Option ProcessId
  ownerJobId : Option Nat

/-- The exceptions that `review_pr` and `retry_pr` let through. -/
def isControl : Exc → Bool
  | .pipelineStaleHead .. => true
  | .pipelineLeaseLost .. => true
  | _ => false

/-- `review_pr`. -/
def reviewPr (a : ReviewArgs) : Review Nat := do
  let pr ← subscript (← read (.getPr a.prId))
  when (a.expectedHeadSha.any (· != pr.headSha))
    (throw (.pipelineStaleHead 0 (a.expectedHeadSha.getD []) pr.headSha))
  let found ← read (.getRepo pr.repoId)
  let settings ← ext .settings
  let repo ← subscript found
  let policy ← resolvePolicy repo none
  let runId ← write (.createRun ⟨a.prId, pr.headSha, a.trigger, runEffort repo settings,
    repo.mergeEnabled, a.ownerProcessId, a.ownerJobId⟩)
  catchException (executeRun ⟨runId, pr, repo, settings, a.deps, a.trigger,
      a.expectedHeadSha.isSome, a.ownerProcessId⟩ policy) fun e => do
    when (isControl e) (throw e)
    write (.finishRun runId .failed (some e.str))
    throw (.pipelineError runId e.str)
  pure runId

/-! ## A retry -/

structure RetryArgs where
  prId : Nat
  runId : Option Nat
  deps : PipelineDeps
  expectedHeadSha : Option Sha
  ownerProcessId : Option ProcessId

/-- What the retry of a run works with. -/
structure RetryOf where
  run : ReviewRun
  pr : PullRequest
  repo : Repo
  settings : ReviewSettings
  deps : PipelineDeps
  requireExactHead : Bool
  ownerProcessId : Option ProcessId

/-- `if c: raise NewFullRunRequired()`. -/
def refuse (c : Prop) [Decidable c] : Review Unit := Prog.when c (throw .newFullRunRequired)

/-- The stored contexts of a run, under the hashes of their chunks. Contexts that were not kept, or
that are not what was hashed, need a new run. -/
def storedContexts (run : ReviewRun) : Review (Option (List (Text × Text))) := do
  let stored := ReviewRepo.getContextChunks run
  refuse (run.contextChunks.isSome ∧ stored.isNone)
  match stored with
  | none => pure none
  | some [] => pure none
  | some chunks =>
    refuse (chunks.any fun c => textHash c.text != c.contextHash)
    pure (some (chunks.map fun c => (c.chunkHash, c.text)))

/-- The id of a vendor's row; the row is subscripted. -/
def vendorRow (runId : Nat) (ad : Adapter) : Review (Text × Nat) := do
  let vrId ← subscript (← read (.vendorResultId runId ad.vendor))
  pure (ad.vendor, vrId)

/-- The policy of now is the one of the run. -/
def samePolicy (current stored : FindingPolicy.PolicySnapshot) : Bool :=
  current.configHash == stored.configHash && current.decisionHash == stored.decisionHash &&
    current.cohortKey == stored.cohortKey &&
    current.benchmarkAttestationHash == stored.benchmarkAttestationHash

/-- The rows of a retry, with the identities of now. -/
def rowsOf (ids : List (Text × Nat)) (identities : List (Text × ExecutionIdentity)) :
    List VendorRow :=
  (ids.zip identities).map fun p => ⟨p.1.1, p.1.2, p.2.2⟩

/-- What a retry will run. -/
structure RetryPlan where
  prompts : List PromptChunk
  rows : List VendorRow
  retryPrompts : List (Adapter × List PromptChunk)

/-- The prompts of a retry: those of the run, if its contexts were kept. -/
def retryPrompts (x : RetryOf) (diff : Text) (nonces : List (Nat × Text)) :
    Review (List PromptChunk) := do
  let contexts ← storedContexts x.run
  let prompts ← lift (buildPromptChunks x.pr diff (x.run.contextText.getD []) contexts
    (nonces.lookup ·))
  refuse (contexts.any fun d => prompts.any fun c => (dictGet d c.diffHash).isNone)
  pure prompts

/-- Everything that a retry compares before a vendor runs. -/
def planRetry (x : RetryOf) (storedPolicy : FindingPolicy.PolicySnapshot)
    (adapters : List Adapter) : Review RetryPlan := do
  let hp ← ext (.loadHarness x.repo.harnessName)
  let stored ← forEach (fun ad => read (.vendorExecutionMeta x.run.id ad.vendor)) adapters
  let nonces ← lift (retryPromptNonces stored)
  let resolved ← resolveRetryDiff x.deps x.repo x.pr x.run x.requireExactHead
  let diff ← lift (DiffFilter.filterReviewable resolved)
  refuse (Text.strip diff = [])
  let prompts ← retryPrompts x diff nonces
  let ids ← forEach (vendorRow x.run.id) adapters
  let identities ← forEach (vendorExecutionIdentity (applyModels hp x.repo x.settings) prompts diff
    storedPolicy) adapters
  let current ← resolvePolicy x.repo (benchmarkRuntimeIdentity identities)
  refuse (samePolicy current storedPolicy = false)
  lift ((stored.zip identities).forM fun p => requireRetryIdentity p.1 p.2.2)
  let chunks ← lift (stored.mapM fun e => retryPromptChunks e prompts)
  pure ⟨prompts, rowsOf ids identities, adapters.zip chunks⟩

/-- The vendors of a plan on their chunks, and the transaction at the end. -/
def runRetry (x : RetryOf) (storedPolicy : FindingPolicy.PolicySnapshot) (plan : RetryPlan) :
    Review Unit := do
  let active := plan.retryPrompts.filter fun p => !p.2.isEmpty
  if active.isEmpty then pure ()
  else
    let results ← within .checkout (within .workspace (forEach (fun p => do
      let row ← lift (rowFor plan.rows p.1.vendor)
      runVendor p.1 row.identity.cliVersion p.2) active))
    let results ← lift (FindingPolicy.applyFindingScope plan.prompts
      storedPolicy.scope.effectiveMode results)
    write (.retryPublish x.deps.canonicalClaim ⟨x.run.id, x.pr.id, x.pr.headSha, x.ownerProcessId,
      storedPolicy.dedupe.effectiveMode, x.repo.mergeEnabled, results, plan.rows⟩)

/-- `_retry_failed_vendors`. -/
def retryFailedVendors (x : RetryOf) : Review Unit := do
  match FindingPolicy.policySnapshotFromRow x.run.policy with
  | none => throw .newFullRunRequired
  | some storedPolicy =>
    let failed ← read (.failedVendors x.run.id)
    let adapters := (enabledAdapters x.deps.adapters x.repo).filter fun ad =>
      failed.contains ad.vendor
    let available := adapters.map Adapter.vendor
    refuse (¬available.Nodup ∨ available.any fun v => !VendorTelemetry.isVendor v)
    refuse (failed.any fun v => !available.contains v)
    if adapters.isEmpty then pure ()
    else
      let plan ← planRetry x storedPolicy adapters
      runRetry x storedPolicy plan

def notPartial : Text := "부분 실패 상태가 아니라 재시도 취소".toList
def notLatest : Text := "과거 리뷰 run 재시도 취소(최신 전체 재리뷰 필요)".toList
def nothingToRetry : Text := "재시도 대상 run/pr가 없습니다".toList

/-- The run that a retry is for, if it is there. -/
def findRun (runId : Option Nat) : Review (Option ReviewRun) :=
  match runId with
  | none => pure none
  | some 0 => pure none
  | some id => read (.getRun id)

/-- The run and the pull request of a retry, after the checks that need no new run. -/
def retryTarget (a : RetryArgs) : Review (ReviewRun × PullRequest) := do
  let run ← findRun a.runId
  let pr ← read (.getPr a.prId)
  match run, pr with
  | some run, some pr =>
    when (run.headSha ≠ pr.headSha ∨ a.expectedHeadSha.any (· != pr.headSha))
      (throw (.pipelineStaleHead run.id run.headSha pr.headSha))
    let latest ← read (.latestRunId a.prId)
    when (latest ≠ some run.id) (throw (.pipelineError run.id notLatest))
    when (run.status ≠ .done) (throw (.pipelineError run.id notPartial))
    pure (run, pr)
  | _, _ => throw (.pipelineError (a.runId.getD 0) nothingToRetry)

/-- `retry_pr`. -/
def retryPr (a : RetryArgs) : Review Nat := do
  let (run, pr) ← retryTarget a
  let found ← read (.getRepo pr.repoId)
  let settings ← ext .settings
  catchException (do
      let repo ← subscript found
      retryFailedVendors ⟨run, pr, repo, settings, a.deps, a.expectedHeadSha.isSome,
        a.ownerProcessId⟩) fun e => do
    when (isControl e) (throw e)
    throw (.pipelineError run.id e.str)
  pure run.id

end Pipeline
