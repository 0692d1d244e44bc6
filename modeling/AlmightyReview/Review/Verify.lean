import AlmightyReview.Lib.Cluster
import AlmightyReview.Review.Op
import Mathlib.Data.List.Nodup

/-!
# Verification of single findings

`verify.py`, and `_verify_singles` of the pipeline: findings of high severity that only one vendor
reported are verified by another vendor, chunk by chunk.

* `debate`: another vendor tries to refute a finding, and if it does, the author may defend it.
* `makeVerifier`: the debates of a list of findings. What happens outside in one call is a
  `Session`.
* `verifySingles`: the findings to verify (`isTarget`) are grouped by the chunk that owns them,
  each group is verified at once, and a verdict belongs to the finding at its position.

The verifier is a function of the group that it is given. Every group is given to it once, so this
says nothing of how it answers.
-/

namespace Verify

open FindingPolicy

/-! ## Verdicts -/

/-- An execution of a CLI, as far as it is kept. -/
structure Execution where
  status : ChunkStatus
  telemetry : Telemetry

structure Verdict where
  refuted : Bool
  rationale : Text := []
  /-- It was refuted, and its author defended it. -/
  contested : Bool := false
  degraded : Bool := false
  independent : Bool := false
  evidenceStatus : Text := "unverified".toList
  executionAttempts : List (Text × Execution) := []

/-- The verdict when nothing could be verified. -/
def degradedVerdict : Verdict where
  refuted := false
  degraded := true
  evidenceStatus := "degraded".toList

/-! ## Exceptions -/

/-- An exception, as far as the handlers look at it. -/
inductive VerifyError where
  | runtimeCredentialError (safeErrorCode : Text) (notes : List Text)
  | reviewSnapshotCleanupError
  /-- Any other `Exception`, with the attributes that it may have. -/
  | other (safeErrorCode : Option Text) (notes : List Text) (execution : Option Execution)

def runtimeCleanupFailed : Text := "runtime_cleanup_failed".toList
def snapshotCleanupFailed : Text := "snapshot_cleanup_failed".toList

def VerifyError.safeErrorCode : VerifyError → Option Text
  | .runtimeCredentialError code _ => some code
  | .reviewSnapshotCleanupError => some snapshotCleanupFailed
  | .other code _ _ => code

def VerifyError.notes : VerifyError → List Text
  | .runtimeCredentialError _ notes => notes
  | .reviewSnapshotCleanupError => []
  | .other _ notes _ => notes

def isCleanupCode (code : Text) : Bool :=
  code == runtimeCleanupFailed || code == snapshotCleanupFailed

/-- `cleanup_failure_code`. -/
def cleanupFailureCode (e : VerifyError) : Option Text :=
  match e.safeErrorCode.filter isCleanupCode with
  | some code => some code
  | none => e.notes.find? isCleanupCode

/-! ## Debates -/

/-- What an adapter answers: its verdict, and the execution behind it. -/
structure Answer where
  refuted : Bool
  rationale : Text
  attempts : List (Text × Execution)

def severityText : Severity → Text
  | .critical => "critical".toList
  | .high => "high".toList
  | .medium => "medium".toList
  | .low => "low".toList

def buildVerifyPrompt (f : ReviewFinding) (diff : Text) : Text :=
  "# 리뷰 지적 재검증\n".toList ++
    "- 파일: ".toList ++ f.file ++ [':'] ++ Text.ofInt f.line ++ ['\n'] ++
    "- 심각도/분류: ".toList ++ severityText f.severity ++ ['/'] ++ f.category ++ ['\n'] ++
    "- 주장: ".toList ++ f.claim ++ ['\n'] ++
    "- 근거: ".toList ++ f.rationale ++ "\n\n".toList ++
    "## Diff\n```diff\n".toList ++ diff ++ "\n```\n".toList ++
    "필요하면 레포를 읽어 확인하라(수정 금지).".toList

def buildRebuttalPrompt (f : ReviewFinding) (diff challenge : Text) : Text :=
  "# 리뷰 지적에 대한 반박 재검토\n".toList ++
    "- 파일: ".toList ++ f.file ++ [':'] ++ Text.ofInt f.line ++ ['\n'] ++
    "- 심각도/분류: ".toList ++ severityText f.severity ++ ['/'] ++ f.category ++ ['\n'] ++
    "- 원래 주장: ".toList ++ f.claim ++ ['\n'] ++
    "- 원래 근거: ".toList ++ f.rationale ++ "\n\n".toList ++
    "## 다른 벤더의 반박\n".toList ++ challenge ++ "\n\n".toList ++
    "## Diff\n```diff\n".toList ++ diff ++ "\n```\n".toList ++
    "이 반박이 타당한가? 지적이 실제로 오탐이면 refuted=true, 반박이 틀렸고 ".toList ++
    "지적이 유효하면 refuted=false. 필요하면 레포를 읽어 확인하라(수정 금지).".toList

/-- `failed_attempt`. -/
def failedAttempt (vendor : Text) : VerifyError → List (Text × Execution)
  | .other _ _ (some execution) => [(vendor, execution)]
  | _ => []

/-- The handlers of both rounds: the cleanup failures are raised, and any other exception leaves
`verdict`, with the execution that failed. -/
def handleRound (verdict : Verdict) (vendor : Text) (e : VerifyError) :
    Except VerifyError Verdict :=
  match e with
  | .runtimeCredentialError code _ =>
    if code = runtimeCleanupFailed then .error e else .ok verdict
  | _ =>
    match cleanupFailureCode e with
    | some code => .error (.runtimeCredentialError code [])
    | none => .ok { verdict with
        executionAttempts := verdict.executionAttempts ++ failedAttempt vendor e }

/-- `_debate`. An adapter is known by its vendor, and `ask` is what it answers to a prompt. -/
def debate (ask : Text → Text → Except VerifyError Answer) (f : ReviewFinding)
    (refuter author : Option Text) (diff : Text) : Except VerifyError Verdict :=
  match refuter with
  | none => .ok degradedVerdict
  | some refuter =>
    let independent := author.any (· != refuter)
    match ask refuter (buildVerifyPrompt f diff) with
    | .error e => handleRound degradedVerdict refuter e
    | .ok r₁ =>
      let refutedVerdict : Verdict :=
        { refuted := true, rationale := r₁.rationale, independent
          evidenceStatus := "refuted".toList, executionAttempts := r₁.attempts }
      if !r₁.refuted then
        .ok { refuted := false, rationale := r₁.rationale, independent
              evidenceStatus := if independent then "independent_model_support".toList
                else "supported_self".toList
              executionAttempts := r₁.attempts }
      else
        match author with
        | none => .ok refutedVerdict
        | some author =>
          if author = refuter then .ok refutedVerdict
          else
            match ask author (buildRebuttalPrompt f diff r₁.rationale) with
            | .error e => handleRound refutedVerdict author e
            | .ok r₂ =>
              if r₂.refuted then
                .ok { refutedVerdict with executionAttempts := r₁.attempts ++ r₂.attempts }
              else
                .ok { refuted := false, contested := true
                      rationale := "반박: ".toList ++ r₁.rationale ++ " / 저자 변호: ".toList ++
                        r₂.rationale
                      independent
                      evidenceStatus := "contested".toList
                      executionAttempts := r₁.attempts ++ r₂.attempts }

/-- `_pick_verifier`. -/
def pickVerifier (byVendor : List Text) (authorVendor : Text) : Option Text :=
  match byVendor.find? (· != authorVendor) with
  | some vendor => some vendor
  | none => if authorVendor ∈ byVendor then some authorVendor else none

structure VerifyContext where
  diff : Text
  repoLocalPath : Option Text
  headSha : Sha
  prNumber : Nat
  harness : HarnessProfile
  repoFullName : Text

/-- What happens outside during one call of the verifier: the checkout, and the answers to the
prompts for the finding at each position. -/
structure Session where
  enter : Except VerifyError Unit
  exit : Except VerifyError Unit
  ask : Nat → Text → Text → Except VerifyError Answer

/-- `verify` of `make_verifier`, for adapters of these vendors. -/
def makeVerifier (vendors : List Text) (session : Session) (targets : List (Merged ReviewFinding))
    (ctx : VerifyContext) : Except VerifyError (List Verdict) := do
  let byVendor := vendors.eraseDups
  session.enter
  let verdicts := targets.zipIdx.mapM fun t =>
    debate (session.ask t.2) t.1.finding (pickVerifier byVendor t.1.finding.vendor)
      (byVendor.find? (· == t.1.finding.vendor)) ctx.diff
  session.exit
  verdicts

/-! ## `_verify_singles` -/

/-- `round(q, 3)` of the exact value of a `float`. -/
def round3 (q : Rat) : Rat :=
  let m := mkRat (Double.roundQuot (q.num.natAbs * 1000) q.den) 1000
  let r := (Double.round m).getD m
  if q < 0 then -r else r

/-- The finding is to be verified. -/
def isTarget (m : Merged ReviewFinding) : Bool :=
  m.consensus == .single && (m.finding.severity == .critical || m.finding.severity == .high) &&
    m.finding.postingEligible && m.finding.ownerChunkIndex.isSome

/-- A finding to verify, with its position, which stands for the identity of the object. -/
abbrev Target := Merged ReviewFinding × Nat

def Target.owner (t : Target) : Option Nat := t.1.finding.ownerChunkIndex

def targetsOf (merged : List (Merged ReviewFinding)) : List Target :=
  merged.zipIdx.filter fun t => isTarget t.1

/-- `grouped`: the targets by the chunk that owns them. -/
def groupTargets (targets : List Target) : List (List Target) :=
  Cluster.groups (fun a b => a.owner == b.owner) targets

/-- The exceptions that abort the run, as they are raised. -/
def abortError : VerifyError → Option VerifyError
  | .runtimeCredentialError code notes =>
    (cleanupFailureCode (.runtimeCredentialError code notes)).map fun cleanup =>
      if cleanup = snapshotCleanupFailed then .reviewSnapshotCleanupError
      else .runtimeCredentialError code notes
  | .reviewSnapshotCleanupError => some .reviewSnapshotCleanupError
  | .other code notes execution =>
    (cleanupFailureCode (.other code notes execution)).map fun cleanup =>
      if cleanup = runtimeCleanupFailed then .runtimeCredentialError cleanup []
      else .reviewSnapshotCleanupError

/-- `zip(group, verdicts)`, and the rest of the group. -/
def matchVerdicts (group : List Target) (verdicts : List Verdict) : List (Nat × Verdict) :=
  (group.zip verdicts).map (fun p => (p.1.2, p.2)) ++
    (group.drop verdicts.length).map fun t => (t.2, degradedVerdict)

structure VerifyArgs where
  diff : Text
  promptChunks : List PromptChunk
  pr : PullRequest
  repo : Repo
  repoLocalPath : Option Text
  harness : HarnessProfile

/-- `{chunk.index: chunk ..}.get(owner)`. -/
def VerifyArgs.ownerChunk (x : VerifyArgs) (owner : Option Nat) : Option PromptChunk :=
  x.promptChunks.reverse.find? fun c => owner == some c.index

def VerifyArgs.context (x : VerifyArgs) (owner : Option Nat) : VerifyContext where
  diff := ((x.ownerChunk owner).map PromptChunk.diffText).getD x.diff
  repoLocalPath := x.repoLocalPath
  headSha := x.pr.headSha
  prNumber := x.pr.number
  harness := x.harness
  repoFullName := x.repo.fullName

/-- A verifier: the verdicts on a group of findings. -/
abbrev Verifier := List (Merged ReviewFinding) → VerifyContext → Except VerifyError (List Verdict)

/-- The verdicts on one group. -/
def verifyGroup (x : VerifyArgs) (verify : Verifier) (group : List Target) :
    Except VerifyError (List (Nat × Verdict)) :=
  match verify (group.map Prod.fst) (x.context (group.head?.bind Target.owner)) with
  | .ok verdicts => .ok (matchVerdicts group verdicts)
  | .error e =>
    match abortError e with
    | some e' => .error e'
    | none => .ok (matchVerdicts group (group.map fun _ => degradedVerdict))

/-- `verdict_by_target`. -/
def verdictByTarget (x : VerifyArgs) (verify : Verifier) (targets : List Target) :
    Except VerifyError (List (Nat × Verdict)) :=
  ((groupTargets targets).mapM (verifyGroup x verify)).map List.flatten

/-- The finding after its verdict. -/
def settleFinding (v : Verdict) (f : ReviewFinding) : ReviewFinding :=
  let f := { f with
    verifyIndependent := some v.independent
    verifyEvidenceStatus := some v.evidenceStatus }
  if v.degraded then
    { f with verifyStatus := some "degraded".toList, verifyRationale := none }
  else if v.refuted then
    { f with
      verifyStatus := some "refuted".toList
      confidence := round3 (f.confidence / 2)
      verifyRationale := some v.rationale }
  else
    { f with
      verifyStatus := some (
        if v.contested then "contested".toList
        else if v.independent then "confirmed".toList
        else "supported_self".toList)
      verifyRationale := some v.rationale }

def settle (v : Verdict) (m : Merged ReviewFinding) : Merged ReviewFinding :=
  { m with finding := settleFinding v m.finding }

/-- `_chunk_execution_meta` of an execution. Without a chunk there are no hashes; the nonce, which
is then `None`, is empty here. -/
def verifyExecutionMeta (index : Nat) (owner : Option PromptChunk) (e : Execution) :
    ExecutionChunk :=
  match owner with
  | some c => { Pipeline.chunkExecutionMeta c e.status e.telemetry with index := index }
  | none =>
    { Pipeline.chunkExecutionMeta ⟨index, [], [], [], [], [], .empty, []⟩ e.status e.telemetry with
      chunkHash := none
      contextHash := none
      chunkerVersion := none }

/-- `verify_chunks.setdefault(vendor, []).append(..)`. -/
def appendChunk (owner : Option PromptChunk) (vendor : Text) (e : Execution) :
    List (Text × List ExecutionChunk) → List (Text × List ExecutionChunk)
  | [] => [(vendor, [verifyExecutionMeta 0 owner e])]
  | (v, chunks) :: rest =>
    if v = vendor then (v, chunks ++ [verifyExecutionMeta chunks.length owner e]) :: rest
    else (v, chunks) :: appendChunk owner vendor e rest

/-- The verdict on a target. -/
def verdictOf (verdicts : List (Nat × Verdict)) (id : Nat) : Verdict :=
  (verdicts.lookup id).getD degradedVerdict

/-- `verify_chunks`. -/
def verifyChunks (x : VerifyArgs) (verdicts : List (Nat × Verdict)) (targets : List Target) :
    List (Text × List ExecutionChunk) :=
  targets.foldl (fun out t => (verdictOf verdicts t.2).executionAttempts.foldl
    (fun out a => appendChunk (x.ownerChunk t.owner) a.1 a.2 out) out) []

/-- `_verify_singles`: the findings as they are left, and `verify_chunks`. -/
def verifySingles (x : VerifyArgs) (verify : Verifier) (merged : List (Merged ReviewFinding)) :
    Except VerifyError (List (Merged ReviewFinding) × List (Text × List ExecutionChunk)) := do
  let targets := targetsOf merged
  let verdicts ← verdictByTarget x verify targets
  pure (merged.zipIdx.map fun t =>
      if isTarget t.1 then settle (verdictOf verdicts t.2) t.1 else t.1,
    verifyChunks x verdicts targets)

end Verify
