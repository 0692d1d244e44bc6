import AlmightyReview.Job.Process
import AlmightyReview.Pr.Repo
import AlmightyReview.Review.Repo
import AlmightyReview.Review.Vendor

/-!
# Transactions of a review

The transactions in which the results of an execution reach the database.

* `publish`: the end of a run. It stores nothing when the lease of the process is lost, and says so
  when the head of the pull request has moved; `cancelStale` then cancels the run.
* `storeFailed`: the end of a run in which all vendors failed.
* `retryPublish`: the end of a retry. New findings join the groups of those of the run.
-/

namespace Pipeline

open Sql FindingPolicy

/-! ## Results -/

/-- What a row and an envelope are found by: the vendor. -/
structure VendorRow where
  vendor : Text
  vrId : Nat
  identity : ExecutionIdentity

/-- `d[vendor]`. -/
def rowFor (rows : List VendorRow) (vendor : Text) : Except Exc VendorRow :=
  match rows.find? (·.vendor == vendor) with
  | some row => pure row
  | none => throw (.keyError vendor)

/-- The findings of a result with the id of its row. -/
def withRow (vrId : Nat) (r : VendorRunResult) : List ReviewFinding :=
  r.findings.map fun f => { f with vendorResultId := some vrId }

/-- The findings of `_prepare_vendor_results`: those of the vendors that succeeded. -/
def preparedFindings (rows : List VendorRow) :
    List VendorRunResult → Except Exc (List ReviewFinding)
  | [] => pure []
  | r :: rs => do
    let row ← rowFor rows r.vendor
    let findings ← preparedFindings rows rs
    pure (if r.succeeded then withRow row.vrId r ++ findings else findings)

/-- The error codes of a result, sorted. -/
def safeCodes (r : VendorRunResult) : List Text :=
  ((r.chunks.filterMap (·.safeErrorCode)).filter (· ≠ [])).dedup.insertionSort (· ≤ ·)

def statusText : VendorStatus → Text
  | .running => "running".toList
  | .done => "done".toList
  | .incomplete => "partial".toList
  | .failed => "failed".toList
  | .timeout => "timeout".toList
  | .canceled => "canceled".toList

/-- The error of a vendor that failed. -/
def vendorError (r : VendorRunResult) : Text :=
  let codes := safeCodes r
  r.vendor ++ ":".toList ++ statusText r.status ++
    if codes = [] then [] else ":".toList ++ Json.join [','] codes

/-- The error of a run in which all vendors failed. -/
def allFailedError (results : List VendorRunResult) : Text :=
  "all vendors failed → ".toList ++ Json.join "; ".toList (results.map vendorError)

/-- The error that is kept of a result. -/
def safeError (status : VendorStatus) : Option Text :=
  match status with
  | .incomplete => some "partial chunk failure".toList
  | .failed => some "vendor failed".toList
  | .timeout => some "vendor timeout".toList
  | _ => none

/-- One result of `_persist_vendor_results`. -/
def persistVendorResult (rows : List VendorRow) (attempt : Nat) (r : VendorRunResult) :
    Sql Db Exc Unit := do
  let row ← lift (rowFor rows r.vendor)
  let envelope ← lift (attemptEnvelope r row.identity attempt)
  ReviewRepo.finishVendorResult row.vrId r.status (safeError r.status) (some r.durationMs) envelope
    false

/-- `_persist_vendor_results`. -/
def persistVendorResults (rows : List VendorRow) (attempt : Nat) :
    List VendorRunResult → Sql Db Exc Unit
  | [] => pure ()
  | r :: rs => do
    persistVendorResult rows attempt r
    persistVendorResults rows attempt rs

/-- `_persist`. -/
def persist (runId : Nat) : List FindingItem → Sql Db Exc Unit
  | [] => pure ()
  | item :: items => do
    let _ ← FindingRepo.add runId item false
    persist runId items

/-! ## Barriers -/

/-- `_assert_process_lease`. -/
def assertProcessLease (runId : Nat) (ownerProcessId : Option ProcessId) : Sql Db Exc Unit :=
  match ownerProcessId with
  | none => pure ()
  | some p => do
    let alive ← select fun db => ProcessRepo.alive db p
    when (!alive) (throw (.pipelineLeaseLost runId "worker process lease lost".toList))

/-- The stored head of a pull request, empty when it is gone. -/
def actualHead (prId : Nat) (db : Db) : Sha :=
  match db.pullRequests.get? prId with
  | some pr => pr.headSha
  | none => []

/-! ## The end of a run -/

/-- What a run has at its end. -/
structure Ending where
  runId : Nat
  prId : Nat
  headSha : Sha
  ownerProcessId : Option ProcessId
  results : List VendorRunResult
  rows : List VendorRow
  items : List FindingItem

/-- The statements that make a run done. -/
def publishStatements (e : Ending) : Sql Db Exc Unit := do
  persistVendorResults e.rows 1 e.results
  persist e.runId e.items
  ReviewRepo.finishRun e.runId .done none false
  PrRepo.markReviewed e.prId e.headSha false

/-- The final transaction. When the head has moved it rolls back, and answers with the head. -/
def publish (e : Ending) : Sql Db Exc (Option Sha) := do
  beginImmediate
  try
    assertProcessLease e.runId e.ownerProcessId
    let actual ← select (actualHead e.prId)
    if actual ≠ e.headSha then
      rollback
      pure (some actual)
    else
      publishStatements e
      commit
      pure none
  catch ex =>
    rollback
    throw ex

/-- The transaction after a final one that found another head: run and results are canceled. -/
def cancelStale (e : Ending) : Sql Db Exc Unit := transaction do
  persistVendorResults e.rows 1 (e.results.map fun r => { r with status := .canceled })
  ReviewRepo.finishRun e.runId .canceled (some Exc.staleHeadMessage) false

/-- The transaction of a run in which all vendors failed. -/
def storeFailed (e : Ending) : Sql Db Exc Unit := transaction do
  persistVendorResults e.rows 1 e.results
  ReviewRepo.finishRun e.runId .failed (some "all vendors failed".toList) false

/-! ## Duplicates of a retry -/

section RetryGroups

variable (canonicalClaim : Text → Text)

/-- The findings of a run with this key, in the order of their ids. -/
def keyed (runId : Nat) (key : DuplicateKey) (db : Db) : List Finding :=
  (db.findings.rows.filter fun f =>
    f.runId == runId && storedKey canonicalClaim f == key).insertionSort
    fun a b => a.id ≤ b.id

/-- The group of a key, and the last group number after it. A key with fewer than two findings has
no group. -/
def retryGroup (runId : Nat) (db : Db) (new : List DuplicateKey) (key : DuplicateKey)
    (last : Nat) : Option Nat × Nat :=
  let old := keyed canonicalClaim runId key db
  if old.length + new.count key < 2 then (none, last)
  else
    match (old.filterMap (·.duplicateGroupId)).head? with
    | some group => (some group, last)
    | none => (some (last + 1), last + 1)

/-- The groups of the keys, one key after the other. -/
def retryGroups (runId : Nat) (db : Db) (new : List DuplicateKey) :
    List DuplicateKey → Nat → List (DuplicateKey × Option Nat)
  | [], _ => []
  | key :: keys, last =>
    let g := retryGroup canonicalClaim runId db new key last
    (key, g.1) :: retryGroups runId db new keys g.2

/-- The greatest group number of a run. -/
def lastGroup (runId : Nat) (db : Db) : Nat :=
  ((db.findings.rows.filter (·.runId == runId)).map fun f => f.duplicateGroupId.getD 0).foldl max 0

/-- The place of a stored finding among those with its key. -/
def placeOf (db : Db) (f : Finding) : Nat :=
  (keyed canonicalClaim f.runId (storedKey canonicalClaim f) db).findIdx (·.id == f.id)

/-- A stored finding in its group. -/
def groupStored (mode : Text) (groups : List (DuplicateKey × Option Nat)) (db : Db) (f : Finding) :
    Finding :=
  match groups.lookup (storedKey canonicalClaim f) with
  | some (some group) => { f with
      duplicateGroupId := some group
      duplicateSuggested := true
      postingEligible :=
        if mode = enforce ∧ 0 < placeOf canonicalClaim db f then false else f.postingEligible }
  | _ => f

theorem groupStored_id (mode : Text) (groups : List (DuplicateKey × Option Nat)) (db : Db)
    (f : Finding) : (groupStored canonicalClaim mode groups db f).id = f.id := by
  unfold groupStored
  split <;> rfl

/-- A new finding in its group; `offset` findings of the key come before it. -/
def groupNew (mode : Text) (group : Option Nat) (offset : Nat) (f : ReviewFinding) :
    ReviewFinding :=
  match group with
  | some group => { f with
      duplicateGroupId := some group
      duplicateSuggested := true
      postingEligible := f.postingEligible && !(mode == enforce && decide (0 < offset)) }
  | none => { f with
    duplicateGroupId := none
    duplicateSuggested := false }

/-- The new findings of a result; `earlier` are the keys of those before them. -/
def groupNewFindings (runId : Nat) (mode : Text) (groups : List (DuplicateKey × Option Nat))
    (db : Db) : List DuplicateKey → List ReviewFinding → List ReviewFinding
  | _, [] => []
  | earlier, f :: fs =>
    let key := duplicateKey canonicalClaim f
    let offset := (keyed canonicalClaim runId key db).length + earlier.count key
    groupNew mode ((groups.lookup key).getD none) offset f ::
      groupNewFindings runId mode groups db (earlier ++ [key]) fs

def groupNewResults (runId : Nat) (mode : Text) (groups : List (DuplicateKey × Option Nat))
    (db : Db) : List DuplicateKey → List VendorRunResult → List VendorRunResult
  | _, [] => []
  | earlier, r :: rs =>
    let findings := groupNewFindings canonicalClaim runId mode groups db earlier r.findings
    { r with findings } ::
      groupNewResults runId mode groups db
        (earlier ++ r.findings.map (duplicateKey canonicalClaim)) rs

/-- `_group_retry_duplicates`: the results with their findings in groups. -/
def groupRetryDuplicates (runId : Nat) (mode : Text) (results : List VendorRunResult) :
    Sql Db Exc (List VendorRunResult) :=
  execute fun db =>
    let new := (results.flatMap VendorRunResult.findings).map (duplicateKey canonicalClaim)
    let groups := retryGroups canonicalClaim runId db new new.reverse.dedup.reverse
      (lastGroup runId db)
    ({ db with
        findings :=
          db.findings.update (·.runId == runId) (groupStored canonicalClaim mode groups db)
          fun f => groupStored_id canonicalClaim mode groups db f },
      groupNewResults canonicalClaim runId mode groups db [] results)

end RetryGroups

/-! ## The end of a retry -/

/-- A stored finding as the consensus is computed from it. -/
def retagView (f : Finding) : ReviewFinding where
  vendor := f.vendor
  file := f.file
  line := f.line
  severity := f.severity
  category := f.category
  claim := []
  rationale := []
  confidence := f.confidence.getD 0

/-- A finding with the tag of the merge. -/
def retag (merged : List (Merged Finding)) (f : Finding) : Finding :=
  match merged.find? (·.finding.id == f.id) with
  | some m => { f with
    consensus := m.consensus
    consensusGroupId := some m.consensusGroupId }
  | none => f

theorem retag_id (merged : List (Merged Finding)) (f : Finding) : (retag merged f).id = f.id := by
  unfold retag
  split <;> rfl

/-- `_retag_consensus`. -/
def retagConsensus (runId : Nat) : Sql Db Exc Unit :=
  execute fun db =>
    let merged := deterministicMerge retagView (db.findings.rows.filter (·.runId == runId))
    ({ db with
        findings := db.findings.update (·.runId == runId) (retag merged) (retag_id merged) }, ())

/-- What a retry has at its end. -/
structure RetryEnding where
  runId : Nat
  prId : Nat
  headSha : Sha
  ownerProcessId : Option ProcessId
  dedupeMode : Text
  mergeEnabled : Bool
  results : List VendorRunResult
  rows : List VendorRow

/-- `_ensure_current_head` with `cancel_run=False`. -/
def assertCurrentHead (runId prId : Nat) (headSha : Sha) : Sql Db Exc Unit := do
  let actual ← select (actualHead prId)
  when (actual ≠ headSha) (throw (.pipelineStaleHead runId headSha actual))

/-- The end of a retry, in one transaction. -/
def retryPublish (canonicalClaim : Text → Text) (e : RetryEnding) : Sql Db Exc Unit :=
  transaction do
    assertProcessLease e.runId e.ownerProcessId
    assertCurrentHead e.runId e.prId e.headSha
    let results ← groupRetryDuplicates canonicalClaim e.runId e.dedupeMode e.results
    let findings ← lift (preparedFindings e.rows results)
    let attempt ← select (ReviewRepo.nextExecutionAttempt (e.rows.map (·.vrId)))
    persistVendorResults e.rows attempt results
    persist e.runId (findings.map fun f => ⟨f.vendorResultId, f, .single, none⟩)
    when e.mergeEnabled (retagConsensus e.runId)

end Pipeline
