import AlmightyReview.Post.Operation

/-!
# The requests that write findings and operations

`patchFinding` is the handler of `PATCH /api/findings/{fid}`, by which the user decides on a
finding. `finalizePosting` is the last transaction of a posting (`_post_run_locked`): the posted
comment is recorded and the operation finalized, or nothing happens.
-/

namespace Post

open Sql JobRepo

/-! ## The user's decision -/

/-- The body of the request. -/
structure FindingPatch where
  status : Text
  editedText : Option Text
  deriving DecidableEq, Repr

/-- The newest run of a pull request. -/
def latestRunId (db : Db) (prId : Nat) : Option Nat :=
  ((db.reviewRuns.rows.filter fun r => r.prId == prId).map (·.id)).max?

/-- The run is the newest of its pull request, whose stored head is the run's. -/
def isCurrentRun (db : Db) (runId : Nat) : Bool :=
  match db.reviewRuns.get? runId with
  | none => false
  | some run =>
    latestRunId db run.prId == some run.id &&
      (match db.pullRequests.get? run.prId with
        | none => false
        | some pr => run.headSha == pr.headSha)

/-- The statuses that a patch may set. -/
def patchStatus (status : Text) : Option FindingStatus :=
  if status = "approved".toList then some .approved
  else if status = "dismissed".toList then some .dismissed
  else if status = "edited".toList then some .edited
  else none

/-- `finding_repo.set_status`: the status, and the text unless it is left as it is; a change of
the status is recorded. -/
def setStatus (fid : Nat) (status : FindingStatus) (editedText : Option Text) :
    Sql Db Exc Unit := do
  let prev ← select fun db => (db.findings.get? fid).map (·.status)
  let _ ← updateRows Db.findingTable (fun _ f => f.id == fid)
    (fun _ f => { f with status := status, editedText := editedText.or f.editedText })
  when (prev.any (· != status)) do
    let _ ← insertInto Db.findingDecisionTable fun db id => ⟨id, fid, prev, status, db.now⟩

/-- An edit without a text. -/
def emptyEdit : Exc :=
  .httpException 400 "edited 상태에는 비어 있지 않은 edited_text가 필요합니다".toList

/-- A text with a status other than `edited`. -/
def strayText : Exc := .httpException 400 "edited_text는 edited 상태에서만 변경할 수 있습니다".toList

/-- The change that a patch asks for, or the error that refuses it. -/
def applyPatch (fid : Nat) (patch : FindingPatch) : Sql Db Exc Unit :=
  match patchStatus patch.status with
  | none =>
    throw (.httpException 400 "status는 approved, dismissed, edited 중 하나여야 합니다".toList)
  | some .edited => do
    let editedText := (patch.editedText.getD []).strip
    when (editedText = []) (throw emptyEdit)
    setStatus fid .edited (some editedText)
  | some status => do
    when patch.editedText.isSome (throw strayText)
    setStatus fid status none

/-- The statements of `patch_finding` between `BEGIN IMMEDIATE` and `commit`. -/
def patchStatements (fid : Nat) (patch : FindingPatch) : Sql Db Exc Finding := do
  match ← select fun db => db.findings.get? fid with
  | none => throw (.httpException 404 "finding not found".toList)
  | some finding =>
    when finding.postingOperationId.isSome (throw (.httpException 409
      "GitHub 포스팅 중인 finding은 변경할 수 없습니다".toList))
    let current ← select fun db => isCurrentRun db finding.runId
    when (!current) (throw (.httpException 409
      "과거 리뷰 finding은 변경할 수 없습니다".toList))
    applyPatch fid patch
    rowOf (← select fun db => db.findings.get? fid)

def patchFinding (fid : Nat) (patch : FindingPatch) : Sql Db Exc Finding :=
  transaction (patchStatements fid patch)

/-! ## The requests of a posting -/

/-- The request of the comment `c` of the run, as `_post_run_locked` calls `prepare`. -/
def postRequest (db : Db) (runId : Nat) (c : VendorComment) : Option PostRequest := do
  let run ← db.reviewRuns.get? runId
  let pr ← db.pullRequests.get? run.prId
  let repo ← db.repos.get? pr.repoId
  pure {
    runId := runId
    vendor := c.vendor
    body := c.body
    allIds := c.allIds
    newIds := c.newIds
    repoFull := repo.fullName
    prNumber := pr.number
    headSha := run.headSha
    policyReviewIdentity := orText (run.policy.map (·.policyDecisionHash)) "unknown".toList }

/-- The requests of all comments of the run. -/
def postRequests (banner : Text) (db : Db) (runId : Nat) : List PostRequest :=
  (commentsToPost banner db runId).filterMap (postRequest db runId)

/-! ## The last transaction of a posting -/

/-- What the last transaction of a posting records. -/
structure Posting where
  operationId : Nat
  prevId : Option Nat
  runId : Nat
  vendor : Text
  reviewId : Text
  url : Text
  marker : Text
  body : Text
  headSha : Sha
  findingIds : List Nat
  deriving DecidableEq, Repr

/-- The newest posted comment of the vendor on the pull request that is not superseded. -/
def latestForPrVendor (db : Db) (prId : Nat) (vendor : Text) : Option PostedComment :=
  (db.postedComments.rows.filter fun c =>
    c.vendor == vendor && c.supersededAt.isNone &&
      (match db.reviewRuns.get? c.runId with
        | none => false
        | some run => run.prId == prId)).getLast?

/-- `posted_repo.supersede` of the previous comment, if there is one. -/
def supersede (prevId : Option Nat) : Sql Db Exc Unit := do
  let _ ← updateRows Db.postedCommentTable (fun _ c => some c.id == prevId)
    (fun db c => { c with supersededAt := some db.now })

/-- `posted_repo.add`. -/
def addPosted (p : Posting) : Sql Db Exc Nat :=
  insertInto Db.postedCommentTable fun db id =>
    { id := id, runId := p.runId, vendor := p.vendor, githubCommentId := some p.reviewId,
      url := some p.url, marker := some p.marker, body := some p.body, postedAt := some db.now,
      headSha := some p.headSha, findingIds := p.findingIds, kind := .review,
      supersededAt := none }

/-- The statements of the last transaction between `BEGIN IMMEDIATE` and `commit`. -/
def finalizeStatements (p : Posting) : Sql Db Exc Unit := do
  supersede p.prevId
  let _ ← addPosted p
  finalize p.operationId

def finalizePosting (p : Posting) : Sql Db Exc Unit := transaction (finalizeStatements p)

end Post
