import AlmightyReview.Post.Comment
import AlmightyReview.Job.Repo
import AlmightyReview.Lib.Json
import AlmightyReview.Lib.Sha256

/-!
# Posting operations

The functions of `post_operation_repo`. A posting operation records what a posting of one vendor
does and how far it came; while it is unfinished, its new findings are reserved for it
(`finding.posting_operation_id`).

* `operationIdentity`: the key, the marker and the hashes, derived from the target and the exact
  body.
* `prepare`, `claim`, `abortUnapplied`, `markRemote`, `markError`, `finalize`: the steps of a
  posting in the database; `findRemoteReview` looks for the marker in the reviews on GitHub.
* Ids and texts that the source stores as JSON lists are lists.
-/

namespace Post

open Sql JobRepo

/-! ## Identity -/

/-- What `prepare` is called with. -/
structure PostRequest where
  runId : Nat
  vendor : Text
  body : Text
  allIds : List Nat
  newIds : List Nat
  repoFull : Text
  prNumber : Nat
  headSha : Sha
  policyReviewIdentity : Text
  deriving DecidableEq, Repr

/-- The immutable identity of a request. -/
structure Identity where
  key : Text
  marker : Text
  bodyHash : Text
  identityJson : Text
  deriving DecidableEq, Repr

def sha256 (s : Text) : Text := Sha256.hexdigest s.encode

def markerLead : Text := "<!-- almighty-post-operation:".toList

def markerEnd : Text := " -->".toList

/-- The fields that the marker is derived from. -/
def identityCore (r : PostRequest) : List (Text × Json.Scalar) :=
  [("canonical_repo".toList, .str r.repoFull.strip.lower),
   ("pr_number".toList, .int r.prNumber),
   ("head_sha".toList, .str r.headSha),
   ("run_id".toList, .int r.runId),
   ("vendor".toList, .str r.vendor),
   ("policy_review_identity".toList,
     .str (if r.policyReviewIdentity = [] then "unknown".toList else r.policyReviewIdentity)),
   ("marker_seed".toList, .str (sha256 r.body))]

def operationMarker (r : PostRequest) : Text :=
  markerLead ++ (sha256 (Json.dumps (identityCore r))).take 32 ++ markerEnd

/-- `f"{body}\n\n{marker}"`: what a review on GitHub says. -/
def fullBody (body marker : Text) : Text := body ++ "\n\n".toList ++ marker

/-- `_operation_identity`. -/
def operationIdentity (r : PostRequest) : Identity :=
  let marker := operationMarker r
  let bodyHash := sha256 (fullBody r.body marker)
  let identityJson := Json.dumps (identityCore r ++
    [("marker".toList, .str marker), ("full_body_hash".toList, .str bodyHash)])
  { key := sha256 identityJson, marker := marker, bodyHash := bodyHash,
    identityJson := identityJson }

/-! ## Prepare -/

/-- The stored operation with this key. -/
def findOperation (db : Db) (key : Text) : Option PostOperation :=
  db.postOperations.find? fun o => o.operationKey == key

/-- A new row of `github_post_operation`. -/
def newOperation (r : PostRequest) (identity : Identity) (now : Time) (id : Nat) :
    PostOperation where
  id := id
  operationKey := identity.key
  runId := r.runId
  vendor := r.vendor
  marker := identity.marker
  body := r.body
  bodyHash := some identity.bodyHash
  identityJson := some identity.identityJson
  findingIds := r.allIds
  newFindingIds := r.newIds
  status := .pending
  ownerToken := none
  lockedAt := none
  remoteReviewId := none
  remoteUrl := none
  error := none
  createdAt := now
  updatedAt := now
  completedAt := none

/-- `INSERT INTO github_post_operation`; the key and the marker are unique. -/
def insertOperation (r : PostRequest) (identity : Identity) : Sql Db Exc Nat := do
  let taken ← select fun db => (db.postOperations.find? fun o => o.marker == identity.marker).isSome
  when taken
    (throw (.integrityError "UNIQUE constraint failed: github_post_operation.marker".toList))
  insertInto Db.postOperationTable fun db id => newOperation r identity db.now id

/-- The finding may be reserved: it is approved, of the run, and not reserved. -/
def reservable (runId fid : Nat) (f : Finding) : Bool :=
  f.id == fid && f.runId == runId && postable f.status && f.postingOperationId.isNone

/-- `UPDATE finding SET posting_operation_id = ..`. -/
def reserved (operationId : Nat) (f : Finding) : Finding :=
  { f with postingOperationId := some operationId }

/-- `PostingConflict` of a finding that cannot be reserved. -/
def changedWhilePreparing (fid : Nat) : Exc :=
  .postingConflict ("finding ".toList ++ Text.ofNat fid ++ " changed while preparing post".toList)

/-- Each finding is reserved for the operation, or `PostingConflict`. -/
def reserveAll (operationId runId : Nat) (fids : List Nat) : Sql Db Exc Unit :=
  updateEach Db.findingTable (reservable runId) (reserved operationId) (fun _ => rfl)
    changedWhilePreparing fids

/-- The operation with the identity of the request: the stored one, or a new one with its findings
reserved. -/
def prepare (r : PostRequest) : Sql Db Exc PostOperation := do
  let identity := operationIdentity r
  beginImmediate
  try
    match ← select fun db => findOperation db identity.key with
    | some existing =>
      commit
      pure existing
    | none =>
      let operationId ← insertOperation r identity
      reserveAll operationId r.runId r.newIds
      commit
      rowOf (← select fun db => db.postOperations.get? operationId)
  catch e =>
    rollback
    throw e

/-! ## Claim and abort -/

/-- A claim that is older may be taken over. -/
def staleClaimMinutes : Nat := 20

/-- The operation is pending, or its claim is stale. -/
def claimable (now : Time) (o : PostOperation) : Bool :=
  o.status == .pending || (o.status == .applying &&
    (match o.lockedAt with | none => false | some t => t + staleClaimMinutes * 60 ≤ now))

def claim (operationId : Nat) (ownerToken : Text) : Sql Db Exc Bool := do
  let rowcount ← updateRows Db.postOperationTable
    (fun db o => o.id == operationId && claimable db.now o)
    (fun db o => { o with status := .applying, ownerToken := some ownerToken,
                          lockedAt := some db.now, updatedAt := db.now })
  commit
  pure (rowcount == 1)

/-- A text column that is neither `NULL` nor empty. -/
def truthy (t : Option Text) : Bool :=
  match t with
  | none => false
  | some t => t != []

/-- The owner may give the operation up: nothing was recorded as applied. -/
def abortable (ownerToken : Text) (o : PostOperation) : Bool :=
  o.status == .applying && o.ownerToken == some ownerToken && !truthy o.remoteReviewId

/-- The operation is deleted and its findings are free again. -/
def abortUnapplied (operationId : Nat) (ownerToken : Text) : Sql Db Exc Unit := do
  let op ← select fun db => db.postOperations.get? operationId
  when (!(op.any (abortable ownerToken)))
    (throw (.postingConflict "posting operation cannot be safely aborted".toList))
  let _ ← updateRows Db.findingTable (fun _ f => f.postingOperationId == some operationId)
    (fun _ f => { f with postingOperationId := none })
  let _ ← deleteRows Db.postOperationTable (fun _ o => o.id == operationId)
  commit

/-! ## Remote application -/

/-- `status = 'applying' AND owner_token = ?` of the operation. -/
def heldBy (operationId : Nat) (ownerToken : Text) (o : PostOperation) : Bool :=
  o.id == operationId && o.status == .applying && o.ownerToken == some ownerToken

def markRemote (operationId : Nat) (reviewId url ownerToken : Text) : Sql Db Exc Unit := do
  let rowcount ← updateRows Db.postOperationTable (fun _ o => heldBy operationId ownerToken o)
    (fun db o => { o with
      status := .remoteApplied, remoteReviewId := some reviewId, remoteUrl := some url,
      error := none, ownerToken := none, lockedAt := none, updatedAt := db.now })
  when (rowcount ≠ 1) do
    rollback
    throw (.postingConflict "post operation ownership lost".toList)
  commit

def markError (operationId : Nat) (error ownerToken : Text) : Sql Db Exc Unit := do
  let _ ← updateRows Db.postOperationTable (fun _ o => heldBy operationId ownerToken o)
    (fun db o => { o with error := some (error.take 1000), updatedAt := db.now })
  commit

/-! ## Finalize -/

/-- The finding is reserved for the operation and still approved. -/
def finalizable (operationId fid : Nat) (f : Finding) : Bool :=
  f.id == fid && f.postingOperationId == some operationId && postable f.status

/-- A posted finding. -/
def posted (f : Finding) : Finding := { f with status := .posted, postingOperationId := none }

/-- `PostingConflict` of a finding that is not reserved any more. -/
def reservationLost (fid : Nat) : Exc :=
  .postingConflict ("finding ".toList ++ Text.ofNat fid ++ " posting reservation lost".toList)

/-- Each finding of the operation becomes posted, or `PostingConflict`. -/
def postAll (operationId : Nat) (fids : List Nat) : Sql Db Exc Unit :=
  updateEach Db.findingTable (finalizable operationId) posted (fun _ => rfl) reservationLost fids

/-- The operation has succeeded. -/
def succeeded (now : Time) (o : PostOperation) : PostOperation :=
  { o with status := .succeeded, error := none, ownerToken := none, lockedAt := none,
           completedAt := some now, updatedAt := now }

/-- The end of an operation, inside the transaction of the caller. -/
def finalize (operationId : Nat) : Sql Db Exc Unit := do
  let op ← rowOf (← select fun db => db.postOperations.get? operationId)
  postAll operationId op.newFindingIds
  let _ ← updateRows Db.postOperationTable (fun _ o => o.id == operationId)
    (fun db o => succeeded db.now o)

/-! ## The reviews on GitHub -/

/-- A review of a pull request on GitHub. -/
structure RemoteReview where
  id : Nat
  body : Text
  url : Text
  deriving DecidableEq, Repr

instance : Row RemoteReview := ⟨RemoteReview.id⟩

/-- The newest review that carries the marker. -/
def findRemoteReview (reviews : List RemoteReview) (marker : Text) : Option RemoteReview :=
  reviews.reverse.find? fun r => r.body.contains marker

end Post
