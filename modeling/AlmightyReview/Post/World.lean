import AlmightyReview.Lib.Sys
import AlmightyReview.Post.Api

/-!
# Postings and GitHub

All postings of a server at work: the loop body of `_post_run_locked` for one vendor is an
*attempt*, and any number of attempts of any processes take their steps in any order. Each
statement group on the database and each call of GitHub is one step; an attempt may stop, by a
crash or an exception, before each of its steps.

* `World`: the database, the reviews of every pull request on GitHub, and the attempts, each under
  its owner token (`uuid4().hex`, so a token is never used twice).
* `Phase`: how far an attempt came. `World.Step` are its steps, with the other requests of the
  server and the other users of GitHub.
* A call of GitHub that fails may have had its effect or not.
-/

namespace Post

open Sql

/-- A pull request: the repository's full name and the number. -/
abbrev Target := Text × Nat

def PostRequest.target (r : PostRequest) : Target := (r.repoFull, r.prNumber)

/-- How far an attempt came; `operation` is the row that `prepare` returned. -/
inductive Phase where
  | begun
  | prepared (operation : PostOperation)
  | claimed (operation : PostOperation)
  /-- No review carries the marker. -/
  | missing (operation : PostOperation)
  /-- The previous review does not exist any more. -/
  | noPrevious (operation : PostOperation)
  /-- The review with the marker is known. -/
  | found (operation : PostOperation) (reviewId url : Text)
  /-- A call of GitHub failed. -/
  | failed (operation : PostOperation)
  /-- The operation is `remote_applied`. -/
  | applied (operation : PostOperation) (reviewId url : Text)
  | stopped

/-- One run of the loop of `_post_run_locked`: what it posts and the vendor's previous comment. -/
structure Attempt where
  request : PostRequest
  prev : Option PostedComment
  phase : Phase

/-- The id of the review that is updated and not created anew. -/
def Attempt.reuse (a : Attempt) : Option Text :=
  match a.prev with
  | none => none
  | some prev => if prev.kind = .review ∧ truthy prev.githubCommentId then prev.githubCommentId
    else none

structure World where
  db : Db
  reviews : Target → Table RemoteReview
  attempts : Text → Option Attempt

namespace World

/-- The attempt `token` goes on to another phase. -/
def enter (w : World) (token : Text) (a : Attempt) (phase : Phase) : World :=
  { w with attempts := fun t => if t = token then some { a with phase := phase } else w.attempts t }

/-- The statements of an attempt change the database. -/
def withDb (w : World) (db : Db) : World := { w with db := db }

/-- The reviews of one pull request change. -/
def withReviews (w : World) (target : Target) (reviews : Table RemoteReview) : World :=
  { w with reviews := fun t => if t = target then reviews else w.reviews t }

/-! ## GitHub -/

/-- `update_review`: the body of one review. -/
def updateReview (w : World) (target : Target) (reviewId body : Text) : World :=
  w.withReviews target
    ((w.reviews target).update (fun v => Text.ofNat v.id == reviewId) fun v =>
      { v with body := body })

/-- `create_review`: a new review. -/
def createReview (w : World) (target : Target) (url body : Text) : World :=
  w.withReviews target ((w.reviews target).insert fun id => ⟨id, body, url⟩)

/-- What the last transaction of an attempt records. -/
def posting (a : Attempt) (op : PostOperation) (reviewId url : Text) : Posting where
  operationId := op.id
  prevId := a.prev.map (·.id)
  runId := a.request.runId
  vendor := a.request.vendor
  reviewId := reviewId
  url := url
  marker := op.marker
  body := fullBody op.body op.marker
  headSha := a.request.headSha
  findingIds := a.request.allIds

/-! ## Steps -/

/-- Who takes a step, and which. -/
inductive Label where
  | begin (token : Text) (prId : Nat) (r : PostRequest)
  | prepare (token : Text)
  | claim (token : Text)
  | find (token : Text)
  | write (token : Text)
  | abortUnapplied (token : Text)
  | markRemote (token : Text)
  | markError (token error : Text)
  | finalize (token : Text)
  | stop (token : Text)
  | elsewhere (db : Db)
  | others (target : Target) (reviews : Table RemoteReview)

/-- The phase after `prepare`. -/
def afterPrepare : Except Exc PostOperation → Phase
  | .ok op => .prepared op
  | .error _ => .stopped

/-- The phase after `claim`, which an operation that is `remote_applied` does not need. -/
def afterClaim (op : PostOperation) : Except Exc Bool → Phase
  | .ok true => .claimed op
  | _ => .stopped

/-- The phase after the search for the marker. -/
def afterFind (op : PostOperation) : Option RemoteReview → Phase
  | some v => .found op (Text.ofNat v.id) v.url
  | none => .missing op

/-- The phase after `mark_remote`. -/
def afterMarkRemote (op : PostOperation) (reviewId url : Text) : Except Exc Unit → Phase
  | .ok () => .applied op reviewId url
  | .error _ => .stopped

/-- One step of the world. -/
inductive Step (w : World) : Label → World → Prop
  | begin {token : Text} {prId : Nat} {r : PostRequest} : w.attempts token = none →
    Step w (.begin token prId r)
      (w.enter token ⟨r, latestForPrVendor w.db prId r.vendor, .begun⟩ .begun)
  | prepare {token : Text} {a : Attempt} : w.attempts token = some a → a.phase = .begun →
    Step w (.prepare token) ((w.withDb ((Post.prepare a.request).run w.db).2).enter token a
      (afterPrepare ((Post.prepare a.request).run w.db).1))
  /-- The operation was applied on GitHub before: nothing is claimed. -/
  | adopt {token : Text} {a : Attempt} {op : PostOperation} : w.attempts token = some a →
    a.phase = .prepared op → op.status = .remoteApplied →
    Step w (.claim token) (w.enter token a
      (.applied op (op.remoteReviewId.getD "None".toList) (op.remoteUrl.getD [])))
  | claim {token : Text} {a : Attempt} {op : PostOperation} : w.attempts token = some a →
    a.phase = .prepared op → op.status ≠ .remoteApplied →
    Step w (.claim token) ((w.withDb ((Post.claim op.id token).run w.db).2).enter token a
      (afterClaim op ((Post.claim op.id token).run w.db).1))
  | find {token : Text} {a : Attempt} {op : PostOperation} : w.attempts token = some a →
    a.phase = .claimed op → Step w (.find token) (w.enter token a
      (afterFind op (findRemoteReview (w.reviews a.request.target).rows op.marker)))
  | findFails {token : Text} {a : Attempt} {op : PostOperation} : w.attempts token = some a →
    a.phase = .claimed op → Step w (.find token) (w.enter token a (.failed op))
  | update {token : Text} {a : Attempt} {op : PostOperation} {reviewId url : Text} :
    w.attempts token = some a → a.phase = .missing op → a.reuse = some reviewId →
    Step w (.write token) ((w.updateReview a.request.target reviewId
      (fullBody op.body op.marker)).enter token a (.found op reviewId url))
  /-- `404`: there is no such review. -/
  | updateMissing {token : Text} {a : Attempt} {op : PostOperation} {reviewId : Text} :
    w.attempts token = some a → a.phase = .missing op → a.reuse = some reviewId →
    Step w (.write token) (w.enter token a (.noPrevious op))
  /-- The update failed, but took place. -/
  | updateLost {token : Text} {a : Attempt} {op : PostOperation} {reviewId : Text} :
    w.attempts token = some a → a.phase = .missing op → a.reuse = some reviewId →
    Step w (.write token) ((w.updateReview a.request.target reviewId
      (fullBody op.body op.marker)).enter token a (.failed op))
  | create {token : Text} {a : Attempt} {op : PostOperation} {url : Text} :
    w.attempts token = some a →
      (a.phase = .missing op ∧ a.reuse = none ∨ a.phase = .noPrevious op) →
    Step w (.write token) ((w.createReview a.request.target url (fullBody op.body op.marker)).enter
      token a (.found op (Text.ofNat (w.reviews a.request.target).nextId) url))
  /-- The creation failed, but took place. -/
  | createLost {token : Text} {a : Attempt} {op : PostOperation} {url : Text} :
    w.attempts token = some a →
      (a.phase = .missing op ∧ a.reuse = none ∨ a.phase = .noPrevious op) →
    Step w (.write token) ((w.createReview a.request.target url (fullBody op.body op.marker)).enter
      token a (.failed op))
  /-- The update or the creation failed and did not take place. -/
  | writeFails {token : Text} {a : Attempt} {op : PostOperation} : w.attempts token = some a →
    (a.phase = .missing op ∨ a.phase = .noPrevious op) →
    Step w (.write token) (w.enter token a (.failed op))
  /-- A policy that does not allow a new review gives the operation up. -/
  | abortUnapplied {token : Text} {a : Attempt} {op : PostOperation} : w.attempts token = some a →
    a.phase = .noPrevious op → Step w (.abortUnapplied token)
      ((w.withDb ((Post.abortUnapplied op.id token).run w.db).2).enter token a .stopped)
  | markRemote {token : Text} {a : Attempt} {op : PostOperation} {reviewId url : Text} :
    w.attempts token = some a → a.phase = .found op reviewId url →
    Step w (.markRemote token)
      ((w.withDb ((Post.markRemote op.id reviewId url token).run w.db).2).enter token a
        (afterMarkRemote op reviewId url ((Post.markRemote op.id reviewId url token).run w.db).1))
  | markError {token error : Text} {a : Attempt} {op : PostOperation} :
    w.attempts token = some a → a.phase = .failed op → Step w (.markError token error)
      ((w.withDb ((Post.markError op.id error token).run w.db).2).enter token a .stopped)
  | finalize {token : Text} {a : Attempt} {op : PostOperation} {reviewId url : Text} :
    w.attempts token = some a → a.phase = .applied op reviewId url →
    Step w (.finalize token)
      ((w.withDb ((finalizePosting (posting a op reviewId url)).run w.db).2).enter token a .stopped)
  /-- A crash, or an exception that nothing handles. -/
  | stop {token : Text} {a : Attempt} : w.attempts token = some a →
    Step w (.stop token) (w.enter token a .stopped)
  /-- The other requests of the server, and the clock. -/
  | elsewhere {db : Db} : db.postOperations = w.db.postOperations →
    Step w (.elsewhere db) (w.withDb db)
  /-- The other users of GitHub write, change and delete reviews. -/
  | others {target : Target} {reviews : Table RemoteReview} :
    Step w (.others target reviews) (w.withReviews target reviews)

end World

/-- No operation yet, no attempt under way, and no review on GitHub. -/
def world : Sys World World.Label where
  init w := w.db.postOperations.rows = [] ∧ (∀ token, w.attempts token = none) ∧
    ∀ target, (w.reviews target).rows = []
  step w l w' := w.Step l w'

/-! ## What is assumed -/

/-- An attempt that goes on: it has not stopped. -/
def World.Running (w : World) (token : Text) : Prop :=
  ∃ a, w.attempts token = some a ∧ a.phase ≠ .stopped

/-- A claim is taken over only from an attempt that has stopped. -/
def World.Assumed (w : World) : World.Label → Prop
  | .claim token => ∀ a op, w.attempts token = some a → a.phase = .prepared op →
    ∀ o ∈ w.db.postOperations, o.id = op.id → o.status = .applying →
    claimable w.db.now o = true → ∀ owner, o.ownerToken = some owner → ¬w.Running owner
  | _ => True

/-- The text does not contain the marker of any posting. -/
def Unmarked (text : Text) : Prop := ∀ r, ¬operationMarker r <:+: text

/-- No comment and no review of anyone else contains the marker of a posting. -/
def World.Unquoted (w : World) : World.Label → Prop
  | .begin _ _ r => Unmarked r.body
  | .others target reviews => ∀ v ∈ reviews, v ∈ w.reviews target ∨ Unmarked v.body
  | _ => True

end Post
