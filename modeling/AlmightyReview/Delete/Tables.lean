import AlmightyReview.Db
import AlmightyReview.Lib.Refs

/-!
# All tables and their references

A deletion has to cover every table of the schema, so the database of this part has the tables that
the rest of the server only appends to as well, with the columns that a deletion reads.

* `FullDb`: the database with all tables; `TableName`, `RowOf`, `FullDb.rows`: its tables by name.
* `declared`: the references that the schema declares (`REFERENCES`); `undeclared`: the columns
  that hold ids without saying so, among them the id lists that are stored as JSON.
* `FullDb.deleteFrom`: a `DELETE`; `FullDb.deleteCascade`: with what `ON DELETE CASCADE` adds.
-/

/-! ## Rows -/

/-- A row of `pre_screen`. -/
structure PreScreen where
  id : Nat
  prId : Nat
  deriving DecidableEq, Repr

/-- A row of `run_finding_summary`; its key is `runId`. Its counts play no part here. -/
structure RunFindingSummary where
  runId : Nat
  deriving DecidableEq, Repr

/-- A row of `review_rule`. -/
structure ReviewRule where
  id : Nat
  repoId : Nat
  deriving DecidableEq, Repr

/-- A row of `slack_post`. -/
structure SlackPost where
  id : Nat
  runId : Nat
  deriving DecidableEq, Repr

/-- A row of `feedback_signal`. -/
structure FeedbackSignal where
  id : Nat
  runId : Nat
  deriving DecidableEq, Repr

instance : Row PreScreen := ⟨PreScreen.id⟩
instance : Row RunFindingSummary := ⟨RunFindingSummary.runId⟩
instance : Row ReviewRule := ⟨ReviewRule.id⟩
instance : Row SlackPost := ⟨SlackPost.id⟩
instance : Row FeedbackSignal := ⟨FeedbackSignal.id⟩

/-- The database with all tables. -/
structure FullDb extends Db where
  preScreens : Table PreScreen
  runFindingSummaries : Table RunFindingSummary
  reviewRules : Table ReviewRule
  slackPosts : Table SlackPost
  feedbackSignals : Table FeedbackSignal

/-- The names of the tables. -/
inductive TableName where
  | repo | pullRequest | preScreen | reviewRun | vendorResult | finding | runFindingSummary
  | findingDecision | reviewRule | postedComment | slackPost | feedbackSignal | wikiPage
  | reviewJob | postOperation
  deriving DecidableEq, Repr

instance : Fintype TableName where
  elems := {.repo, .pullRequest, .preScreen, .reviewRun, .vendorResult, .finding,
    .runFindingSummary, .findingDecision, .reviewRule, .postedComment, .slackPost,
    .feedbackSignal, .wikiPage, .reviewJob, .postOperation}
  complete t := by cases t <;> decide

/-- The rows of a table. -/
@[reducible] def RowOf : TableName → Type
  | .repo => Repo
  | .pullRequest => PullRequest
  | .preScreen => PreScreen
  | .reviewRun => ReviewRun
  | .vendorResult => VendorResult
  | .finding => Finding
  | .runFindingSummary => RunFindingSummary
  | .findingDecision => FindingDecision
  | .reviewRule => ReviewRule
  | .postedComment => PostedComment
  | .slackPost => SlackPost
  | .feedbackSignal => FeedbackSignal
  | .wikiPage => WikiPage
  | .reviewJob => ReviewJob
  | .postOperation => PostOperation

/-- The key of a row. -/
def keyOf : ∀ t, RowOf t → Nat
  | .repo => Repo.id
  | .pullRequest => PullRequest.id
  | .preScreen => PreScreen.id
  | .reviewRun => ReviewRun.id
  | .vendorResult => VendorResult.id
  | .finding => Finding.id
  | .runFindingSummary => RunFindingSummary.runId
  | .findingDecision => FindingDecision.id
  | .reviewRule => ReviewRule.id
  | .postedComment => PostedComment.id
  | .slackPost => SlackPost.id
  | .feedbackSignal => FeedbackSignal.id
  | .wikiPage => WikiPage.repoId
  | .reviewJob => ReviewJob.id
  | .postOperation => PostOperation.id

namespace FullDb

/-- The rows of every table. -/
def rows (db : FullDb) : Refs.Rows RowOf
  | .repo => db.repos.rows
  | .pullRequest => db.pullRequests.rows
  | .preScreen => db.preScreens.rows
  | .reviewRun => db.reviewRuns.rows
  | .vendorResult => db.vendorResults.rows
  | .finding => db.findings.rows
  | .runFindingSummary => db.runFindingSummaries.rows
  | .findingDecision => db.findingDecisions.rows
  | .reviewRule => db.reviewRules.rows
  | .postedComment => db.postedComments.rows
  | .slackPost => db.slackPosts.rows
  | .feedbackSignal => db.feedbackSignals.rows
  | .wikiPage => db.wikiPages.rows
  | .reviewJob => db.reviewJobs.rows
  | .postOperation => db.postOperations.rows

/-- `DELETE FROM t WHERE p`. -/
def deleteFrom : (t : TableName) → (RowOf t → Bool) → FullDb → FullDb
  | .repo, p, db => { db with repos := db.repos.delete p }
  | .pullRequest, p, db => { db with pullRequests := db.pullRequests.delete p }
  | .preScreen, p, db => { db with preScreens := db.preScreens.delete p }
  | .reviewRun, p, db => { db with reviewRuns := db.reviewRuns.delete p }
  | .vendorResult, p, db => { db with vendorResults := db.vendorResults.delete p }
  | .finding, p, db => { db with findings := db.findings.delete p }
  | .runFindingSummary, p, db => { db with runFindingSummaries := db.runFindingSummaries.delete p }
  | .findingDecision, p, db => { db with findingDecisions := db.findingDecisions.delete p }
  | .reviewRule, p, db => { db with reviewRules := db.reviewRules.delete p }
  | .postedComment, p, db => { db with postedComments := db.postedComments.delete p }
  | .slackPost, p, db => { db with slackPosts := db.slackPosts.delete p }
  | .feedbackSignal, p, db => { db with feedbackSignals := db.feedbackSignals.delete p }
  | .wikiPage, p, db => { db with wikiPages := db.wikiPages.delete p }
  | .reviewJob, p, db => { db with reviewJobs := db.reviewJobs.delete p }
  | .postOperation, p, db => { db with postOperations := db.postOperations.delete p }

theorem rows_deleteFrom_self (t : TableName) (p : RowOf t → Bool) (db : FullDb) :
    (db.deleteFrom t p).rows t = (db.rows t).filter fun r => !p r := by
  cases t <;> rfl

theorem rows_deleteFrom_of_ne {t t' : TableName} (h : t' ≠ t) (p : RowOf t → Bool) (db : FullDb) :
    (db.deleteFrom t p).rows t' = db.rows t' := by
  cases t <;> cases t' <;> first | rfl | exact absurd rfl h

@[simp] theorem now_deleteFrom (t : TableName) (p : RowOf t → Bool) (db : FullDb) :
    (db.deleteFrom t p).now = db.now := by
  cases t <;> rfl

/-- The keys of the rows that meet `p`. -/
def keysWhere (t : TableName) (p : RowOf t → Bool) (db : FullDb) : List Nat :=
  ((db.rows t).filter p).map (keyOf t)

/-- A `DELETE` with what `ON DELETE CASCADE` adds: the summaries of runs, and the rules and the
wiki page of repositories. -/
def deleteCascade : (t : TableName) → (RowOf t → Bool) → FullDb → FullDb
  | .reviewRun, p, db =>
    (db.deleteFrom .reviewRun p).deleteFrom .runFindingSummary fun s =>
      (db.keysWhere .reviewRun p).contains s.runId
  | .repo, p, db =>
    ((db.deleteFrom .repo p).deleteFrom .reviewRule fun r =>
      (db.keysWhere .repo p).contains r.repoId).deleteFrom .wikiPage fun w =>
        (db.keysWhere .repo p).contains w.repoId
  | t, p, db => db.deleteFrom t p

end FullDb

/-! ## References -/

open TableName

/-- The references of a row that the schema declares. -/
def declared : ∀ t, RowOf t → List (TableName × Nat)
  | .repo, _ => []
  | .pullRequest, p => [(repo, PullRequest.repoId p)]
  | .preScreen, s => [(pullRequest, PreScreen.prId s)]
  | .reviewRun, r =>
    (pullRequest, ReviewRun.prId r) :: (ReviewRun.repoId r).toList.map (repo, ·)
  | .vendorResult, v => [(reviewRun, VendorResult.runId v)]
  | .finding, f =>
    (reviewRun, Finding.runId f) :: (Finding.vendorResultId f).toList.map (vendorResult, ·)
  | .runFindingSummary, s => [(reviewRun, RunFindingSummary.runId s)]
  | .findingDecision, d => [(finding, FindingDecision.findingId d)]
  | .reviewRule, r => [(repo, ReviewRule.repoId r)]
  | .postedComment, c => [(reviewRun, PostedComment.runId c)]
  | .slackPost, s => [(reviewRun, SlackPost.runId s)]
  | .feedbackSignal, s => [(reviewRun, FeedbackSignal.runId s)]
  | .wikiPage, w => [(repo, WikiPage.repoId w)]
  | .reviewJob, j =>
    (pullRequest, ReviewJob.prId j) :: ((ReviewJob.runId j).toList.map (reviewRun, ·) ++
      (ReviewJob.retryRunId j).toList.map (reviewRun, ·))
  | .postOperation, o => [(reviewRun, PostOperation.runId o)]

/-- The ids in a row that are used as references but not declared. -/
def undeclared : ∀ t, RowOf t → List (TableName × Nat)
  | .reviewRun, r => (ReviewRun.ownerJobId r).toList.map (reviewJob, ·)
  | .finding, f => (Finding.postingOperationId f).toList.map (postOperation, ·)
  | .postedComment, c => (PostedComment.findingIds c).map (finding, ·)
  | .postOperation, o =>
    (PostOperation.findingIds o ++ PostOperation.newFindingIds o).map (finding, ·)
  | _, _ => []

def references (t : TableName) (r : RowOf t) : List (TableName × Nat) :=
  declared t r ++ undeclared t r

/-- The tables that a row of a table may refer to by a declared reference. -/
def parents : TableName → List TableName
  | .repo => []
  | .pullRequest => [repo]
  | .preScreen => [pullRequest]
  | .reviewRun => [pullRequest, repo]
  | .vendorResult => [reviewRun]
  | .finding => [reviewRun, vendorResult]
  | .runFindingSummary => [reviewRun]
  | .findingDecision => [finding]
  | .reviewRule => [repo]
  | .postedComment => [reviewRun]
  | .slackPost => [reviewRun]
  | .feedbackSignal => [reviewRun]
  | .wikiPage => [repo]
  | .reviewJob => [pullRequest, reviewRun]
  | .postOperation => [reviewRun]

theorem mem_parents {t : TableName} {r : RowOf t} {p : TableName × Nat} (h : p ∈ declared t r) :
    p.1 ∈ parents t := by
  have key : ∀ {o : Option Nat} {t' : TableName}, p ∈ o.toList.map (t', ·) → p.1 = t' := by
    intro o t' h
    obtain ⟨i, -, rfl⟩ := List.mem_map.mp h
    rfl
  cases t <;> simp only [declared, List.mem_cons, List.mem_append, List.not_mem_nil, or_false] at h
  case reviewRun =>
    rcases h with rfl | h
    · simp [parents]
    · simp [parents, key h]
  case finding =>
    rcases h with rfl | h
    · simp [parents]
    · simp [parents, key h]
  case reviewJob =>
    rcases h with rfl | h | h
    · simp [parents]
    · simp [parents, key h]
    · simp [parents, key h]
  all_goals simp [parents, h]
