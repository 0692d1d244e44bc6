import AlmightyReview.Delete.Tables
import AlmightyReview.Lib.Sql
import Mathlib.Data.List.Sort

/-!
# The deletions

The two procedures that delete what hangs together, each in one transaction.

* `Statement`: a `DELETE`. It is refused when it leaves a declared reference without its row.
* `remove`: `repo_repo.remove`, a repository with all that belongs to it.
* `cleanup`: `retention.cleanup`, pull requests that were closed long ago. The candidates are read
  before the transaction, and each is checked again inside it. Files are left out: `cleanup`
  answers with the paths that the server then removes.
-/

namespace Deletion

open Sql

abbrev AllRows := Refs.Rows RowOf

/-- `DELETE FROM table WHERE cond`; the condition may read all tables. -/
structure Statement where
  table : TableName
  cond : AllRows → RowOf table → Bool

def Statement.apply (s : Statement) (db : FullDb) : FullDb :=
  db.deleteCascade s.table (s.cond db.rows)

/-- The statement under `PRAGMA foreign_keys = ON`. -/
def Statement.exec (s : Statement) : Sql FullDb Exc Unit := do
  let db ← select s.apply
  if Refs.Closed keyOf declared db.rows then execute fun _ => (db, ())
  else throw (.integrityError "FOREIGN KEY constraint failed".toList)

/-- Statements one after the other. -/
def execAll : List Statement → Sql FullDb Exc Unit
  | [] => pure ()
  | s :: ss => do
    s.exec
    execAll ss

/-! ## A repository -/

/-- `SELECT id FROM pull_request WHERE repo_id=?`. -/
def prIds (rid : Nat) (rows : AllRows) : List Nat :=
  ((rows .pullRequest).filter fun p : PullRequest => p.repoId == rid).map PullRequest.id

/-- `SELECT rr.id FROM review_run rr JOIN pull_request p ON p.id=rr.pr_id WHERE p.repo_id=?`. -/
def runIds (rid : Nat) (rows : AllRows) : List Nat :=
  ((rows .reviewRun).filter fun r : ReviewRun =>
    (rows .pullRequest).any fun p : PullRequest => p.id == r.prId && p.repoId == rid).map
    ReviewRun.id

/-- The ids of the findings of these runs. -/
def findingIds (rid : Nat) (rows : AllRows) : List Nat :=
  ((rows .finding).filter fun f : Finding =>
    (rows .reviewRun).any fun r : ReviewRun => r.id == f.runId &&
      (rows .pullRequest).any fun p : PullRequest => p.id == r.prId && p.repoId == rid).map
    Finding.id

def removeStatements (rid : Nat) : List Statement :=
  [⟨.findingDecision, fun rows (d : FindingDecision) => (findingIds rid rows).contains d.findingId⟩,
    ⟨.feedbackSignal, fun rows (s : FeedbackSignal) => (runIds rid rows).contains s.runId⟩,
    ⟨.slackPost, fun rows (s : SlackPost) => (runIds rid rows).contains s.runId⟩,
    ⟨.postedComment, fun rows (c : PostedComment) => (runIds rid rows).contains c.runId⟩,
    ⟨.finding, fun rows (f : Finding) => (runIds rid rows).contains f.runId⟩,
    ⟨.vendorResult, fun rows (v : VendorResult) => (runIds rid rows).contains v.runId⟩,
    ⟨.postOperation, fun rows (o : PostOperation) => (runIds rid rows).contains o.runId⟩,
    ⟨.reviewJob, fun rows (j : ReviewJob) => (prIds rid rows).contains j.prId⟩,
    ⟨.reviewRun, fun rows (r : ReviewRun) => (runIds rid rows).contains r.id⟩,
    ⟨.preScreen, fun rows (s : PreScreen) => (prIds rid rows).contains s.prId⟩,
    ⟨.pullRequest, fun _ (p : PullRequest) => p.repoId == rid⟩,
    ⟨.wikiPage, fun _ (w : WikiPage) => w.repoId == rid⟩,
    ⟨.repo, fun _ (r : Repo) => r.id == rid⟩]

/-- `repo_repo.remove`: whether there was a repository to remove. -/
def remove (rid : Nat) : Sql FullDb Exc Bool := do
  match ← select fun db => db.repos.get? rid with
  | none => pure false
  | some _ => transaction do
    execAll (removeStatements rid)
    pure true

/-! ## Pull requests that were closed long ago -/

/-- A period of days in seconds. -/
def daysToSeconds (days : Int) : Nat := days.toNat * 86400

/-- `state<>'open' AND updated_at < datetime('now', '-N days')`, no job that waits or runs, and no
run that runs. -/
def eligible (days : Int) (db : FullDb) (p : PullRequest) : Bool :=
  p.state != .opened &&
    (match p.updatedAt with
      | none => false
      | some t => decide (t + daysToSeconds days < db.now)) &&
    !(db.reviewJobs.rows.any fun j =>
      j.prId == p.id && (j.status == .queued || j.status == .running)) &&
    !(db.reviewRuns.rows.any fun r => r.prId == p.id && r.status == .running)

/-- The first query: at most `batchSize` candidates, in the order of their ids. -/
def candidates (days : Int) (batchSize : Nat) (db : FullDb) : List Nat :=
  ((((db.pullRequests.rows.filter (eligible days db)).map PullRequest.id).insertionSort
    (· ≤ ·)).take batchSize)

/-- `SELECT id FROM review_run WHERE pr_id=?`. -/
def runIdsOf (pid : Nat) (db : FullDb) : List Nat :=
  (db.reviewRuns.rows.filter fun r => r.prId == pid).map ReviewRun.id

/-- The statements for a pull request with these runs. -/
def cleanupStatements (pid : Nat) (runs : List Nat) : List Statement :=
  (if runs = [] then []
    else
      [⟨.findingDecision, fun rows (d : FindingDecision) =>
          (((rows .finding).filter fun f : Finding =>
            runs.contains f.runId).map Finding.id).contains
            d.findingId⟩,
        ⟨.feedbackSignal, fun _ (s : FeedbackSignal) => runs.contains s.runId⟩,
        ⟨.slackPost, fun _ (s : SlackPost) => runs.contains s.runId⟩,
        ⟨.postedComment, fun _ (c : PostedComment) => runs.contains c.runId⟩,
        ⟨.postOperation, fun _ (o : PostOperation) => runs.contains o.runId⟩,
        ⟨.finding, fun _ (f : Finding) => runs.contains f.runId⟩,
        ⟨.vendorResult, fun _ (v : VendorResult) => runs.contains v.runId⟩]) ++
    [⟨.reviewJob, fun _ (j : ReviewJob) => j.prId == pid⟩,
      ⟨.reviewRun, fun _ (r : ReviewRun) => r.prId == pid⟩,
      ⟨.preScreen, fun _ (s : PreScreen) => s.prId == pid⟩,
      ⟨.pullRequest, fun _ (p : PullRequest) => p.id == pid⟩]

/-- The raw outputs that are stored for these runs. -/
def rawPaths (runs : List Nat) (db : FullDb) : List Text :=
  (db.vendorResults.rows.filter fun v => runs.contains v.runId).filterMap VendorResult.rawPath

/-- What a cleanup has done: the number of pull requests, and the files to remove. -/
structure Cleaned where
  prs : Nat
  rawPaths : List Text
  deriving DecidableEq, Repr

/-- The body of the loop: nothing when the candidate is not eligible any more. -/
def cleanupOne (days : Int) (pid : Nat) : Sql FullDb Exc Cleaned := do
  let row ← select fun db => db.pullRequests.find? fun p => p.id == pid && eligible days db p
  match row with
  | none => pure ⟨0, []⟩
  | some _ =>
    let runs ← select (runIdsOf pid)
    let paths ← select (rawPaths runs)
    execAll (cleanupStatements pid runs)
    pure ⟨1, paths⟩

def cleanupEach (days : Int) : List Nat → Sql FullDb Exc Cleaned
  | [] => pure ⟨0, []⟩
  | pid :: pids => do
    let one ← cleanupOne days pid
    let rest ← cleanupEach days pids
    pure ⟨one.prs + rest.prs, one.rawPaths ++ rest.rawPaths⟩

/-- The transaction of a cleanup. -/
def cleanupTransaction (days : Int) (pids : List Nat) : Sql FullDb Exc Cleaned :=
  transaction (cleanupEach days pids)

/-- `retention.cleanup` when nothing else happens. -/
def cleanup (days : Int) (batchSize : Nat) : Sql FullDb Exc Cleaned :=
  if days ≤ 0 then pure ⟨0, []⟩
  else do
    let pids ← select (candidates days batchSize)
    cleanupTransaction days pids

/-! ## Statements inside their transaction -/

theorem inside_exec (s : Statement) : s.exec.Inside :=
  inside_bind (inside_select _) fun _ =>
    inside_ite (fun _ => inside_execute _) fun _ => inside_throw _

theorem inside_execAll (ss : List Statement) : (execAll ss).Inside := by
  induction ss with
  | nil => exact inside_pure _
  | cons s ss ih => exact inside_bind (inside_exec s) fun _ => ih

theorem inside_cleanupOne (days : Int) (pid : Nat) : (cleanupOne days pid).Inside := by
  refine inside_bind (inside_select _) fun row => ?_
  cases row with
  | none => exact inside_pure _
  | some _ =>
    exact inside_bind (inside_select _) fun _ => inside_bind (inside_select _) fun _ =>
      inside_bind (inside_execAll _) fun _ => inside_pure _

theorem inside_cleanupEach (days : Int) (pids : List Nat) : (cleanupEach days pids).Inside := by
  induction pids with
  | nil => exact inside_pure _
  | cons pid pids ih =>
    exact inside_bind (inside_cleanupOne days pid) fun _ => inside_bind ih fun _ => inside_pure _

/-- A statement either runs, with the references that it leaves closed, or raises. -/
theorem onConn_exec (s : Statement) (c : Conn FullDb) : s.exec.onConn c =
    if Refs.Closed keyOf declared (s.apply c.working).rows then
      (.ok (), { c with
        working := s.apply c.working
        inTransaction := true })
    else (.error (.integrityError "FOREIGN KEY constraint failed".toList), c) := by
  unfold Statement.exec
  simp only [onConn_bind, onConn_select]
  split <;> rfl

end Deletion
