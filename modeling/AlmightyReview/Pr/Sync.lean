import AlmightyReview.Job.Enqueue
import AlmightyReview.Lib.Fault
import AlmightyReview.Pr.Newer

/-!
# A repository sync, whatever raises

`sync_repo` stores a listing in one transaction and rolls back when anything raises. The enqueue
that it calls on the way commits in the one of the API and does not in the one of the poll loop.

* `syncListed`: `_poll_repo` from its listing on, statement by statement. `syncRepo` adds the
  handler of `sync_repo`, under faults in either.
* `synced`: what a listing does to the database, all of it.
* `Atomic`: whatever raises, a sync that raises leaves the pull requests and the jobs as they were,
  and one that returns has done everything.
* `CommitsNothing`: whenever the enqueue is called, nothing that it could commit has happened.
* `sync_atomic_iff`: the sync is atomic when the enqueue leaves the commit to it, or commits
  nothing.
-/

namespace Poller

open Sql PrRepo

/-! ## The sync -/

/-- The loop of `_poll_repo` over the listed pull requests; the number of jobs. -/
def storeListed (repo : Repo) (settings : PollSettings) (commit : Bool) :
    List PullInfo → Sql Db Exc Nat
  | [] => pure 0
  | pr :: prs => do
    let n ← storePull repo settings commit pr
    let m ← storeListed repo settings commit prs
    pure (n + m)

/-- `numbers[i : i + 500] for i in range(0, len(numbers), 500)`. -/
def chunks (numbers : List Nat) : List (List Nat) :=
  (List.range ((numbers.length + 499) / 500)).map fun i => (numbers.drop (500 * i)).take 500

theorem id_closed (_ : Db) (r : PullRequest) :
    Row.id { r with state := PrState.closed } = Row.id r := rfl

/-- The statements of `mark_closed`, one for each chunk. -/
def closeChunks (repoId : Nat) : List (List Nat) → Sql Db Exc Unit
  | [] => pure ()
  | chunk :: rest => do
    let _ ← updateRows Db.pullRequestTable (fun _ r => closes repoId chunk r)
      (fun _ r => { r with state := .closed }) id_closed
    closeChunks repoId rest

/-- `repo_repo.update`: the columns of `repo` that a poll writes are read by nothing here. -/
def updateRepo : Sql Db Exc Unit := execute fun db => (db, ())

/-- `_poll_repo` from its listing on. What was open was read before, and others may have written
since. -/
def syncListed (repo : Repo) (settings : PollSettings) (commit : Bool) (prevOpen : List Nat)
    (listing : Except Exc (List PullInfo)) : Sql Db Exc Polled := do
  let openPrs ← lift listing
  beginImmediate
  let enqueued ← storeListed repo settings commit openPrs
  closeChunks repo.id (chunks (gone prevOpen openPrs))
  let _ ← select fun db => db.now
  updateRepo
  Sql.commit
  pure (openPrs.length, enqueued)

/-- The handler of `sync_repo`. -/
def recordError (e : Exc) : Sql Db Exc Polled := do
  rollbackOpen
  updateRepo
  Sql.commit
  throw e

/-- `sync_repo`, where `f` and `g` say which statements raise, before and in the handler. -/
def syncRepo (repo : Repo) (settings : PollSettings) (commit : Bool) (prevOpen : List Nat)
    (listing : Except Exc (List PullInfo)) (f g : Nat → Option Exc) : Sql Db Exc Polled :=
  tryCatch (failing f (syncListed repo settings commit prevOpen listing)) fun e =>
    -- `except Exception`
    if e = .cancelledError then throw e else failing g (recordError e)

/-! ## What a listing does -/

/-- The enqueue is called for the listed pull request: its automatic review is on, and its head is
not the one that was reviewed. -/
def due (repo : Repo) (settings : PollSettings) (pr : PullInfo) (db : Db) : Bool :=
  wanted repo settings pr.isDraft &&
    some pr.headSha !=
      (db.pullRequests.find? (pullFor repo.id pr.number)).bind (·.lastReviewedSha)

/-- The pull request is stored, and its head enqueued when it is due. -/
def pulled (repo : Repo) (settings : PollSettings) (pr : PullInfo) (db : Db) : Db :=
  let db' := upserted repo.id pr db
  match db'.pullRequests.find? (pullFor repo.id pr.number) with
  | none => db'
  | some row =>
    if due repo settings pr db then
      (JobRepo.queueLatest row.id row.headSha .auto 0 true db').2
    else db'

/-- The pull requests with these numbers are closed where they are open. -/
def withClosed (repoId : Nat) (numbers : List Nat) (db : Db) : Db :=
  { db with
    pullRequests := db.pullRequests.update (closes repoId numbers)
      (fun r => { r with state := .closed }) }

/-- All that a listing does. -/
def synced (repo : Repo) (settings : PollSettings) (prevOpen : List Nat) (prs : List PullInfo)
    (db : Db) : Db :=
  withClosed repo.id (gone prevOpen prs) (prs.foldl (fun db pr => pulled repo settings pr db) db)

/-- The pull requests and the jobs are as in `db₀`. -/
structure SameWork (db₀ db : Db) : Prop where
  pulls : db.pullRequests = db₀.pullRequests
  jobs : db.reviewJobs = db₀.reviewJobs

/-- **All or nothing**, whatever raises. -/
def Atomic (repo : Repo) (settings : PollSettings) (commit : Bool) (prevOpen : List Nat)
    (listing : Except Exc (List PullInfo)) (db : Db) : Prop :=
  ∀ f g, match (syncRepo repo settings commit prevOpen listing f g).run db with
    | (.error _, db') => SameWork db db'
    | (.ok _, db') => ∃ prs, listing = .ok prs ∧ db' = synced repo settings prevOpen prs db

theorem Atomic.of_error {repo : Repo} {settings : PollSettings} {commit : Bool}
    {prevOpen : List Nat} {listing : Except Exc (List PullInfo)} {db : Db}
    (h : Atomic repo settings commit prevOpen listing db) {f g : Nat → Option Exc} {e : Exc}
    (he : ((syncRepo repo settings commit prevOpen listing f g).run db).1 = .error e) :
    SameWork db ((syncRepo repo settings commit prevOpen listing f g).run db).2 := by
  have hrun := h f g
  split at hrun
  · rename_i hr
    rw [hr]
    exact hrun
  · rename_i hr
    rw [hr] at he
    cases he

/-- The pull request is stored and has a job for its head, which an automatic enqueue leaves
alone. -/
def HasJob (repoId : Nat) (pr : PullInfo) (db : Db) : Prop :=
  ∃ row j, db.pullRequests.find? (pullFor repoId pr.number) = some row ∧
    db.reviewJobs.find? (JobRepo.jobFor row.id row.headSha) = some j ∧ ¬JobRepo.SystemCanceled j

/-- Whenever the enqueue is called for a listed pull request, storing this one and those before it
has changed nothing of `db₀`, and it has a job. -/
def CommitsNothing (repo : Repo) (settings : PollSettings) (db₀ : Db) : List PullInfo → Db → Prop
  | [], _ => True
  | pr :: prs, db =>
    (due repo settings pr db = true →
      (upserted repo.id pr db).pullRequests = db₀.pullRequests ∧ HasJob repo.id pr db₀) ∧
    CommitsNothing repo settings db₀ prs (upserted repo.id pr db)

/-! ## One pull request -/

@[simp] theorem reviewJobs_upserted (repoId : Nat) (pr : PullInfo) (db : Db) :
    (upserted repoId pr db).reviewJobs = db.reviewJobs := by
  unfold upserted
  split <;> rfl

/-- An upserted pull request is found, with its new head and what was reviewed before. -/
theorem find?_upserted (repoId : Nat) (pr : PullInfo) (db : Db) :
    ∃ row, (upserted repoId pr db).pullRequests.find? (pullFor repoId pr.number) = some row ∧
      row.headSha = pr.headSha ∧
      row.lastReviewedSha =
        (db.pullRequests.find? (pullFor repoId pr.number)).bind (·.lastReviewedSha) := by
  unfold upserted
  cases hf : db.pullRequests.find? (pullFor repoId pr.number) with
  | none =>
    have hnone : db.pullRequests.rows.find? (pullFor repoId pr.number) = none := hf
    refine ⟨newPull repoId pr db.now db.pullRequests.nextId, ?_, rfl, rfl⟩
    simp [Table.find?, Table.insert, List.find?_append, hnone, pullFor, newPull]
  | some r =>
    have hsome : db.pullRequests.rows.find? (pullFor repoId pr.number) = some r := hf
    have hr : pullFor repoId pr.number r = true := Table.of_find? hf
    -- no statement changes the number of a row
    have hpull : (pullFor repoId pr.number ∘ fun r =>
        if (pullFor repoId pr.number r && differs pr r) = true then overwrite pr db.now r else r) =
        pullFor repoId pr.number := by
      funext r
      simp only [Function.comp_apply]
      split <;> rfl
    refine ⟨if (pullFor repoId pr.number r && differs pr r) = true then overwrite pr db.now r
      else r, ?_, ?_, ?_⟩
    · show List.find? _ (List.map _ _) = _
      rw [List.find?_map, hpull, hsome]
      rfl
    · split
      · rfl
      · rename_i hd
        simp only [hr, Bool.true_and, differs, Bool.or_eq_true, bne_iff_ne, ne_eq, not_or,
          Decidable.not_not] at hd
        exact hd.1.1.1.1.1.1.1.2
    · split <;> rfl

/-- What the connection is after `upsert`. -/
theorem onConn_upsert_listed (repoId : Nat) (pr : PullInfo) (c : Conn Db) {row : PullRequest}
    (hrow : (upserted repoId pr c.working).pullRequests.find? (pullFor repoId pr.number) =
      some row) :
    (upsert repoId pr false).onConn c =
      (.ok row.id, ⟨c.committed, upserted repoId pr c.working, true⟩) := by
  unfold upsert
  simp [hrow]

theorem onConn_needsReview_stored {c : Conn Db} {row : PullRequest}
    (hrow : row ∈ c.working.pullRequests) :
    (needsReview row.id).onConn c = (.ok (some row.headSha != row.lastReviewedSha), c) := by
  have hget : c.working.pullRequests.get? row.id = some row := Table.get?_of_mem hrow
  unfold needsReview PrRepo.get
  simp [hget]

/-- **One listed pull request** on a connection: `pulled`, and the enqueue commits if it does. -/
theorem onConn_storePull (repo : Repo) (settings : PollSettings) (commit : Bool) (pr : PullInfo)
    (c : Conn Db) : ∃ n c', (storePull repo settings commit pr).onConn c = (.ok n, c') ∧
      c'.working = pulled repo settings pr c.working ∧
      c'.committed = if commit = true ∧ due repo settings pr c.working = true then c'.working
        else c.committed := by
  obtain ⟨row, hrow, hhead, hlast⟩ := find?_upserted repo.id pr c.working
  have hmem := Table.mem_of_find? hrow
  have hneeds : (some row.headSha != row.lastReviewedSha) =
      (some pr.headSha !=
        (c.working.pullRequests.find? (pullFor repo.id pr.number)).bind (·.lastReviewedSha)) := by
    rw [hhead, hlast]
  unfold storePull pulled
  simp only [onConn_bind, onConn_upsert_listed repo.id pr c hrow,
    onConn_needsReview_stored (c := ⟨c.committed, upserted repo.id pr c.working, true⟩) hmem,
    hrow, hneeds]
  rw [onConn_ite]
  show ∃ n c', (if due repo settings pr c.working = true then _ else _) = _ ∧ _
  by_cases hdue : due repo settings pr c.working = true
  · obtain ⟨c', hc', hwork, hcom⟩ := JobRepo.onConn_enqueueWithResult row.id row.headSha .auto 0
      commit ⟨c.committed, upserted repo.id pr c.working, true⟩
    have hget : (upserted repo.id pr c.working).pullRequests.get? row.id = some row :=
      Table.get?_of_mem hmem
    refine ⟨if (!commit || (JobRepo.queueLatest row.id row.headSha .auto 0 true
      (upserted repo.id pr c.working)).1.2) = true then 1 else 0, c', ?_, ?_, ?_⟩
    · rw [if_pos hdue]
      unfold enqueue PrRepo.get
      simp only [onConn_bind, onConn_select, hget, hc', onConn_pure]
    · rw [hwork, if_pos hdue]
    · rw [hcom]
      simp only [hdue, and_true]
  · refine ⟨0, ⟨c.committed, upserted repo.id pr c.working, true⟩, ?_, ?_, ?_⟩
    · rw [if_neg hdue]
      rfl
    · rw [if_neg hdue]
    · simp [hdue]

/-- The automatic enqueue leaves the jobs as they are when the pair has one that it need not put
back into the queue. -/
theorem reviewJobs_queueLatest_iff {prId : Nat} {headSha : Sha} {db : Db} :
    (JobRepo.queueLatest prId headSha .auto 0 true db).2.reviewJobs = db.reviewJobs ↔
      ∃ j, db.reviewJobs.find? (JobRepo.jobFor prId headSha) = some j ∧
        ¬JobRepo.SystemCanceled j := by
  cases hf : db.reviewJobs.find? (JobRepo.jobFor prId headSha) with
  | none =>
    rw [JobRepo.queueLatest_new hf]
    constructor
    · intro h
      have hnext := congrArg Table.nextId h
      simp [JobRepo.withNewJob] at hnext
    · rintro ⟨j, hj, -⟩
      cases hj
  | some row =>
    rw [JobRepo.queueLatest_old hf]
    by_cases hs : JobRepo.SystemCanceled row
    · rw [if_pos hs]
      constructor
      · intro h
        -- the row and its revival cannot both be there
        have hrow := Table.mem_of_find? hf
        have hrev := Table.mem_update_of_mem (p := fun j => j.id == row.id)
          (f := JobRepo.revive .auto true) hrow fun _ => rfl
        rw [if_pos (by simp)] at hrev
        have heq : JobRepo.revive .auto true row = row := Table.eq_of_id (h ▸ hrev) hrow rfl
        have hst : JobStatus.queued = row.status := congrArg ReviewJob.status heq
        rw [hs.1] at hst
        cases hst
      · rintro ⟨j, hj, hno⟩
        exact absurd hs (Option.some.inj hj ▸ hno)
    · rw [if_neg hs]
      exact ⟨fun _ => ⟨row, rfl, hs⟩, fun _ => rfl⟩

@[simp] theorem pullRequests_queueLatest (prId : Nat) (headSha : Sha) (db : Db) :
    (JobRepo.queueLatest prId headSha .auto 0 true db).2.pullRequests = db.pullRequests := by
  unfold JobRepo.queueLatest
  split
  · rfl
  · split <;> rfl

/-- An enqueue that finds such a job writes nothing on its way. -/
theorem before_enqueueWithResult {prId : Nat} {headSha : Sha} {commit : Bool} {c : Conn Db}
    {I : Conn Db → Prop} (hI : ∀ t, I { c with inTransaction := t })
    (hcommit : ∀ t, I ⟨c.working, c.working, t⟩) {j : ReviewJob}
    (hf : c.working.reviewJobs.find? (JobRepo.jobFor prId headSha) = some j)
    (hj : ¬JobRepo.SystemCanceled j) :
    Before I (JobRepo.enqueueWithResult prId headSha .auto 0 commit) c := by
  have hj' : ¬(j.status = .canceled ∧ JobRepo.isSystemCancelError j.error = true) := hj
  unfold JobRepo.enqueueWithResult JobRepo.insertJob
  have h₀ : I c := hI c.inTransaction
  cases commit <;> simp [hf, hj', hI, hcommit, h₀]

theorem before_enqueue {I : Conn Db → Prop} {commit : Bool} {row : PullRequest} {c : Conn Db}
    (hrow : row ∈ c.working.pullRequests) (hc : I c)
    (h : Before I (JobRepo.enqueueWithResult row.id row.headSha .auto 0 commit) c) :
    Before I (enqueue commit row.id) c := by
  have hget : c.working.pullRequests.get? row.id = some row := Table.get?_of_mem hrow
  obtain ⟨c', hrun, -, -⟩ := JobRepo.onConn_enqueueWithResult row.id row.headSha .auto 0 commit c
  unfold enqueue PrRepo.get
  simp only [before_bind, onConn_select, hget, before_select, hrun]
  exact ⟨hc, h, trivial⟩

/-- The pull requests and the jobs are committed as in `db₀`. -/
def Uncommitted (db₀ : Db) (c : Conn Db) : Prop := SameWork db₀ c.committed

/-- One listed pull request commits nothing before its enqueue does. -/
theorem before_storePull {repo : Repo} {settings : PollSettings} {commit : Bool} {pr : PullInfo}
    {db₀ : Db} {c : Conn Db} (hc : Uncommitted db₀ c) {row : PullRequest}
    (hrow : (upserted repo.id pr c.working).pullRequests.find? (pullFor repo.id pr.number) =
      some row) (hdue : due repo settings pr c.working = true →
        Before (Uncommitted db₀) (JobRepo.enqueueWithResult row.id row.headSha .auto 0 commit)
          ⟨c.committed, upserted repo.id pr c.working, true⟩) :
    Before (Uncommitted db₀) (storePull repo settings commit pr) c := by
  have hc' : Uncommitted db₀ ⟨c.committed, upserted repo.id pr c.working, true⟩ := hc
  have hmem := Table.mem_of_find? hrow
  obtain ⟨row', hrow', hhead, hlast⟩ := find?_upserted repo.id pr c.working
  obtain rfl := Option.some.inj (hrow.symm.trans hrow')
  have hneeds : (some row.headSha != row.lastReviewedSha) =
      (some pr.headSha !=
        (c.working.pullRequests.find? (pullFor repo.id pr.number)).bind (·.lastReviewedSha)) := by
    rw [hhead, hlast]
  unfold storePull
  rw [before_bind, onConn_upsert_listed repo.id pr c hrow]
  refine ⟨?_, ?_⟩
  · unfold upsert
    simp [hc, hc', hrow]
  · show Before _ _ _
    rw [before_bind, onConn_needsReview_stored hmem]
    refine ⟨?_, ?_⟩
    · have hget : (upserted repo.id pr c.working).pullRequests.get? row.id = some row :=
        Table.get?_of_mem hmem
      unfold needsReview PrRepo.get
      simp [hget, hc']
    · show Before _ (if _ then _ else _) _
      rw [before_ite, hneeds]
      split
      · rename_i h
        rw [before_bind]
        refine ⟨before_enqueue hmem hc' (hdue h), ?_⟩
        split <;> trivial
      · trivial

/-- Where the enqueue has nothing to commit, it finds a job. -/
theorem served_of_hasJob {repo : Repo} {pr : PullInfo} {db₀ db : Db} {row : PullRequest}
    (hjobs : db.reviewJobs = db₀.reviewJobs)
    (hrow : (upserted repo.id pr db).pullRequests.find? (pullFor repo.id pr.number) = some row)
    (h : (upserted repo.id pr db).pullRequests = db₀.pullRequests ∧ HasJob repo.id pr db₀) :
    ∃ j, (upserted repo.id pr db).reviewJobs.find? (JobRepo.jobFor row.id row.headSha) = some j ∧
      ¬JobRepo.SystemCanceled j := by
  obtain ⟨hpulls, row', j, hrow', hj, hno⟩ := h
  obtain rfl : row = row' := Option.some.inj (hrow.symm.trans (hpulls ▸ hrow'))
  exact ⟨j, by rw [reviewJobs_upserted, hjobs, hj], hno⟩

/-- Then the pull request is stored, and nothing else happens. -/
theorem pulled_eq_upserted {repo : Repo} {settings : PollSettings} {pr : PullInfo} {db₀ db : Db}
    (hjobs : db.reviewJobs = db₀.reviewJobs)
    (h : due repo settings pr db = true →
      (upserted repo.id pr db).pullRequests = db₀.pullRequests ∧ HasJob repo.id pr db₀) :
    pulled repo settings pr db = upserted repo.id pr db := by
  obtain ⟨row, hrow, -, -⟩ := find?_upserted repo.id pr db
  unfold pulled
  simp only [hrow]
  split
  · rename_i hdue
    obtain ⟨j, hj, hno⟩ := served_of_hasJob hjobs hrow (h hdue)
    rw [JobRepo.queueLatest_old hj, if_neg hno]
  · rfl

/-- **One listed pull request**, with an enqueue that commits. -/
theorem storePull_commits_iff (repo : Repo) (settings : PollSettings) (pr : PullInfo) {db₀ : Db}
    {c : Conn Db} (hc : Uncommitted db₀ c) (hjobs : c.working.reviewJobs = db₀.reviewJobs) :
    (Before (Uncommitted db₀) (storePull repo settings true pr) c ∧
      Uncommitted db₀ ((storePull repo settings true pr).onConn c).2) ↔
      (due repo settings pr c.working = true →
        (upserted repo.id pr c.working).pullRequests = db₀.pullRequests ∧
          HasJob repo.id pr db₀) := by
  obtain ⟨row, hrow, -, -⟩ := find?_upserted repo.id pr c.working
  obtain ⟨n, c', hrun, hwork, hcom⟩ := onConn_storePull repo settings true pr c
  have hjobs' : (upserted repo.id pr c.working).reviewJobs = db₀.reviewJobs := by
    rw [reviewJobs_upserted, hjobs]
  have hpulled : due repo settings pr c.working = true → pulled repo settings pr c.working =
      (JobRepo.queueLatest row.id row.headSha .auto 0 true (upserted repo.id pr c.working)).2 := by
    intro hdue
    unfold pulled
    simp only [hrow, hdue, if_true]
  rw [hrun]
  constructor
  · rintro ⟨-, hend⟩ hdue
    have hend' : SameWork db₀ (pulled repo settings pr c.working) := by
      have : c'.committed = pulled repo settings pr c.working := by
        rw [hcom, if_pos ⟨rfl, hdue⟩, hwork]
      exact this ▸ hend
    rw [hpulled hdue] at hend'
    have hpulls := (pullRequests_queueLatest _ _ _).symm.trans hend'.pulls
    obtain ⟨j, hj, hno⟩ := reviewJobs_queueLatest_iff.mp (hend'.jobs.trans hjobs'.symm)
    exact ⟨hpulls, row, j, hpulls ▸ hrow, hjobs' ▸ hj, hno⟩
  · intro h
    refine ⟨before_storePull hc hrow fun hdue => ?_, ?_⟩
    · obtain ⟨j, hj, hno⟩ := served_of_hasJob hjobs hrow (h hdue)
      exact before_enqueueWithResult (fun _ => hc) (fun _ => ⟨(h hdue).1, hjobs'⟩) hj hno
    · show SameWork db₀ c'.committed
      by_cases hdue : due repo settings pr c.working = true
      · rw [hcom, if_pos ⟨rfl, hdue⟩, hwork, pulled_eq_upserted hjobs h]
        exact ⟨(h hdue).1, hjobs'⟩
      · rw [hcom, if_neg fun hd => hdue hd.2]
        exact hc

/-! ## The whole listing -/

theorem onConn_storeListed (repo : Repo) (settings : PollSettings) (commit : Bool)
    (prs : List PullInfo) (c : Conn Db) :
    ∃ n c', (storeListed repo settings commit prs).onConn c = (.ok n, c') ∧
      c'.working = prs.foldl (fun db pr => pulled repo settings pr db) c.working := by
  induction prs generalizing c with
  | nil => exact ⟨0, c, rfl, rfl⟩
  | cons pr prs ih =>
    obtain ⟨n, c', hrun, hwork, -⟩ := onConn_storePull repo settings commit pr c
    obtain ⟨m, c'', hrun', hwork'⟩ := ih c'
    refine ⟨n + m, c'', ?_, ?_⟩
    · unfold storeListed
      simp only [onConn_bind, hrun, hrun', onConn_pure]
    · rw [hwork', hwork, List.foldl_cons]

/-- **The loop**, with an enqueue that commits: it commits nothing when no enqueue has anything to
commit. -/
theorem storeListed_commits_iff {repo : Repo} {settings : PollSettings} {db₀ : Db}
    (prs : List PullInfo) {c : Conn Db} (hc : Uncommitted db₀ c)
    (hjobs : c.working.reviewJobs = db₀.reviewJobs) :
    (Before (Uncommitted db₀) (storeListed repo settings true prs) c ∧
      Uncommitted db₀ ((storeListed repo settings true prs).onConn c).2) ↔
      CommitsNothing repo settings db₀ prs c.working := by
  induction prs generalizing c with
  | nil => exact ⟨fun _ => trivial, fun _ => ⟨trivial, hc⟩⟩
  | cons pr prs ih =>
    obtain ⟨n, c', hrun, hwork, -⟩ := onConn_storePull repo settings true pr c
    obtain ⟨m, c'', hrun', -⟩ := onConn_storeListed repo settings true prs c'
    have hfirst := storePull_commits_iff repo settings pr hc hjobs
    rw [hrun] at hfirst
    have hsplit : (Before (Uncommitted db₀) (storeListed repo settings true (pr :: prs)) c ∧
        Uncommitted db₀ ((storeListed repo settings true (pr :: prs)).onConn c).2) ↔
        Before (Uncommitted db₀) (storePull repo settings true pr) c ∧
          Before (Uncommitted db₀) (storeListed repo settings true prs) c' ∧
          Uncommitted db₀ ((storeListed repo settings true prs).onConn c').2 := by
      have hcons : storeListed repo settings true (pr :: prs) = (do
          let n ← storePull repo settings true pr
          let m ← storeListed repo settings true prs
          pure (n + m)) := rfl
      rw [hcons]
      simp only [before_bind, onConn_bind, hrun, hrun', onConn_pure, before_pure, and_true,
        and_assoc]
    rw [hsplit]
    have hnext : (due repo settings pr c.working = true →
        (upserted repo.id pr c.working).pullRequests = db₀.pullRequests ∧
          HasJob repo.id pr db₀) → c'.working = upserted repo.id pr c.working :=
      fun h => hwork.trans (pulled_eq_upserted hjobs h)
    constructor
    · rintro ⟨hbefore, hrest, hend⟩
      -- what the first one has committed is seen by the next statement
      have hc' : Uncommitted db₀ c' := hrest.start hend
      have h := hfirst.mp ⟨hbefore, hc'⟩
      refine ⟨h, ?_⟩
      rw [← hnext h]
      exact (ih hc' (by rw [hnext h, reviewJobs_upserted, hjobs])).mp ⟨hrest, hend⟩
    · rintro ⟨h, hrest⟩
      obtain ⟨hbefore, hc'⟩ := hfirst.mpr h
      rw [← hnext h] at hrest
      exact ⟨hbefore, (ih hc' (by rw [hnext h, reviewJobs_upserted, hjobs])).mpr hrest⟩

/-! ## The closings -/

theorem flatten_chunks (numbers : List Nat) : (chunks numbers).flatten = numbers := by
  have key : ∀ k, ((List.range k).map fun i => (numbers.drop (500 * i)).take 500).flatten =
      numbers.take (500 * k) := by
    intro k
    induction k with
    | zero => simp
    | succ k ih =>
      rw [List.range_succ, List.map_append, List.flatten_append, ih]
      simp only [List.map_cons, List.map_nil, List.flatten_cons, List.flatten_nil, List.append_nil]
      rw [Nat.mul_succ, List.take_add]
  unfold chunks
  rw [key]
  exact List.take_of_length_le (by omega)

/-- Closing more pull requests after some is closing them all. -/
theorem withClosed_append (repoId : Nat) (ns ms : List Nat) (db : Db) :
    withClosed repoId ms (withClosed repoId ns db) = withClosed repoId (ns ++ ms) db := by
  unfold withClosed
  congr 1
  refine Table.ext ?_ rfl
  simp only [Table.update, List.map_map]
  refine List.map_congr_left fun r _ => ?_
  simp only [Function.comp_apply]
  by_cases hn : closes repoId ns r = true
  · have hm : closes repoId (ns ++ ms) r = true := by
      simp only [closes, Bool.and_eq_true, List.contains_eq_mem, decide_eq_true_eq,
        List.mem_append] at hn ⊢
      exact ⟨hn.1, .inl hn.2⟩
    rw [if_pos hn, if_pos hm, if_neg]
    -- it is closed already
    simp [closes]
  · have hm : closes repoId (ns ++ ms) r = closes repoId ms r := by
      simp only [closes, List.contains_eq_mem, List.mem_append] at hn ⊢
      by_cases hr : (r.repoId == repoId && r.state == .opened) = true
      · simp only [hr, Bool.true_and, decide_eq_true_eq] at hn ⊢
        simp [hn]
      · simp only [Bool.not_eq_true] at hr
        simp [hr]
    rw [if_neg hn, hm]

theorem withClosed_nil (repoId : Nat) (db : Db) : withClosed repoId [] db = db := by
  have h : db.pullRequests.update (closes repoId [])
      (fun r => { r with state := .closed }) = db.pullRequests :=
    Table.update_of_count_zero (Table.count_eq_zero.mpr fun r _ => by simp [closes])
  unfold withClosed
  rw [h]

/-- The chunks close what one statement would, and commit nothing. -/
theorem onConn_closeChunks (repoId : Nat) (chunks : List (List Nat)) (c : Conn Db) :
    ∃ t, (closeChunks repoId chunks).onConn c =
      (.ok (), ⟨c.committed, withClosed repoId chunks.flatten c.working, t⟩) := by
  induction chunks generalizing c with
  | nil => exact ⟨c.inTransaction, by rw [List.flatten_nil, withClosed_nil]; rfl⟩
  | cons chunk chunks ih =>
    obtain ⟨t, ht⟩ := ih { c with
      working := withClosed repoId chunk c.working
      inTransaction := true }
    refine ⟨t, ?_⟩
    unfold closeChunks
    rw [onConn_bind, onConn_updateRows, List.flatten_cons, ← withClosed_append]
    exact ht

/-! ## The sync -/

/-- Everything in a sync but the enqueue leaves the commit to its end. -/
theorem storePull_keeps {I : Conn Db → Prop} {repo : Repo} {settings : PollSettings}
    {commit : Bool} (hI : ∀ c w, I c → I { c with working := w, inTransaction := true })
    (hcommit : commit = true → ∀ c, I c → I ⟨c.working, c.working, false⟩) (pr : PullInfo) :
    Keeps I (storePull repo settings commit pr) := by
  have hupsert : Keeps I (upsert repo.id pr false) := by
    refine keeps_bind (keeps_execute hI _) fun _ => ?_
    refine keeps_bind (keeps_when fun h => by cases h) fun _ => ?_
    refine keeps_bind (keeps_select _) fun row => ?_
    cases row with
    | none => exact keeps_throw _
    | some row => exact keeps_pure _
  have hwhen : Keeps I (when commit Sql.commit : Sql Db Exc Unit) :=
    keeps_when fun h => keeps_commit (hcommit h)
  have henqueue : ∀ pid, Keeps I (enqueue commit pid) := by
    intro pid
    refine keeps_bind (keeps_select _) fun pr => ?_
    cases pr with
    | none => exact keeps_throw _
    | some pr =>
      refine keeps_bind ?_ fun _ => keeps_pure _
      refine keeps_bind (keeps_execute hI _) fun inserted => ?_
      refine keeps_bind hwhen fun _ => ?_
      refine keeps_bind (keeps_select _) fun row => ?_
      cases row with
      | none => exact keeps_throw _
      | some row =>
        refine keeps_ite (fun _ => ?_) fun _ => keeps_pure _
        refine keeps_bind (keeps_execute hI _) fun _ => ?_
        exact keeps_bind hwhen fun _ => keeps_pure _
  refine keeps_bind hupsert fun pid => ?_
  refine keeps_bind ?_ fun needed => ?_
  · refine keeps_bind (keeps_select _) fun row => ?_
    cases row <;> exact keeps_pure _
  · refine keeps_ite (fun _ => ?_) fun _ => keeps_pure _
    exact keeps_bind (henqueue pid) fun _ => keeps_pure _

theorem storeListed_keeps {I : Conn Db → Prop} {repo : Repo} {settings : PollSettings}
    {commit : Bool} (hI : ∀ c w, I c → I { c with working := w, inTransaction := true })
    (hcommit : commit = true → ∀ c, I c → I ⟨c.working, c.working, false⟩)
    (prs : List PullInfo) : Keeps I (storeListed repo settings commit prs) := by
  induction prs with
  | nil => exact keeps_pure _
  | cons pr prs ih =>
    exact keeps_bind (storePull_keeps hI hcommit pr) fun _ => keeps_bind ih fun _ => keeps_pure _

theorem closeChunks_keeps {I : Conn Db → Prop}
    (hI : ∀ c w, I c → I { c with working := w, inTransaction := true }) (repoId : Nat)
    (chunks : List (List Nat)) : Keeps I (closeChunks repoId chunks) := by
  induction chunks with
  | nil => exact keeps_pure _
  | cons chunk chunks ih => exact keeps_bind (keeps_execute hI _) fun _ => ih

/-- Outside of a transaction nothing of a sync is uncommitted. -/
theorem syncListed_published (repo : Repo) (settings : PollSettings) (commit : Bool)
    (prevOpen : List Nat) (listing : Except Exc (List PullInfo)) :
    Keeps Published (syncListed repo settings commit prevOpen listing) := by
  refine keeps_bind (keeps_lift _) fun prs => ?_
  refine keeps_bind (keeps_beginImmediate published_beginImmediate) fun _ => ?_
  refine keeps_bind (storeListed_keeps published_execute (fun _ => published_commit) prs)
    fun n => ?_
  refine keeps_bind (closeChunks_keeps published_execute _ _) fun _ => ?_
  refine keeps_bind (keeps_select _) fun _ => ?_
  refine keeps_bind (keeps_execute published_execute _) fun _ => ?_
  exact keeps_bind (keeps_commit published_commit) fun _ => keeps_pure _

/-- The end of a sync that has raised: its handler leaves what was committed. -/
theorem handler_iff {db : Db} {Q : Except Exc Polled × Conn Db → Prop}
    (hQ : ∀ e c, Q (.error e, c) ↔ SameWork db c.committed) {c : Conn Db} (hc : Published c)
    (e : Exc) :
    (∀ g, Q ((if e = .cancelledError then throw e else failing g (recordError e) :
      Sql Db Exc Polled).onConn c)) ↔ SameWork db c.committed := by
  by_cases he : e = .cancelledError
  · simp only [if_pos he, onConn_throw, hQ, forall_const]
  · simp only [if_neg he]
    rw [failing_iff]
    have hend : (recordError e).onConn c = (.error e, ⟨c.committed, c.committed, false⟩) := by
      unfold recordError updateRepo
      simp only [onConn_bind, onConn_rollbackOpen hc, onConn_execute, onConn_commit, onConn_throw]
    rw [hend, hQ]
    refine and_iff_left_of_imp fun h e' => ?_
    unfold recordError updateRepo
    simp only [before_bind, onConn_bind, before_rollbackOpen, before_execute, before_commit,
      before_throw, onConn_rollbackOpen hc, onConn_execute, onConn_commit, hQ, h, and_self]

/-- **What a sync leaves**, whatever raises: it is atomic when its body commits nothing before its
end, and then does all of the listing. -/
theorem atomic_iff_before (repo : Repo) (settings : PollSettings) (commit : Bool)
    (prevOpen : List Nat) (listing : Except Exc (List PullInfo)) (db : Db) :
    Atomic repo settings commit prevOpen listing db ↔
      Before (Uncommitted db) (syncListed repo settings commit prevOpen listing) (.fresh db) ∧
        match (syncListed repo settings commit prevOpen listing).onConn (.fresh db) with
        | (.error _, c) => SameWork db c.committed
        | (.ok _, c) => ∃ prs, listing = .ok prs ∧
          c.committed = synced repo settings prevOpen prs db := by
  let Q : Except Exc Polled × Conn Db → Prop := fun r => match r with
    | (.error _, c) => SameWork db c.committed
    | (.ok _, c) => ∃ prs, listing = .ok prs ∧ c.committed = synced repo settings prevOpen prs db
  have hQ : ∀ e c, Q (.error e, c) ↔ SameWork db c.committed := fun _ _ => Iff.rfl
  have hresult : ∀ r : Except Exc Polled × Conn Db, (match (r.1, r.2.committed) with
      | (.error _, db') => SameWork db db'
      | (.ok _, db') => ∃ prs, listing = .ok prs ∧ db' = synced repo settings prevOpen prs db) ↔
      Q r := by
    rintro ⟨_ | _, c⟩ <;> rfl
  -- a result of the body, with whatever the handler may then do
  let Q' : Except Exc Polled × Conn Db → Prop := fun r => match r with
    | (.error e, c) => ∀ g, Q ((if e = .cancelledError then throw e
      else failing g (recordError e) : Sql Db Exc Polled).onConn c)
    | (.ok a, c) => Q (.ok a, c)
  obtain ⟨hpub, hpubEnd⟩ := syncListed_published repo settings commit prevOpen listing
    (.fresh db) (published_fresh db)
  have hatomic : Atomic repo settings commit prevOpen listing db ↔
      ∀ f, Q' ((failing f (syncListed repo settings commit prevOpen listing)).onConn
        (.fresh db)) := by
    refine forall_congr' fun f => ?_
    unfold syncRepo Sql.run
    simp only [onConn_tryCatch]
    rcases (failing f (syncListed repo settings commit prevOpen listing)).onConn (.fresh db) with
      ⟨e | a, c⟩
    · exact forall_congr' fun g => hresult _
    · exact ⟨fun h => h fun _ => none, fun h _ => h⟩
  rw [hatomic, failing_iff]
  have hbefore : (∀ e, Before (fun c => Q' (.error e, c))
      (syncListed repo settings commit prevOpen listing) (.fresh db)) ↔
      Before (Uncommitted db) (syncListed repo settings commit prevOpen listing) (.fresh db) := by
    constructor
    · intro h
      exact ((h .timeoutError).and hpub).mono fun c hc => (handler_iff hQ hc.2 _).mp hc.1
    · intro h e
      exact (h.and hpub).mono fun c hc => (handler_iff hQ hc.2 e).mpr hc.1
  rw [hbefore, and_comm]
  refine and_congr_right fun _ => ?_
  rcases hrun : (syncListed repo settings commit prevOpen listing).onConn (.fresh db) with
    ⟨e | a, c⟩
  · rw [hrun] at hpubEnd
    exact handler_iff hQ hpubEnd e
  · exact Iff.rfl

theorem storeListed_false (repo : Repo) (settings : PollSettings) (prs : List PullInfo) :
    storeListed repo settings false prs = storePulls repo settings prs := by
  induction prs with
  | nil => rfl
  | cons pr prs ih =>
    unfold storeListed storePulls
    rw [ih]

/-- The one write of a poll of the loop is a sync that nothing disturbs. -/
theorem run_storeAll (repo : Repo) (settings : PollSettings) (prevOpen : List Nat)
    (prs : List PullInfo) (db : Db) :
    ∃ n p, (PollOp.storeAll repo settings prevOpen prs).program = some p ∧
      p.run db = (.ok n, synced repo settings prevOpen prs db) := by
  obtain ⟨n, c, hrun, hwork⟩ := onConn_storeListed repo settings false prs ⟨db, db, true⟩
  rw [storeListed_false] at hrun
  refine ⟨n, _, rfl, ?_⟩
  unfold Sql.run transaction closeGone markClosed Conn.fresh
  simp only [onConn_bind, onConn_beginImmediate, onConn_tryCatch, hrun, onConn_updateRows,
    onConn_when, onConn_pure, onConn_commit, Bool.false_eq_true, and_false, if_false, hwork]
  rfl

/-- **A repository sync is atomic** when its enqueue leaves the commit to it, as the one of the
poll loop does; with the enqueue of the API when the listing has nothing that it commits. -/
theorem sync_atomic_iff (repo : Repo) (settings : PollSettings) (commit : Bool)
    (prevOpen : List Nat) (listing : Except Exc (List PullInfo)) (db : Db) :
    Atomic repo settings commit prevOpen listing db ↔
      commit = false ∨ ∀ prs, listing = .ok prs → CommitsNothing repo settings db prs db := by
  rw [atomic_iff_before]
  cases listing with
  | error e =>
    exact ⟨fun _ => .inr (fun _ h => by cases h), fun _ => ⟨trivial, ⟨rfl, rfl⟩⟩⟩
  | ok prs =>
    have hdb : Uncommitted db ⟨db, db, true⟩ := ⟨rfl, rfl⟩
    obtain ⟨n, c, hrun, hwork⟩ := onConn_storeListed repo settings commit prs ⟨db, db, true⟩
    obtain ⟨t, hclose⟩ := onConn_closeChunks repo.id (chunks (gone prevOpen prs)) c
    rw [flatten_chunks] at hclose
    have hbody : (syncListed repo settings commit prevOpen (.ok prs)).onConn (.fresh db) =
        (.ok (prs.length, n), ⟨synced repo settings prevOpen prs db,
          synced repo settings prevOpen prs db, false⟩) := by
      unfold syncListed updateRepo
      simp only [onConn_bind, onConn_lift, onConn_beginImmediate, Conn.fresh, hrun, hclose,
        onConn_select, onConn_execute, onConn_commit, onConn_pure, hwork]
      rfl
    have hbefore : Before (Uncommitted db) (syncListed repo settings commit prevOpen (.ok prs))
        (.fresh db) ↔ Before (Uncommitted db) (storeListed repo settings commit prs)
          ⟨db, db, true⟩ ∧ Uncommitted db c := by
      unfold syncListed updateRepo
      simp only [before_bind, before_lift, before_beginImmediate, before_select, before_execute,
        before_commit, before_pure, onConn_lift, onConn_beginImmediate, onConn_select,
        onConn_execute, onConn_commit, Conn.fresh, hrun, hclose, and_true, true_and]
      constructor
      · rintro ⟨-, hstore, -, hc, -⟩
        exact ⟨hstore, hc⟩
      · rintro ⟨hstore, hc⟩
        exact ⟨hdb, hstore, (closeChunks_keeps (fun _ _ h => h) _ _ c hc).1, hc, hc, hc⟩
    have hend : Uncommitted db c ↔
        Uncommitted db ((storeListed repo settings commit prs).onConn ⟨db, db, true⟩).2 := by
      rw [hrun]
    rw [hbody, hbefore, hend]
    cases commit with
    | false =>
      have hkeeps : Keeps (Uncommitted db) (storeListed repo settings false prs) :=
        storeListed_keeps (fun _ _ h => h) (fun h => absurd h Bool.false_ne_true) prs
      exact ⟨fun _ => .inl rfl, fun _ => ⟨hkeeps _ hdb, prs, rfl, rfl⟩⟩
    | true =>
      rw [storeListed_commits_iff prs hdb rfl]
      constructor
      · rintro ⟨h, -⟩
        refine .inr fun prs' hprs => ?_
        obtain rfl := Except.ok.inj hprs
        exact h
      · rintro (h | h)
        · cases h
        · exact ⟨h prs rfl, prs, rfl, rfl⟩

/-! ## A sync that raises after a commit -/

theorem nodup_autoRepo : ([autoRepo].map Row.id).Nodup := List.nodup_singleton _

theorem fresh_autoRepo : ∀ r ∈ [autoRepo], Row.id r < 2 := by decide

/-- A server that has stored no pull request. -/
def registered : Db :=
  { Db.empty 0 with
    repos := .ofRows [autoRepo] 2 nodup_autoRepo fresh_autoRepo }

/-- Statement `n` finds the database locked. -/
def lockedAt (n k : Nat) : Option Exc :=
  if k = n then some (.operationalError "database is locked".toList) else none

/-- The sync of one new pull request, raising after the commit of its enqueue. -/
def halfDone : Except Exc Polled × Db :=
  (syncRepo autoRepo ⟨false⟩ true [] (.ok [pullAt "A".toList]) (lockedAt 7) fun _ => none).run
    registered

/-- Such a sync leaves the pull request and its job behind. -/
theorem sync_half_done :
    ¬Atomic autoRepo ⟨false⟩ true [] (.ok [pullAt "A".toList]) registered := by
  intro h
  have herr : halfDone.1 = .error (.operationalError "database is locked".toList) := rfl
  have hjobs : halfDone.2.reviewJobs.rows.length = 1 := rfl
  have hnone : halfDone.2.reviewJobs.rows.length = 0 :=
    congrArg (fun t => t.rows.length) (h.of_error herr).jobs
  rw [hjobs] at hnone
  cases hnone

end Poller
