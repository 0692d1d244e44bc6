import AlmightyReview.Job.Enqueue
import AlmightyReview.Lib.Lists
import AlmightyReview.Post.Api
import AlmightyReview.Review.Repo

/-!
# What is reported of a run, and its retry

Two handlers of the server: `run_diagnostics` reports, among other things, whether the failed
vendors of a run can be retried, and `retry_vendors` retries them.

* `runDiagnostics`: the report. Its durations, which are read off the clock, are left out;
  `lower` is `str.lower`.
* `retryVendors`: the id of the job, or an HTTP error.
* `enqueueRetry_isOk_iff`: an enqueue is refused exactly when `retryEnqueueConflict` sees a
  conflict. With it the two handlers agree (`diagnostics_agree`).
-/

namespace Diagnostics

open Sql JobRepo

/-! ## Queries that both handlers make -/

/-- The vendors that the repository has switched on. -/
def enabledVendors (repo : Repo) : List Text :=
  (if repo.vendorClaudeOn then ["claude".toList] else []) ++
    (if repo.vendorCodexOn then ["codex".toList] else [])

/-- `failed - enabled` has an element. -/
def someDisabled (repo : Repo) (failed : List Text) : Bool :=
  failed.any fun vendor => !(enabledVendors repo).contains vendor

/-- `retry_enqueue_conflict`. -/
def retryEnqueueConflict (prId : Nat) (headSha : Sha) (runId : Nat) (db : Db) : Bool :=
  match db.reviewJobs.find? (jobFor prId headSha) with
  | none => false
  | some current => isActive current.status &&
      (current.trigger != .retry || current.retryRunId != some runId)

/-! ## The report -/

/-- Why there is no retry. -/
inductive Reason where
  | prClosed | headChanged | notLatestRun | runNotDone | repoDisabled | failedVendorDisabled
  | activeJobConflict | noFailedVendor
  deriving DecidableEq, Repr

/-- `retry.mode`. -/
inductive RetryMode where
  | notApplicable | newFullRunRequired | retryUnavailable | failedVendors
  deriving DecidableEq, Repr

structure RetryReport where
  mode : RetryMode
  failedVendors : List Text
  reasons : List Reason

/-- The reasons but the last one. -/
def reasonsOf (runId : Nat) (run : ReviewRun) (pr : PullRequest) (repo : Repo) (latestId : Nat)
    (failed : List Text) (conflict : Bool) : List Reason :=
  (if pr.state ≠ .opened then [.prClosed] else []) ++
  (if pr.headSha ≠ run.headSha then [.headChanged] else []) ++
  (if latestId ≠ runId then [.notLatestRun] else []) ++
  (if run.status ≠ .done then [.runNotDone] else []) ++
  (if repo.enabled then [] else [.repoDisabled]) ++
  (if someDisabled repo failed then [.failedVendorDisabled] else []) ++
  (if conflict then [.activeJobConflict] else [])

/-- A run of which only a new full one can follow. -/
def needsFullRun (reasons : List Reason) : Bool :=
  reasons.any fun r => r == .headChanged || r == .notLatestRun || r == .runNotDone

/-- `sorted(set(..))`. -/
def sortedSet (xs : List Text) : List Text := xs.dedup.insertionSort (· ≤ ·)

def retryReport (reasons : List Reason) (failed : List Text) : RetryReport :=
  if failed = [] then ⟨.notApplicable, [], reasons ++ [.noFailedVendor]⟩
  else if reasons ≠ [] then
    ⟨if needsFullRun reasons then .newFullRunRequired else .retryUnavailable, sortedSet failed,
      reasons⟩
  else ⟨.failedVendors, sortedSet failed, []⟩

/-- How often each value comes, the first one first. -/
def tally {α : Type} [DecidableEq α] (xs : List α) : List (α × Nat) :=
  (firsts xs).map fun x => (x, xs.count x)

/-- What is counted of the chunks that were executed; `telemetry` counts the chunks with `ok`, with
`partial` and with anything else. -/
structure Processing where
  attempts : Nat
  chunks : Nat
  chunkStatuses : List (ChunkStatus × Nat)
  safeErrorCodes : List (Text × Nat)
  telemetry : Nat × Nat × Nat
  tokens : Nat
  toolCalls : Nat

/-- The attempts of a vendor's result, if its metadata can be read. -/
def attemptsOf (v : VendorResult) : List ExecutionAttempt :=
  ((VendorTelemetry.decodeExecutionMeta v.executionMeta).map (·.attempts)).getD []

def processing (vendors : List VendorResult) : Processing :=
  let attempts := vendors.flatMap attemptsOf
  let chunks := attempts.flatMap (·.chunks)
  let ok := chunks.countP fun c => c.telemetryStatus == "ok".toList
  let incomplete := chunks.countP fun c => c.telemetryStatus == "partial".toList
  { attempts := attempts.length
    chunks := chunks.length
    chunkStatuses := tally (chunks.map (·.status))
    safeErrorCodes := tally (chunks.filterMap (·.safeErrorCode))
    telemetry := (ok, incomplete, chunks.length - ok - incomplete)
    tokens := (chunks.filterMap (·.totalTokens)).sum
    toolCalls := (chunks.filterMap (·.toolCalls)).sum }

structure FindingCounts where
  total : Nat
  files : Nat
  statuses : List (FindingStatus × Nat)
  /-- `none` is counted as `unknown`. -/
  scope : List (Option ScopeStatus × Nat)
  eligible : Nat
  suppressed : Nat

def findingCounts (rows : List Finding) : FindingCounts :=
  let eligible := rows.countP (·.postingEligible)
  { total := rows.length
    files := (((rows.map (·.file)).filter (· ≠ [])).dedup).length
    statuses := tally (rows.map (·.status))
    scope := tally (rows.map (·.scopeStatus))
    eligible := eligible
    suppressed := rows.length - eligible }

/-- The words by which `failure_code` knows an error. -/
def failureChecks : List (Text × List Text) :=
  [("output_limit", ["output_limit", "output limit", "too large"]),
    ("timeout", ["timeout", "timed out", "deadline"]),
    ("authentication", ["auth", "credential", "login", "token"]),
    ("cleanup", ["cleanup", "terminate", "process group"]),
    ("runtime_setup", ["runtime_setup", "setup failed", "materialization"]),
    ("canceled", ["cancel", "stale head", "closed pr"]),
    ("rate_limit", ["rate limit", "429"])].map fun c => (c.1.toList, c.2.map String.toList)

/-- `failure_code`. -/
def failureCode (lower : Text → Text) (value : Option Text) : Text :=
  let text := (value.map lower).getD []
  ((failureChecks.find? fun c => c.2.any text.contains).map Prod.fst).getD "unknown".toList

structure JobReport where
  id : Nat
  status : JobStatus
  trigger : Trigger
  attempts : Nat
  maxAttempts : Nat
  nextRunAt : Option Time
  failureCode : Text

structure RunReport where
  id : Nat
  status : RunStatus
  trigger : Trigger
  effort : Text
  startedAt : Option Time
  finishedAt : Option Time
  failureCode : Text
  incremental : Bool
  repoId : Nat
  repoName : Text
  prId : Nat
  prNumber : Nat

structure VendorReport where
  vendor : Text
  status : VendorStatus
  failureCode : Text

structure Report where
  run : RunReport
  job : Option JobReport
  vendors : List VendorReport
  processing : Processing
  findings : FindingCounts
  retry : RetryReport

variable (lower : Text → Text)

def runReport (run : ReviewRun) (pr : PullRequest) (repo : Repo) : RunReport where
  id := run.id
  status := run.status
  trigger := run.trigger
  effort := run.effort
  startedAt := run.startedAt
  finishedAt := run.finishedAt
  failureCode := failureCode lower run.error
  incremental := Post.truthy run.baseSha
  repoId := repo.id
  repoName := repo.fullName
  prId := pr.id
  prNumber := pr.number

def jobReport (j : ReviewJob) : JobReport where
  id := j.id
  status := j.status
  trigger := j.trigger
  attempts := j.attempts
  maxAttempts := j.maxAttempts
  nextRunAt := j.nextRunAt
  failureCode := failureCode lower j.error

/-- The newest job that runs or retries the run. -/
def jobOf (runId : Nat) (db : Db) : Option ReviewJob :=
  ((db.reviewJobs.rows.filter fun j => j.runId == some runId || j.retryRunId == some runId)
    |>.insertionSort fun a b => b.id ≤ a.id).head?

/-- `list_vendor_results`. -/
def listVendorResults (runId : Nat) (db : Db) : List VendorResult :=
  (db.vendorResults.rows.filter fun v => v.runId == runId).insertionSort
    fun a b => a.vendor ≤ b.vendor

/-- The row of the pull request and its repository. -/
def joined (prId : Nat) (db : Db) : Option (PullRequest × Repo) := do
  let pr ← db.pullRequests.get? prId
  let repo ← db.repos.get? pr.repoId
  pure (pr, repo)

def notFound (what : String) : Exc := .httpException 404 (what.toList ++ " not found".toList)

/-- The row of a `SELECT`, or an error of the handler. -/
def foundOr {ρ : Type} (e : Exc) : Option ρ → Sql Db Exc ρ
  | some r => pure r
  | none => throw e

/-- `run_diagnostics`. -/
def runDiagnostics (runId : Nat) : Sql Db Exc Report := do
  let run ← foundOr (notFound "run") (← select fun db => db.reviewRuns.get? runId)
  let (pr, repo) ← foundOr (notFound "pr") (← select (joined run.prId))
  let vendors ← select (listVendorResults runId)
  let findingRows ← select fun db => db.findings.rows.filter fun f => f.runId == runId
  let failed ← select (ReviewRepo.failedVendors runId)
  let latestId ← rowOf (← select fun db => Post.latestRunId db run.prId)
  let conflict ← select (retryEnqueueConflict run.prId run.headSha runId)
  let job ← select (jobOf runId)
  pure {
    run := runReport lower run pr repo
    job := job.map (jobReport lower)
    vendors := vendors.map fun v => ⟨v.vendor, v.status, failureCode lower v.error⟩
    processing := processing vendors
    findings := findingCounts findingRows
    retry := retryReport (reasonsOf runId run pr repo latestId failed conflict) failed }

/-! ## The retry -/

/-- `raise HTTPException(409, ..)` when a condition holds. -/
def refuseIf (c : Prop) [Decidable c] (detail : String) : Sql Db Exc Unit :=
  when c (throw (.httpException 409 detail.toList))

/-- `except ValueError as exc: raise HTTPException(409, str(exc))`. -/
def asConflict : Exc → Exc
  | .valueError message => .httpException 409 message
  | e => e

/-- `retry_vendors`. -/
def retryVendors (runId : Nat) : Sql Db Exc Nat := do
  let run ← foundOr (notFound "run") (← select fun db => db.reviewRuns.get? runId)
  let pr ← foundOr (notFound "pr") (← select fun db => db.pullRequests.get? run.prId)
  refuseIf (pr.state ≠ .opened) "닫힌 PR은 재시도할 수 없습니다"
  refuseIf (pr.headSha ≠ run.headSha) "PR가 갱신됨 — 전체 재리뷰를 사용하세요"
  let latest ← select fun db => Post.latestRunId db run.prId
  refuseIf (latest ≠ some run.id) "과거 리뷰 run은 재시도할 수 없습니다"
  refuseIf (run.status ≠ .done) "부분 실패한 리뷰에만 사용 가능 — 전체 재리뷰를 사용하세요"
  let repo ← foundOr (notFound "repo") (← select fun db => db.repos.get? pr.repoId)
  refuseIf (repo.enabled = false) "비활성화된 레포에서는 재시도할 수 없습니다"
  let failed ← select (ReviewRepo.failedVendors runId)
  refuseIf (failed = []) "재시도할 실패 벤더가 없습니다"
  refuseIf (someDisabled repo failed = true) "실패 벤더를 모두 활성화한 뒤 재시도하세요"
  tryCatch (enqueueRetry run.prId run.headSha runId) fun e => throw (asConflict e)

/-! ## The enqueue of a retry -/

/-- The error of an enqueue beside another active job. -/
def otherJob : Exc := .valueError "다른 리뷰 작업이 이미 같은 PR head에서 진행 중입니다".toList

/-- A head without a job gets one. -/
theorem enqueueRetry_new {prId runId : Nat} {headSha : Sha} {db : Db}
    (hf : db.reviewJobs.find? (jobFor prId headSha) = none) :
    ((enqueueRetry prId headSha runId).run db).1 = .ok db.reviewJobs.nextId := by
  have hfind := find?_insert_newJob hf .retry 0 (some runId)
  have hget : (db.reviewJobs.insert (newJob prId headSha .retry 0 (some runId) db.now)).get?
      db.reviewJobs.nextId =
        some (newJob prId headSha .retry 0 (some runId) db.now db.reviewJobs.nextId) :=
    Table.get?_eq_some.mpr ⟨Table.mem_insert_self _, rfl⟩
  unfold enqueueRetry enqueueOrRevive jobOrInsert insertJob rowOf
  simp [run, Conn.fresh, hf, hfind, newJob, isFinished] at hget ⊢
  simp [hget, conflicts]

/-- A job that is over is taken for the retry. -/
theorem enqueueRetry_finished {prId runId : Nat} {headSha : Sha} {db : Db} {row : ReviewJob}
    (hf : db.reviewJobs.find? (jobFor prId headSha) = some row)
    (hfinished : isFinished row.status = true) :
    ((enqueueRetry prId headSha runId).run db).1 = .ok row.id := by
  have hget : db.reviewJobs.get? row.id = some row := Table.get?_of_mem (Table.mem_of_find? hf)
  unfold enqueueRetry enqueueOrRevive jobOrInsert rowOf
  simp [run, Conn.fresh, hf, hfinished, Db.reviewJobTable, Table.get?_update, hget, requeue,
    conflicts]

/-- A job that is not over is kept, and accepted if it retries this run. -/
theorem enqueueRetry_active {prId runId : Nat} {headSha : Sha} {db : Db} {row : ReviewJob}
    (hf : db.reviewJobs.find? (jobFor prId headSha) = some row)
    (hactive : isFinished row.status = false) :
    ((enqueueRetry prId headSha runId).run db).1 =
      if conflicts .retry (some runId) row then .error otherJob else .ok row.id := by
  have hget : db.reviewJobs.get? row.id = some row := Table.get?_of_mem (Table.mem_of_find? hf)
  unfold enqueueRetry enqueueOrRevive jobOrInsert rowOf
  simp only [run, Conn.fresh, hf, hactive, hget, onConn_bind, onConn_select, onConn_pure,
    onConn_when, Bool.false_eq_true, if_false, reduceCtorEq, false_and]
  by_cases hc : conflicts .retry (some runId) row = true
  · rw [if_pos hc, if_pos hc]
    rfl
  · rw [if_neg hc, if_neg hc]

theorem isFinished_eq (s : JobStatus) : isFinished s = !isActive s := by
  cases s <;> rfl

/-- **One conflict.** An enqueue is refused exactly when the report sees a conflict. -/
theorem enqueueRetry_isOk_iff {prId runId : Nat} {headSha : Sha} {db : Db} :
    (∃ jobId, ((enqueueRetry prId headSha runId).run db).1 = .ok jobId) ↔
      retryEnqueueConflict prId headSha runId db = false := by
  unfold retryEnqueueConflict
  cases hf : db.reviewJobs.find? (jobFor prId headSha) with
  | none => exact ⟨fun _ => rfl, fun _ => ⟨_, enqueueRetry_new hf⟩⟩
  | some row =>
    cases hactive : isActive row.status with
    | false =>
      have hfinished : isFinished row.status = true := by rw [isFinished_eq, hactive]; rfl
      exact ⟨fun _ => by simp [hactive], fun _ => ⟨_, enqueueRetry_finished hf hfinished⟩⟩
    | true =>
      have hconflict : conflicts .retry (some runId) row =
          (row.trigger != .retry || row.retryRunId != some runId) := by
        simp [conflicts, hactive]
      rw [enqueueRetry_active hf (by rw [isFinished_eq, hactive]; rfl), hconflict]
      dsimp only
      rw [hactive, Bool.true_and]
      cases row.trigger != .retry || row.retryRunId != some runId with
      | false => exact ⟨fun _ => rfl, fun _ => ⟨_, if_neg Bool.false_ne_true⟩⟩
      | true =>
        rw [if_pos rfl]
        constructor
        · rintro ⟨_, h⟩
          cases h
        · intro h
          cases h

/-! ## The handlers agree -/

/-- What both handlers ask for. -/
structure Retryable (runId : Nat) (db : Db) (run : ReviewRun) (pr : PullRequest) (repo : Repo) :
    Prop where
  runRow : db.reviewRuns.get? runId = some run
  prRow : db.pullRequests.get? run.prId = some pr
  repoRow : db.repos.get? pr.repoId = some repo
  opened : pr.state = .opened
  head : pr.headSha = run.headSha
  latest : Post.latestRunId db run.prId = some run.id
  done : run.status = .done
  enabled : repo.enabled = true
  failed : ReviewRepo.failedVendors runId db ≠ []
  vendors : someDisabled repo (ReviewRepo.failedVendors runId db) = false
  free : retryEnqueueConflict run.prId run.headSha runId db = false

/-- A condition that is checked: what follows it is reached when it does not hold. -/
theorem onConn_refuseIf_bind {α : Type} {c : Prop} [Decidable c] {detail : String}
    {f : Unit → Sql Db Exc α} {db : Db} {a : α} :
    ((refuseIf c detail >>= f).run db).1 = .ok a ↔ ¬c ∧ ((f ()).run db).1 = .ok a := by
  unfold refuseIf
  by_cases hc : c
  · simp [run, hc]
  · simp [run, hc]

/-- A row that is looked up. -/
theorem onConn_foundOr_bind {α ρ : Type} {e : Exc} {row : Option ρ} {f : ρ → Sql Db Exc α}
    {db : Db} {a : α} :
    ((foundOr e row >>= f).run db).1 = .ok a ↔ ∃ r, row = some r ∧ ((f r).run db).1 = .ok a := by
  cases row with
  | none => simp [run, foundOr]
  | some r => simp [run, foundOr]

/-- A row that has to be there. -/
theorem onConn_rowOf_bind {α ρ : Type} {row : Option ρ} {f : ρ → Sql Db Exc α} {db : Db} {a : α} :
    ((rowOf row >>= f).run db).1 = .ok a ↔ ∃ r, row = some r ∧ ((f r).run db).1 = .ok a := by
  cases row with
  | none => simp [run, rowOf]
  | some r => simp [run, rowOf]

theorem onConn_select_bind {α ρ : Type} {q : Db → ρ} {f : ρ → Sql Db Exc α} {db : Db} :
    (select q >>= f).run db = (f (q db)).run db := rfl

theorem run_asConflict {α : Type} {p : Sql Db Exc α} {db : Db} {a : α} :
    ((tryCatch p fun e => throw (asConflict e)).run db).1 = .ok a ↔ (p.run db).1 = .ok a := by
  rcases h : p.onConn (.fresh db) with ⟨r, c⟩
  cases r <;> simp [run, h]

/-- A retry is accepted exactly when everything that it needs is there. -/
theorem retryVendors_isOk_iff {runId : Nat} {db : Db} :
    (∃ jobId, ((retryVendors runId).run db).1 = .ok jobId) ↔
      ∃ run pr repo, Retryable runId db run pr repo := by
  unfold retryVendors
  simp only [onConn_foundOr_bind, onConn_refuseIf_bind, onConn_select_bind, run_asConflict,
    not_not, Bool.not_eq_false, Bool.not_eq_true]
  constructor
  · rintro ⟨jobId, run, hrun, pr, hpr, hopen, hhead, hlatest, hdone, repo, hrepo, henabled,
      hfailed, hvendors, hjob⟩
    exact ⟨run, pr, repo, hrun, hpr, hrepo, hopen, hhead, hlatest, hdone, henabled, hfailed,
      hvendors, enqueueRetry_isOk_iff.mp ⟨jobId, hjob⟩⟩
  · rintro ⟨run, pr, repo, h⟩
    obtain ⟨jobId, hjob⟩ := enqueueRetry_isOk_iff.mpr h.free
    exact ⟨jobId, run, h.runRow, pr, h.prRow, h.opened, h.head, h.latest, h.done, repo,
      h.repoRow, h.enabled, h.failed, h.vendors, hjob⟩

theorem joined_eq_some {prId : Nat} {db : Db} {pr : PullRequest} {repo : Repo} :
    joined prId db = some (pr, repo) ↔
      db.pullRequests.get? prId = some pr ∧ db.repos.get? pr.repoId = some repo := by
  unfold joined
  cases hpr : db.pullRequests.get? prId with
  | none => simp
  | some p =>
    cases hrepo : db.repos.get? p.repoId with
    | none =>
      simp only [Option.bind_eq_bind, Option.bind_some, hrepo, Option.bind_none, reduceCtorEq,
        false_iff, not_and, Option.some.injEq]
      rintro rfl
      simp [hrepo]
    | some r =>
      simp only [Option.bind_eq_bind, Option.bind_some, hrepo, Option.pure_def, Option.some.injEq,
        Prod.mk.injEq]
      constructor
      · rintro ⟨rfl, rfl⟩
        exact ⟨rfl, hrepo⟩
      · rintro ⟨rfl, h⟩
        exact ⟨rfl, Option.some.inj (hrepo.symm.trans h)⟩

/-- There is no reason against a retry. -/
theorem reasonsOf_eq_nil {runId latestId : Nat} {run : ReviewRun} {pr : PullRequest} {repo : Repo}
    {failed : List Text} {conflict : Bool} :
    reasonsOf runId run pr repo latestId failed conflict = [] ↔
      pr.state = .opened ∧ pr.headSha = run.headSha ∧ latestId = runId ∧ run.status = .done ∧
        repo.enabled = true ∧ someDisabled repo failed = false ∧ conflict = false := by
  unfold reasonsOf
  simp only [List.append_eq_nil_iff, ite_eq_right_iff, ite_eq_left_iff, List.cons_ne_nil,
    imp_false, not_not, Bool.not_eq_true, Bool.not_eq_false, and_assoc]

theorem retryReport_failedVendors {reasons : List Reason} {failed : List Text} :
    (retryReport reasons failed).mode = .failedVendors ↔ failed ≠ [] ∧ reasons = [] := by
  unfold retryReport
  by_cases hfailed : failed = []
  · simp [hfailed]
  · rw [if_neg hfailed]
    by_cases hreasons : reasons = []
    · simp [hfailed, hreasons]
    · rw [if_pos hreasons]
      split <;> simp [hreasons]

/-- `failed_vendors` is reported exactly then. -/
theorem runDiagnostics_failedVendors_iff {lower : Text → Text} {runId : Nat} {db : Db} :
    (∃ report, ((runDiagnostics lower runId).run db).1 = .ok report ∧
        report.retry.mode = .failedVendors) ↔
      ∃ run pr repo, Retryable runId db run pr repo := by
  unfold runDiagnostics
  simp only [onConn_foundOr_bind, onConn_rowOf_bind, onConn_select_bind]
  constructor
  · rintro ⟨report, ⟨run, hrun, ⟨pr, repo⟩, hjoined, latestId, hlatest, h⟩, hmode⟩
    obtain ⟨hpr, hrepo⟩ := joined_eq_some.mp hjoined
    cases h
    have hid : run.id = runId := (Table.get?_eq_some.mp hrun).2
    obtain ⟨hfailed, hreasons⟩ := retryReport_failedVendors.mp hmode
    obtain ⟨hopen, hhead, rfl, hdone, henabled, hvendors, hfree⟩ := reasonsOf_eq_nil.mp hreasons
    rw [← hid] at hlatest
    exact ⟨run, pr, repo, hrun, hpr, hrepo, hopen, hhead, hlatest, hdone, henabled, hfailed,
      hvendors, hfree⟩
  · rintro ⟨run, pr, repo, h⟩
    have hid : run.id = runId := (Table.get?_eq_some.mp h.runRow).2
    have hreasons : reasonsOf runId run pr repo run.id (ReviewRepo.failedVendors runId db)
        (retryEnqueueConflict run.prId run.headSha runId db) = [] := reasonsOf_eq_nil.mpr
      ⟨h.opened, h.head, hid, h.done, h.enabled, h.vendors, h.free⟩
    exact ⟨_, ⟨run, h.runRow, (pr, repo), joined_eq_some.mpr ⟨h.prRow, h.repoRow⟩, run.id,
      h.latest, rfl⟩, retryReport_failedVendors.mpr ⟨h.failed, hreasons⟩⟩

/-- **Diagnostics and retry agree.** The report offers a retry of the failed vendors exactly when a
request for it would get a job. -/
theorem diagnostics_agree (lower : Text → Text) (runId : Nat) (db : Db) :
    (∃ report, ((runDiagnostics lower runId).run db).1 = .ok report ∧
        report.retry.mode = .failedVendors) ↔
      ∃ jobId, ((retryVendors runId).run db).1 = .ok jobId := by
  rw [runDiagnostics_failedVendors_iff, retryVendors_isOk_iff]

end Diagnostics
