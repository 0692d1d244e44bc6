import AlmightyReview.Job.Enqueue

/-!
# Stale jobs

A worker that found its job stale (the pull request had another head) cancels it and enqueues the
current head, in one transaction. The head may have moved again since the worker looked.

* `run_cancelStale`: what the transaction does.
* `HeadStanding`: the stored head of the pull request has a job that is queued, running, or ended
  in its own right. `cancelStale_standing_iff` says when the transaction leaves it so: unless the
  stored head is the head of the canceled job itself, as after a force push and its revert
  (`cancelStale_strands_head`).
-/

namespace JobRepo

open Sql

/-- The database after the cancellation of the stale job. -/
def staleCanceled (jobId : Nat) (owner : Option ProcessId) (db : Db) : Db :=
  { db with
    reviewJobs := db.reviewJobs.update
      (fun j => j.id == jobId && isActive j.status && mayUpdate owner j)
      (fun j => { unlocked j with status := .canceled, error := some staleHeadCancelError }) }

/-- The trigger of the job that replaces a stale one. -/
def replacementTrigger (job : ReviewJob) : Trigger :=
  if job.trigger = .auto then .auto else .manual

/-- The statements that queue the current head, on a connection in the transaction. -/
theorem onConn_replacement (prId : Nat) (head : Sha) (trigger : Trigger) (priority : Int)
    (c : Conn Db) :
    (do
      let _ ← insertJob prId head trigger priority none
      let latest ← rowOf (← select fun db => db.reviewJobs.find? (jobFor prId head))
      when (latest.status = .canceled ∧ isSystemCancelError latest.error) do
        let _ ← updateRows Db.reviewJobTable
          (fun _ j => j.id == latest.id && j.status == .canceled && j.error == latest.error)
          (fun _ j => { requeue trigger j with retryRunId := none })
      commit
      pure (some latest.id) : Sql Db Exc (Option Nat)).onConn c =
      (.ok (some (queueLatest prId head trigger priority false c.working).1.1),
        ⟨(queueLatest prId head trigger priority false c.working).2,
          (queueLatest prId head trigger priority false c.working).2, false⟩) := by
  unfold insertJob
  cases hf : c.working.reviewJobs.find? (jobFor prId head) with
  | none =>
    have hfind := find?_insert_newJob hf trigger priority none
    rw [queueLatest_new hf]
    simp [hf, hfind, rowOf, newJob, withNewJob]
  | some row =>
    have hrow := Table.mem_of_find? hf
    rw [queueLatest_old hf]
    by_cases hc : SystemCanceled row
    · have hc' : row.status = .canceled ∧ isSystemCancelError row.error = true := hc
      have hrev : (fun j => { requeue trigger j with retryRunId := none }) =
        revive trigger false := rfl
      rw [if_pos hc]
      simp [hf, hc', rowOf, Db.reviewJobTable, update_read hrow hc.1, withRevived, hrev]
    · have hc' : ¬(row.status = .canceled ∧ isSystemCancelError row.error = true) := hc
      rw [if_neg hc]
      simp [hf, hc', rowOf]

/-- **The stale transaction.** The job is canceled if it is active and the caller's. When the
stored head is another one, this head is queued. -/
theorem run_cancelStale {db : Db} {jobId : Nat} {job : ReviewJob}
    (hjob : db.reviewJobs.get? jobId = some job) (owner : Option ProcessId) :
    (cancelStaleAndEnqueueLatest jobId owner).run db =
      match replacementHead (db.pullRequests.get? job.prId) job with
      | none => (.ok none, staleCanceled jobId owner db)
      | some head =>
        let r := queueLatest job.prId head (replacementTrigger job) job.priority false
          (staleCanceled jobId owner db)
        (.ok (some r.1.1), r.2) := by
  unfold run cancelStaleAndEnqueueLatest
  simp only [Conn.fresh, onConn_tryCatch, onConn_bind, onConn_beginImmediate, onConn_select, hjob,
    onConn_updateRows]
  cases hh : replacementHead (db.pullRequests.get? job.prId) job with
  | none => simp [staleCanceled, Db.reviewJobTable]
  | some head =>
    simp only []
    rw [onConn_replacement]
    rfl

/-! ## The job of the stored head -/

/-- The job is queued, running, or ended in its own right: done, failed, or canceled by a user. -/
def Standing (j : ReviewJob) : Prop :=
  isActive j.status = true ∨ j.status = .done ∨ j.status = .failed ∨
    j.status = .canceled ∧ isSystemCancelError j.error = false

theorem standing_iff {j : ReviewJob} : Standing j ↔ ¬SystemCanceled j := by
  unfold Standing SystemCanceled
  cases j.status <;> simp [isActive]

/-- The stored head of the pull request, if it has one, has a standing job. -/
def HeadStanding (prId : Nat) (db : Db) : Prop :=
  ∀ pr, db.pullRequests.get? prId = some pr → pr.headSha ≠ [] →
    ∃ j ∈ db.reviewJobs, jobFor prId pr.headSha j = true ∧ Standing j

/-- The stored head of the job's pull request is the job's own. -/
def AtHead (db : Db) (job : ReviewJob) : Prop :=
  ∃ pr, db.pullRequests.get? job.prId = some pr ∧ pr.headSha ≠ [] ∧ pr.headSha = job.headSha

/-- The transaction leaves the job canceled by the system: it cancels it, or it was so before. -/
def LeftCanceled (owner : Option ProcessId) (job : ReviewJob) : Prop :=
  isActive job.status = true ∧ mayUpdate owner job = true ∨ SystemCanceled job

theorem queueLatest_pullRequests (prId : Nat) (headSha : Sha) (trigger : Trigger)
    (priority : Int) (keepRetryRun : Bool) (db : Db) :
    (queueLatest prId headSha trigger priority keepRetryRun db).2.pullRequests =
      db.pullRequests := by
  unfold queueLatest
  split
  · rfl
  · split <;> rfl

/-- After `queueLatest` the pair has a standing job. -/
theorem queueLatest_standing (prId : Nat) (headSha : Sha) (trigger : Trigger) (priority : Int)
    (keepRetryRun : Bool) (db : Db) :
    ∃ j ∈ (queueLatest prId headSha trigger priority keepRetryRun db).2.reviewJobs,
      jobFor prId headSha j = true ∧ Standing j := by
  cases hf : db.reviewJobs.find? (jobFor prId headSha) with
  | none =>
    rw [queueLatest_new hf]
    exact ⟨_, Table.mem_insert_self _, by simp [jobFor, newJob], .inl (by simp [newJob, isActive])⟩
  | some row =>
    have hrow := Table.mem_of_find? hf
    have hfor := Table.of_find? hf
    rw [queueLatest_old hf]
    split
    · refine ⟨_, Table.mem_update_of_mem hrow, ?_⟩
      rw [if_pos (by simp)]
      exact ⟨hfor, .inl rfl⟩
    · exact ⟨row, hrow, hfor, standing_iff.mpr ‹_›⟩

/-- The canceled job is the only one that the cancellation changes. -/
theorem mem_staleCanceled {jobId : Nat} {owner : Option ProcessId} {db : Db} {j : ReviewJob} :
    j ∈ (staleCanceled jobId owner db).reviewJobs ↔ ∃ i ∈ db.reviewJobs,
      j = if i.id == jobId && isActive i.status && mayUpdate owner i then
        { unlocked i with status := .canceled, error := some staleHeadCancelError } else i := by
  rw [staleCanceled, Table.mem_update]

theorem systemCanceled_stale (i : ReviewJob) :
    SystemCanceled { unlocked i with status := .canceled, error := some staleHeadCancelError } :=
  have hs : isSystemCancelError (some staleHeadCancelError) = true := by decide
  ⟨rfl, hs⟩

/-- The job after the cancellation. -/
theorem standing_staleCanceled_iff {owner : Option ProcessId} {db : Db} (hu : UniquePairs db)
    {job : ReviewJob} (hj : job ∈ db.reviewJobs) :
    (∃ j ∈ (staleCanceled job.id owner db).reviewJobs,
      jobFor job.prId job.headSha j = true ∧ Standing j) ↔ ¬LeftCanceled owner job := by
  constructor
  · rintro ⟨j, hm, hfor, hs⟩ hl
    obtain ⟨i, hi, rfl⟩ := mem_staleCanceled.mp hm
    have hpair : i.prId = job.prId ∧ i.headSha = job.headSha := by
      split at hfor <;> exact jobFor_iff.mp hfor
    obtain rfl := hu i hi job hj hpair.1 hpair.2
    rw [standing_iff] at hs
    rcases hl with ⟨ha, hmay⟩ | hc
    · rw [if_pos (by simp [ha, hmay])] at hs
      exact hs (systemCanceled_stale i)
    · rw [if_neg (by simp [hc.1, isActive])] at hs
      exact hs hc
  · intro hl
    unfold LeftCanceled at hl
    rw [not_or, not_and] at hl
    refine ⟨_, mem_staleCanceled.mpr ⟨job, hj, rfl⟩, ?_⟩
    rw [if_neg (by simpa using hl.1)]
    exact ⟨jobFor_iff.mpr ⟨rfl, rfl⟩, standing_iff.mpr hl.2⟩

/-- **When the current head keeps a job.** In every reachable state, the stale transaction of a
job leaves the stored head of its pull request with a standing job, unless the stored head is the
job's own and the job is canceled. -/
theorem cancelStale_standing_iff {db : Db} (hr : queue.Reach Sys.anyStep db) {job : ReviewJob}
    (hj : job ∈ db.reviewJobs) (owner : Option ProcessId) :
    HeadStanding job.prId ((cancelStaleAndEnqueueLatest job.id owner).run db).2 ↔
      ¬(AtHead db job ∧ LeftCanceled owner job) := by
  have hu : UniquePairs db := uniquePairs_inductive.reach hr
  have hget : db.reviewJobs.get? job.id = some job := Table.get?_eq_some.mpr ⟨hj, rfl⟩
  rw [run_cancelStale hget]
  cases hpr : db.pullRequests.get? job.prId with
  | none =>
    -- the pull request is gone: there is no head
    have hrep : replacementHead none job = none := rfl
    rw [hrep]
    have hnone : (staleCanceled job.id owner db).pullRequests.get? job.prId = none := hpr
    refine iff_of_true (fun pr hsome => ?_) fun h => ?_
    · rw [hnone] at hsome
      cases hsome
    · obtain ⟨⟨pr, hsome, -⟩, -⟩ := h
      rw [hpr] at hsome
      cases hsome
  | some pr =>
    by_cases hhead : pr.headSha = [] ∨ pr.headSha = job.headSha
    · have hrep : replacementHead (some pr) job = none := by simp [replacementHead, hhead]
      rw [hrep]
      have hget : (staleCanceled job.id owner db).pullRequests.get? job.prId = some pr := hpr
      by_cases hempty : pr.headSha = []
      · refine iff_of_true (fun pr' hget' hne => ?_) fun h => ?_
        · rw [hget] at hget'
          obtain rfl := Option.some.inj hget'
          exact absurd hempty hne
        · obtain ⟨⟨pr', hget', hne, -⟩, -⟩ := h
          rw [hpr] at hget'
          obtain rfl := Option.some.inj hget'
          exact absurd hempty hne
      · have heq : pr.headSha = job.headSha := hhead.resolve_left hempty
        have hat : AtHead db job := ⟨pr, hpr, hempty, heq⟩
        rw [and_iff_right hat, ← standing_staleCanceled_iff hu hj]
        constructor
        · intro h
          simpa only [heq] using h pr hget hempty
        · intro h pr' hget' _
          rw [hget] at hget'
          obtain rfl := Option.some.inj hget'
          rwa [heq]
    · have hrep : replacementHead (some pr) job = some pr.headSha := by
        simp [replacementHead, hhead]
      rw [hrep]
      refine iff_of_true (fun pr' hget' _ => ?_) fun h => ?_
      · simp only [queueLatest_pullRequests] at hget'
        rw [show (staleCanceled job.id owner db).pullRequests = db.pullRequests from rfl,
          hpr] at hget'
        obtain rfl := Option.some.inj hget'
        exact queueLatest_standing ..
      · obtain ⟨⟨pr', hget', -, heq⟩, -⟩ := h
        rw [hpr] at hget'
        obtain rfl := Option.some.inj hget'
        exact hhead (.inr heq)

/-! ## A force push and its revert -/

/-- The row of pull request 1. -/
def rowAt (head : Sha) : PullRequest :=
  { id := 1, repoId := 1, number := 1, title := none, author := none, headSha := head,
    baseRef := none, baseSha := none, state := .opened, url := none, createdAt := none,
    headRef := none, body := none, isDraft := false, lastReviewedSha := none,
    updatedAt := none }

theorem nodup_rowAt (head : Sha) : ([rowAt head].map Row.id).Nodup := List.nodup_singleton _

theorem fresh_rowAt (head : Sha) : ∀ r ∈ [rowAt head], Row.id r < 2 := by
  intro r hr
  rw [List.mem_singleton.mp hr]
  exact Nat.one_lt_two

/-- Pull request 1 at a head. -/
def prAt (head : Sha) : Table PullRequest :=
  .ofRows [rowAt head] 2 (nodup_rowAt head) (fresh_rowAt head)

/-- The database with pull request 1 at a head. -/
def headMoved (head : Sha) (db : Db) : Db := { db with pullRequests := prAt head }

/-- The head is `A`, a worker of process `P` has claimed its job, and the head has moved to `B`. -/
def atB : Db :=
  headMoved "B".toList ((Op.claimNext "w".toList (some "P".toList) false).program.run
    ((Op.background (.enqueue 1 "A".toList .auto 0 true)).program.run
      (headMoved "A".toList (.empty 0))).2).2

/-- The job of head `A`, which the worker runs. -/
def jobA : ReviewJob :=
  claimed "w".toList (some "P".toList) 0 (newJob 1 "A".toList .auto 0 none 0 1)

theorem reach_moved {db : Db} (h : queue.Reach Sys.anyStep db) (head : Sha) :
    queue.Reach Sys.anyStep (headMoved head db) :=
  have hs : queue.step db .outside (headMoved head db) := rfl
  .step h trivial hs

theorem reach_atB : queue.Reach Sys.anyStep atB :=
  reach_moved (reach_op (reach_op (reach_moved (reach_empty 0) _) _) _) _

/-- The worker finds its job stale, and the head `B` gets a job. -/
theorem cancelStale_standing_replaced :
    HeadStanding 1 ((cancelStaleAndEnqueueLatest 1 (some "P".toList)).run atB).2 :=
  have hj : jobA ∈ atB.reviewJobs := Table.mem_def.mpr (by decide)
  (cancelStale_standing_iff reach_atB hj (some "P".toList)).mpr fun h => by
    obtain ⟨⟨pr, hget, -, heq⟩, -⟩ := h
    have hpr : pr.headSha = "B".toList := by
      rw [show atB.pullRequests.get? jobA.prId = (prAt "B".toList).get? 1 from rfl] at hget
      cases hget
      rfl
    rw [hpr] at heq
    exact absurd heq (by decide)

/-- **The head moves back.** The worker has found its job stale, and the head is `A` again when it
cancels the job: `A` has no job any more but the canceled one. -/
theorem cancelStale_strands_head :
    ¬∀ db, queue.Reach Sys.anyStep db → ∀ job ∈ db.reviewJobs, ∀ owner,
      HeadStanding job.prId ((cancelStaleAndEnqueueLatest job.id owner).run db).2 := by
  intro h
  have hj : jobA ∈ (headMoved "A".toList atB).reviewJobs := Table.mem_def.mpr (by decide)
  obtain ⟨j, hm, hfor, hs⟩ := h _ (reach_moved reach_atB _) jobA hj (some "P".toList) _ rfl
    (by decide)
  rw [standing_iff] at hs
  have hall : ∀ j ∈ ((cancelStaleAndEnqueueLatest 1 (some "P".toList)).run
      (headMoved "A".toList atB)).2.reviewJobs.rows, SystemCanceled j := by decide
  exact hs (hall j hm)

end JobRepo
