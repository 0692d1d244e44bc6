import AlmightyReview.Job.Fence

/-!
# What an enqueue leaves behind

* `queueLatest`: what the automatic enqueue does to a pair (pull request, head): a new job, a
  system-canceled job back in the queue, or nothing. `run_enqueueWithResult` and
  `run_cancelStale` say that the two functions that enqueue automatically do this.
* `UniquePairs`: no two jobs have one pair. Every operation on the queue keeps it
  (`uniquePairs_reach`), as `UNIQUE (pr_id, head_sha)` demands.
-/

namespace JobRepo

open Sql

/-! ## One job for a pair -/

/-- No two jobs have one pair. -/
def UniquePairs (db : Db) : Prop :=
  ∀ j ∈ db.reviewJobs, ∀ j' ∈ db.reviewJobs,
    j.prId = j'.prId → j.headSha = j'.headSha → j = j'

theorem jobFor_iff {prId : Nat} {headSha : Sha} {j : ReviewJob} :
    jobFor prId headSha j = true ↔ j.prId = prId ∧ j.headSha = headSha := by
  simp [jobFor]

theorem find?_jobFor_self {db : Db} (hu : UniquePairs db) {j : ReviewJob}
    (hj : j ∈ db.reviewJobs) : db.reviewJobs.find? (jobFor j.prId j.headSha) = some j := by
  cases hf : db.reviewJobs.find? (jobFor j.prId j.headSha) with
  | none =>
    have hp := Table.find?_eq_none.mp hf j hj
    simp [jobFor] at hp
  | some j' =>
    obtain ⟨hp, hh⟩ := jobFor_iff.mp (Table.of_find? hf)
    rw [hu j' (Table.mem_of_find? hf) j hj hp hh]

/-- A statement that keeps the pair of a job keeps pairs unique. -/
theorem uniquePairs_steady {R : ReviewJob → ReviewJob → Prop}
    (hR : ∀ {j j'}, R j j' → j'.prId = j.prId ∧ j'.headSha = j.headSha) :
    Steady R UniquePairs := by
  intro db db' hdb hs
  unfold UniquePairs
  cases hs with
  | frame hs => rwa [hs]
  | insert prId headSha trigger priority retryRunId hf hs =>
    have hnew := Table.find?_eq_none.mp hf
    simp only [Bool.eq_false_iff, ne_eq, jobFor_iff] at hnew
    rw [hs]
    intro j hj j' hj' hp hh
    rcases Table.mem_insert.mp hj with hj | rfl <;> rcases Table.mem_insert.mp hj' with hj' | rfl
    · exact hdb j hj j' hj' hp hh
    · exact absurd ⟨hp, hh⟩ (hnew j hj)
    · exact absurd ⟨hp.symm, hh.symm⟩ (hnew j' hj')
    · rfl
  | update p f hf hr hs =>
    have hpair : ∀ j ∈ db.reviewJobs, (if p j = true then f j else j).prId = j.prId ∧
        (if p j = true then f j else j).headSha = j.headSha := by
      intro j hj
      split
      · exact hR (hr j hj ‹_›)
      · exact ⟨rfl, rfl⟩
    rw [hs]
    intro j hj j' hj' hp hh
    obtain ⟨i, hi, rfl⟩ := Table.mem_update.mp hj
    obtain ⟨i', hi', rfl⟩ := Table.mem_update.mp hj'
    rw [(hpair i hi).1, (hpair i' hi').1] at hp
    rw [(hpair i hi).2, (hpair i' hi').2] at hh
    rw [hdb i hi i' hi' hp hh]

theorem Terminal.pair_apply (now : Time) (u : Terminal) (j : ReviewJob) :
    (u.apply now j).prId = j.prId ∧ (u.apply now j).headSha = j.headSha := by
  cases u with
  | done => exact ⟨rfl, rfl⟩
  | canceled => exact ⟨rfl, rfl⟩
  | failed =>
    unfold apply
    dsimp only
    split <;> exact ⟨rfl, rfl⟩

/-- An `UPDATE` that keeps the pairs keeps them unique. -/
theorem UniquePairs.update {db db' : Db} (h : UniquePairs db) {p : ReviewJob → Bool}
    {f : ReviewJob → ReviewJob} (hf : ∀ j, Row.id (f j) = Row.id j)
    (hdb' : db'.reviewJobs = db.reviewJobs.update p f hf)
    (hpair : ∀ j, (f j).prId = j.prId ∧ (f j).headSha = j.headSha) : UniquePairs db' :=
  uniquePairs_steady (R := fun j j' => j'.prId = j.prId ∧ j'.headSha = j.headSha) id h
    (.update p f hf (fun j _ _ => hpair j) hdb')

theorem op_uniquePairs (o : Op) {db : Db} (h : UniquePairs db) :
    UniquePairs (o.program.run db).2 := by
  cases o with
  | claimNext workerId owner locked =>
    rw [Op.run_claimNext, run_claimNext]
    split
    · exact h
    · exact h.update (f := claimed workerId owner db.now) (fun _ => rfl) rfl fun _ => ⟨rfl, rfl⟩
  | terminal u jobId owner =>
    rw [show (Op.terminal u jobId owner).program = u.program jobId owner from rfl, run_terminal]
    split
    · exact h.update (u.id_apply db.now) rfl (u.pair_apply db.now)
    · exact h
  | background b =>
    exact preserves_run (background_preserves (uniquePairs_steady RowStep.pair) b) h

theorem uniquePairs_inductive : queue.Inductive Sys.anyStep UniquePairs where
  init := by
    intro db h j hj
    rw [show db.reviewJobs = .empty from h] at hj
    exact absurd hj Table.mem_empty
  step := by
    intro db a db' h _ hstep
    cases a with
    | op o =>
      rw [show db' = (o.program.run db).2 from hstep]
      exact op_uniquePairs o h
    | outside =>
      unfold UniquePairs
      rwa [show db'.reviewJobs = db.reviewJobs from hstep]

/-! ## The automatic enqueue -/

/-- A system-canceled job, as an automatic enqueue puts it back into the queue. -/
def revive (trigger : Trigger) (keepRetryRun : Bool) (j : ReviewJob) : ReviewJob :=
  { requeue trigger j with retryRunId := if keepRetryRun then j.retryRunId else none }

theorem id_newJob (prId : Nat) (headSha : Sha) (trigger : Trigger) (priority : Int)
    (retryRunId : Option Nat) (db : Db) (i : Nat) :
    Row.id (newJob prId headSha trigger priority retryRunId db.now i) = i := rfl

/-- The database with a new job. -/
def withNewJob (prId : Nat) (headSha : Sha) (trigger : Trigger) (priority : Int)
    (retryRunId : Option Nat) (db : Db) : Db :=
  { db with
    reviewJobs :=
      db.reviewJobs.insert (newJob prId headSha trigger priority retryRunId db.now)
        (id_newJob prId headSha trigger priority retryRunId db) }

/-- The database with one job put back into the queue. -/
def withRevived (jobId : Nat) (trigger : Trigger) (keepRetryRun : Bool) (db : Db) : Db :=
  { db with
    reviewJobs :=
      db.reviewJobs.update (fun j => j.id == jobId) (revive trigger keepRetryRun) }

/-- A pair gets a queued job, unless it has one that is not canceled by the system: the job's id,
whether anything was queued, and the database. -/
def queueLatest (prId : Nat) (headSha : Sha) (trigger : Trigger) (priority : Int)
    (keepRetryRun : Bool) (db : Db) : (Nat × Bool) × Db :=
  match db.reviewJobs.find? (jobFor prId headSha) with
  | none =>
    ((db.reviewJobs.nextId, true), withNewJob prId headSha trigger priority none db)
  | some row =>
    if SystemCanceled row then ((row.id, true), withRevived row.id trigger keepRetryRun db)
    else ((row.id, false), db)

/-- The row that an enqueue has read is the only one that its `UPDATE` meets. -/
theorem update_read {db : Db} {row : ReviewJob} (hrow : row ∈ db.reviewJobs)
    (hs : row.status = .canceled) (f : ReviewJob → ReviewJob)
    (hf : ∀ j, Row.id (f j) = Row.id j) :
    db.reviewJobs.update
        (fun j => j.id == row.id && j.status == .canceled && j.error == row.error) f hf =
      db.reviewJobs.update (fun j => j.id == row.id) f hf := by
  refine Table.update_congr hf hf (fun j hj => ?_) fun _ _ _ => rfl
  by_cases hid : j.id = row.id
  · have hj' : j = row := Table.eq_of_id hj hrow hid
    simp [hj', hs]
  · have hb : (j.id == row.id) = false := by simp [hid]
    simp [hb]

theorem count_read {db : Db} {row : ReviewJob} (hrow : row ∈ db.reviewJobs)
    (hs : row.status = .canceled) :
    db.reviewJobs.count
      (fun j => j.id == row.id && j.status == .canceled && j.error == row.error) = 1 := by
  refine (Table.count_eq_one (i := row.id) fun j hj => ?_).mpr ⟨row, hrow, by simp [hs]⟩
  simp only [Bool.and_eq_true, beq_iff_eq] at hj
  exact hj.1.1

/-- A job that was just inserted is found, and is not canceled. -/
theorem find?_insert_newJob {db : Db} {prId : Nat} {headSha : Sha}
    (hf : db.reviewJobs.find? (jobFor prId headSha) = none) (trigger : Trigger) (priority : Int)
    (retryRunId : Option Nat) :
    (db.reviewJobs.insert (newJob prId headSha trigger priority retryRunId db.now)).find?
        (jobFor prId headSha) =
      some (newJob prId headSha trigger priority retryRunId db.now db.reviewJobs.nextId) := by
  have hnone : db.reviewJobs.rows.find? (jobFor prId headSha) = none := hf
  simp [Table.find?, Table.insert, List.find?_append, hnone, jobFor, newJob]

theorem queueLatest_new {db : Db} {prId : Nat} {headSha : Sha}
    (hf : db.reviewJobs.find? (jobFor prId headSha) = none) (trigger : Trigger) (priority : Int)
    (keepRetryRun : Bool) :
    queueLatest prId headSha trigger priority keepRetryRun db =
      ((db.reviewJobs.nextId, true), withNewJob prId headSha trigger priority none db) := by
  unfold queueLatest
  rw [hf]

theorem queueLatest_old {db : Db} {prId : Nat} {headSha : Sha} {row : ReviewJob}
    (hf : db.reviewJobs.find? (jobFor prId headSha) = some row) (trigger : Trigger)
    (priority : Int) (keepRetryRun : Bool) :
    queueLatest prId headSha trigger priority keepRetryRun db =
      if SystemCanceled row then ((row.id, true), withRevived row.id trigger keepRetryRun db)
      else ((row.id, false), db) := by
  unfold queueLatest
  rw [hf]

/-- **The automatic enqueue** on a connection: `queueLatest`, committed if asked to. -/
theorem onConn_enqueueWithResult (prId : Nat) (headSha : Sha) (trigger : Trigger)
    (priority : Int) (commit : Bool) (c : Conn Db) :
    ∃ c', (enqueueWithResult prId headSha trigger priority commit).onConn c =
        (.ok (queueLatest prId headSha trigger priority true c.working).1, c') ∧
      c'.working = (queueLatest prId headSha trigger priority true c.working).2 ∧
      c'.committed = if commit then c'.working else c.committed := by
  unfold enqueueWithResult insertJob
  cases hf : c.working.reviewJobs.find? (jobFor prId headSha) with
  | none =>
    have hfind := find?_insert_newJob hf trigger priority none
    rw [queueLatest_new hf]
    cases commit <;> simp [hf, hfind, newJob, withNewJob]
  | some row =>
    have hrow := Table.mem_of_find? hf
    rw [queueLatest_old hf]
    by_cases hc : SystemCanceled row
    · have hs := hc.1
      have hc' : row.status = .canceled ∧ isSystemCancelError row.error = true := hc
      have hrev : requeue trigger = revive trigger true := rfl
      rw [if_pos hc]
      cases commit <;>
        simp [hf, hc', Db.reviewJobTable, update_read hrow hs, count_read hrow hs,
          withRevived, hrev]
    · have hc' : ¬(row.status = .canceled ∧ isSystemCancelError row.error = true) := hc
      rw [if_neg hc]
      cases commit <;> simp [hf, hc']

end JobRepo
