import AlmightyReview.Job.Repo
import AlmightyReview.Job.Process

/-!
# What the operations on the queue do to a job

A dozen statements in two modules write `review_job`. Each of them does one of a few things to a
row; every invariant of the jobs is derived from that.

* `EnqueueStep j j'`: what an enqueue makes of a row, and `AutoStep j j'`: what the automatic
  enqueue makes of it. `RowStep j j'`: what any statement makes of a row, the claim (`claimed`) and
  the terminal updates (`Terminal.apply`) apart.
* `JobsStep R`: a statement that changes rows as `R` allows, or inserts a job of a new pair.
  `Steady R I`: such statements keep `I`. Every operation keeps a steady invariant
  (`background_preserves`, `enqueueWithResult_preserves`, ..).
* `AllJobs Q`: `Q` of every job; `Stable Q`: what keeps it.
* `Background`: the operations that enqueue, cancel and recover; `Terminal`: the updates by which
  an attempt ends its job. `run_terminal` says what a terminal update does: the job of its owner
  ends, or `LeaseLostError` and nothing.
* `run_claimNext` says what a claim does.
-/

namespace JobRepo

open Sql

/-! ## Rows -/

/-- A job that the system canceled, and not a user. -/
def SystemCanceled (j : ReviewJob) : Prop :=
  j.status = .canceled ∧ isSystemCancelError j.error = true

instance (j : ReviewJob) : Decidable (SystemCanceled j) :=
  inferInstanceAs (Decidable (_ ∧ _))

/-- What the automatic enqueue makes of a row. -/
def AutoStep (j j' : ReviewJob) : Prop :=
  SystemCanceled j ∧ ∃ trigger, j' = requeue trigger j

/-- What an enqueue makes of a row. -/
inductive EnqueueStep : ReviewJob → ReviewJob → Prop
  | promoted (j : ReviewJob) : j.status = .queued → EnqueueStep j { j with trigger := .manual }
  | requeued (j : ReviewJob) (trigger : Trigger) (retryRunId : Option Nat) :
    isFinished j.status = true → EnqueueStep j { requeue trigger j with retryRunId }

/-- What a statement other than the claim and the terminal updates makes of a row. -/
inductive RowStep : ReviewJob → ReviewJob → Prop
  | enqueue {j j' : ReviewJob} : EnqueueStep j j' → RowStep j j'
  | canceled (j : ReviewJob) (error : Text) : isActive j.status = true →
    RowStep j { unlocked j with status := .canceled, error := some error }
  | dequeued (j : ReviewJob) (error : Text) : j.status = .queued →
    RowStep j { j with status := .canceled, error := some error, lockedBy := none }
  | recovered (j : ReviewJob) : j.status = .running →
    RowStep j { unlocked j with status := .queued, error := some ProcessRepo.recoveredError }

theorem AutoStep.enqueueStep {j j' : ReviewJob} (h : AutoStep j j') : EnqueueStep j j' := by
  obtain ⟨⟨hs, -⟩, trigger, rfl⟩ := h
  exact .requeued j trigger j.retryRunId (by rw [hs]; rfl)

theorem EnqueueStep.not_running {j j' : ReviewJob} (h : EnqueueStep j j') :
    j.status ≠ .running := by
  cases h with
  | promoted hs => simp [hs]
  | requeued trigger retryRunId hs =>
    intro hr
    rw [hr] at hs
    exact absurd hs (by decide)

/-- No statement changes the pair of a job. -/
theorem RowStep.pair {j j' : ReviewJob} (h : RowStep j j') :
    j'.prId = j.prId ∧ j'.headSha = j.headSha := by
  cases h with
  | enqueue he => cases he <;> exact ⟨rfl, rfl⟩
  | canceled => exact ⟨rfl, rfl⟩
  | dequeued => exact ⟨rfl, rfl⟩
  | recovered => exact ⟨rfl, rfl⟩

/-! ## Statements -/

/-- A statement that inserts a job of a new pair, changes jobs as `R` allows, or leaves
`review_job` as it is. -/
inductive JobsStep (R : ReviewJob → ReviewJob → Prop) (db db' : Db) : Prop
  | frame : db'.reviewJobs = db.reviewJobs → JobsStep R db db'
  | insert (prId : Nat) (headSha : Sha) (trigger : Trigger) (priority : Int)
    (retryRunId : Option Nat) : db.reviewJobs.find? (jobFor prId headSha) = none →
    db'.reviewJobs = db.reviewJobs.insert (newJob prId headSha trigger priority retryRunId db.now) →
    JobsStep R db db'
  | update (p : ReviewJob → Bool) (f : ReviewJob → ReviewJob)
    (hf : ∀ j, Row.id (f j) = Row.id j) : (∀ j ∈ db.reviewJobs, p j = true → R j (f j)) →
    db'.reviewJobs = db.reviewJobs.update p f hf → JobsStep R db db'

/-- Such statements keep `I`. -/
def Steady (R : ReviewJob → ReviewJob → Prop) (I : Db → Prop) : Prop :=
  ∀ {db db'}, I db → JobsStep R db db' → I db'

theorem Steady.anti {R R' : ReviewJob → ReviewJob → Prop} {I : Db → Prop} (h : Steady R I)
    (hR : ∀ {j j'}, R' j j' → R j j') : Steady R' I := by
  intro db db' hdb hs
  refine h hdb ?_
  cases hs with
  | frame hs => exact .frame hs
  | insert prId headSha trigger priority retryRunId hf hs =>
    exact .insert prId headSha trigger priority retryRunId hf hs
  | update p f hf hr hs => exact .update p f hf (fun j hj hp => hR (hr j hj hp)) hs

/-- `Q` of every job. -/
def AllJobs (Q : ReviewJob → Prop) (db : Db) : Prop := ∀ j ∈ db.reviewJobs, Q j

/-- `Q` of every job is steady when it holds of new jobs and `R` keeps it. -/
theorem Steady.allJobs {R : ReviewJob → ReviewJob → Prop} {Q : ReviewJob → Prop}
    (hnew : ∀ prId headSha trigger priority retryRunId now id,
      Q (newJob prId headSha trigger priority retryRunId now id))
    (hstep : ∀ {j j'}, Q j → R j j' → Q j') : Steady R (AllJobs Q) := by
  intro db db' h hs
  unfold AllJobs
  cases hs with
  | frame hs => rwa [hs]
  | insert prId headSha trigger priority retryRunId hf hs =>
    rw [hs]
    exact Table.forall_insert h (hnew ..)
  | update p f hf hr hs =>
    rw [hs]
    exact Table.forall_update h (fun j hj hp => hstep (h j hj) (hr j hj hp)) hf

/-! ## Operations -/

section Preserves

variable {R : ReviewJob → ReviewJob → Prop} {I : Db → Prop} (hI : Steady R I)

include hI

theorem preserves_updateJobs {p : Db → ReviewJob → Bool} {f : Db → ReviewJob → ReviewJob}
    {hf : ∀ db r, Row.id (f db r) = Row.id r} (h : ∀ db j, p db j = true → R j (f db j)) :
    Preserves I (updateRows Db.reviewJobTable p f hf : Sql Db Exc Nat) :=
  preserves_execute fun db hdb =>
    hI hdb (.update (p db) (f db) (hf db) (fun j _ hp => h db j hp) rfl)

/-- A statement that leaves `review_job` as it is. -/
theorem preserves_frame {α : Type} {f : Db → Db × α}
    (h : ∀ db, (f db).1.reviewJobs = db.reviewJobs) :
    Preserves I (execute f : Sql Db Exc α) :=
  preserves_execute fun db hdb => hI hdb (.frame (h db))

omit hI in
theorem preserves_rowOf {ρ : Type} (row : Option ρ) : Preserves I (rowOf row) := by
  cases row
  · exact preserves_throw _
  · exact preserves_pure _

theorem insertJob_preserves (prId : Nat) (headSha : Sha) (trigger : Trigger) (priority : Int)
    (retryRunId : Option Nat) :
    Preserves I (insertJob prId headSha trigger priority retryRunId) := by
  refine preserves_execute fun db hdb => ?_
  cases hf : db.reviewJobs.find? (jobFor prId headSha) with
  | some j => exact hdb
  | none => exact hI hdb (.insert prId headSha trigger priority retryRunId hf rfl)

omit hI in
theorem enqueueWithResult_preserves (hI : Steady AutoStep I) (prId : Nat) (headSha : Sha)
    (trigger : Trigger) (priority : Int) (commit : Bool) :
    Preserves I (enqueueWithResult prId headSha trigger priority commit) := by
  refine preserves_bind (insertJob_preserves hI _ _ _ _ _) fun inserted => ?_
  refine preserves_bind (preserves_when fun _ => preserves_commit) fun _ => ?_
  refine preserves_bind (preserves_select _) fun row => ?_
  split
  · exact preserves_throw _
  · rename_i row
    refine preserves_ite (fun hc => ?_) fun _ => preserves_pure _
    refine preserves_bind (preserves_updateJobs hI fun db j hp => ?_) fun _ => ?_
    · simp only [Bool.and_eq_true, beq_iff_eq] at hp
      exact ⟨⟨hp.1.2, hp.2 ▸ hc.2⟩, trigger, rfl⟩
    · exact preserves_bind (preserves_when fun _ => preserves_commit) fun _ => preserves_pure _

omit hI in
theorem enqueueOrRevive_preserves (hI : Steady EnqueueStep I) (prId : Nat) (headSha : Sha)
    (trigger : Trigger) (priority : Int) (retryRunId : Option Nat) :
    Preserves I (enqueueOrRevive prId headSha trigger priority retryRunId) := by
  have hrow : Preserves I (jobOrInsert prId headSha trigger priority retryRunId) := by
    refine preserves_bind (preserves_select _) fun row? => ?_
    split
    · exact preserves_pure _
    · exact preserves_bind (insertJob_preserves hI _ _ _ _ _) fun _ =>
        preserves_bind preserves_commit fun _ =>
          preserves_bind (preserves_select _) fun _ => preserves_rowOf _
  have hpromote : ∀ jobId, Preserves I (promote jobId) := by
    intro jobId
    refine preserves_bind (preserves_updateJobs hI fun db j hp => ?_) fun _ => ?_
    · simp only [Bool.and_eq_true, beq_iff_eq] at hp
      exact .promoted j hp.1.2
    · exact preserves_bind preserves_commit fun _ =>
        preserves_bind (preserves_select _) fun _ => preserves_rowOf _
  refine preserves_bind hrow fun row => ?_
  refine preserves_bind (preserves_when fun _ => ?_) fun _ => ?_
  · refine preserves_bind (preserves_updateJobs hI fun db j hp => ?_) fun _ => preserves_commit
    simp only [Bool.and_eq_true] at hp
    exact .requeued j trigger retryRunId hp.2
  · refine preserves_bind (preserves_select _) fun _ => ?_
    refine preserves_bind (preserves_rowOf _) fun found => ?_
    refine preserves_bind (preserves_ite (fun _ => hpromote _) fun _ => preserves_pure _)
      fun current => ?_
    exact preserves_bind (preserves_when fun _ => preserves_throw _) fun _ => preserves_pure _

omit hI in
theorem cancelStaleAndEnqueueLatest_preserves (hI : Steady RowStep I) (jobId : Nat)
    (owner : Option ProcessId) : Preserves I (cancelStaleAndEnqueueLatest jobId owner) := by
  refine preserves_tryCatch ?_ fun e => preserves_bind preserves_rollback fun _ =>
    preserves_throw e
  refine preserves_bind preserves_beginImmediate fun _ => ?_
  refine preserves_bind (preserves_select _) fun job? => ?_
  split
  · exact preserves_bind preserves_rollback fun _ => preserves_pure _
  · refine preserves_bind (preserves_select _) fun pr => ?_
    refine preserves_bind (preserves_updateJobs hI fun db j hp => ?_) fun _ => ?_
    · simp only [Bool.and_eq_true] at hp
      exact .canceled j staleHeadCancelError hp.1.2
    split
    · exact preserves_bind preserves_commit fun _ => preserves_pure _
    · refine preserves_bind (insertJob_preserves hI _ _ _ _ _) fun _ => ?_
      refine preserves_bind (preserves_select _) fun _ => ?_
      refine preserves_bind (preserves_rowOf _) fun latest => ?_
      refine preserves_bind (preserves_when fun _ => ?_) fun _ =>
        preserves_bind preserves_commit fun _ => preserves_pure _
      refine preserves_bind (preserves_updateJobs hI fun db j hp => ?_) fun _ => preserves_pure _
      simp only [Bool.and_eq_true, beq_iff_eq] at hp
      exact .enqueue (.requeued j _ none (by rw [hp.1.2]; rfl))

omit hI in
theorem cancelQueued_preserves (hI : Steady RowStep I) (prId : Nat) (error : Text) :
    Preserves I (cancelQueued prId error) := by
  refine preserves_bind (preserves_updateJobs hI fun db j hp => ?_) fun _ =>
    preserves_bind preserves_commit fun _ => preserves_pure _
  simp only [Bool.and_eq_true, beq_iff_eq] at hp
  exact .dequeued j error hp.2

omit hI in
theorem recoverExpired_preserves (hI : Steady RowStep I) (minutes : Nat) :
    Preserves I (ProcessRepo.recoverExpired minutes) := by
  refine preserves_transaction ?_
  refine preserves_bind (preserves_updateJobs hI fun db j hp => ?_) fun _ => ?_
  · simp only [ProcessRepo.jobExpired, Bool.and_eq_true, beq_iff_eq] at hp
    exact .recovered j hp.1
  · refine preserves_bind (preserves_select _) fun runIds => ?_
    refine preserves_bind (preserves_ite (fun _ => ?_) fun _ => preserves_pure _) fun _ => ?_
    · exact preserves_bind (preserves_frame hI fun _ => rfl) fun _ =>
        preserves_frame hI fun _ => rfl
    · exact preserves_bind (preserves_frame hI fun _ => rfl) fun _ =>
        preserves_bind (preserves_frame hI fun _ => rfl) fun _ => preserves_pure _

end Preserves

/-! ## Claim -/

theorem nextJob_mem {db : Db} {j : ReviewJob} (h : nextJob db = some j) :
    j ∈ db.reviewJobs ∧ ready db.now j = true := by
  have hm := List.mem_of_mem_head? h
  rw [List.mem_insertionSort, List.mem_filter] at hm
  exact hm

theorem id_claimed (workerId : Text) (owner : Option ProcessId) (db : Db) (j : ReviewJob) :
    Row.id (claimed workerId owner db.now j) = Row.id j := rfl

/-- The database after a claim of `row`. -/
def claimedDb (workerId : Text) (owner : Option ProcessId) (row : ReviewJob) (db : Db) : Db :=
  { db with
    reviewJobs :=
      db.reviewJobs.update (fun j => j.id == row.id) (claimed workerId owner db.now)
        (id_claimed workerId owner db) }

/-- **The claim.** It takes the next job, or does nothing. -/
theorem run_claimNext (workerId : Text) (owner : Option ProcessId) (locked : Bool) (db : Db) :
    (claimNext workerId owner locked).run db =
      match (if locked then none else nextJob db) with
      | none => (.ok none, db)
      | some row =>
        (.ok (some (claimed workerId owner db.now row)), claimedDb workerId owner row db) := by
  cases locked with
  | true => rfl
  | false =>
    cases hn : nextJob db with
    | none => simp [claimNext, run, Conn.fresh, hn]
    | some row =>
      obtain ⟨hrow, -⟩ := nextJob_mem hn
      have hget : (claimedDb workerId owner row db).reviewJobs.get? row.id =
          some (claimed workerId owner db.now row) := by
        rw [Table.get?_eq_some, claimedDb, Table.mem_update]
        exact ⟨⟨row, hrow, by simp⟩, rfl⟩
      simp only [claimNext, run, Conn.fresh, onConn_bind, onConn_beginImmediate,
        onConn_select, hn, onConn_updateRows, onConn_commit, Bool.false_eq_true, if_false]
      exact congrArg (fun r => (Except.ok r, claimedDb workerId owner row db)) hget

/-- A claim keeps `Q` of every job when `claimed` does. -/
theorem claimNext_allJobs {Q : ReviewJob → Prop} {workerId : Text} {owner : Option ProcessId}
    (locked : Bool) (hQ : ∀ now j, Q j → Q (claimed workerId owner now j)) {db : Db}
    (h : AllJobs Q db) : AllJobs Q ((claimNext workerId owner locked).run db).2 := by
  rw [run_claimNext]
  split
  · exact h
  · exact Table.forall_update h fun j hj _ => hQ db.now j (h j hj)

/-! ## Terminal updates -/

/-- The three ways in which an attempt ends its job. -/
inductive Terminal where
  | done (runId : Nat)
  | canceled (error : Text)
  | failed (error : Text) (retry : Bool) (runId : Option Nat)

/-- `mark_done`, `mark_canceled` or `mark_failed` of the job. -/
def Terminal.program (jobId : Nat) (ownerProcessId : Option ProcessId) :
    Terminal → Sql Db Exc Unit
  | .done runId => markDone jobId runId ownerProcessId
  | .canceled error => markCanceled jobId error ownerProcessId
  | .failed error retry runId => markFailed jobId error retry runId ownerProcessId

/-- The job after a terminal update. -/
def Terminal.apply (now : Time) : Terminal → ReviewJob → ReviewJob
  | .done runId, j => { unlocked j with status := .done, runId := some runId }
  | .canceled error, j => { unlocked j with status := .canceled, error := some error }
  | .failed error retry runId, j =>
    if retry ∧ j.attempts < j.maxAttempts then
      { unlocked j with
        status := .queued, error := some error, runId := coalesce runId j.runId,
        nextRunAt := some (now + 2 ^ j.attempts * 60) }
    else
      { unlocked j with status := .failed, error := some error, runId := coalesce runId j.runId }

theorem Terminal.id_apply (now : Time) (u : Terminal) (j : ReviewJob) :
    Row.id (u.apply now j) = Row.id j := by
  cases u with
  | done => rfl
  | canceled => rfl
  | failed =>
    unfold apply
    simp only
    split <;> rfl

/-- The rows that a terminal update of the job by this owner meets. -/
def owns (jobId : Nat) (ownerProcessId : Option ProcessId) (j : ReviewJob) : Bool :=
  j.id == jobId && mayUpdate ownerProcessId j

theorem id_of_owns {jobId : Nat} {owner : Option ProcessId} {j : ReviewJob}
    (h : owns jobId owner j = true) : Row.id j = jobId := by
  simp [owns] at h
  exact h.1

/-- The database after the terminal update of a job that `owner` owns. -/
def Terminal.ended (jobId : Nat) (owner : Option ProcessId) (u : Terminal) (db : Db) : Db :=
  { db with reviewJobs :=
      db.reviewJobs.update (owns jobId owner) (u.apply db.now) (u.id_apply db.now) }

/-- An update by key and owner, and the test of its row count. -/
private theorem run_updateOwned {f : Db → ReviewJob → ReviewJob}
    {hf : ∀ db r, Row.id (f db r) = Row.id r} (jobId : Nat) (owner : Option ProcessId) (db : Db) :
    (do let rowcount ← updateRows Db.reviewJobTable (fun _ j => owns jobId owner j) f hf
        when (rowcount ≠ 1) (throw (leaseLost jobId))
        commit : Sql Db Exc Unit).run db =
      if ∃ j ∈ db.reviewJobs, owns jobId owner j = true then
        (.ok (), { db with reviewJobs := db.reviewJobs.update (owns jobId owner) (f db) (hf db) })
      else (.error (leaseLost jobId), db) := by
  have hc := Table.count_eq_one (t := db.reviewJobs) (p := owns jobId owner) fun _ => id_of_owns
  by_cases h : ∃ j ∈ db.reviewJobs, owns jobId owner j = true
  · rw [if_pos h]
    simp [run, Conn.fresh, Db.reviewJobTable, hc.mpr h]
  · rw [if_neg h]
    have h1 : db.reviewJobs.count (owns jobId owner) ≠ 1 := fun h' => h (hc.mp h')
    simp [run, Conn.fresh, Db.reviewJobTable, h1]

/-- **Terminal updates.** The job of the owner ends, and nothing else changes; when the owner has
no such job, `LeaseLostError` is raised and nothing changes. -/
theorem run_terminal (u : Terminal) (jobId : Nat) (owner : Option ProcessId) (db : Db) :
    (u.program jobId owner).run db =
      if ∃ j ∈ db.reviewJobs, owns jobId owner j = true then
        (.ok (), u.ended jobId owner db)
      else (.error (leaseLost jobId), db) := by
  cases u with
  | done runId => exact run_updateOwned jobId owner db
  | canceled error => exact run_updateOwned jobId owner db
  | failed error retry runId =>
    unfold Terminal.program markFailed
    by_cases h : ∃ j ∈ db.reviewJobs, owns jobId owner j = true
    · obtain ⟨row, hrow, ho⟩ := h
      have hid := id_of_owns ho
      have hmay : mayUpdate owner row = true := by simp [owns] at ho; exact ho.2
      have hget : db.reviewJobs.get? jobId = some row := Table.get?_eq_some.mpr ⟨hrow, hid⟩
      -- the branch is decided on the row that was read, which is the only row of the update
      have hrow' : ∀ j ∈ db.reviewJobs, owns jobId owner j = true → j = row := fun j hj hp =>
        Table.eq_of_id hj hrow ((id_of_owns hp).trans hid.symm)
      rw [if_pos ⟨row, hrow, ho⟩]
      by_cases hr : retry = true ∧ row.attempts < row.maxAttempts
      · have he := Table.update_congr (t := db.reviewJobs) (p := owns jobId owner)
          (f := fun j => { unlocked j with
            status := .queued, error := some error, runId := coalesce runId j.runId,
            nextRunAt := some (db.now + 2 ^ j.attempts * 60) })
          (fun _ => rfl) (Terminal.id_apply db.now (.failed error retry runId)) (fun _ _ => rfl)
          (fun j hj hp => by rw [hrow' j hj hp]; simp [Terminal.apply, hr])
        simp only [run, Conn.fresh, onConn_bind, onConn_select, hget, onConn_when, hmay,
          Bool.not_true, Bool.false_eq_true, if_false, if_pos hr, onConn_commit,
          Terminal.ended, ← he]
        rfl
      · have he := Table.update_congr (t := db.reviewJobs) (p := owns jobId owner)
          (f := fun j => { unlocked j with
            status := .failed, error := some error, runId := coalesce runId j.runId })
          (fun _ => rfl) (Terminal.id_apply db.now (.failed error retry runId)) (fun _ _ => rfl)
          (fun j hj hp => by rw [hrow' j hj hp]; simp only [Terminal.apply, if_neg hr])
        simp only [run, Conn.fresh, onConn_bind, onConn_select, hget, onConn_when, hmay,
          Bool.not_true, Bool.false_eq_true, if_false, if_neg hr, onConn_commit,
          Terminal.ended, ← he]
        rfl
    · rw [if_neg h]
      cases hget : db.reviewJobs.get? jobId with
      | none => simp [run, Conn.fresh, hget]
      | some row =>
        obtain ⟨hrow, hid⟩ := Table.get?_eq_some.mp hget
        have hmay : mayUpdate owner row = false := by
          by_contra hm
          have hid' : row.id = jobId := hid
          exact h ⟨row, hrow, by simpa [owns, hid'] using hm⟩
        simp [run, Conn.fresh, hget, hmay]

/-! ## The other operations -/

/-- The operations that enqueue, cancel and recover jobs. -/
inductive Background where
  | enqueue (prId : Nat) (headSha : Sha) (trigger : Trigger) (priority : Int) (commit : Bool)
  | enqueueManual (prId : Nat) (headSha : Sha) (priority : Int)
  | enqueueRetry (prId : Nat) (headSha : Sha) (runId : Nat)
  | cancelStaleAndEnqueueLatest (jobId : Nat) (owner : Option ProcessId)
  | cancelQueued (prId : Nat) (error : Text)
  | recoverExpired (minutes : Nat)

/-- The operation as its caller runs it. The caller of an enqueue without a commit commits. -/
def Background.program : Background → Sql Db Exc Unit
  | .enqueue prId headSha trigger priority commit => do
    let _ ← JobRepo.enqueueWithResult prId headSha trigger priority commit
    when (!commit) Sql.commit
  | .enqueueManual prId headSha priority => do
    let _ ← JobRepo.enqueueManual prId headSha priority
    pure ()
  | .enqueueRetry prId headSha runId => do
    let _ ← JobRepo.enqueueRetry prId headSha runId
    pure ()
  | .cancelStaleAndEnqueueLatest jobId owner => do
    let _ ← JobRepo.cancelStaleAndEnqueueLatest jobId owner
    pure ()
  | .cancelQueued prId error => do
    let _ ← JobRepo.cancelQueued prId error
    pure ()
  | .recoverExpired minutes => do
    let _ ← ProcessRepo.recoverExpired minutes
    pure ()

theorem background_preserves {I : Db → Prop} (hI : Steady RowStep I) (b : Background) :
    Preserves I b.program := by
  have henq : Steady EnqueueStep I := hI.anti .enqueue
  cases b with
  | enqueue prId headSha trigger priority commit =>
    exact preserves_bind (enqueueWithResult_preserves (henq.anti AutoStep.enqueueStep) prId headSha
      trigger priority commit) fun _ => preserves_when fun _ => preserves_commit
  | enqueueManual prId headSha priority =>
    exact preserves_bind (enqueueOrRevive_preserves henq prId headSha .manual priority none)
      fun _ => preserves_pure _
  | enqueueRetry prId headSha runId =>
    exact preserves_bind (enqueueOrRevive_preserves henq prId headSha .retry 0 (some runId))
      fun _ => preserves_pure _
  | cancelStaleAndEnqueueLatest jobId owner =>
    exact preserves_bind (cancelStaleAndEnqueueLatest_preserves hI jobId owner)
      fun _ => preserves_pure _
  | cancelQueued prId error =>
    exact preserves_bind (cancelQueued_preserves hI prId error) fun _ => preserves_pure _
  | recoverExpired minutes =>
    exact preserves_bind (recoverExpired_preserves hI minutes) fun _ => preserves_pure _

/-! ## Every job -/

/-- `Q` holds of new jobs, and every statement other than the claim keeps it. -/
structure Stable (Q : ReviewJob → Prop) : Prop where
  new : ∀ prId headSha trigger priority retryRunId now id,
    Q (newJob prId headSha trigger priority retryRunId now id)
  step : ∀ {j j'}, Q j → RowStep j j' → Q j'
  ended : ∀ {j} now (u : Terminal), Q j → Q (u.apply now j)

theorem Stable.background {Q : ReviewJob → Prop} (hQ : Stable Q) (b : Background) {db : Db}
    (h : AllJobs Q db) : AllJobs Q (b.program.run db).2 :=
  preserves_run (background_preserves (Steady.allJobs hQ.new hQ.step) b) h

theorem Stable.terminal {Q : ReviewJob → Prop} (hQ : Stable Q) (u : Terminal) (jobId : Nat)
    (owner : Option ProcessId) {db : Db} (h : AllJobs Q db) :
    AllJobs Q ((u.program jobId owner).run db).2 := by
  rw [run_terminal]
  split
  · exact Table.forall_update h (fun j hj _ => hQ.ended db.now u (h j hj)) (u.id_apply db.now)
  · exact h

end JobRepo
