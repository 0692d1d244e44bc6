import AlmightyReview.Job.Enqueue
import AlmightyReview.Lib.Session

/-!
# Enqueue calls, statement by statement

Other connections work on the queue while an enqueue runs. `Stmt` has its statements, each with
its commit; `enqueueCall` and `reviveCall` are the programs of `enqueueWithResult` and
`enqueueOrRevive` over them. A call that nothing interrupts is the function of `Job/Repo`
(`enqueueCall_alone`, `reviveCall_alone`).

An enqueue with `commit=False` is one statement, `Stmt.inTransaction`: its caller holds the write
lock from the `INSERT` to its own commit.
-/

namespace JobRepo

open Prog

/-- A statement of an enqueue. -/
inductive Stmt : Type → Type
  | insert (prId : Nat) (headSha : Sha) (trigger : Trigger) (priority : Int)
    (retryRunId : Option Nat) : Stmt Nat
  | find (prId : Nat) (headSha : Sha) : Stmt (Option ReviewJob)
  | get (jobId : Nat) : Stmt (Option ReviewJob)
  | reviveCanceled (jobId : Nat) (error : Option Text) (trigger : Trigger) : Stmt Nat
  | reviveFinished (jobId : Nat) (trigger : Trigger) (retryRunId : Option Nat) : Stmt Nat
  | promote (jobId : Nat) : Stmt Nat
  | inTransaction (prId : Nat) (headSha : Sha) (trigger : Trigger) (priority : Int) :
    Stmt (Nat × Bool)

theorem id_requeue (trigger : Trigger) (_ : Db) (j : ReviewJob) :
    Row.id (requeue trigger j) = Row.id j := rfl

theorem id_retried (trigger : Trigger) (retryRunId : Option Nat) (_ : Db) (j : ReviewJob) :
    Row.id { requeue trigger j with retryRunId := retryRunId } = Row.id j := rfl

theorem id_promoted (_ : Db) (j : ReviewJob) :
    Row.id { j with trigger := Trigger.manual } = Row.id j := rfl

/-- The statement and its commit. -/
def Stmt.program {β : Type} : Stmt β → Sql Db Exc β
  | .insert prId headSha trigger priority retryRunId => do
    let rowcount ← insertJob prId headSha trigger priority retryRunId
    Sql.commit
    pure rowcount
  | .find prId headSha => Sql.select fun db => db.reviewJobs.find? (jobFor prId headSha)
  | .get jobId => Sql.select fun db => db.reviewJobs.get? jobId
  | .reviveCanceled jobId error trigger => do
    let rowcount ← Sql.updateRows Db.reviewJobTable
      (fun _ j => j.id == jobId && j.status == .canceled && j.error == error)
      (fun _ j => requeue trigger j) (id_requeue trigger)
    Sql.commit
    pure rowcount
  | .reviveFinished jobId trigger retryRunId => do
    let rowcount ← Sql.updateRows Db.reviewJobTable
      (fun _ j => j.id == jobId && isFinished j.status)
      (fun _ j => { requeue trigger j with retryRunId := retryRunId })
      (id_retried trigger retryRunId)
    Sql.commit
    pure rowcount
  | .promote jobId => do
    let rowcount ← Sql.updateRows Db.reviewJobTable
      (fun _ j => j.id == jobId && j.status == .queued && j.trigger == .auto)
      (fun _ j => { j with trigger := .manual }) id_promoted
    Sql.commit
    pure rowcount
  | .inTransaction prId headSha trigger priority => do
    let r ← enqueueWithResult prId headSha trigger priority false
    Sql.commit
    pure r

/-- The row of a `SELECT` that the code subscripts. -/
def subscript {ρ : Type} (row : Option ρ) : Prog Stmt Exc ρ :=
  match row with
  | some r => pure r
  | none => throw (.typeError "'NoneType' object is not subscriptable".toList)

/-- `enqueue_with_result` with its own commits. -/
def enqueueCall (prId : Nat) (headSha : Sha) (trigger : Trigger) (priority : Int) :
    Prog Stmt Exc (Nat × Bool) := do
  let inserted ← perform (.insert prId headSha trigger priority none)
  let row ← subscript (← perform (.find prId headSha))
  if row.status = .canceled ∧ isSystemCancelError row.error then
    let revived ← perform (.reviveCanceled row.id row.error trigger)
    pure (row.id, inserted == 1 || revived == 1)
  else pure (row.id, inserted == 1)

/-- The job of the pair, or the one that was inserted when there was none. -/
def findOrInsert (prId : Nat) (headSha : Sha) (trigger : Trigger) (priority : Int)
    (retryRunId : Option Nat) : Prog Stmt Exc ReviewJob := do
  match ← perform (.find prId headSha) with
  | some row => pure row
  | none =>
    let _ ← perform (.insert prId headSha trigger priority retryRunId)
    subscript (← perform (.find prId headSha))

/-- A manual request takes over a queued automatic job. -/
def promotes (trigger : Trigger) (current : ReviewJob) : Bool :=
  trigger == .manual && current.status == .queued && current.trigger == .auto

/-- The job as the call reads it last. -/
def lastRead (jobId : Nat) (trigger : Trigger) : Prog Stmt Exc ReviewJob := do
  let current ← subscript (← perform (.get jobId))
  if promotes trigger current then
    let _ ← perform (.promote jobId)
    subscript (← perform (.get jobId))
  else pure current

/-- The error of a request for a head at which another review is under way. -/
def otherReview : Exc :=
  .valueError "다른 리뷰 작업이 이미 같은 PR head에서 진행 중입니다".toList

/-- `_enqueue_or_revive`. -/
def reviveCall (prId : Nat) (headSha : Sha) (trigger : Trigger) (priority : Int)
    (retryRunId : Option Nat) : Prog Stmt Exc Nat := do
  let row ← findOrInsert prId headSha trigger priority retryRunId
  when (isFinished row.status) do
    let _ ← perform (.reviveFinished row.id trigger retryRunId)
    pure ()
  let current ← lastRead row.id trigger
  when (conflicts trigger retryRunId current) (throw otherReview)
  pure row.id

/-! ## Calls that nothing interrupts -/

section Implements

/-- Every statement commits. -/
theorem implements_stmt {β : Type} (o : Stmt β) :
    Implements Stmt.program (perform o) o.program := by
  refine implements_perform fun db => ?_
  cases o with
  | inTransaction prId headSha trigger priority =>
    obtain ⟨c, hc, -⟩ := onConn_enqueueWithResult prId headSha trigger priority false (.fresh db)
    simp only [Conn.fresh] at hc
    simp [Stmt.program, Sql.run, hc, Conn.fresh]
  | _ => simp [Stmt.program, Sql.run, Conn.fresh, insertJob]

theorem implements_subscript {ρ : Type} (row : Option ρ) :
    Implements Stmt.program (subscript row) (rowOf row) := by
  cases row
  · exact implements_throw _
  · exact implements_pure _

/-- A statement and its commit, and the rest of the program. -/
theorem implements_commit {α β : Type} {o : Stmt β} {p : Sql Db Exc β} {f : β → Prog Stmt Exc α}
    {g : β → Sql Db Exc α} (ho : o.program = do let r ← p; Sql.commit; pure r)
    (hf : ∀ r, Implements Stmt.program (f r) (g r)) :
    Implements Stmt.program (perform o >>= f) (do let r ← p; Sql.commit; g r) := by
  have h := implements_bind (implements_stmt o) hf
  rwa [ho, Sql.bind_assoc] at h

theorem enqueueCall_alone (prId : Nat) (headSha : Sha) (trigger : Trigger) (priority : Int)
    (db : Db) : alone (execSql Stmt.program) (enqueueCall prId headSha trigger priority) db =
      (enqueueWithResult prId headSha trigger priority true).run db := by
  refine Implements.run_eq ?_ db
  refine implements_commit rfl fun inserted => ?_
  refine implements_bind (implements_stmt (.find prId headSha)) fun row => ?_
  cases row with
  | none => exact implements_throw _
  | some row =>
    refine implements_ite (fun _ => ?_) fun _ => implements_pure _
    exact implements_commit rfl fun _ => implements_pure _

theorem reviveCall_alone (prId : Nat) (headSha : Sha) (trigger : Trigger) (priority : Int)
    (retryRunId : Option Nat) (db : Db) :
    alone (execSql Stmt.program) (reviveCall prId headSha trigger priority retryRunId) db =
      (enqueueOrRevive prId headSha trigger priority retryRunId).run db := by
  refine Implements.run_eq ?_ db
  have hrow : Implements Stmt.program (findOrInsert prId headSha trigger priority retryRunId)
      (jobOrInsert prId headSha trigger priority retryRunId) := by
    refine implements_bind (implements_stmt (.find prId headSha)) fun row => ?_
    cases row with
    | some row => exact implements_pure _
    | none =>
      refine implements_commit rfl fun _ => ?_
      exact implements_bind (implements_stmt (.find prId headSha)) implements_subscript
  have hlast : ∀ jobId, Implements Stmt.program (lastRead jobId trigger) (do
      let found ← rowOf (← Sql.select fun db => db.reviewJobs.get? jobId)
      if trigger = .manual ∧ found.status = .queued ∧ found.trigger = .auto then promote jobId
      else pure found) := by
    intro jobId
    refine implements_bind (implements_stmt (.get jobId)) fun row => ?_
    refine implements_bind (implements_subscript row) fun current => ?_
    by_cases hp : trigger = .manual ∧ current.status = .queued ∧ current.trigger = .auto
    · have hp' : promotes trigger current = true := by simp [promotes, hp]
      rw [if_pos hp, if_pos hp']
      refine implements_commit rfl fun _ => ?_
      exact implements_bind (implements_stmt (.get jobId)) implements_subscript
    · have hp' : promotes trigger current ≠ true := by simpa [promotes, and_assoc] using hp
      rw [if_neg hp, if_neg hp']
      exact implements_pure _
  refine implements_bind hrow fun row => ?_
  refine implements_bind (implements_when fun _ => ?_) fun _ => ?_
  · exact implements_commit rfl fun _ => implements_pure _
  · have h := implements_bind (hlast row.id) fun current =>
      implements_bind (implements_when (q := throw otherReview)
        (c := conflicts trigger retryRunId current = true) fun _ => implements_throw otherReview)
        fun _ => implements_pure row.id
    simp only [Sql.bind_assoc] at h
    exact h

end Implements

end JobRepo
