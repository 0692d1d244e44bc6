import AlmightyReview.Db
import Mathlib.Data.List.Sort

/-!
# Wiki requests

The functions of `wiki_repo` that write. `markGenerating` registers the request for a page,
`claimNext` takes the oldest request that nobody works on, `scheduleRetry`, `save` and `markFailed`
end the work on it, and `recoverStaleGenerations` fails requests that were never taken.

* `replaceable`: the `WHERE` of the registration. A request is replaced when it is finished, or was
  not claimed for long.
* `written`: the upsert of `save` and `markFailed`, which a row of another owner refuses.
* `run_markGenerating`, `run_claimNext`: what the two do to the table.
-/

namespace WikiRepo

open Sql

/-- `GENERATION_STALE_MINUTES`. -/
def generationStaleMinutes : Nat := 30

/-- `DEFAULT_MAX_ATTEMPTS`. -/
def defaultMaxAttempts : Nat := 3

/-- A row that the registration inserts. -/
def newRequest (repoId : Nat) (now : Time) : WikiPage where
  repoId := repoId
  status := .generating
  error := none
  attempts := 0
  maxAttempts := defaultMaxAttempts
  nextRunAt := none
  lockedBy := none
  lockedAt := none
  ownerProcessId := none
  updatedAt := now

/-- The row after the registration of another request; its owner stays. -/
def renewed (now : Time) (w : WikiPage) : WikiPage :=
  { w with status := .generating, attempts := 0, maxAttempts := defaultMaxAttempts,
           nextRunAt := none, lockedBy := none, lockedAt := none, error := none, updatedAt := now }

/-- Nothing is generated, or nobody has claimed the request for long. -/
def replaceable (now : Time) (w : WikiPage) : Bool :=
  w.status != .generating ||
    (w.lockedAt.isNone && decide (w.updatedAt + generationStaleMinutes * 60 ≤ now))

/-- `INSERT .. ON CONFLICT(repo_id) DO UPDATE`; the number of rows. -/
def registered (repoId : Nat) (db : Db) : Db × Nat :=
  match db.wikiPages.get? repoId with
  | none => ({ db with wikiPages := db.wikiPages.put (newRequest repoId db.now) }, 1)
  | some w =>
    if replaceable db.now w then
      ({ db with
        wikiPages := db.wikiPages.update (fun w => w.repoId == repoId) (renewed db.now) }, 1)
    else (db, 0)

/-- A request for the page is registered; whether this call did it. -/
def markGenerating (repoId : Nat) : Sql Db Exc Bool := do
  let unknown ← select fun db =>
    (db.wikiPages.get? repoId).isNone && (db.repos.get? repoId).isNone
  when unknown (throw (.integrityError "FOREIGN KEY constraint failed".toList))
  let rowcount ← execute (registered repoId)
  commit
  pure (rowcount == 1)

/-- The request waits and its backoff is over. -/
def claimable (now : Time) (w : WikiPage) : Bool :=
  w.status == .generating && w.lockedAt.isNone &&
    (match w.nextRunAt with | none => true | some t => t ≤ now)

/-- `ORDER BY COALESCE(next_run_at, updated_at), repo_id`. -/
def requestedBefore (v w : WikiPage) : Prop :=
  v.nextRunAt.getD v.updatedAt < w.nextRunAt.getD w.updatedAt ∨
    v.nextRunAt.getD v.updatedAt = w.nextRunAt.getD w.updatedAt ∧ v.repoId ≤ w.repoId

instance : DecidableRel requestedBefore := fun v w =>
  inferInstanceAs (Decidable (v.nextRunAt.getD v.updatedAt < w.nextRunAt.getD w.updatedAt ∨
    v.nextRunAt.getD v.updatedAt = w.nextRunAt.getD w.updatedAt ∧ v.repoId ≤ w.repoId))

def nextRequest (db : Db) : Option WikiPage :=
  ((db.wikiPages.rows.filter (claimable db.now)).insertionSort requestedBefore).head?

def claimed (workerId : Text) (ownerProcessId : Option ProcessId) (now : Time) (w : WikiPage) :
    WikiPage :=
  { w with lockedBy := some workerId, lockedAt := some now, ownerProcessId := ownerProcessId,
           attempts := w.attempts + 1, nextRunAt := none }

/-- The oldest request that nobody works on is claimed; `none` when there is none or the database is
locked. -/
def claimNext (workerId : Text) (ownerProcessId : Option ProcessId) (locked : Bool) :
    Sql Db Exc (Option Nat) := do
  if locked then
    pure none
  else
    beginImmediate
    match ← select nextRequest with
    | none =>
      rollback
      pure none
    | some row =>
      let _ ← updateRows Db.wikiPageTable
        (fun _ w => w.repoId == row.repoId && w.status == .generating && w.lockedAt.isNone)
        (fun db w => claimed workerId ownerProcessId db.now w)
      commit
      pure (some row.repoId)

/-- `? IS NULL OR owner_process_id = ?` -/
def ownedBy (ownerProcessId : Option ProcessId) (w : WikiPage) : Bool :=
  ownerProcessId.isNone || w.ownerProcessId == ownerProcessId

/-- The request waits again after a backoff that doubles, if it has an attempt left; whether it
does. -/
def scheduleRetry (repoId : Nat) (error : Text) (baseSeconds : Nat)
    (ownerProcessId : Option ProcessId) : Sql Db Exc Bool := do
  match ← select fun db => db.wikiPages.get? repoId with
  | none => pure false
  | some row =>
    if row.maxAttempts ≤ row.attempts then
      pure false
    else
      let delay := baseSeconds * 2 ^ (row.attempts - 1)
      let rowcount ← updateRows Db.wikiPageTable
        (fun _ w => w.repoId == repoId && w.status == .generating && ownedBy ownerProcessId w)
        (fun db w => { w with
          status := .generating, error := some (error.take 1000),
          nextRunAt := some (db.now + delay),
          lockedBy := none, lockedAt := none, ownerProcessId := none, updatedAt := db.now })
      commit
      pure (rowcount == 1)

/-- `INSERT .. ON CONFLICT(repo_id) DO UPDATE .. WHERE ? IS NULL OR owner_process_id = ?`; the
number of rows. -/
def written (new : WikiPage) (f : WikiPage → WikiPage) (hf : ∀ w, (f w).repoId = w.repoId)
    (ownerProcessId : Option ProcessId) (db : Db) : Db × Nat :=
  match db.wikiPages.get? new.repoId with
  | none => ({ db with wikiPages := db.wikiPages.put new }, 1)
  | some w =>
    if ownedBy ownerProcessId w then
      ({ db with wikiPages := db.wikiPages.update (fun w => w.repoId == new.repoId) f hf }, 1)
    else (db, 0)

/-- A row that ends with `status`. -/
def ended (status : WikiStatus) (error : Option Text) (now : Time) (w : WikiPage) : WikiPage :=
  { w with status := status, error := error, nextRunAt := none, lockedBy := none, lockedAt := none,
           ownerProcessId := none, updatedAt := now }

/-- The row is written, with its repository there; the number of rows. -/
def store (repoId : Nat) (status : WikiStatus) (error : Option Text)
    (ownerProcessId : Option ProcessId) : Sql Db Exc Nat := do
  let unknown ← select fun db =>
    (db.wikiPages.get? repoId).isNone && (db.repos.get? repoId).isNone
  when unknown (throw (.integrityError "FOREIGN KEY constraint failed".toList))
  execute fun db => written (ended status error db.now (newRequest repoId db.now))
    (ended status error db.now) (fun _ => rfl) ownerProcessId db

/-- The page is ready; the columns of its content are left out. -/
def save (repoId : Nat) (ownerProcessId : Option ProcessId) : Sql Db Exc Unit := do
  let rowcount ← store repoId .ready none ownerProcessId
  when (rowcount ≠ 1)
    (throw (.runtimeError ("wiki ".toList ++ Text.ofNat repoId ++ " process lease lost".toList)))
  commit

def markFailed (repoId : Nat) (error : Text) (ownerProcessId : Option ProcessId) :
    Sql Db Exc Unit := do
  let _ ← store repoId .failed (some (error.take 1000)) ownerProcessId
  commit

/-- `_STALE_ERROR`. -/
def staleError : Text :=
  "이전 Wiki 생성 작업이 제한 시간을 초과해 종료된 것으로 처리되었습니다".toList

/-- The request waits, and its row was not touched for long. -/
def stale (now : Time) (w : WikiPage) : Bool :=
  w.status == .generating && w.lockedAt.isNone &&
    decide (w.updatedAt + generationStaleMinutes * 60 ≤ now)

/-- The row of a stale request after the recovery. -/
def expired (now : Time) (w : WikiPage) : WikiPage :=
  { w with status := .failed, error := some staleError, nextRunAt := none, updatedAt := now }

/-- Stale requests fail; how many. -/
def recoverStaleGenerations : Sql Db Exc Nat := do
  let rowcount ← updateRows Db.wikiPageTable (fun db w => stale db.now w)
    (fun db w => expired db.now w)
  when (rowcount ≠ 0) commit
  pure rowcount

/-- All claimed requests wait again; how many. -/
def recoverRunning : Sql Db Exc Nat := do
  let rowcount ← updateRows Db.wikiPageTable
    (fun _ w => w.status == .generating && w.lockedAt.isSome) (fun db w =>
    { w with lockedBy := none, lockedAt := none, error := none, updatedAt := db.now })
  when (rowcount ≠ 0) commit
  pure rowcount

/-! ## What they do to the table -/

theorem run_markGenerating (repoId : Nat) (db : Db) :
    (∃ e, (markGenerating repoId).run db = (.error e, db)) ∨ (markGenerating repoId).run db =
      (.ok ((registered repoId db).2 == 1), (registered repoId db).1) := by
  unfold markGenerating run
  simp only [onConn_bind, onConn_select, onConn_when, Conn.fresh]
  split
  · rename_i heq
    split at heq
    · cases heq
    · cases heq
      exact .inr rfl
  · rename_i heq
    split at heq
    · cases heq
      exact .inl ⟨_, rfl⟩
    · cases heq

/-- A claim changes one row or none. -/
theorem run_claimNext (workerId : Text) (ownerProcessId : Option ProcessId) (locked : Bool)
    (db : Db) : ∃ p : WikiPage → Bool, ((claimNext workerId ownerProcessId locked).run db).2 =
      { db with
        wikiPages := db.wikiPages.update p (claimed workerId ownerProcessId db.now) } := by
  have hnone : { db with
      wikiPages := db.wikiPages.update (fun _ => false) (claimed workerId ownerProcessId db.now) } =
        db := by
    have : db.wikiPages.update (fun _ => false) (claimed workerId ownerProcessId db.now) =
        db.wikiPages := Table.ext (by simp [Table.update]) rfl
    rw [this]
  cases locked with
  | true => exact ⟨fun _ => false, hnone.symm⟩
  | false =>
    cases hn : nextRequest db with
    | none =>
      refine ⟨fun _ => false, Eq.trans ?_ hnone.symm⟩
      simp [claimNext, run, Conn.fresh, hn]
    | some row =>
      refine ⟨fun w => w.repoId == row.repoId && w.status == .generating && w.lockedAt.isNone, ?_⟩
      simp [claimNext, run, Conn.fresh, hn, Db.wikiPageTable]

end WikiRepo
