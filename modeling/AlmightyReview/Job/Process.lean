import AlmightyReview.Db

/-!
# Process leases

The functions of `process_repo`. A server process registers a lease, extends it with its
heartbeat and releases it at its end; `recoverExpired` takes back the jobs, runs and wiki requests
of owners without a live lease, and those without an owner (`NULL`, from before there were leases)
that are older than `legacyStaleMinutes`.
-/

namespace ProcessRepo

open Sql

def defaultTtlSeconds : Nat := 60

def legacyStaleMinutes : Nat := 30

/-- The process holds a lease that has not expired. -/
def alive (db : Db) (processId : ProcessId) : Bool :=
  db.processLeases.any fun l => l.processId == processId && db.now < l.expiresAt

/-- `INSERT INTO process_lease`; the key is unique. -/
def register (processId : ProcessId) (ttlSeconds : Nat) : Sql Db Exc Unit := do
  let known ← select fun db => db.processLeases.any fun l => l.processId == processId
  when known (throw (.integrityError "UNIQUE constraint failed: process_lease.process_id".toList))
  execute fun db =>
    ({ db with processLeases :=
        db.processLeases ++ [⟨processId, db.now, db.now, db.now + ttlSeconds⟩] }, ())
  commit

/-- The rows that a heartbeat extends. -/
def extends? (processId : ProcessId) (now : Time) (l : ProcessLease) : Bool :=
  l.processId == processId && now < l.expiresAt

/-- The lease is extended if it has not expired; whether it was. -/
def heartbeat (processId : ProcessId) (ttlSeconds : Nat) : Sql Db Exc Bool := do
  let rowcount ← execute fun db =>
    ({ db with processLeases := db.processLeases.map fun l =>
        if extends? processId db.now l then
          { l with heartbeatAt := db.now, expiresAt := db.now + ttlSeconds }
        else l },
      db.processLeases.countP (extends? processId db.now))
  commit
  pure (rowcount == 1)

def release (processId : ProcessId) : Sql Db Exc Unit := do
  execute fun db =>
    ({ db with processLeases := db.processLeases.filter fun l => l.processId != processId }, ())
  commit

/-- The row's owner is set and holds no live lease. -/
def dead (db : Db) (ownerProcessId : Option ProcessId) : Bool :=
  match ownerProcessId with
  | none => false
  | some p => !alive db p

/-- `since <= datetime('now', '-minutes minutes')`. -/
def olderThan (minutes : Nat) (now : Time) (since : Option Time) : Bool :=
  match since with
  | none => false
  | some t => t + minutes * 60 ≤ now

/-- The owner is dead, or there is none and the work began long ago. -/
def abandoned (minutes : Nat) (db : Db) (ownerProcessId : Option ProcessId)
    (since : Option Time) : Bool :=
  dead db ownerProcessId || (ownerProcessId.isNone && olderThan minutes db.now since)

/-- The texts of a recovered row. -/
def recoveredError : Text := "recovered from expired process lease".toList
def leaseExpiredError : Text := "worker process lease expired".toList

/-- The running jobs that `recover_expired` puts back into the queue. -/
def jobExpired (minutes : Nat) (db : Db) (j : ReviewJob) : Bool :=
  j.status == .running && abandoned minutes db j.ownerProcessId j.lockedAt

def runExpired (minutes : Nat) (db : Db) (r : ReviewRun) : Bool :=
  r.status == .running && abandoned minutes db r.ownerProcessId r.startedAt

def wikiExpired (minutes : Nat) (db : Db) (w : WikiPage) : Bool :=
  w.status == .generating && abandoned minutes db w.ownerProcessId w.lockedAt

/-- The numbers of recovered rows. -/
structure Recovered where
  jobs : Nat
  runs : Nat
  wiki : Nat
  deriving DecidableEq, Repr

/-- The runs of dead owners fail, with the vendor results that were running. -/
def failRuns (runIds : List Nat) : Sql Db Exc Nat := do
  let _ ← updateRows Db.vendorResultTable
    (fun _ v => v.status == .running && runIds.contains v.runId)
    (fun _ v => { v with status := .failed, error := some leaseExpiredError })
  updateRows Db.reviewRunTable (fun _ r => runIds.contains r.id) (fun db r =>
    { r with status := .failed, error := some leaseExpiredError, finishedAt := some db.now })

/-- The statements of `recover_expired` between `BEGIN IMMEDIATE` and `commit`. -/
def recoverStatements (minutes : Nat) : Sql Db Exc Recovered := do
  let jobs ← updateRows Db.reviewJobTable (jobExpired minutes) (fun _ j =>
    { j with status := .queued, lockedBy := none, lockedAt := none, ownerProcessId := none,
             error := some recoveredError })
  let runIds ← select fun db => (db.reviewRuns.rows.filter (runExpired minutes db)).map (·.id)
  let runs ← (if runIds ≠ [] then failRuns runIds else pure 0)
  let wiki ← updateRows Db.wikiPageTable (wikiExpired minutes) (fun _ w =>
    { w with lockedBy := none, lockedAt := none, ownerProcessId := none, status := .generating,
             error := some recoveredError })
  execute fun db =>
    ({ db with processLeases := db.processLeases.filter fun l => db.now < l.expiresAt }, ())
  pure ⟨jobs, runs, wiki⟩

/-- Expired owners lose their jobs, runs and wiki requests, in one transaction. -/
def recoverExpired (minutes : Nat) : Sql Db Exc Recovered :=
  transaction (recoverStatements minutes)

end ProcessRepo
