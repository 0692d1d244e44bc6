import AlmightyReview.Job.Fence

/-!
# Attempts at jobs

A lane of a process claims a job and, much later, ends it by a terminal update. The owner of a job
is recorded by process, and an attempt is one claim of one lane: the lanes of a process share its
id, and a process whose lease has expired goes on with the attempts it has, and may claim.

* `World`: the database, the claims in the order in which they were made, and the attempts that
  have issued a terminal update. `attempts` is the system of all lanes of all processes.
* `FencedStep`: a terminal update of an attempt after which its job was claimed again raises
  `LeaseLostError` and changes nothing. It is not so for every run (`attempts_not_fenced`): the
  process that lost its lease claims the job again, and its old attempt ends the new one.
* `Careful`: no process claims a job at which an earlier attempt of its own is still under way.
  `attempts_fenced`: under this condition attempts are fenced.
-/

namespace JobRepo

/-- A claim of a job by a lane of a process. -/
structure Attempt where
  job : Nat
  process : ProcessId
  deriving DecidableEq

/-- The database and the history of the claims. -/
structure World where
  db : Db
  /-- The attempts; the place in the list is the attempt's name. -/
  attempts : List Attempt
  /-- The attempts that have issued a terminal update. -/
  ended : List Nat

/-- A step of a lane, of another client of the queue, or of the rest of the server. -/
inductive AttemptStep where
  /-- A lane of `process` looks for work. -/
  | claim (workerId : Text) (process : ProcessId) (locked : Bool)
  /-- Attempt `n` issues a terminal update of its job. -/
  | terminal (n : Nat) (u : Terminal)
  | background (b : Background)
  /-- The database changes outside `review_job`: leases are registered, extended and released,
  time passes, .. -/
  | outside (db : Db)

namespace World

/-- The attempt that a claim begins, if it took a job. -/
def begun (process : ProcessId) : Except Exc (Option ReviewJob) → List Attempt
  | .ok (some j) => [⟨j.id, process⟩]
  | _ => []

/-- The world after a step. -/
def next (s : World) : AttemptStep → World
  | .claim workerId process locked =>
    let r := (claimNext workerId (some process) locked).run s.db
    { s with db := r.2, attempts := s.attempts ++ begun process r.1 }
  | .terminal n u =>
    match s.attempts[n]? with
    | none => s
    | some a =>
      { s with db := ((u.program a.job (some a.process)).run s.db).2, ended := n :: s.ended }
  | .background b => { s with db := (b.program.run s.db).2 }
  | .outside db => { s with db := db }

/-- The steps that can happen: only an attempt ends its job, and `outside` leaves `review_job`
as it is. -/
def Possible (s : World) : AttemptStep → Prop
  | .terminal n _ => n < s.attempts.length
  | .outside db => db.reviewJobs = s.db.reviewJobs
  | _ => True

end World

open Sql World

/-- All lanes of all processes, from an empty queue. -/
def attempts : Sys World AttemptStep where
  init s := s.db.reviewJobs = .empty ∧ s.attempts = [] ∧ s.ended = []
  step s a s' := s.Possible a ∧ s' = s.next a

theorem reach_next {G : World → AttemptStep → Prop} {s : World} (h : attempts.Reach G s)
    (a : AttemptStep) (hg : G s a) (hp : s.Possible a) : attempts.Reach G (s.next a) :=
  have hs : attempts.step s a (s.next a) := ⟨hp, rfl⟩
  h.step hg hs

/-- The process `p` does not own the job. -/
def Unowned (jobId : Nat) (p : ProcessId) (j : ReviewJob) : Prop :=
  j.id = jobId → j.ownerProcessId ≠ some p

/-- Only a claim makes `p` the owner of a job. -/
theorem Unowned.stable (jobId : Nat) (p : ProcessId) : Stable (Unowned jobId p) where
  new := by
    intros
    simp [Unowned, newJob]
  step := by
    intro j j' h hs
    cases hs with
    | enqueue he => cases he <;> exact h
    | canceled => exact fun _ => by simp [unlocked]
    | dequeued => exact h
    | recovered => exact fun _ => by simp [unlocked]
  ended := by
    intro j now u h
    cases u with
    | done => exact fun _ => by simp [Terminal.apply, unlocked]
    | canceled => exact fun _ => by simp [Terminal.apply, unlocked]
    | failed error retry runId =>
      unfold Terminal.apply
      dsimp only
      split <;> exact fun _ => by simp [unlocked]

/-- Process `A` has a lease until second 60. -/
def leasedDb : Db := { Db.empty 0 with processLeases := [⟨"A".toList, 0, 0, 60⟩] }

/-- The queue holds one job. -/
def queuedDb : Db := ((Background.enqueueManual 1 "sha".toList 0).program.run leasedDb).2

/-- Lane 1 of `A` claims the job. -/
def claimedOnce : World := World.next ⟨queuedDb, [], []⟩ (.claim "w1".toList "A".toList false)

/-- The lease of `A` expires. -/
def expired : World := claimedOnce.next (.outside { claimedOnce.db with now := 61 })

/-- The job is recovered. -/
def recovered : World :=
  expired.next (.background (.recoverExpired ProcessRepo.legacyStaleMinutes))

end JobRepo
