import AlmightyReview.Review.Retried

/-!
# Lanes under the contract

`run_one_job` obeys the contract of an execution, from the claim of a job to its end
(`runOneJob_obeys`).

* `MayRelease`: the execution has its job, or the database failed after it was released.
* `Attempted`: how an attempt ends. No run is left running when an exception reaches its handler,
  except for the one of a timeout, which closes the runs of the job itself.
-/

namespace Pipeline

open Prog

variable {α β : Type} {g : Execution} {owner : Option ProcessId} {job : ReviewJob}
  {pr : Option PullRequest} {t : Told}

/-- The job may be released, as far as its owner and its state go. -/
structure MayRelease (owner : Option ProcessId) (job : ReviewJob) (g : Execution) : Prop where
  owner : g.owner = owner
  job : g.job = some job
  released : g.released = false ∨ g.dbFailed = true

/-- How an attempt ends. -/
def Attempted (owner : Option ProcessId) (job : ReviewJob) (g : Execution) :
    Except Exc α → Prop
  | .ok _ => True
  | .error e => MayRelease owner job g ∧ (e = .cancelledError ∨ e = .timeoutError ∨ Settled g)

theorem Holding.mayRelease (h : Holding owner (some job) g) : MayRelease owner job g :=
  ⟨h.owner, h.job, .inl h.released⟩

theorem MayRelease.raised (h : MayRelease owner job g) (e : Exc) :
    MayRelease owner job (g.raised e) := by
  obtain ⟨ho, hj, hr⟩ := h
  cases e with
  | operationalError m => exact ⟨ho, hj, .inr rfl⟩
  | _ => exact ⟨ho, hj, hr⟩

theorem Settled.raised (h : Settled g) (e : Exc) : Settled (g.raised e) := by
  obtain h | h | h | h | h := h
  · cases e <;> exact .inl h
  · cases e <;> exact .inr (.inl h)
  · cases e <;> exact .inr (.inr (.inl h))
  · cases e <;> first | exact .inr (.inr (.inr (.inl h))) | exact .inr (.inr (.inr (.inl rfl)))
  · cases e <;> first | exact .inr (.inr (.inr (.inr h))) | exact .inr (.inr (.inr (.inr rfl)))

theorem MayRelease.releases (h : MayRelease owner job g) (hs : Settled g) :
    Releases g job.id owner :=
  ⟨⟨job, h.job, rfl⟩, h.owner.symm, h.released, hs⟩

theorem At.mayRelease (h : At owner (some job) pr t g) : MayRelease owner job g :=
  h.holding.mayRelease

/-! ## The attempt -/

theorem attempted_bind {P : Execution → β → Prop} {p : Review β} {f : β → Review α}
    (hp : Obeys contract (Left owner (some job) P) g p)
    (hf : ∀ g' b, P g' b → Obeys contract (Attempted owner job) g' (f b)) :
    Obeys contract (Attempted owner job) g (p >>= f) :=
  obeys_bind hp hf fun _ _ h => ⟨h.1.mayRelease, h.2.imp_right .inr⟩

/-- The last write of an attempt. -/
theorem attempted_write (h : MayRelease owner job g) (hs : Settled g) {q : Write β}
    (ha : g.AllowsWrite q) : Obeys contract (Attempted owner job) g (write q) := by
  refine obeys_perform ha fun r _ => ?_
  cases r with
  | ok _ => trivial
  | error e => exact ⟨h.raised e, .inr (.inr (hs.raised e))⟩

/-- What the pipeline leaves behind when it ends or runs out of time. -/
def Waited (owner : Option ProcessId) (job : ReviewJob) (g : Execution) : Except Exc α → Prop
  | .ok _ => Holding owner (some job) g ∧ Settled g
  | .error e => Holding owner (some job) g ∧ (e = .timeoutError ∨ Settled g)

/-- What the release of a job leaves behind, before the findings are counted. -/
def Counted (owner : Option ProcessId) (job : ReviewJob) (g : Execution) : Except Exc α → Prop
  | .ok _ => MayRelease owner job { g with dbFailed := true } ∧ Settled g
  | .error e => MayRelease owner job g ∧ (e = .cancelledError ∨ e = .timeoutError ∨ Settled g)

/-- The pipeline under its timeout. -/
theorem waitFor_attempted {p : Review Nat} {f : Nat → Review α}
    (hp : Obeys contract (Left owner (some job) fun g' _ => Holding owner (some job) g' ∧
      Settled g') g p)
    (hf : ∀ g' n, Holding owner (some job) g' → Settled g' →
      Obeys contract (Attempted owner job) g' (f n)) :
    Obeys contract (Attempted owner job) g (waitFor p >>= f) := by
  refine obeys_bind (P := Waited owner job)
    (obeys_tryCatch hp (fun _ _ h => h) fun g' e h => ?_)
    (fun g' n h => hf g' n h.1 h.2) fun g' e h => ⟨h.1.mayRelease, .inr h.2⟩
  by_cases he : e = .cancelledError
  · rw [if_pos he]
    exact obeys_throw ⟨h.1, .inl rfl⟩
  · rw [if_neg he]
    exact obeys_throw ⟨h.1, .inr (h.2.resolve_left he)⟩

/-- The pipeline of a job. -/
theorem pipelineTask_left {lane : Lane} {deps : PipelineDeps}
    (h : At lane.ownerProcessId (some job) pr t g) (hun : Untold deps t) :
    Obeys contract (Left lane.ownerProcessId (some job) fun g' _ =>
      Holding lane.ownerProcessId (some job) g' ∧ Settled g') g (pipelineTask lane job deps) := by
  refine obeys_ite (fun _ => ?_) fun _ => ?_
  · exact retryPr_obeys (a := ⟨job.prId, job.retryRunId, deps, some job.headSha,
      lane.ownerProcessId⟩) h hun rfl
  refine reviewPr_obeys h.toIdle rfl fun j hj howner => ?_
  obtain rfl := Option.some.inj hj
  exact if_pos howner

theorem runJob_attempted {lane : Lane} (repo : Repo)
    (h : At lane.ownerProcessId (some job) pr { repo := some repo } g) :
    Obeys contract (Attempted lane.ownerProcessId job) g (runJob lane job repo) := by
  refine attempted_bind (at_ext h trivial) fun g₁ _ h₁ => ?_
  refine attempted_bind (at_ext h₁ trivial) fun g₂ deps h₂ => ?_
  refine waitFor_attempted (pipelineTask_left h₂ ⟨rfl, rfl, rfl, rfl⟩) fun g₃ runId h₃ hs => ?_
  -- the job is released before the findings are counted
  refine obeys_bind (P := Counted lane.ownerProcessId job)
    (obeys_perform (h₃.mayRelease.releases hs) fun r _ => ?_) (fun g₄ _ h₄ => ?_) fun _ _ h' => h'
  · cases r with
    | ok _ => exact ⟨⟨h₃.owner, h₃.job, .inr rfl⟩, hs⟩
    | error e => exact ⟨h₃.mayRelease.raised e, .inr (.inr (hs.raised e))⟩
  · refine obeys_bind (P := Attempted lane.ownerProcessId job) (obeys_read (fun _ => trivial)
      fun m => ⟨h₄.1, .inr (.inr ?_)⟩) (fun _ _ _ => obeys_pure trivial) fun _ _ h' => h'
    exact h₄.2.raised (.operationalError m)

theorem attempt_attempted {lane : Lane} (h : At lane.ownerProcessId (some job) pr {} g) :
    Obeys contract (Attempted lane.ownerProcessId job) g (attempt lane job) := by
  have hgetPr : Obeys contract (Left lane.ownerProcessId (some job) fun g' row =>
      At lane.ownerProcessId (some job) row {} g') g (read (.getPr job.prId)) := by
    refine obeys_read (fun db => ⟨h.toIdle.getPr job.prId _, ?_⟩)
      fun m => (h.toIdle.raised (.operationalError m)).left _
    have hc : g.created.isSome = false := by simp [h.created]
    simp only [Execution.afterRead, hc, Bool.false_eq_true, if_false]
    exact h.told
  have hcancel : ∀ {pr t g} (message : Text), At lane.ownerProcessId (some job) pr t g →
      Obeys contract (Attempted lane.ownerProcessId job) g
        (write (.markCanceled job.id message lane.ownerProcessId)) := fun message h =>
    attempted_write h.mayRelease h.settled (h.mayRelease.releases h.settled)
  refine attempted_bind hgetPr fun g₁ row h₁ => ?_
  refine attempted_bind (at_subscript h₁ row) fun g₂ pull h₂ => ?_
  obtain ⟨h₂, rfl⟩ := h₂
  refine obeys_ite (fun _ => hcancel _ h₂) fun _ => obeys_ite (fun _ => ?_) fun _ => ?_
  · exact obeys_bind (attempted_write h₂.mayRelease h₂.settled
      (h₂.mayRelease.releases h₂.settled)) (fun _ _ _ => obeys_pure trivial) fun _ _ h' => h'
  · refine attempted_bind (at_read h₂ fun _ => rfl) fun g₃ found h₃ => ?_
    cases found with
    | none => exact obeys_throw ⟨h₃.mayRelease, .inr (.inr h₃.settled)⟩
    | some repo =>
      refine obeys_ite (fun _ => hcancel _ h₃) fun _ => ?_
      refine obeys_ite (fun _ => hcancel _ h₃) fun _ => ?_
      exact runJob_attempted repo h₃

/-! ## The handlers -/

theorem isRetryable_timedOut : isRetryable timedOutError = true := by decide

theorem failJob_obeys {lane : Lane} (h : MayRelease lane.ownerProcessId job g) (hs : Settled g)
    (e : Exc) (runId : Option Nat) :
    Obeys contract (fun _ _ => True) g (failJob lane job e runId) := by
  refine obeys_bind (P := fun _ _ => True) (obeys_perform ⟨h.releases hs, rfl⟩ fun _ _ => trivial)
    (fun _ _ _ => ?_) fun _ _ _ => trivial
  exact obeys_bind (P := fun _ _ => True) (obeys_read (fun _ => trivial) fun _ => trivial)
    (fun _ _ _ => obeys_pure trivial) fun _ _ _ => trivial

/-- The handlers release the job, after they closed its runs where that is left to them. -/
theorem handle_obeys {lane : Lane} {e : Exc} (h : MayRelease lane.ownerProcessId job g)
    (hs : e = .cancelledError ∨ e = .timeoutError ∨ Settled g) :
    Obeys contract (fun _ _ => True) g (handle lane job e) := by
  unfold handle
  split
  · refine obeys_bind (P := fun g' r => r = .ok () → MayRelease lane.ownerProcessId job g' ∧
      Settled g') (obeys_perform ⟨job, h.job, rfl⟩ fun r _ hr => ?_) (fun g' _ h' => ?_)
      fun _ _ _ => trivial
    · subst hr
      exact ⟨⟨h.owner, h.job, h.released⟩, .inr (.inr (.inl rfl))⟩
    · have h' := h' rfl
      exact obeys_perform ⟨h'.1.releases h'.2, isRetryable_timedOut.symm⟩ fun _ _ => trivial
  · exact obeys_pure trivial
  · have hs : Settled g := hs.resolve_left (fun he => by cases he) |>.resolve_left
      fun he => by cases he
    exact obeys_bind (P := fun _ _ => True) (obeys_perform (h.releases hs) fun _ _ => trivial)
      (fun _ _ _ => obeys_pure trivial) fun _ _ _ => trivial
  · exact obeys_pure trivial
  · have hs : Settled g := hs.resolve_left (fun he => by cases he) |>.resolve_left
      fun he => by cases he
    exact failJob_obeys h hs _ _
  · exact obeys_throw trivial
  · rename_i e hne _ _ _ _ hc
    exact failJob_obeys h ((hs.resolve_left hc).resolve_left hne) _ _

/-! ## `run_one_job` -/

/-- A claim gives the execution its job. -/
theorem claim_obeys (lane : Lane) :
    Obeys contract (fun g' r => ∀ job, r = .ok (some job) →
      At lane.ownerProcessId (some job) none {} g') { owner := lane.ownerProcessId }
      (claim lane) := by
  refine obeys_tryCatch (R := fun g' r => ∀ job, r = .ok (some job) →
    At lane.ownerProcessId (some job) none {} g') (obeys_perform ⟨rfl, rfl, rfl, rfl⟩ ?_)
    (fun g' a h job hj => h job hj) fun g' e _ => ?_
  · rintro r - job rfl
    exact ⟨⟨rfl, rfl, rfl, rfl, rfl, rfl, rfl, rfl, rfl, rfl⟩, rfl⟩
  · split
    · exact obeys_pure fun job hj => by cases hj
    · exact obeys_throw fun job hj => by cases hj

/-- **A lane** obeys the contract. -/
theorem runOneJob_obeys (lane : Lane) :
    Obeys contract (fun _ _ => True) { owner := lane.ownerProcessId } (runOneJob lane) := by
  refine obeys_bind (claim_obeys lane) (fun g₁ found h₁ => ?_) fun _ _ _ => trivial
  cases found with
  | none => exact obeys_pure trivial
  | some job =>
    refine obeys_bind (P := fun _ _ => True) (obeys_tryCatch (attempt_attempted (h₁ job rfl))
      (fun _ _ _ => trivial) fun g' e h' => handle_obeys h'.1 h'.2)
      (fun _ _ _ => obeys_pure trivial) fun _ _ _ => trivial

end Pipeline
