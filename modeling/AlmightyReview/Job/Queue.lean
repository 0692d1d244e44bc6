import AlmightyReview.Job.Calls
import AlmightyReview.Lib.Log
import AlmightyReview.Lib.Pool

/-!
# The queue with calls under way

Any number of enqueue calls run at once, statement by statement, beside the claims, the terminal
updates, the cancellations and the recovery (`Op`), each of which is one step.

* `QueueState`: the database with its past, what each call has queued, and how often each job was
  claimed since an enqueue last queued it.
* `Call`: a call and what its statements answered. `contract` says what a call may do;
  `Call.program_obeys`: each of the calls does only that.
* `traffic`: the system. `Follows S db db'`: every job of `db` is still there, and `S` relates it to
  what it was.
-/

namespace JobRepo

open Prog

/-! ## What becomes of a job -/

/-- Every job of `db` is a job of `db'`, and `S` relates the two. -/
def Follows (S : ReviewJob → ReviewJob → Prop) (db db' : Db) : Prop :=
  ∀ j ∈ db.reviewJobs, ∃ j' ∈ db'.reviewJobs, j'.id = j.id ∧ S j j'

theorem follows_steady {R S : ReviewJob → ReviewJob → Prop}
    (hS : ∀ {j j' j''}, S j j' → R j' j'' → S j j'') (db₀ : Db) : Steady R (Follows S db₀) := by
  intro db db' h hs j hj
  obtain ⟨j', hj', hid, hjj'⟩ := h j hj
  cases hs with
  | frame hs => exact ⟨j', hs ▸ hj', hid, hjj'⟩
  | insert prId headSha trigger priority retryRunId hf hs =>
    rw [hs]
    exact ⟨j', Table.mem_insert_of_mem hj', hid, hjj'⟩
  | update p f hf hr hs =>
    rw [hs]
    refine ⟨_, Table.mem_update_of_mem hj' hf, ?_⟩
    by_cases hp : p j' = true
    · rw [if_pos hp]
      exact ⟨(hf j').trans hid, hS hjj' (hr j' hj' hp)⟩
    · rw [if_neg hp]
      exact ⟨hid, hjj'⟩

theorem Follows.refl {S : ReviewJob → ReviewJob → Prop} (hS : ∀ j, S j j) (db : Db) :
    Follows S db db := fun j hj => ⟨j, hj, rfl, hS j⟩

theorem Follows.update {S : ReviewJob → ReviewJob → Prop} {db db' : Db} {p : ReviewJob → Bool}
    {f : ReviewJob → ReviewJob} (hf : ∀ j, Row.id (f j) = Row.id j)
    (hdb' : db'.reviewJobs = db.reviewJobs.update p f hf) (hS : ∀ j, S j j)
    (hfS : ∀ j, p j = true → S j (f j)) : Follows S db db' := by
  intro j hj
  rw [hdb']
  refine ⟨_, Table.mem_update_of_mem hj hf, ?_⟩
  by_cases hp : p j = true
  · rw [if_pos hp]
    exact ⟨hf j, hfS j hp⟩
  · rw [if_neg hp]
    exact ⟨rfl, hS j⟩

/-- The pair stays. -/
def SamePair (j j' : ReviewJob) : Prop := j'.prId = j.prId ∧ j'.headSha = j.headSha

/-- No operation changes the pair of a job. -/
theorem op_samePair (o : Op) (db : Db) : Follows SamePair db (o.program.run db).2 := by
  cases o with
  | claimNext workerId owner locked =>
    rw [Op.run_claimNext, run_claimNext]
    split
    · exact .refl (fun _ => ⟨rfl, rfl⟩) db
    · exact .update (f := claimed workerId owner db.now) (fun _ => rfl) rfl
        (fun _ => ⟨rfl, rfl⟩) fun _ _ => ⟨rfl, rfl⟩
  | terminal u jobId owner =>
    rw [show (Op.terminal u jobId owner).program = u.program jobId owner from rfl, run_terminal]
    split
    · exact .update (u.id_apply db.now) rfl (fun _ => ⟨rfl, rfl⟩) fun j _ => u.pair_apply db.now j
    · exact .refl (fun _ => ⟨rfl, rfl⟩) db
  | background b =>
    have hs : Steady RowStep (Follows SamePair db) := by
      refine follows_steady (fun {j j' j''} h hr => ?_) db
      have hp := RowStep.pair hr
      exact ⟨hp.1.trans h.1, hp.2.trans h.2⟩
    exact Sql.preserves_run (background_preserves hs b) (.refl (fun _ => ⟨rfl, rfl⟩) db)

/-! ## Statements -/

/-- What one statement of a call makes of the database. -/
def Stmt.next {β : Type} (o : Stmt β) (db : Db) : Db := (o.program.run db).2

theorem stmt_preserves {I : Db → Prop} (hI : Steady EnqueueStep I) {β : Type} (o : Stmt β)
    {db : Db} (h : I db) : I (o.next db) := by
  refine Sql.preserves_run (I := I) ?_ h
  cases o with
  | insert prId headSha trigger priority retryRunId =>
    exact Sql.preserves_bind (insertJob_preserves hI _ _ _ _ _) fun _ =>
      Sql.preserves_bind Sql.preserves_commit fun _ => Sql.preserves_pure _
  | find prId headSha =>
    exact Sql.preserves_select fun db => db.reviewJobs.find? (jobFor prId headSha)
  | get jobId => exact Sql.preserves_select fun db => db.reviewJobs.get? jobId
  | reviveCanceled jobId error trigger =>
    refine Sql.preserves_bind (preserves_updateJobs hI fun db j hp => ?_) fun _ =>
      Sql.preserves_bind Sql.preserves_commit fun _ => Sql.preserves_pure _
    simp only [Bool.and_eq_true, beq_iff_eq] at hp
    exact .requeued j trigger j.retryRunId (by rw [hp.1.2]; rfl)
  | reviveFinished jobId trigger retryRunId =>
    refine Sql.preserves_bind (preserves_updateJobs hI fun db j hp => ?_) fun _ =>
      Sql.preserves_bind Sql.preserves_commit fun _ => Sql.preserves_pure _
    simp only [Bool.and_eq_true] at hp
    exact .requeued j trigger retryRunId hp.2
  | promote jobId =>
    refine Sql.preserves_bind (preserves_updateJobs hI fun db j hp => ?_) fun _ =>
      Sql.preserves_bind Sql.preserves_commit fun _ => Sql.preserves_pure _
    simp only [Bool.and_eq_true, beq_iff_eq] at hp
    exact .promoted j hp.1.2
  | inTransaction prId headSha trigger priority =>
    exact Sql.preserves_bind (enqueueWithResult_preserves (hI.anti AutoStep.enqueueStep) _ _ _ _ _)
      fun _ => Sql.preserves_bind Sql.preserves_commit fun _ => Sql.preserves_pure _

theorem stmt_samePair {β : Type} (o : Stmt β) (db : Db) : Follows SamePair db (o.next db) := by
  refine stmt_preserves (follows_steady (fun {j j' j''} h hr => ?_) db) o
    (.refl (fun _ => ⟨rfl, rfl⟩) db)
  have hp := RowStep.pair (.enqueue hr)
  exact ⟨hp.1.trans h.1, hp.2.trans h.2⟩

theorem stmt_uniquePairs {β : Type} (o : Stmt β) {db : Db} (h : UniquePairs db) :
    UniquePairs (o.next db) :=
  stmt_preserves (uniquePairs_steady fun hr => RowStep.pair (.enqueue hr)) o h

/-! ## Calls -/

/-- What a call was asked for, and when it began. -/
structure Request where
  /-- The automatic enqueue, which says whether it queued the job. -/
  auto : Bool
  prId : Nat
  headSha : Sha
  trigger : Trigger
  retryRunId : Option Nat
  since : Nat

/-- A call under way, with what its statements answered. -/
structure Call where
  req : Request
  /-- It has tried to insert a job. -/
  inserted : Bool
  /-- The job that it has found. -/
  job : Option Nat
  /-- The number of jobs that it queued, as the row counts say. -/
  gained : Nat
  /-- It has found the job under way, or tried to revive it, and will read it again. -/
  waiting : Bool
  /-- It has tried to make the job a manual one. -/
  promoted : Bool
  /-- The job as it was read last. -/
  last : Option ReviewJob
  /-- A row was missing. -/
  broken : Bool

namespace Call

def new (req : Request) : Call := ⟨req, false, none, 0, false, false, none, false⟩

/-- The call after a statement answered. -/
def answered {β : Type} (g : Call) : Stmt β → β → Call
  | .insert .., n => { g with inserted := true, gained := g.gained + n }
  | .find .., none => { g with broken := g.inserted }
  | .find .., some row => { g with job := some row.id, waiting := isActive row.status }
  | .get _, none => { g with broken := true }
  | .get _, some row =>
    { g with last := some row, waiting := !g.promoted && promotes g.req.trigger row }
  | .reviveCanceled .., n => { g with gained := g.gained + n }
  | .reviveFinished .., _ => { g with waiting := true }
  | .promote _, _ => { g with promoted := true }
  | .inTransaction .., (_, changed) => { g with gained := g.gained + if changed then 1 else 0 }

/-- What a call may do next. -/
def allowed {β : Type} (g : Call) : Stmt β → Prop
  | .insert prId headSha trigger _ retryRunId =>
    prId = g.req.prId ∧ headSha = g.req.headSha ∧ trigger = g.req.trigger ∧
      retryRunId = g.req.retryRunId
  | .find prId headSha => prId = g.req.prId ∧ headSha = g.req.headSha
  | .get jobId => g.req.auto = false ∧ g.job = some jobId ∧ g.waiting = true
  | .reviveCanceled _ error _ => g.req.auto = true ∧ isSystemCancelError error = true
  | .reviveFinished jobId trigger retryRunId =>
    g.req.auto = false ∧ g.job = some jobId ∧ trigger = g.req.trigger ∧
      retryRunId = g.req.retryRunId
  | .promote jobId => g.req.auto = false ∧ g.job = some jobId
  | .inTransaction .. => g.req.auto = true

end Call

/-- The contract of the calls. -/
def contract : Contract Stmt Exc Call where
  allowed := Call.allowed
  after g o r :=
    match r with
    | .ok b => g.answered o b
    | .error _ => { g with broken := true }

/-- How a call ends. -/
inductive Outcome where
  | auto (jobId : Nat) (changed : Bool)
  | job (jobId : Nat)
  deriving DecidableEq, Repr

/-- What is known of a call that has ended. -/
def Call.Ended (g : Call) : Except Exc Outcome → Prop
  | .ok (.auto _ changed) => g.req.auto = true ∧ (changed = true → 1 ≤ g.gained)
  | .ok (.job jobId) => g.req.auto = false ∧ g.job = some jobId ∧
    ∃ row, g.last = some row ∧ conflicts g.req.trigger g.req.retryRunId row = false
  | .error e => g.broken = true ∨ g.req.auto = false ∧ e = otherReview

/-- A call as it begins. -/
inductive Starts (since : Nat) : Call → Prog Stmt Exc Outcome → Prop
  | enqueue (prId : Nat) (headSha : Sha) (trigger : Trigger) (priority : Int) :
    Starts since (.new ⟨true, prId, headSha, trigger, none, since⟩) do
      let (jobId, changed) ← enqueueCall prId headSha trigger priority
      pure (.auto jobId changed)
  | inTransaction (prId : Nat) (headSha : Sha) (trigger : Trigger) (priority : Int) :
    Starts since (.new ⟨true, prId, headSha, trigger, none, since⟩) do
      let (jobId, changed) ← perform (.inTransaction prId headSha trigger priority)
      pure (.auto jobId changed)
  | manual (prId : Nat) (headSha : Sha) (priority : Int) :
    Starts since (.new ⟨false, prId, headSha, .manual, none, since⟩) do
      pure (.job (← reviveCall prId headSha .manual priority none))
  | retry (prId : Nat) (headSha : Sha) (runId : Nat) :
    Starts since (.new ⟨false, prId, headSha, .retry, some runId, since⟩) do
      pure (.job (← reviveCall prId headSha .retry 0 (some runId)))

/-! ## What the calls do -/

theorem isFinished_eq_false {s : JobStatus} : isFinished s = false ↔ isActive s = true := by
  cases s <;> decide

/-- The answer of a `SELECT` is subscripted: a missing row ends the call. -/
theorem obeys_subscript {Q : Call → Except Exc ReviewJob → Prop} {g : Call}
    {row : Option ReviewJob} (hok : ∀ r, row = some r → Q g (.ok r))
    (herr : row = none → ∀ e, Q g (.error e)) : Obeys contract Q g (subscript row) := by
  cases row with
  | none => exact obeys_throw (herr rfl _)
  | some r => exact obeys_pure (hok r rfl)

/-- `enqueue_with_result` queues what its answer says. -/
theorem enqueueCall_obeys (req : Request) (hauto : req.auto = true) (hr : req.retryRunId = none)
    (priority : Int) :
    Obeys contract (fun g r => match r with
      | .ok (_, changed) => g.req = req ∧ (changed = true → 1 ≤ g.gained)
      | .error _ => g.broken = true) (.new req)
      (enqueueCall req.prId req.headSha req.trigger priority) := by
  refine obeys_perform_bind ⟨rfl, rfl, rfl, hr.symm⟩ (fun inserted _ => ?_) fun e _ => rfl
  refine obeys_perform_bind ⟨rfl, rfl⟩ (fun row _ => ?_) fun e _ => rfl
  cases row with
  | none => exact rfl
  | some row =>
    refine obeys_ite (fun hc => ?_) fun _ => ?_
    · refine obeys_perform_bind ⟨hauto, hc.2⟩ (fun revived _ => ?_) fun e _ => rfl
      refine obeys_pure ⟨rfl, fun h => ?_⟩
      simp only [Bool.or_eq_true, beq_iff_eq] at h
      show 1 ≤ 0 + inserted + revived
      omega
    · refine obeys_pure ⟨rfl, fun h => ?_⟩
      simp only [beq_iff_eq] at h
      show 1 ≤ 0 + inserted
      omega

/-- A call that has found its job, and has not tried to promote it. -/
structure Call.Found (g : Call) (req : Request) (jobId : Nat) (waiting : Bool) : Prop where
  req : g.req = req
  job : g.job = some jobId
  waiting : g.waiting = waiting
  promoted : g.promoted = false

/-- The job of the pair is found, or inserted and found. -/
theorem findOrInsert_obeys (req : Request) (priority : Int) :
    Obeys contract (fun g r => match r with
      | .ok row => g.Found req row.id (isActive row.status)
      | .error _ => g.broken = true) (.new req)
      (findOrInsert req.prId req.headSha req.trigger priority req.retryRunId) := by
  refine obeys_perform_bind ⟨rfl, rfl⟩ (fun row _ => ?_) fun e _ => rfl
  cases row with
  | some row => exact obeys_pure ⟨rfl, rfl, rfl, rfl⟩
  | none =>
    refine obeys_perform_bind ⟨rfl, rfl, rfl, rfl⟩ (fun inserted _ => ?_) fun e _ => rfl
    refine obeys_perform_bind ⟨rfl, rfl⟩ (fun row _ => ?_) fun e _ => rfl
    cases row with
    | none => exact obeys_throw rfl
    | some row => exact obeys_pure ⟨rfl, rfl, rfl, rfl⟩

/-- A finished job is revived; after that the call waits for its last look at the job. -/
theorem revive_obeys {g : Call} {req : Request} {row : ReviewJob} (hauto : req.auto = false)
    (h : g.Found req row.id (isActive row.status)) :
    Obeys contract (fun g r => match r with
      | .ok _ => g.Found req row.id true
      | .error _ => g.broken = true) g
      (when (isFinished row.status) do
        let _ ← perform (.reviveFinished row.id req.trigger req.retryRunId)
        pure ()) := by
  obtain ⟨rfl, hjob, hw, hp⟩ := h
  refine obeys_when (fun _ => ?_) fun hf => ⟨rfl, hjob, ?_, hp⟩
  · refine obeys_perform_bind ⟨hauto, hjob, rfl, rfl⟩ (fun _ _ => ?_) fun e _ => rfl
    exact obeys_pure ⟨rfl, hjob, rfl, hp⟩
  · rw [hw, ← isFinished_eq_false]
    simpa using hf

/-- The job is read, and read again after an attempt to promote it. -/
theorem lastRead_obeys {g : Call} {req : Request} {jobId : Nat} (hauto : req.auto = false)
    (h : g.Found req jobId true) :
    Obeys contract (fun g r => match r with
      | .ok row => g.req = req ∧ g.job = some jobId ∧ g.last = some row
      | .error _ => g.broken = true) g (lastRead jobId req.trigger) := by
  obtain ⟨rfl, hjob, hw, hnp⟩ := h
  refine obeys_perform_bind ⟨hauto, hjob, hw⟩ (fun row _ => ?_) fun e _ => rfl
  cases row with
  | none => exact obeys_throw rfl
  | some row =>
    refine obeys_ite (fun hp => ?_) fun _ => obeys_pure ⟨rfl, hjob, rfl⟩
    have hw' : (!g.promoted && promotes g.req.trigger row) = true := by simp [hnp, hp]
    refine obeys_perform_bind ⟨hauto, hjob⟩ (fun _ _ => ?_) fun e _ => rfl
    refine obeys_perform_bind ⟨hauto, hjob, hw'⟩ (fun row _ => ?_) fun e _ => rfl
    cases row with
    | none => exact obeys_throw rfl
    | some row => exact obeys_pure ⟨rfl, hjob, rfl⟩

/-- `_enqueue_or_revive` ends with a job that does not conflict with the request. -/
theorem reviveCall_obeys (req : Request) (hauto : req.auto = false) (priority : Int) :
    Obeys contract (fun g r => match r with
      | .ok jobId => g.req = req ∧ g.job = some jobId ∧
        ∃ row, g.last = some row ∧ conflicts req.trigger req.retryRunId row = false
      | .error e => g.broken = true ∨ g.req = req ∧ e = otherReview) (.new req)
      (reviveCall req.prId req.headSha req.trigger priority req.retryRunId) := by
  refine obeys_bind (findOrInsert_obeys req priority) (fun g row hf => ?_) fun g e h => .inl h
  refine obeys_bind (revive_obeys hauto hf) (fun g _ hf => ?_) fun g e h => .inl h
  refine obeys_bind (lastRead_obeys hauto hf) (fun g current h => ?_) fun g e h => .inl h
  obtain ⟨hreq, hjob, hlast⟩ := h
  unfold when
  by_cases hc : conflicts req.trigger req.retryRunId current = true
  · rw [if_pos hc]
    exact obeys_bind
      (obeys_throw (Q := fun g r => r = .error otherReview ∧ g.req = req) ⟨rfl, hreq⟩)
      (fun g _ h => absurd h.1 (by simp)) fun g e h => .inr ⟨h.2, by simpa using h.1⟩
  · rw [if_neg hc]
    exact obeys_pure ⟨hreq, hjob, current, hlast, by simpa using hc⟩

/-- **The calls keep their contract.** -/
theorem starts_obeys {since : Nat} {g : Call} {p : Prog Stmt Exc Outcome} (h : Starts since g p) :
    Obeys contract Call.Ended g p := by
  cases h with
  | enqueue prId headSha trigger priority =>
    refine obeys_bind
      (enqueueCall_obeys ⟨true, prId, headSha, trigger, none, since⟩ rfl rfl priority)
      (fun g r h => ?_) fun g e h => .inl h
    exact obeys_pure ⟨by rw [h.1], h.2⟩
  | inTransaction prId headSha trigger priority =>
    refine obeys_perform_bind rfl (fun r _ => ?_) fun e _ => .inl rfl
    refine obeys_pure ⟨rfl, fun hr => ?_⟩
    show 1 ≤ 0 + if r.2 = true then 1 else 0
    rw [if_pos hr]
  | manual prId headSha priority =>
    refine obeys_bind (reviveCall_obeys ⟨false, prId, headSha, .manual, none, since⟩ rfl priority)
      (fun g jobId h => ?_) fun g e h => ?_
    · obtain ⟨hreq, h⟩ := h
      exact obeys_pure ⟨by rw [hreq], by rw [hreq]; exact h⟩
    · exact h.imp_right fun h => ⟨by rw [h.1], h.2⟩
  | retry prId headSha runId =>
    refine obeys_bind (reviveCall_obeys ⟨false, prId, headSha, .retry, some runId, since⟩ rfl 0)
      (fun g jobId h => ?_) fun g e h => ?_
    · obtain ⟨hreq, h⟩ := h
      exact obeys_pure ⟨by rw [hreq], by rw [hreq]; exact h⟩
    · exact h.imp_right fun h => ⟨by rw [h.1], h.2⟩

/-! ## The system -/

/-- The job was inserted since `db`, or revived from a cancellation by the system. -/
def newlyQueued (db : Db) (j' : ReviewJob) : Bool :=
  match db.reviewJobs.get? j'.id with
  | none => true
  | some j => decide (SystemCanceled j) && j'.status == .queued

/-- The number of insertions and revivals between two databases. -/
def queuedBetween (db db' : Db) : Nat := db'.reviewJobs.count (newlyQueued db)

/-- The job is queued, and was not there or had ended. -/
def requeuedBetween (db db' : Db) (jobId : Nat) : Bool :=
  match db'.reviewJobs.get? jobId with
  | none => false
  | some j' => j'.status == .queued &&
    match db.reviewJobs.get? jobId with
    | none => true
    | some j => isFinished j.status

/-- The job was queued, and is running. -/
def claimedBetween (db db' : Db) (jobId : Nat) : Bool :=
  match db.reviewJobs.get? jobId, db'.reviewJobs.get? jobId with
  | some j, some j' => j.status == .queued && j'.status == .running
  | _, _ => false

/-- The claims of a job after a step; an enqueue that puts it back into the queue starts over. -/
def countClaims (enqueue : Bool) (db db' : Db) (claims : Nat → Nat) (jobId : Nat) : Nat :=
  if enqueue && requeuedBetween db db' jobId then 0
  else if claimedBetween db db' jobId then claims jobId + 1
  else claims jobId

/-- The database with its past, and two counts. -/
structure QueueState where
  log : Log Db
  /-- The insertions and revivals by each call. -/
  queued : Nat → Nat
  /-- The claims of each job since an enqueue last put it into the queue. -/
  claims : Nat → Nat

namespace QueueState

/-- The database now. -/
def db (s : QueueState) : Db := s.log.now

/-- The state after a statement of call `n`. -/
def called (s : QueueState) (n : Nat) (db' : Db) : QueueState where
  log := s.log.push db'
  queued := Function.update s.queued n (s.queued n + queuedBetween s.db db')
  claims := countClaims true s.db db' s.claims

/-- The state after a step from outside the calls. -/
def moved (s : QueueState) (enqueue : Bool) (db' : Db) : QueueState where
  log := s.log.push db'
  queued := s.queued
  claims := countClaims enqueue s.db db' s.claims

@[simp] theorem db_called (s : QueueState) (n : Nat) (db' : Db) : (s.called n db').db = db' :=
  Log.now_push ..

@[simp] theorem db_moved (s : QueueState) (enqueue : Bool) (db' : Db) :
    (s.moved enqueue db').db = db' :=
  Log.now_push ..

end QueueState

/-- The operation is an enqueue call, which runs statement by statement. -/
def Op.isCall : Op → Bool
  | .background (.enqueue ..) => true
  | .background (.enqueueManual ..) => true
  | .background (.enqueueRetry ..) => true
  | _ => false

/-- The operation may enqueue: `cancel_stale_and_enqueue_latest` does. -/
def Op.enqueues : Op → Bool
  | .background (.cancelStaleAndEnqueueLatest ..) => true
  | _ => false

/-- The statements of the calls, and the steps from outside. -/
def machine : Machine Stmt Exc QueueState QueueStep where
  exec n o s r s' := r = (o.program.run s.db).1 ∧ s' = s.called n (o.next s.db)
  outside a s s' :=
    match a with
    | .op o => o.isCall = false ∧ s' = s.moved o.enqueues (o.program.run s.db).2
    | .outside => ∃ db' : Db, db'.reviewJobs = s.db.reviewJobs ∧ s' = s.moved false db'

/-- No job, no call, and nothing counted. -/
def Fresh (s : QueueState) : Prop :=
  s.db.reviewJobs = .empty ∧ s.queued = (fun _ => 0) ∧ s.claims = fun _ => 0

/-- The start of a call. -/
def Begins (s : QueueState) (g : Call) (p : Prog Stmt Exc Outcome) : Prop :=
  Starts s.log.time g p

/-- **The queue with calls under way.** -/
def traffic : Sys (Pool Stmt Exc QueueState Call Outcome) (Pool.Event QueueStep) :=
  Pool.system machine contract Begins Fresh

/-! ## What each statement does -/

section Run

variable (db : Db)

theorem run_insert (prId : Nat) (headSha : Sha) (trigger : Trigger) (priority : Int)
    (retryRunId : Option Nat) :
    (Stmt.insert prId headSha trigger priority retryRunId).program.run db =
      if (db.reviewJobs.find? (jobFor prId headSha)).isSome then (.ok 0, db)
      else (.ok 1, withNewJob prId headSha trigger priority retryRunId db) := by
  unfold Stmt.program insertJob Sql.run
  simp only [Sql.onConn_bind, Sql.onConn_execute, Sql.onConn_commit, Sql.onConn_pure, Conn.fresh]
  split <;> rfl

theorem run_find (prId : Nat) (headSha : Sha) :
    (Stmt.find prId headSha).program.run db =
      (.ok (db.reviewJobs.find? (jobFor prId headSha)), db) := rfl

theorem run_get (jobId : Nat) :
    (Stmt.get jobId).program.run db = (.ok (db.reviewJobs.get? jobId), db) := rfl

theorem run_reviveCanceled (jobId : Nat) (error : Option Text) (trigger : Trigger) :
    (Stmt.reviveCanceled jobId error trigger).program.run db =
      (.ok (db.reviewJobs.count
        fun j => j.id == jobId && j.status == .canceled && j.error == error),
        { db with
          reviewJobs := db.reviewJobs.update
            (fun j => j.id == jobId && j.status == .canceled && j.error == error)
            (requeue trigger) }) := rfl

theorem run_reviveFinished (jobId : Nat) (trigger : Trigger) (retryRunId : Option Nat) :
    (Stmt.reviveFinished jobId trigger retryRunId).program.run db =
      (.ok (db.reviewJobs.count fun j => j.id == jobId && isFinished j.status),
        { db with
          reviewJobs := db.reviewJobs.update (fun j => j.id == jobId && isFinished j.status)
            (fun j => { requeue trigger j with retryRunId := retryRunId }) }) := rfl

theorem run_promote (jobId : Nat) :
    (Stmt.promote jobId).program.run db =
      (.ok (db.reviewJobs.count
        fun j => j.id == jobId && j.status == .queued && j.trigger == .auto),
        { db with
          reviewJobs := db.reviewJobs.update
            (fun j => j.id == jobId && j.status == .queued && j.trigger == .auto)
            (fun j => { j with trigger := .manual }) }) := rfl

theorem run_inTransaction (prId : Nat) (headSha : Sha) (trigger : Trigger) (priority : Int) :
    (Stmt.inTransaction prId headSha trigger priority).program.run db =
      (.ok (queueLatest prId headSha trigger priority true db).1,
        (queueLatest prId headSha trigger priority true db).2) := by
  obtain ⟨c, hc, hw, -⟩ := onConn_enqueueWithResult prId headSha trigger priority false (.fresh db)
  unfold Stmt.program Sql.run
  simp only [Sql.onConn_bind, hc, Sql.onConn_commit, Sql.onConn_pure, hw]
  rfl

end Run

/-! ## Runs -/

/-- The calls and the queue. -/
abbrev Calls : Type 1 := Pool Stmt Exc QueueState Call Outcome

/-- The state after the operation `o`. -/
def QueueState.afterOp (s : QueueState) (o : Op) : QueueState :=
  s.moved o.enqueues (o.program.run s.db).2

namespace Calls

/-- Call `n` starts. -/
def start (w : Calls) (n : Nat) (g : Call) (p : Prog Stmt Exc Outcome) : Calls := w.put n g p

/-- Call `n` issues its next statement. -/
def call (w : Calls) (n : Nat) : Calls :=
  match w.threads n with
  | some (g, .call o next) =>
    { w with state := w.state.called n (o.next w.state.db) }.put n
      (contract.after g o (o.program.run w.state.db).1) (next (o.program.run w.state.db).1)
  | _ => w

/-- An operation from outside. -/
def op (w : Calls) (o : Op) : Calls := { w with state := w.state.afterOp o }

variable {G : Calls → Pool.Event QueueStep → Prop} {w : Calls}

theorem step_call {n : Nat} {g : Call} {β : Type} {o : Stmt β}
    {next : Except Exc β → Prog Stmt Exc Outcome} (hn : w.threads n = some (g, .call o next)) :
    traffic.step w (.call n) (w.call n) := by
  unfold call
  rw [hn]
  exact .call hn (show machine.exec n o w.state _ _ from ⟨rfl, rfl⟩)

theorem reach_call (h : traffic.Reach G w) {n : Nat} (hg : G w (.call n)) :
    traffic.Reach G (w.call n) := by
  by_cases hn : ∃ (g : Call) (β : Type) (o : Stmt β) (next : Except Exc β → Prog Stmt Exc Outcome),
      w.threads n = some (g, .call o next)
  · obtain ⟨g, β, o, next, hn⟩ := hn
    exact h.step hg (step_call hn)
  · unfold call
    split
    · exact absurd ⟨_, _, _, _, ‹_›⟩ hn
    · exact h

theorem reach_op (h : traffic.Reach G w) {o : Op} (hc : o.isCall = false)
    (hg : G w (.outside (.op o))) : traffic.Reach G (w.op o) :=
  have ho : machine.outside (.op o) w.state (w.state.afterOp o) := ⟨hc, rfl⟩
  have hs : traffic.step w (.outside (.op o)) (w.op o) := .outside ho
  h.step hg hs

theorem reach_start (h : traffic.Reach G w) {n : Nat} (hn : w.threads n = none) {g : Call}
    {p : Prog Stmt Exc Outcome} (hb : Starts w.state.log.time g p) (hg : G w (.start n)) :
    traffic.Reach G (w.start n g p) :=
  have hs : traffic.step w (.start n) (w.start n g p) := .start hn hb
  h.step hg hs

/-- The queue over a database without jobs. -/
def initial (db : Db) : Calls := ⟨⟨.start db, fun _ => 0, fun _ => 0⟩, fun _ => none⟩

theorem reach_initial {db : Db} (h : db.reviewJobs = .empty) : traffic.Reach G (initial db) :=
  have hi : traffic.init (initial db) := ⟨⟨h, rfl, rfl⟩, fun _ => rfl⟩
  .init hi

end Calls

end JobRepo
