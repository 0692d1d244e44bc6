import AlmightyReview.Job.Truthful

/-!
# Requests that are served

A manual or a retry request asks that the head be reviewed after the request began. The call reads
the job, revives it if it had ended, and reads it again; it answers normally unless another review
is under way at its last look.

* `Served`: at some time of the call the job was queued or running as requested.
* `RequestServed`: a call that answers normally was served, any other raises `ValueError`. It is
  not so in every run (`request_lost`): a job that is under way when the call first looks may end
  before its last look, and the call takes the ended job for its own.
* `KeepsAwaited`: no operation ends a job that an unserved call has found under way.
  `requests_served`: under this condition every request is served.
-/

namespace JobRepo

open Prog

/-- The job is queued or running as requested. -/
def Serves (req : Request) (j : ReviewJob) : Prop :=
  jobFor req.prId req.headSha j = true ∧ isActive j.status = true ∧ j.trigger = req.trigger ∧
    (req.trigger = .retry → j.retryRunId = req.retryRunId)

/-- At some time since the request, its job was queued or running as requested. -/
def Served (req : Request) (log : Log Db) : Prop :=
  log.During req.since fun db => ∃ j ∈ db.reviewJobs, Serves req j

/-- A call that ends now answers normally only if it was served. -/
def RequestServed (_ : Calls) (e : Pool.Event QueueStep) (w' : Calls) : Prop :=
  ∀ n g r, e = .call n → w'.threads n = some (g, .ret r) → g.req.auto = false →
    match r with
    | .ok _ => Served g.req w'.state.log
    | .error e => e = otherReview

/-- No operation ends a job that an unserved call has found under way, before the call has read it
for the last time. -/
def KeepsAwaited (w : Calls) : Pool.Event QueueStep → Prop
  | .outside (.op o) => ∀ n g, w.histories n = some g → g.req.auto = false → g.waiting = true →
    Served g.req w.state.log ∨ ∀ j ∈ w.state.db.reviewJobs, g.job = some j.id →
      isActive j.status = true →
      ∃ j' ∈ (o.program.run w.state.db).2.reviewJobs, j'.id = j.id ∧ isActive j'.status = true
  | _ => True

/-! ## The invariant -/

/-- The call has found its job under way. -/
def UnderWay (g : Call) (db : Db) : Prop :=
  ∃ j ∈ db.reviewJobs, g.job = some j.id ∧ isActive j.status = true

/-- A call that waits was served or its job is under way; and one that has read a job that is as
requested, or has ended, was served. -/
structure Waits (s : QueueState) (g : Call) : Prop where
  waiting : g.waiting = true → Served g.req s.log ∨ UnderWay g s.db
  last : ∀ row, g.last = some row → conflicts g.req.trigger g.req.retryRunId row = false →
    Served g.req s.log

/-- The invariant of the requests. -/
structure Requests (s : QueueState) (calls : Nat → Option Call) : Prop where
  base : Base s calls
  waits : ∀ n g, calls n = some g → g.req.auto = false → Waits s g

theorem Served.of_now {req : Request} {log : Log Db} (hs : req.since ≤ log.time) {j : ReviewJob}
    (hj : j ∈ log.now.reviewJobs) (h : Serves req j) : Served req log := by
  refine Log.During.of_now hs ?_
  exact ⟨j, hj, h⟩

/-- A job under way that does not conflict with a request serves it. -/
theorem serves_of_not_conflicts {req : Request} {j : ReviewJob} (ht : req.trigger ≠ .auto)
    (hfor : jobFor req.prId req.headSha j = true) (ha : isActive j.status = true)
    (hc : conflicts req.trigger req.retryRunId j = false) : Serves req j := by
  refine ⟨hfor, ha, ?_⟩
  unfold conflicts at hc
  rw [ha, Bool.true_and] at hc
  cases hr : req.trigger with
  | auto => exact absurd hr ht
  | manual =>
    have hm : j.trigger = .manual := by
      by_contra hne
      simp [hr, hne] at hc
    exact ⟨hm, fun h => by cases h⟩
  | retry =>
    have hm : j.trigger = .retry ∧ j.retryRunId = req.retryRunId := by
      by_contra hne
      rw [not_and_or] at hne
      rcases hne with hne | hne <;> simp [hr, hne] at hc
    exact ⟨hm.1, fun _ => hm.2⟩

theorem Served.push {req : Request} {log : Log Db} (h : Served req log) (db : Db) :
    Served req (log.push db) :=
  Log.During.push h db

theorem UnderWay.follows {g : Call} {db db' : Db} (h : UnderWay g db)
    (hf : Follows (fun j j' => isActive j.status = true → isActive j'.status = true) db db') :
    UnderWay g db' := by
  obtain ⟨j, hj, hid, ha⟩ := h
  obtain ⟨j', hj', hid', ha'⟩ := hf j hj
  exact ⟨j', hj', by rw [hid', hid], ha' ha⟩

/-- An enqueue ends no job. -/
theorem stmt_active {β : Type} (o : Stmt β) (db : Db) :
    Follows (fun j j' => isActive j.status = true → isActive j'.status = true) db (o.next db) := by
  refine stmt_preserves (follows_steady (fun {j j' j''} _ hr _ => ?_) db) o
    (.refl (fun _ h => h) db)
  cases hr with
  | promoted hs => simp [isActive, hs]
  | requeued => rfl

/-- A step after which an unserved call's job is still under way. -/
theorem Waits.step {s s' : QueueState} {g : Call} {db : Db} (h : Waits s g)
    (hlog : s'.log = s.log.push db)
    (hkeep : g.waiting = true → UnderWay g s.db → Served g.req s.log ∨ UnderWay g s'.db) :
    Waits s' g where
  waiting := fun hw => by
    rcases h.waiting hw with hs | hu
    · exact .inl (hlog ▸ hs.push db)
    · exact (hkeep hw hu).imp_left fun hs => hlog ▸ hs.push db
  last := fun row hl hc => hlog ▸ (h.last row hl hc).push db

theorem Waits.called {s : QueueState} {g : Call} (h : Waits s g) {β : Type} (m : Nat)
    (o : Stmt β) : Waits (s.called m (o.next s.db)) g :=
  h.step rfl fun _ hu => .inr (by
    rw [QueueState.db_called]
    exact hu.follows (stmt_active o s.db))

/-- After an attempt to revive the job, it is as requested or under way. -/
theorem revived_waits {s : QueueState} {n : Nat} {g : Call} (hk : Knows s n g)
    {jobId : Nat} (hjob : g.job = some jobId) :
    let o := Stmt.reviveFinished jobId g.req.trigger g.req.retryRunId
    Served g.req (s.called n (o.next s.db)).log ∨ UnderWay g (s.called n (o.next s.db)).db := by
  intro o
  obtain ⟨j, hj, rfl, hfor⟩ := hk.job jobId hjob
  have hmem : (if (j.id == j.id && isFinished j.status) = true then
      { requeue g.req.trigger j with retryRunId := g.req.retryRunId } else j) ∈
      (o.next s.db).reviewJobs :=
    Table.mem_update_of_mem (f := fun j : ReviewJob =>
      { requeue g.req.trigger j with retryRunId := g.req.retryRunId }) hj
  by_cases hf : isFinished j.status = true
  · rw [if_pos (by simp [hf])] at hmem
    have hserves : Serves g.req { requeue g.req.trigger j with retryRunId := g.req.retryRunId } :=
      ⟨hfor, rfl, rfl, fun _ => rfl⟩
    have hnow : (s.called n (o.next s.db)).log.now = o.next s.db := QueueState.db_called ..
    refine .inl (Served.of_now (hk.since.trans (Nat.le_succ _)) ?_ hserves)
    rw [hnow]
    exact hmem
  · rw [if_neg (by simp [hf])] at hmem
    refine .inr ⟨j, ?_, hjob, isFinished_eq_false.mp (by simpa using hf)⟩
    rw [QueueState.db_called]
    exact hmem

/-- A call that waits keeps track of its job. -/
theorem Waits.answered {s : QueueState} {n : Nat} {g : Call} (hk : Knows s n g) (h : Waits s g)
    (hauto : g.req.auto = false) {β : Type} {o : Stmt β} {b : β} (ha : g.allowed o)
    (hb : (o.program.run s.db).1 = .ok b) : Waits (s.called n (o.next s.db)) (g.answered o b) := by
  have h' := h.called n o
  cases o with
  | insert => exact ⟨h'.waiting, h'.last⟩
  | find prId headSha =>
    rw [run_find] at hb
    cases b with
    | none => exact ⟨h'.waiting, h'.last⟩
    | some row =>
      refine ⟨fun hw => .inr ⟨row, ?_, rfl, hw⟩, h'.last⟩
      rw [QueueState.db_called]
      exact Table.mem_of_find? (Except.ok.inj hb)
  | get jobId =>
    rw [run_get] at hb
    cases b with
    | none => exact ⟨h'.waiting, h'.last⟩
    | some row =>
      obtain ⟨hrow, hid⟩ := Table.get?_eq_some.mp (Except.ok.inj hb)
      obtain ⟨j, hj, hjid, hfor⟩ := hk.job jobId ha.2.1
      obtain rfl : j = row := Table.eq_of_id hj hrow (hjid.trans hid.symm)
      have hdb : (s.called n ((Stmt.get jobId).next s.db)).db = s.db := QueueState.db_called ..
      refine ⟨fun hw => .inr ⟨j, ?_, ?_, ?_⟩, fun row hl hc => ?_⟩
      · rw [hdb]
        exact hrow
      · exact ha.2.1.trans (congrArg some hid.symm)
      · -- it reads the job again only when it was queued
        simp only [Call.answered, promotes, Bool.and_eq_true, beq_iff_eq] at hw
        simp [isActive, hw.2.1.2]
      · obtain rfl := Option.some.inj hl
        by_cases hact : isActive j.status = true
        · refine Served.of_now (hk.since.trans (Nat.le_succ _)) (hdb.symm ▸ hrow) ?_
          exact serves_of_not_conflicts (hk.trigger hauto) hfor hact hc
        · -- the job has ended: it was served before
          rcases h'.waiting ha.2.2 with hs | ⟨i, hi, hij, hia⟩
          · exact hs
          · rw [hdb] at hi
            have hii : i.id = j.id := by
              rw [ha.2.1] at hij
              exact (Option.some.inj hij).symm.trans hid.symm
            obtain rfl : i = j := Table.eq_of_id hi hrow hii
            exact absurd hia hact
  | reviveCanceled => exact absurd ha.1 (by simp [hauto])
  | reviveFinished jobId trigger retryRunId =>
    obtain ⟨-, hjob, rfl, rfl⟩ := ha
    exact ⟨fun _ => revived_waits hk hjob, h'.last⟩
  | promote => exact ⟨h'.waiting, h'.last⟩
  | inTransaction => exact absurd ha (by simp [Call.allowed, hauto])

/-- **The invariant of the requests**, in runs in which no operation ends an awaited job. -/
theorem requests_hold : Pool.Holds machine contract Begins Fresh KeepsAwaited Requests where
  init := fun h => ⟨(base_holds KeepsAwaited).init h, fun n g hg => (by cases hg)⟩
  start := by
    intro w n g p h hguard hn hb
    refine ⟨(base_holds KeepsAwaited).start h.base hguard hn hb, fun m g' hm hauto => ?_⟩
    by_cases hmn : m = n
    · subst hmn
      rw [Function.update_self] at hm
      obtain rfl := Option.some.inj hm
      have hnew : ∀ req : Request, Waits w.state (.new req) := fun req =>
        ⟨fun hw => (by cases hw), fun row hl => (by cases hl)⟩
      cases hb <;> exact hnew _
    · rw [Function.update_of_ne hmn] at hm
      exact h.waits m g' hm hauto
  call := by
    intro w n g β o next r s h hguard hn ha hex
    refine ⟨(base_holds KeepsAwaited).call h.base hguard hn ha hex, fun m g' hm hauto => ?_⟩
    obtain ⟨rfl, rfl⟩ := hex
    obtain ⟨b, hb⟩ := stmt_ok o w.state.db
    have hng := Pool.histories_eq_some hn
    by_cases hmn : m = n
    · subst hmn
      rw [Function.update_self, hb] at hm
      obtain rfl := Option.some.inj hm
      have hauto' : g.req.auto = false := by
        have hreq : (g.answered o b).req = g.req := by
          unfold Call.answered
          split <;> rfl
        rwa [← hreq]
      exact (h.waits m g hng hauto').answered (h.base.knows m g hng) hauto' ha hb
    · rw [Function.update_of_ne hmn] at hm
      exact (h.waits m g' hm hauto).called n o
  outside := by
    intro w a s h hguard hout
    refine ⟨(base_holds KeepsAwaited).outside h.base hguard hout, fun n g hg hauto => ?_⟩
    have hwaits := h.waits n g hg hauto
    cases a with
    | op o =>
      obtain ⟨-, rfl⟩ := hout
      refine hwaits.step rfl fun hw hu => ?_
      rcases hguard n g hg hauto hw with hs | hkeep
      · exact .inl hs
      · obtain ⟨j, hj, hid, hact⟩ := hu
        obtain ⟨j', hj', hid', hact'⟩ := hkeep j hj hid hact
        refine .inr ⟨j', ?_, by rw [hid', hid], hact'⟩
        rw [QueueState.db_moved]
        exact hj'
    | outside =>
      obtain ⟨db', hdb', rfl⟩ := hout
      refine hwaits.step rfl fun _ hu => .inr ?_
      obtain ⟨j, hj, hid, hact⟩ := hu
      refine ⟨j, ?_, hid, hact⟩
      rw [QueueState.db_moved, hdb']
      exact hj

/-- **No request is lost** in a run in which no operation ends a job that an unserved call has
found under way: a call that answers normally was served, any other raises `ValueError`. -/
theorem requests_served {w w' : Calls} {e : Pool.Event QueueStep}
    (hr : traffic.Reach KeepsAwaited w) (hg : KeepsAwaited w e) (hstep : traffic.step w e w') :
    RequestServed w e w' := by
  intro n g r he hn hauto
  have hind := requests_hold.inductive (Q := Call.Ended) fun _ _ _ hs => starts_obeys hs
  have hw' := hind.step (hind.reach hr) hg hstep
  have hend : g.Ended r := hw'.obeys n g _ hn
  have hgh := Pool.histories_eq_some hn
  cases r with
  | ok out =>
    cases out with
    | auto jobId changed => exact absurd hend.1 (by simp [hauto])
    | job jobId =>
      obtain ⟨-, -, row, hl, hc⟩ := hend
      exact (hw'.holds.waits n g hgh hauto).last row hl hc
  | error e =>
    rcases hend with hb | ⟨-, he⟩
    · rw [(hw'.holds.base.knows n g hgh).broken] at hb
      cases hb
    · exact he

/-- A manual request for a head without a job, up to its last look. -/
def firstRequest : Calls :=
  ((((Calls.initial (.empty 0)).start 0 (.new ⟨false, 1, "A".toList, .manual, none, 0⟩) (do
    pure (.job (← reviveCall 1 "A".toList .manual 0 none)))).call 0).call 0).call 0

/-- It is served. -/
theorem requests_served_first :
    Served ⟨false, 1, "A".toList, .manual, none, 0⟩ (firstRequest.call 0).state.log := by
  have hr : traffic.Reach KeepsAwaited firstRequest :=
    Calls.reach_call (Calls.reach_call (Calls.reach_call (Calls.reach_start
      (Calls.reach_initial rfl) rfl (.manual 1 "A".toList 0) trivial) trivial) trivial) trivial
  have hg : KeepsAwaited firstRequest (.call 0) := trivial
  exact requests_served hr hg (Calls.step_call rfl) 0 _ (.ok (.job 1)) rfl rfl rfl

/-! ## A request that is lost -/

/-- The automatic enqueue has queued the head, and a manual request has found the job. -/
def foundQueued : Calls :=
  ((((Calls.initial (.empty 0)).start 0 (.new ⟨true, 1, "A".toList, .auto, none, 0⟩) (do
    let (jobId, changed) ← enqueueCall 1 "A".toList .auto 0
    pure (.auto jobId changed))).call 0).start 1 (.new ⟨false, 1, "A".toList, .manual, none, 1⟩) (do
      pure (.job (← reviveCall 1 "A".toList .manual 0 none)))).call 1

/-- A worker claims the job and finishes it. -/
def finishedMeanwhile : Calls :=
  (foundQueued.op (.claimNext "w".toList (some "P".toList) false)).op
    (.terminal (.done 7) 1 (some "P".toList))

theorem reach_finishedMeanwhile : traffic.Reach Sys.anyStep finishedMeanwhile := by
  have h₀ : traffic.Reach Sys.anyStep foundQueued :=
    Calls.reach_call (Calls.reach_start (Calls.reach_call (Calls.reach_start
      (Calls.reach_initial rfl) rfl (.enqueue 1 "A".toList .auto 0) trivial) trivial) rfl
      (.manual 1 "A".toList 0) trivial) trivial
  exact Calls.reach_op (Calls.reach_op h₀ rfl trivial) rfl trivial

/-- **A lost request.** The job that a manual request found queued by the automatic enqueue has
ended at its last look: the request answers normally, and the head is not reviewed again. -/
theorem request_lost : ¬traffic.StepInvariant Sys.anyStep RequestServed := by
  intro h
  obtain ⟨t, -, ht, j, hj, -, -, htrigger, -⟩ :=
    h reach_finishedMeanwhile trivial (Calls.step_call rfl) 1 _ (.ok (.job 1)) rfl rfl rfl
  -- the job was an automatic one all the time
  have hall : ∀ t ≤ 5, ∀ j ∈ ((finishedMeanwhile.call 1).state.log.past t).reviewJobs.rows,
      j.trigger = .auto := by decide
  exact absurd ((hall t ht j hj).symm.trans htrigger) (by decide)

end JobRepo
