import AlmightyReview.Job.Queue
import Mathlib.Algebra.Order.BigOperators.Group.Finset

/-!
# Truthful enqueues

What an enqueue says it did, it did; and what it may not touch, it leaves alone.

* `Base`: the invariant of `traffic`: pairs are unique, and what a call has read of the row of its
  pair is still there (`Knows`). It holds under any guard (`base_holds`).
* `Truthful`: a call that answers `True` has queued a job, and a statement of a call leaves running
  jobs as they are, and a statement of an automatic enqueue all jobs but those that the system
  canceled. `enqueue_truthful`: it holds of every step of every interleaving.
-/

namespace JobRepo

open Prog

/-! ## What a call knows -/

/-- The pair has a job. -/
def HasJob (req : Request) (db : Db) : Prop :=
  ∃ j ∈ db.reviewJobs, jobFor req.prId req.headSha j = true

/-- What a call has read is still so. -/
structure Knows (s : QueueState) (n : Nat) (g : Call) : Prop where
  since : g.req.since ≤ s.log.time
  broken : g.broken = false
  gained : g.gained ≤ s.queued n
  inserted : g.inserted = true → HasJob g.req s.db
  job : ∀ jobId, g.job = some jobId →
    ∃ j ∈ s.db.reviewJobs, j.id = jobId ∧ jobFor g.req.prId g.req.headSha j = true
  trigger : g.req.auto = false → g.req.trigger ≠ .auto

/-- Pairs are unique, and calls know what they have read. -/
structure Base (s : QueueState) (calls : Nat → Option Call) : Prop where
  unique : UniquePairs s.db
  knows : ∀ n g, calls n = some g → Knows s n g

theorem HasJob.follows {req : Request} {db db' : Db} (h : HasJob req db)
    (hf : Follows SamePair db db') : HasJob req db' := by
  obtain ⟨j, hj, hfor⟩ := h
  obtain ⟨j', hj', -, hp, hh⟩ := hf j hj
  rw [jobFor_iff] at hfor
  exact ⟨j', hj', jobFor_iff.mpr ⟨hp.trans hfor.1, hh.trans hfor.2⟩⟩

/-- A step that keeps the pairs of the jobs and takes no count back keeps what a call knows. -/
theorem Knows.step {s s' : QueueState} {n : Nat} {g : Call} (h : Knows s n g)
    (ht : s.log.time ≤ s'.log.time) (hq : s.queued n ≤ s'.queued n)
    (hf : Follows SamePair s.db s'.db) : Knows s' n g where
  since := h.since.trans ht
  broken := h.broken
  gained := h.gained.trans hq
  inserted := fun hi => (h.inserted hi).follows hf
  job := by
    intro jobId hjob
    obtain ⟨j, hj, hid, hfor⟩ := h.job jobId hjob
    obtain ⟨j', hj', hid', hp, hh⟩ := hf j hj
    rw [jobFor_iff] at hfor
    exact ⟨j', hj', hid'.trans hid, jobFor_iff.mpr ⟨hp.trans hfor.1, hh.trans hfor.2⟩⟩
  trigger := h.trigger

/-! ## The counts are true -/

theorem newlyQueued_new {db : Db} {j : ReviewJob} (h : db.reviewJobs.nextId ≤ j.id) :
    newlyQueued db j = true := by
  have hnone : db.reviewJobs.get? j.id = none := by
    rw [Table.get?_eq_none]
    intro r hr hid
    have hlt := Table.lt_nextId hr
    omega
  simp [newlyQueued, hnone]

theorem newlyQueued_requeued {db : Db} {j j' : ReviewJob} (hj : j ∈ db.reviewJobs)
    (hid : j'.id = j.id) (hc : SystemCanceled j) (hq : j'.status = .queued) :
    newlyQueued db j' = true := by
  have hget : db.reviewJobs.get? j'.id = some j := Table.get?_eq_some.mpr ⟨hj, hid.symm⟩
  simp [newlyQueued, hget, hc, hq]

theorem one_le_queuedBetween {db db' : Db} {j' : ReviewJob} (hj' : j' ∈ db'.reviewJobs)
    (h : newlyQueued db j' = true) : 1 ≤ queuedBetween db db' :=
  Table.count_pos.mpr ⟨j', hj', h⟩

theorem queuedBetween_withNewJob (prId : Nat) (headSha : Sha) (trigger : Trigger)
    (priority : Int) (retryRunId : Option Nat) (db : Db) :
    1 ≤ queuedBetween db (withNewJob prId headSha trigger priority retryRunId db) :=
  one_le_queuedBetween (Table.mem_insert_self _) (newlyQueued_new (Nat.le_refl _))

theorem queuedBetween_withRevived {db : Db} {row : ReviewJob} (hrow : row ∈ db.reviewJobs)
    (hc : SystemCanceled row) (trigger : Trigger) (keepRetryRun : Bool) :
    1 ≤ queuedBetween db (withRevived row.id trigger keepRetryRun db) := by
  have hmem : revive trigger keepRetryRun row ∈
      (withRevived row.id trigger keepRetryRun db).reviewJobs := by
    rw [withRevived, Table.mem_update]
    exact ⟨row, hrow, by simp⟩
  exact one_le_queuedBetween hmem (newlyQueued_requeued hrow rfl hc rfl)

/-- What the answers say was queued was queued. -/
theorem gained_answered {g : Call} {β : Type} {o : Stmt β} {b : β} {db : Db}
    (ha : g.allowed o) (hb : (o.program.run db).1 = .ok b) :
    (g.answered o b).gained ≤ g.gained + queuedBetween db (o.next db) := by
  unfold Stmt.next
  cases o with
  | insert prId headSha trigger priority retryRunId =>
    rw [run_insert] at hb ⊢
    split at hb
    · obtain rfl : 0 = b := by simpa using hb
      exact Nat.le_add_right _ _
    · obtain rfl : 1 = b := by simpa using hb
      rw [if_neg ‹_›]
      exact Nat.add_le_add_left (queuedBetween_withNewJob ..) _
  | find => cases b <;> exact Nat.le_add_right _ _
  | get => cases b <;> exact Nat.le_add_right _ _
  | reviveCanceled jobId error trigger =>
    have hp : ∀ j : ReviewJob, (j.id == jobId && j.status == .canceled && j.error == error) = true →
        Row.id j = jobId := by
      intro j hj
      simp only [Bool.and_eq_true, beq_iff_eq] at hj
      exact hj.1.1
    rw [run_reviveCanceled] at hb ⊢
    obtain rfl := Except.ok.inj hb
    have hle := Table.count_le_one (t := db.reviewJobs) hp
    rcases Nat.eq_zero_or_pos (db.reviewJobs.count
      fun j => j.id == jobId && j.status == .canceled && j.error == error) with h0 | hpos
    · show g.gained + _ ≤ _
      rw [h0]
      exact Nat.le_add_right _ _
    · obtain ⟨j, hj, hjp⟩ := Table.count_pos.mp hpos
      have hmem := Table.mem_update_of_mem (p := fun j : ReviewJob =>
        j.id == jobId && j.status == .canceled && j.error == error) (f := requeue trigger) hj
      rw [if_pos hjp] at hmem
      simp only [Bool.and_eq_true, beq_iff_eq] at hjp
      have hnew : newlyQueued db (requeue trigger j) = true :=
        newlyQueued_requeued hj rfl ⟨hjp.1.2, hjp.2 ▸ ha.2⟩ rfl
      refine Nat.add_le_add_left (hle.trans ?_) _
      exact one_le_queuedBetween hmem hnew
  | reviveFinished => exact Nat.le_add_right _ _
  | promote => exact Nat.le_add_right _ _
  | inTransaction prId headSha trigger priority =>
    rw [run_inTransaction] at hb ⊢
    obtain rfl := Except.ok.inj hb
    refine Nat.add_le_add_left ?_ _
    cases hf : db.reviewJobs.find? (jobFor prId headSha) with
    | none =>
      rw [queueLatest_new hf]
      exact queuedBetween_withNewJob ..
    | some row =>
      rw [queueLatest_old hf]
      by_cases hc : SystemCanceled row
      · rw [if_pos hc]
        exact queuedBetween_withRevived (Table.mem_of_find? hf) hc trigger true
      · rw [if_neg hc]
        exact Nat.zero_le _

/-! ## The invariant -/

/-- No statement of a call raises. -/
theorem stmt_ok {β : Type} (o : Stmt β) (db : Db) : ∃ b, (o.program.run db).1 = .ok b := by
  cases o with
  | insert =>
    rw [run_insert]
    split <;> exact ⟨_, rfl⟩
  | inTransaction =>
    rw [run_inTransaction]
    exact ⟨_, rfl⟩
  | _ => exact ⟨_, rfl⟩

theorem Knows.called {s : QueueState} {n : Nat} {g : Call} (h : Knows s n g) {β : Type}
    (m : Nat) (o : Stmt β) : Knows (s.called m (o.next s.db)) n g := by
  refine h.step (Nat.le_succ _) ?_ ?_
  · show s.queued n ≤ Function.update s.queued m _ n
    by_cases hm : n = m
    · subst hm
      rw [Function.update_self]
      exact Nat.le_add_right _ _
    · rw [Function.update_of_ne hm]
  · rw [QueueState.db_called]
    exact stmt_samePair o s.db

/-- A call knows what its statement answered. -/
theorem Knows.answered {s : QueueState} {n : Nat} {g : Call} (h : Knows s n g) {β : Type}
    {o : Stmt β} {b : β} (ha : g.allowed o) (hb : (o.program.run s.db).1 = .ok b) :
    Knows (s.called n (o.next s.db)) n (g.answered o b) := by
  have h' := h.called n o
  have hg : (g.answered o b).gained ≤ (s.called n (o.next s.db)).queued n := by
    refine (gained_answered ha hb).trans ?_
    show g.gained + _ ≤ Function.update s.queued n _ n
    rw [Function.update_self]
    exact Nat.add_le_add_right h.gained _
  cases o with
  | insert prId headSha trigger priority retryRunId =>
    obtain ⟨rfl, rfl, -, -⟩ := ha
    refine { h' with gained := hg, inserted := fun _ => ?_ }
    unfold HasJob
    rw [QueueState.db_called, Stmt.next, run_insert]
    cases hf : s.db.reviewJobs.find? (jobFor g.req.prId g.req.headSha) with
    | some row =>
      rw [if_pos (by simp)]
      exact ⟨row, Table.mem_of_find? hf, Table.of_find? hf⟩
    | none =>
      rw [if_neg (by simp)]
      exact ⟨_, Table.mem_insert_self _, jobFor_iff.mpr ⟨rfl, rfl⟩⟩
  | find prId headSha =>
    obtain ⟨rfl, rfl⟩ := ha
    rw [run_find] at hb
    cases b with
    | none =>
      refine { h' with broken := ?_ }
      show g.inserted = false
      by_contra hi
      obtain ⟨j, hj, hfor⟩ := h.inserted (by simpa using hi)
      rw [Table.find?_eq_none.mp (Except.ok.inj hb) j hj] at hfor
      cases hfor
    | some row =>
      have hf := Except.ok.inj hb
      refine { h' with job := fun jobId hjob => ?_ }
      obtain rfl : row.id = jobId := Option.some.inj hjob
      rw [QueueState.db_called]
      exact ⟨row, Table.mem_of_find? hf, rfl, Table.of_find? hf⟩
  | get jobId =>
    rw [run_get] at hb
    cases b with
    | none =>
      obtain ⟨j, hj, hid, -⟩ := h.job jobId ha.2.1
      exact absurd hid (Table.get?_eq_none.mp (Except.ok.inj hb) j hj)
    | some row => exact { h' with }
  | reviveCanceled => exact { h' with gained := hg }
  | reviveFinished => exact { h' with }
  | promote => exact { h' with }
  | inTransaction => exact { h' with gained := hg }

theorem Base.op {s : QueueState} {calls : Nat → Option Call} (h : Base s calls) (o : Op) :
    Base (s.moved o.enqueues (o.program.run s.db).2) calls where
  unique := by
    rw [QueueState.db_moved]
    exact op_uniquePairs o h.unique
  knows := fun n g hg => (h.knows n g hg).step (Nat.le_succ _) (Nat.le_refl _) (by
    rw [QueueState.db_moved]
    exact op_samePair o s.db)

/-- **The base invariant** holds in every run. -/
theorem base_holds (G : Pool Stmt Exc QueueState Call Outcome → Pool.Event QueueStep → Prop) :
    Pool.Holds machine contract Begins Fresh G Base where
  init := by
    intro s h
    refine ⟨fun j hj => ?_, fun n g hg => by cases hg⟩
    rw [h.1] at hj
    exact absurd hj Table.mem_empty
  start := by
    intro w n g p h _ _ hb
    refine ⟨h.unique, fun m g' hm => ?_⟩
    by_cases hmn : m = n
    · subst hmn
      rw [Function.update_self] at hm
      obtain rfl := Option.some.inj hm
      have hnew : ∀ req : Request, req.since = w.state.log.time →
          (req.auto = false → req.trigger ≠ .auto) → Knows w.state m (.new req) := by
        intro req hs ht
        exact ⟨Nat.le_of_eq hs, rfl, Nat.zero_le _, fun hi => (by cases hi),
          fun _ hj => (by cases hj), ht⟩
      cases hb with
      | enqueue => exact hnew _ rfl fun h => by cases h
      | inTransaction => exact hnew _ rfl fun h => by cases h
      | manual => exact hnew _ rfl fun _ h => by cases h
      | retry => exact hnew _ rfl fun _ h => by cases h
    · rw [Function.update_of_ne hmn] at hm
      exact h.knows m g' hm
  call := by
    intro w n g β o next r s h _ hn ha hex
    obtain ⟨rfl, rfl⟩ := hex
    obtain ⟨b, hb⟩ := stmt_ok o w.state.db
    have hg := h.knows n g (Pool.histories_eq_some hn)
    refine ⟨?_, fun m g' hm => ?_⟩
    · rw [QueueState.db_called]
      exact stmt_uniquePairs o h.unique
    · by_cases hmn : m = n
      · subst hmn
        rw [Function.update_self] at hm
        obtain rfl := Option.some.inj hm
        rw [hb]
        exact hg.answered ha hb
      · rw [Function.update_of_ne hmn] at hm
        exact (h.knows m g' hm).called n o
  outside := by
    intro w a s h _ hout
    cases a with
    | op o =>
      obtain ⟨-, rfl⟩ := hout
      exact h.op o
    | outside =>
      obtain ⟨db', hdb', rfl⟩ := hout
      refine ⟨?_, fun n g hg => (h.knows n g hg).step (Nat.le_succ _) (Nat.le_refl _) ?_⟩
      · unfold UniquePairs
        rw [QueueState.db_moved, hdb']
        exact h.unique
      · rw [QueueState.db_moved]
        intro j hj
        exact ⟨j, hdb' ▸ hj, rfl, rfl, rfl⟩

/-! ## The law -/

/-- Call `n` has answered that it queued a job. -/
def AnsweredTrue (w : Calls) (n : Nat) : Prop :=
  ∃ g jobId, w.threads n = some (g, .ret (.ok (.auto jobId true)))

/-- Pairs have one job, and an answer `True` was earned by the call that gave it. -/
structure Earned (w : Calls) : Prop where
  unique : UniquePairs w.state.db
  own : ∀ n, AnsweredTrue w n → 1 ≤ w.state.queued n
  total : ∀ N : Finset Nat, (∀ n ∈ N, AnsweredTrue w n) → N.card ≤ ∑ n ∈ N, w.state.queued n

/-- The jobs that a statement of a call leaves exactly as they are. -/
structure LeavesAlone (w : Calls) (e : Pool.Event QueueStep) (w' : Calls) : Prop where
  /-- Every call leaves running jobs alone. -/
  running : ∀ n, e = .call n → ∀ j ∈ w.state.db.reviewJobs, j.status = .running →
    j ∈ w'.state.db.reviewJobs
  /-- An automatic enqueue leaves alone all jobs but those that the system canceled. -/
  auto : ∀ n g p, e = .call n → w.threads n = some (g, p) → g.req.auto = true →
    ∀ j ∈ w.state.db.reviewJobs, ¬SystemCanceled j → j ∈ w'.state.db.reviewJobs

/-- A job that its steps leave as it is. -/
theorem Follows.mem {P : ReviewJob → Prop} {db db' : Db}
    (h : Follows (fun j j' => P j → j' = j) db db') {j : ReviewJob} (hj : j ∈ db.reviewJobs)
    (hp : P j) : j ∈ db'.reviewJobs := by
  obtain ⟨j', hj', -, he⟩ := h j hj
  exact he hp ▸ hj'

/-- Jobs that `R` does not start from are left as they are. -/
theorem untouched_steady {R : ReviewJob → ReviewJob → Prop} {P : ReviewJob → Prop}
    (hR : ∀ {j j'}, R j j' → ¬P j) (db₀ : Db) :
    Steady R (Follows (fun j j' => P j → j' = j) db₀) :=
  follows_steady (fun {j j' j''} hs hr hp => by
    obtain rfl := hs hp
    exact absurd hp (hR hr)) db₀

/-- A statement of a call leaves running jobs alone. -/
theorem stmt_running {β : Type} (o : Stmt β) {db : Db} {j : ReviewJob} (hj : j ∈ db.reviewJobs)
    (hr : j.status = .running) : j ∈ (o.next db).reviewJobs :=
  (stmt_preserves (untouched_steady (P := fun j => j.status = .running)
    EnqueueStep.not_running db) o (.refl (fun _ _ => rfl) db)).mem hj hr

/-- A statement of an automatic enqueue changes jobs that the system canceled only. -/
theorem stmt_auto {g : Call} {β : Type} {o : Stmt β} (ha : g.allowed o)
    (hauto : g.req.auto = true) {db : Db} {j : ReviewJob} (hj : j ∈ db.reviewJobs)
    (hc : ¬SystemCanceled j) : j ∈ (o.next db).reviewJobs := by
  have hI : Steady AutoStep (Follows (fun j j' => ¬SystemCanceled j → j' = j) db) :=
    untouched_steady (fun h hn => hn h.1) db
  refine Follows.mem (P := fun j => ¬SystemCanceled j)
    (Sql.preserves_run ?_ (.refl (fun _ _ => rfl) db)) hj hc
  cases o with
  | insert prId headSha trigger priority retryRunId =>
    exact Sql.preserves_bind (insertJob_preserves hI _ _ _ _ _) fun _ =>
      Sql.preserves_bind Sql.preserves_commit fun _ => Sql.preserves_pure _
  | find prId headSha =>
    exact Sql.preserves_select fun db => db.reviewJobs.find? (jobFor prId headSha)
  | get jobId => exact Sql.preserves_select fun db => db.reviewJobs.get? jobId
  | reviveCanceled jobId error trigger =>
    refine Sql.preserves_bind (preserves_updateJobs hI fun db j hp => ?_) fun _ =>
      Sql.preserves_bind Sql.preserves_commit fun _ => Sql.preserves_pure _
    simp only [Bool.and_eq_true, beq_iff_eq] at hp
    exact ⟨⟨hp.1.2, hp.2 ▸ ha.2⟩, trigger, rfl⟩
  | reviveFinished => exact absurd hauto (by simp [ha.1])
  | promote => exact absurd hauto (by simp [ha.1])
  | inTransaction prId headSha trigger priority =>
    exact Sql.preserves_bind (enqueueWithResult_preserves hI _ _ _ _ _) fun _ =>
      Sql.preserves_bind Sql.preserves_commit fun _ => Sql.preserves_pure _

theorem earned {w : Calls} (h : Pool.Sound contract Call.Ended Base w) : Earned w := by
  have hown : ∀ n, AnsweredTrue w n → 1 ≤ w.state.queued n := by
    rintro n ⟨g, jobId, hn⟩
    have hend : g.req.auto = true ∧ (true = true → 1 ≤ g.gained) := h.obeys n g _ hn
    exact (hend.2 rfl).trans (h.holds.knows n g (Pool.histories_eq_some hn)).gained
  refine ⟨h.holds.unique, hown, fun N hN => ?_⟩
  rw [Finset.card_eq_sum_ones]
  exact Finset.sum_le_sum fun n hn => hown n (hN n hn)

/-- **Automatic enqueue is truthful and never clobbers.** In every state of every interleaving,
pairs have one job and each answer `True` was earned; and every statement of a call leaves running
jobs alone, one of an automatic enqueue every job but those that the system canceled. -/
theorem enqueue_truthful :
    (∀ w, traffic.Reach Sys.anyStep w → Earned w) ∧
      traffic.StepInvariant Sys.anyStep LeavesAlone := by
  have hb := base_holds (G := Sys.anyStep)
  refine ⟨fun w hw => earned ((hb.inductive fun _ _ _ hs => starts_obeys hs).reach hw), ?_⟩
  refine hb.stepInvariant (fun _ _ _ hs => starts_obeys hs) fun {w e w'} hw _ hstep => ?_
  cases hstep with
  | start => exact ⟨fun n he => (by cases he), fun n g p he => (by cases he)⟩
  | outside => exact ⟨fun n he => (by cases he), fun n g p he => (by cases he)⟩
  | @call n g β o next r s hn hex =>
    obtain ⟨rfl, rfl⟩ := hex
    have hdb : (({ w with state := w.state.called n (o.next w.state.db) } : Calls).put n
      (contract.after g o (o.program.run w.state.db).1)
      (next (o.program.run w.state.db).1)).state.db = o.next w.state.db :=
      QueueState.db_called ..
    refine ⟨fun m he j hj hr => ?_, fun m g' p he hm hauto j hj hc => ?_⟩
    · rw [hdb]
      exact stmt_running o hj hr
    · obtain rfl : n = m := by cases he; rfl
      rw [hn] at hm
      cases hm
      rw [hdb]
      exact stmt_auto (hw.obeys n g _ hn).1 hauto hj hc

/-- The first automatic enqueue of a head, from its start to its answer. -/
def firstEnqueue : Calls :=
  (((Calls.initial (.empty 0)).start 0 (.new ⟨true, 1, "A".toList, .auto, none, 0⟩) (do
    let (jobId, changed) ← enqueueCall 1 "A".toList .auto 0
    pure (.auto jobId changed))).call 0).call 0

/-- It answers `True`, and it has queued a job. -/
theorem enqueue_truthful_first : 1 ≤ firstEnqueue.state.queued 0 := by
  have hr : traffic.Reach Sys.anyStep firstEnqueue :=
    Calls.reach_call (Calls.reach_call (Calls.reach_start (Calls.reach_initial rfl) rfl
      (.enqueue 1 "A".toList .auto 0) trivial) trivial) trivial
  exact (enqueue_truthful.1 _ hr).own 0 ⟨_, _, rfl⟩

end JobRepo
