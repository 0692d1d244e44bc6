import AlmightyReview.Delete.Eligible
import AlmightyReview.Job.Queue
import AlmightyReview.Pr.Newer
import AlmightyReview.Wiki.Repo
import Mathlib.Data.Fintype.EquivFin

/-!
# Deleting a repository while others work

`delete_repo` asks whether the repository has active work, and removes the repository in another
transaction. Between the two, polls, webhooks, enqueues and wiki requests may begin work.

* `deleteRepo`: the endpoint. `ServerStep`: the steps of the others, each with its commit.
* `Idle`: no job of the repository waits or runs, and its wiki page is not generated.
* `Known`: every job has its pull request, which foreign keys see to.
* `BeginsWork`: the steps that may begin work for a repository.
* `Undisturbed`: the guard. While a request stands between its check and its removal, nobody begins
  work for its repository. Then no active work is deleted (`active_work_spared`).
* `active_work_deleted`: without the guard, a removal deletes a job that was queued meanwhile.
-/

namespace Race

open Sql Prog PrRepo Poller JobRepo Deletion

/-! ## The request -/

/-- An operation of `delete_repo`. -/
inductive DeleteOp : Type → Type
  | get (rid : Nat) : DeleteOp (Option Repo)
  | hasActiveWork (rid : Nat) : DeleteOp Bool
  | remove (rid : Nat) : DeleteOp Bool

/-- `repo_repo.has_active_work`. -/
def hasActiveWork (rid : Nat) (db : FullDb) : Bool :=
  (db.reviewJobs.rows.any fun j => isActive j.status &&
      db.pullRequests.rows.any fun p => p.id == j.prId && p.repoId == rid) ||
    db.wikiPages.rows.any fun w => w.repoId == rid && w.status == .generating

def DeleteOp.program {β : Type} : DeleteOp β → Sql FullDb Exc β
  | .get rid => select fun db => db.repos.get? rid
  | .hasActiveWork rid => select (Race.hasActiveWork rid)
  | .remove rid => Deletion.remove rid

/-- `delete_repo`. -/
def deleteRepo (rid : Nat) : Prog DeleteOp Exc Nat := do
  match ← perform (.get rid) with
  | none => throw (.httpException 404 "repo not found".toList)
  | some _ =>
    let active ← perform (.hasActiveWork rid)
    if active then
      throw (.httpException 409 "진행 중인 리뷰 또는 Wiki 생성을 먼저 완료하거나 취소하세요".toList)
    else
      let _ ← perform (.remove rid)
      pure rid

/-! ## The others -/

/-- The pull request is of the repository. -/
def OfRepo (rid : Nat) (db : Db) (pid : Nat) : Prop :=
  ∃ p ∈ db.pullRequests, p.id = pid ∧ p.repoId = rid

/-- No job of the repository waits or runs, and its page is not generated. -/
structure Idle (rid : Nat) (db : Db) : Prop where
  jobs : ∀ j ∈ db.reviewJobs, isActive j.status = true → ¬OfRepo rid db j.prId
  wiki : ∀ w ∈ db.wikiPages, w.repoId = rid → w.status ≠ .generating

/-- Every job has its pull request. -/
def Known (db : Db) : Prop := ∀ j ∈ db.reviewJobs, ∃ p ∈ db.pullRequests, p.id = j.prId

/-- A step that begins no work: it adds no pull request, and whatever is active was so before. -/
structure Quiet (db db' : Db) : Prop where
  pulls : ∀ p' ∈ db'.pullRequests, ∃ p ∈ db.pullRequests, p.id = p'.id ∧ p.repoId = p'.repoId
  known : Known db'
  jobs : ∀ j' ∈ db'.reviewJobs, isActive j'.status = true →
    ∃ j ∈ db.reviewJobs, isActive j.status = true ∧ j.prId = j'.prId
  wiki : ∀ w' ∈ db'.wikiPages, w'.status = .generating →
    ∃ w ∈ db.wikiPages, w.status = .generating ∧ w.repoId = w'.repoId

/-- A step of another party, with its commit. -/
inductive ServerStep where
  /-- The operation of a poll. -/
  | poll {β : Type} (o : PollOp β)
  /-- The `upsert` of a webhook, which its enqueue follows. -/
  | upsert (repoId : Nat) (pr : PullInfo)
  /-- A statement of an enqueue. -/
  | enqueue {β : Type} (s : Stmt β)
  | claim (workerId : Text) (owner : Option ProcessId) (locked : Bool)
  | refreshWiki (rid : Nat)
  | claimWiki (workerId : Text) (owner : Option ProcessId) (locked : Bool)
  /-- The rest of the server works. -/
  | other

/-- The pull request that a statement inserts a job of. -/
def insertsFor {β : Type} : Stmt β → Option Nat
  | .insert prId _ _ _ _ => some prId
  | .inTransaction prId _ _ _ => some prId
  | _ => none

/-- The database after a program on the tables of the server. -/
def onServer {β : Type} (p : Sql Db Exc β) (db : FullDb) : FullDb :=
  { db with toDb := (p.run db.toDb).2 }

/-- A job is inserted for a pull request that exists only, which the foreign key sees to. -/
def ServerStep.Run (db : FullDb) : ServerStep → FullDb → Prop
  | .poll o, db' => ∃ p, o.program = some p ∧ db' = onServer p db
  | .upsert repoId pr, db' => db' = onServer (PrRepo.upsert repoId pr true) db
  | .enqueue s, db' => (∀ pid, insertsFor s = some pid → ∃ p ∈ db.pullRequests, p.id = pid) ∧
    db' = onServer s.program db
  | .claim workerId owner locked, db' => db' = onServer (claimNext workerId owner locked) db
  | .refreshWiki rid, db' => db' = onServer (WikiRepo.markGenerating rid) db
  | .claimWiki workerId owner locked, db' =>
    db' = onServer (WikiRepo.claimNext workerId owner locked) db
  | .other, db' => Quiet db.toDb db'.toDb

/-- A request whose check has passed, as its history tells. -/
abbrev Checked := Option Nat

def machine : Machine DeleteOp Exc FullDb ServerStep where
  exec {_} _ o s r s' := r = (o.program.run s).1 ∧ s' = (o.program.run s).2
  outside a s s' := a.Run s s'

/-- A request removes the repository that it has found without work. -/
def contract : Contract DeleteOp Exc Checked where
  allowed g o :=
    match o with
    | .remove rid => g = some rid
    | _ => True
  after g o r :=
    match o, r with
    | .hasActiveWork rid, .ok false => some rid
    | .remove _, _ => none
    | _, _ => g

/-- A request begins. -/
inductive Begins (db : FullDb) : Checked → Prog DeleteOp Exc Nat → Prop
  | request (rid : Nat) : Begins db none (deleteRepo rid)

/-- Requests under way. -/
abbrev Requests := Pool DeleteOp Exc FullDb Checked Nat

/-- **Deletions among the others**, from a database with its foreign keys in order. -/
def deleting : Sys Requests (Pool.Event ServerStep) :=
  Pool.system machine contract Begins fun db => Known db.toDb

/-! ## The guard -/

/-- The poll stores a pull request of the repository that it may enqueue. -/
def StoresFor {β : Type} (rid : Nat) : PollOp β → Prop
  | .storeAll repo settings _ prs =>
    repo.id = rid ∧ ∃ pr ∈ prs, wanted repo settings pr.isDraft = true
  | .storeOne repo settings pr => repo.id = rid ∧ wanted repo settings pr.isDraft = true
  | _ => False

/-- The statement queues a job of the repository. -/
def Queues {β : Type} (rid : Nat) (db : Db) : Stmt β → Prop
  | .insert prId _ _ _ _ => OfRepo rid db prId
  | .inTransaction prId _ _ _ => OfRepo rid db prId
  | .reviveCanceled jobId _ _ => ∃ j ∈ db.reviewJobs, j.id = jobId ∧ OfRepo rid db j.prId
  | .reviveFinished jobId _ _ => ∃ j ∈ db.reviewJobs, j.id = jobId ∧ OfRepo rid db j.prId
  | _ => False

/-- The step may begin work for the repository. -/
def BeginsWork (rid : Nat) (db : FullDb) : ServerStep → Prop
  | .poll o => StoresFor rid o
  | .enqueue s => Queues rid db.toDb s
  | .refreshWiki rid' => rid' = rid
  | _ => False

/-- While a request stands between its check and its removal, nobody begins work for its
repository. -/
def Undisturbed (w : Requests) : Pool.Event ServerStep → Prop
  | .outside a => ∀ n rid, w.histories n = some (some rid) → ¬BeginsWork rid w.state a
  | _ => True

/-! ## The check and the removal -/

theorem hasActiveWork_eq_false {rid : Nat} {db : FullDb} :
    hasActiveWork rid db = false ↔ Idle rid db.toDb := by
  have hof : ∀ pid, (db.pullRequests.rows.any fun p => p.id == pid && p.repoId == rid) = true ↔
      OfRepo rid db.toDb pid := by
    intro pid
    simp only [List.any_eq_true, Bool.and_eq_true, beq_iff_eq]
    rfl
  unfold hasActiveWork
  rw [Bool.or_eq_false_iff, List.any_eq_false, List.any_eq_false]
  constructor
  · rintro ⟨hjobs, hwiki⟩
    refine ⟨fun j hj ha ho => hjobs j hj ?_, fun w hw hrid hst => hwiki w hw ?_⟩
    · rw [ha, (hof j.prId).mpr ho, Bool.and_true]
    · rw [hrid, hst, beq_self_eq_true, beq_self_eq_true, Bool.and_true]
  · rintro ⟨hjobs, hwiki⟩
    refine ⟨fun j hj h => ?_, fun w hw h => ?_⟩
    · rw [Bool.and_eq_true] at h
      exact hjobs j hj h.1 ((hof j.prId).mp h.2)
    · rw [Bool.and_eq_true, beq_iff_eq, beq_iff_eq] at h
      exact hwiki w hw h.1 h.2

/-- A removal leaves the database as it was, or takes what goes with the repository. -/
theorem rows_remove (rid : Nat) (db : FullDb) : ((Deletion.remove rid).run db).2 = db ∨
    ((Deletion.remove rid).run db).2.rows =
      Refs.without (doomed (some rid) (prIds rid db.rows) db.rows) (fun _ => true) db.rows := by
  show ((match db.repos.get? rid with
    | none => pure false
    | some _ => transaction do
      execAll (removeStatements rid)
      pure true : Sql FullDb Exc Bool).run db).2 = db ∨ ((match db.repos.get? rid with
    | none => pure false
    | some _ => transaction do
      execAll (removeStatements rid)
      pure true : Sql FullDb Exc Bool).run db).2.rows = _
  cases hg : db.repos.get? rid with
  | none => exact .inl rfl
  | some r =>
    obtain ⟨hr, hid⟩ := Table.get?_eq_some.mp hg
    simp only
    rw [run_transaction (inside_bind (inside_execAll _) fun _ => inside_pure _), onConn_bind]
    cases he : (execAll (removeStatements rid)).onConn ⟨db, db, true⟩ with
    | mk res c' =>
      cases res with
      | error e => exact .inl rfl
      | ok u =>
        obtain ⟨-, hrows⟩ := rows_of_execAll (clears_remove hr hid) (orderly_remove rid)
          (c := ⟨db, db, true⟩) rfl he
        rw [cleared_remove] at hrows
        exact .inr hrows

/-- Active jobs and pages under generation are still there. -/
structure SparesWork (db db' : FullDb) : Prop where
  jobs : ∀ j ∈ db.reviewJobs, isActive j.status = true → j ∈ db'.reviewJobs
  wiki : ∀ w ∈ db.wikiPages, w.status = .generating → w ∈ db'.wikiPages

theorem SparesWork.refl (db : FullDb) : SparesWork db db := ⟨fun _ hj _ => hj, fun _ hw _ => hw⟩

theorem mem_prIds {rid : Nat} {db : FullDb} {pid : Nat} :
    (prIds rid db.rows).contains pid = true ↔ OfRepo rid db.toDb pid := by
  rw [← any_pullRequest, List.any_eq_true]
  simp only [Bool.and_eq_true, beq_iff_eq]
  rfl

/-- The removal of a repository without work deletes no work. -/
theorem sparesWork_remove {rid : Nat} {db : FullDb} (h : Idle rid db.toDb) :
    SparesWork db ((Deletion.remove rid).run db).2 := by
  rcases rows_remove rid db with heq | hrows
  · rw [heq]
    exact .refl db
  · constructor
    · intro j hj ha
      have hstays : j ∈ ((Deletion.remove rid).run db).2.rows .reviewJob := by
        rw [hrows]
        refine Refs.mem_without.mpr ⟨hj, fun _ => ?_⟩
        by_contra hd
        exact h.jobs j hj ha (mem_prIds.mp (Bool.not_eq_false _ ▸ hd))
      exact hstays
    · intro w hw hst
      have hstays : w ∈ ((Deletion.remove rid).run db).2.rows .wikiPage := by
        rw [hrows]
        refine Refs.mem_without.mpr ⟨hw, fun _ => ?_⟩
        by_contra hd
        have hrid : (some rid == some w.repoId) = true := Bool.not_eq_false _ ▸ hd
        rw [beq_iff_eq, Option.some.injEq] at hrid
        exact h.wiki w hw hrid.symm hst
      exact hstays

/-! ## Steps that begin no work for the repository -/

/-- Jobs have their pull requests, and the repository has no work. -/
def Calm (rid : Nat) (db : Db) : Prop := Known db ∧ Idle rid db

/-- A quiet step keeps a repository calm. -/
theorem Quiet.calm {rid : Nat} {db db' : Db} (hq : Quiet db db') (h : Idle rid db) :
    Calm rid db' := by
  refine ⟨hq.known, fun j' hj' ha ho => ?_, fun w' hw' hrid hst => ?_⟩
  · obtain ⟨j, hj, hja, hpr⟩ := hq.jobs j' hj' ha
    obtain ⟨p', hp', hid, hr⟩ := ho
    obtain ⟨p, hp, hpid, hpr'⟩ := hq.pulls p' hp'
    exact h.jobs j hj hja ⟨p, hp, hpid.trans (hid.trans hpr.symm), hpr'.trans hr⟩
  · obtain ⟨w, hw, hwst, hwr⟩ := hq.wiki w' hw' hst
    exact h.wiki w hw (hwr.trans hrid) hwst

theorem quiet_remove (rid : Nat) {db : FullDb} (h : Known db.toDb) :
    Quiet db.toDb ((Deletion.remove rid).run db).2.toDb := by
  rcases rows_remove rid db with heq | hrows
  · rw [heq]
    exact ⟨fun p hp => ⟨p, hp, rfl, rfl⟩, h, fun j hj ha => ⟨j, hj, ha, rfl⟩,
      fun w hw hst => ⟨w, hw, hst, rfl⟩⟩
  · have hsub : ∀ t, ∀ r ∈ ((Deletion.remove rid).run db).2.rows t,
        r ∈ db.rows t ∧ doomed (some rid) (prIds rid db.rows) db.rows t r = false := by
      intro t r hr
      rw [hrows] at hr
      exact ⟨(Refs.mem_without.mp hr).1, (Refs.mem_without.mp hr).2 rfl⟩
    refine ⟨fun p hp => ⟨p, (hsub .pullRequest p hp).1, rfl, rfl⟩, fun j hj => ?_,
      fun j hj ha => ⟨j, (hsub .reviewJob j hj).1, ha, rfl⟩,
      fun w hw hst => ⟨w, (hsub .wikiPage w hw).1, hst, rfl⟩⟩
    -- a job that stays is of a pull request that stays
    obtain ⟨hj, hd⟩ := hsub .reviewJob j hj
    obtain ⟨p, hp, hid⟩ := h j hj
    have hstays : p ∈ ((Deletion.remove rid).run db).2.rows .pullRequest := by
      rw [hrows]
      refine Refs.mem_without.mpr ⟨hp, fun _ => ?_⟩
      show (prIds rid db.rows).contains p.id = false
      rw [hid]
      exact hd
    exact ⟨p, hstays, hid⟩

/-- A pull request of another repository has not become one of this repository. -/
theorem Calm.pulls {rid : Nat} {db db' : Db} (h : Calm rid db)
    (hj : db'.reviewJobs = db.reviewJobs) (hw : db'.wikiPages = db.wikiPages)
    (hkept : ∀ p ∈ db.pullRequests, ∃ p' ∈ db'.pullRequests, p'.id = p.id)
    (hnew : ∀ p' ∈ db'.pullRequests, (∀ p ∈ db.pullRequests, p.id < p'.id) ∨
      ∃ p ∈ db.pullRequests, p.id = p'.id ∧ p.repoId = p'.repoId) : Calm rid db' := by
  refine ⟨fun j hjm => ?_, fun j hjm ha ho => ?_, fun w hwm => ?_⟩
  · rw [hj] at hjm
    obtain ⟨p, hp, hid⟩ := h.1 j hjm
    obtain ⟨p', hp', hid'⟩ := hkept p hp
    exact ⟨p', hp', hid'.trans hid⟩
  · rw [hj] at hjm
    obtain ⟨p', hp', hid, hr⟩ := ho
    rcases hnew p' hp' with hlt | ⟨p, hp, hpid, hpr⟩
    · -- a new pull request has no job yet
      obtain ⟨p, hp, hpid⟩ := h.1 j hjm
      have := hlt p hp
      omega
    · exact h.2.jobs j hjm ha ⟨p, hp, hpid.trans hid, hpr.trans hr⟩
  · rw [hw] at hwm
    exact h.2.wiki w hwm

/-- An `UPDATE` of pull requests that keeps their repositories. -/
theorem Calm.updatePulls {rid : Nat} {db : Db} (h : Calm rid db) (p : PullRequest → Bool)
    (f : PullRequest → PullRequest) (hf : ∀ r, Row.id (f r) = Row.id r)
    (hrepo : ∀ r, (f r).repoId = r.repoId) :
    Calm rid { db with pullRequests := db.pullRequests.update p f hf } := by
  refine h.pulls rfl rfl (fun r hr => ⟨_, Table.mem_update_of_mem hr hf, ?_⟩) fun r' hr' => .inr ?_
  · split
    · exact hf r
    · rfl
  · have hup : r' ∈ db.pullRequests.update p f hf := hr'
    obtain ⟨r, hr, rfl⟩ := Table.mem_update.mp hup
    refine ⟨r, hr, ?_⟩
    split
    · exact ⟨(hf r).symm, (hrepo r).symm⟩
    · exact ⟨rfl, rfl⟩

theorem calm_upserted {rid : Nat} {db : Db} (repoId : Nat) (pr : PullInfo) (h : Calm rid db) :
    Calm rid (upserted repoId pr db) := by
  unfold upserted
  cases db.pullRequests.find? (pullFor repoId pr.number) with
  | none =>
    refine h.pulls rfl rfl (fun p hp => ⟨p, Table.mem_insert_of_mem hp, rfl⟩) fun p' hp' => ?_
    have hin : p' ∈ db.pullRequests.insert (newPull repoId pr db.now) := hp'
    rcases Table.mem_insert.mp hin with hp' | rfl
    · exact .inr ⟨p', hp', rfl, rfl⟩
    · exact .inl fun p hp => Table.lt_nextId hp
  | some row => exact h.updatePulls _ (overwrite pr db.now) (fun _ => rfl) fun _ => rfl

theorem markClosed_calm {rid repoId : Nat} (numbers : List Nat) (commit : Bool) :
    Preserves (Calm rid) (markClosed repoId numbers commit) := by
  refine preserves_bind (preserves_execute fun db h => ?_) fun _ =>
    preserves_bind (preserves_when fun _ => preserves_commit) fun _ => preserves_pure _
  exact h.updatePulls (closes repoId numbers) (fun r => { r with state := .closed })
    (fun _ => rfl) fun _ => rfl

/-- The jobs that a step adds or makes active are of pull requests of other repositories. -/
theorem Calm.jobs {rid : Nat} {db db' : Db} (h : Calm rid db)
    (hp : db'.pullRequests = db.pullRequests) (hw : db'.wikiPages = db.wikiPages)
    (hjobs : ∀ j' ∈ db'.reviewJobs, (∃ p ∈ db.pullRequests, p.id = j'.prId) ∧
      (isActive j'.status = true → (∃ j ∈ db.reviewJobs, isActive j.status = true ∧
        j.prId = j'.prId) ∨ ¬OfRepo rid db j'.prId)) : Calm rid db' := by
  have hof : ∀ pid, OfRepo rid db' pid → OfRepo rid db pid := by
    rintro pid ⟨p, hpm, h⟩
    rw [hp] at hpm
    exact ⟨p, hpm, h⟩
  refine ⟨fun j hj => ?_, fun j hj ha ho => ?_, fun w hwm => ?_⟩
  · rw [hp]
    exact (hjobs j hj).1
  · rcases (hjobs j hj).2 ha with ⟨j₀, hj₀, ha₀, hpr⟩ | hno
    · exact h.2.jobs j₀ hj₀ ha₀ (hpr ▸ hof _ ho)
    · exact hno (hof _ ho)
  · rw [hw] at hwm
    exact h.2.wiki w hwm

/-- An `UPDATE` of jobs that keeps their pull requests. -/
theorem Calm.updateJobs {rid : Nat} {db : Db} (h : Calm rid db) (p : ReviewJob → Bool)
    (f : ReviewJob → ReviewJob) (hf : ∀ j, Row.id (f j) = Row.id j) (hpr : ∀ j, (f j).prId = j.prId)
    (hact : ∀ j ∈ db.reviewJobs, p j = true → isActive (f j).status = true →
      isActive j.status = true ∨ ¬OfRepo rid db j.prId) :
    Calm rid { db with reviewJobs := db.reviewJobs.update p f hf } := by
  refine h.jobs rfl rfl fun j' hj' => ?_
  have hup : j' ∈ db.reviewJobs.update p f hf := hj'
  obtain ⟨j, hj, rfl⟩ := Table.mem_update.mp hup
  split
  · rename_i hp
    refine ⟨hpr j ▸ h.1 j hj, fun ha => ?_⟩
    rcases hact j hj hp ha with ha | hno
    · exact .inl ⟨j, hj, ha, (hpr j).symm⟩
    · exact .inr (hpr j ▸ hno)
  · exact ⟨h.1 j hj, fun ha => .inl ⟨j, hj, ha, rfl⟩⟩

theorem Calm.insertJob {rid pid : Nat} {db : Db} (h : Calm rid db)
    (hp : ∃ p ∈ db.pullRequests, p.id = pid) (hno : ¬OfRepo rid db pid) (headSha : Sha)
    (trigger : Trigger) (priority : Int) (retryRunId : Option Nat) :
    Calm rid (withNewJob pid headSha trigger priority retryRunId db) := by
  refine h.jobs rfl rfl fun j' hj' => ?_
  have hin : j' ∈ db.reviewJobs.insert (newJob pid headSha trigger priority retryRunId db.now) :=
    hj'
  rcases Table.mem_insert.mp hin with hj' | rfl
  · exact ⟨h.1 j' hj', fun ha => .inl ⟨j', hj', ha, rfl⟩⟩
  · exact ⟨hp, fun _ => .inr hno⟩

/-- An enqueue for a pull request of another repository. -/
theorem calm_queueLatest {rid pid : Nat} {db : Db} (h : Calm rid db)
    (hp : ∃ p ∈ db.pullRequests, p.id = pid) (hno : ¬OfRepo rid db pid) (headSha : Sha)
    (trigger : Trigger) (priority : Int) (keepRetryRun : Bool) :
    Calm rid (queueLatest pid headSha trigger priority keepRetryRun db).2 := by
  cases hf : db.reviewJobs.find? (jobFor pid headSha) with
  | none =>
    rw [queueLatest_new hf]
    exact h.insertJob hp hno headSha trigger priority none
  | some row =>
    rw [queueLatest_old hf]
    split
    · refine h.updateJobs (fun j => j.id == row.id) (revive trigger keepRetryRun) (fun _ => rfl)
        (fun _ => rfl) fun j hj hid _ => .inr ?_
      -- the row that was found is the one that the `UPDATE` meets
      have hrow := Table.mem_of_find? hf
      obtain rfl : j = row := Table.eq_of_id hj hrow (beq_iff_eq.mp hid)
      rwa [(jobFor_iff.mp (Table.of_find? hf)).1]
    · exact h

/-! ## Polls and webhooks -/

/-- What `upsert` does on a connection. -/
theorem onConn_upsert (repoId : Nat) (pr : PullInfo) (commit : Bool) (c : Conn Db) :
    ∃ r c', (upsert repoId pr commit).onConn c = (r, c') ∧
      c'.working = upserted repoId pr c.working ∧
      c'.committed = (if commit then c'.working else c.committed) ∧
      ∀ pid, r = .ok pid → ∃ p ∈ c'.working.pullRequests, p.id = pid ∧ p.repoId = repoId := by
  cases hf : (upserted repoId pr c.working).pullRequests.find? (pullFor repoId pr.number) with
  | none =>
    refine ⟨.error (.typeError "'NoneType' object is not subscriptable".toList),
      ⟨if commit then upserted repoId pr c.working else c.committed,
        upserted repoId pr c.working, !commit⟩, ?_, rfl, rfl, nofun⟩
    unfold upsert
    cases commit <;> simp [hf]
  | some row =>
    refine ⟨.ok row.id, ⟨if commit then upserted repoId pr c.working else c.committed,
      upserted repoId pr c.working, !commit⟩, ?_, rfl, rfl, fun pid hpid => ?_⟩
    · unfold upsert
      cases commit <;> simp [hf]
    · cases hpid
      have hp := Table.of_find? hf
      simp only [pullFor, Bool.and_eq_true, beq_iff_eq] at hp
      exact ⟨row, Table.mem_of_find? hf, rfl, hp.1⟩

theorem onConn_needsReview (pid : Nat) (c : Conn Db) :
    ∃ b, (needsReview pid).onConn c = (.ok b, c) := by
  unfold needsReview PrRepo.get
  simp only [onConn_bind, onConn_select]
  split
  · exact ⟨_, rfl⟩
  · exact ⟨_, rfl⟩

/-- The pull request of another repository that was found is none of this one. -/
theorem not_ofRepo {rid : Nat} {db : Db} {p : PullRequest} (hp : p ∈ db.pullRequests)
    (hr : p.repoId ≠ rid) : ¬OfRepo rid db p.id := by
  rintro ⟨q, hq, hid, hqr⟩
  obtain rfl : q = p := Table.eq_of_id hq hp hid
  exact hr hqr

/-- An enqueue of a poll, for a pull request of another repository. -/
theorem enqueue_calm {rid pid : Nat} (commit : Bool) {c : Conn Db} (hc : Calm rid c.committed)
    (hw : Calm rid c.working) (hp : ∃ p ∈ c.working.pullRequests, p.id = pid ∧ p.repoId ≠ rid) :
    Calm rid ((Poller.enqueue commit pid).onConn c).2.committed ∧
      Calm rid ((Poller.enqueue commit pid).onConn c).2.working := by
  obtain ⟨p, hpm, rfl, hr⟩ := hp
  unfold Poller.enqueue PrRepo.get
  simp only [onConn_bind, onConn_select]
  cases c.working.pullRequests.get? p.id with
  | none => exact ⟨hc, hw⟩
  | some row =>
    obtain ⟨c', he, hwork, hcom⟩ :=
      onConn_enqueueWithResult p.id row.headSha .auto 0 commit c
    have hq := calm_queueLatest hw ⟨p, hpm, rfl⟩ (not_ofRepo hpm hr) row.headSha .auto 0 true
    rw [← hwork] at hq
    simp only [onConn_bind, he, onConn_pure]
    refine ⟨?_, hq⟩
    rw [hcom]
    split
    · exact hq
    · exact hc

/-- A poll stores a pull request of another repository, or one that it does not enqueue. -/
theorem storePull_calm {rid : Nat} {repo : Repo} {settings : PollSettings} {pr : PullInfo}
    (commit : Bool) (h : repo.id ≠ rid ∨ wanted repo settings pr.isDraft = false) :
    Preserves (Calm rid) (storePull repo settings commit pr) := by
  intro c hc hw
  obtain ⟨r, c', hup, hwork, hcom, hpid⟩ := onConn_upsert repo.id pr false c
  have hw' : Calm rid c'.working := by
    rw [hwork]
    exact calm_upserted repo.id pr hw
  have hc' : Calm rid c'.committed := by
    rw [hcom]
    exact hc
  unfold storePull
  rw [onConn_bind, hup]
  cases r with
  | error e => exact ⟨hc', hw'⟩
  | ok pid =>
    obtain ⟨p, hp, hid, hr⟩ := hpid pid rfl
    obtain ⟨b, hb⟩ := onConn_needsReview pid c'
    simp only [onConn_bind, hb]
    rw [onConn_ite]
    split
    · rename_i hwant
      have hne : repo.id ≠ rid := h.resolve_right fun hno => by simp [hno] at hwant
      have hq := enqueue_calm commit hc' hw' ⟨p, hp, hid, hr ▸ hne⟩
      rw [onConn_bind]
      split
      · rename_i c'' he
        rw [he] at hq
        exact hq
      · rename_i c'' he
        rw [he] at hq
        exact hq
    · exact ⟨hc', hw'⟩

theorem storePulls_calm {rid : Nat} {repo : Repo} {settings : PollSettings} {prs : List PullInfo}
    (h : repo.id ≠ rid ∨ ∀ pr ∈ prs, wanted repo settings pr.isDraft = false) :
    Preserves (Calm rid) (storePulls repo settings prs) := by
  induction prs with
  | nil => exact preserves_pure _
  | cons pr prs ih =>
    have hhead : repo.id ≠ rid ∨ wanted repo settings pr.isDraft = false :=
      h.imp_right fun h => h pr List.mem_cons_self
    have htail : repo.id ≠ rid ∨ ∀ pr ∈ prs, wanted repo settings pr.isDraft = false :=
      h.imp_right fun h pr' hpr' => h pr' (List.mem_cons_of_mem _ hpr')
    exact preserves_bind (storePull_calm false hhead) fun n =>
      preserves_bind (ih htail) fun m => preserves_pure _

/-- A poll that stores nothing of the repository that it may enqueue. -/
theorem op_calm {rid : Nat} {β : Type} (o : PollOp β) {p : Sql Db Exc β} (hp : o.program = some p)
    (hno : ¬StoresFor rid o) {db : Db} (h : Calm rid db) : Calm rid (p.run db).2 := by
  refine preserves_run ?_ h
  have hclose : ∀ repo prevOpen prs, Preserves (Calm rid) (closeGone repo prevOpen prs) :=
    fun repo prevOpen prs =>
      preserves_bind (markClosed_calm (gone prevOpen prs) false) fun _ => preserves_pure _
  cases o with
  | openBefore repoId =>
    cases hp
    exact preserves_select _
  | listPrs => cases hp
  | storeAll repo settings prevOpen prs =>
    cases hp
    have hother : repo.id ≠ rid ∨ ∀ pr ∈ prs, wanted repo settings pr.isDraft = false := by
      by_cases hr : repo.id = rid
      · exact .inr fun pr hpr => Bool.not_eq_true _ ▸ fun hwant => hno ⟨hr, pr, hpr, hwant⟩
      · exact .inl hr
    exact preserves_transaction (preserves_bind (storePulls_calm hother) fun n =>
      preserves_bind (hclose repo prevOpen prs) fun _ => preserves_pure _)
  | storeOne repo settings pr =>
    cases hp
    have hother : repo.id ≠ rid ∨ wanted repo settings pr.isDraft = false := by
      by_cases hr : repo.id = rid
      · exact .inr (Bool.not_eq_true _ ▸ fun hwant => hno ⟨hr, hwant⟩)
      · exact .inl hr
    exact preserves_transaction (storePull_calm true hother)
  | close repo prevOpen prs =>
    cases hp
    exact preserves_transaction (hclose repo prevOpen prs)

/-! ## Enqueues, claims and wiki requests -/

/-- A statement of an enqueue that queues no job of the repository. -/
theorem stmt_calm {rid : Nat} {β : Type} (s : Stmt β) {db : Db}
    (hp : ∀ pid, insertsFor s = some pid → ∃ p ∈ db.pullRequests, p.id = pid)
    (hno : ¬Queues rid db s) (h : Calm rid db) : Calm rid (s.program.run db).2 := by
  cases s with
  | insert prId headSha trigger priority retryRunId =>
    rw [run_insert]
    split
    · exact h
    · exact h.insertJob (hp prId rfl) hno headSha trigger priority retryRunId
  | find prId headSha => exact h
  | get jobId => exact h
  | reviveCanceled jobId error trigger =>
    rw [run_reviveCanceled]
    refine h.updateJobs (fun j => j.id == jobId && j.status == .canceled && j.error == error)
      (requeue trigger) (fun _ => rfl) (fun _ => rfl) fun j hj hm _ => .inr fun ho => ?_
    simp only [Bool.and_eq_true, beq_iff_eq] at hm
    exact hno ⟨j, hj, hm.1.1, ho⟩
  | reviveFinished jobId trigger retryRunId =>
    rw [run_reviveFinished]
    refine h.updateJobs (fun j => j.id == jobId && isFinished j.status)
      (fun j => { requeue trigger j with retryRunId := retryRunId }) (fun _ => rfl) (fun _ => rfl)
      fun j hj hm _ => .inr fun ho => ?_
    simp only [Bool.and_eq_true, beq_iff_eq] at hm
    exact hno ⟨j, hj, hm.1, ho⟩
  | promote jobId =>
    rw [run_promote]
    exact h.updateJobs (fun j => j.id == jobId && j.status == .queued && j.trigger == .auto)
      (fun j => { j with trigger := .manual }) (fun _ => rfl) (fun _ => rfl)
      fun j _ _ ha => .inl ha
  | inTransaction prId headSha trigger priority =>
    rw [run_inTransaction]
    exact calm_queueLatest h (hp prId rfl) hno headSha trigger priority true

/-- A claim takes a job that waits. -/
theorem claim_calm {rid : Nat} (workerId : Text) (owner : Option ProcessId) (locked : Bool)
    {db : Db} (h : Calm rid db) : Calm rid ((claimNext workerId owner locked).run db).2 := by
  rw [JobRepo.run_claimNext]
  split
  · exact h
  · rename_i row hn
    have hnext : nextJob db = some row := by
      split at hn
      · cases hn
      · exact hn
    obtain ⟨hrow, hready⟩ := nextJob_mem hnext
    refine h.updateJobs (fun j => j.id == row.id) (claimed workerId owner db.now) (fun _ => rfl)
      (fun _ => rfl) fun j hj hid _ => .inl ?_
    obtain rfl : j = row := Table.eq_of_id hj hrow (beq_iff_eq.mp hid)
    simp only [ready, Bool.and_eq_true, beq_iff_eq] at hready
    rw [hready.1]
    rfl

/-- A step that touches wiki pages only, and generates none of the repository. -/
theorem Calm.wiki {rid : Nat} {db : Db} (h : Calm rid db) (t : Table WikiPage)
    (ht : ∀ w ∈ t, w.repoId = rid → w.status ≠ .generating) :
    Calm rid { db with wikiPages := t } :=
  ⟨h.1, h.2.jobs, ht⟩

theorem refreshWiki_calm {rid rid' : Nat} (hne : rid' ≠ rid) {db : Db} (h : Calm rid db) :
    Calm rid ((WikiRepo.markGenerating rid').run db).2 := by
  rcases WikiRepo.run_markGenerating rid' db with ⟨e, heq⟩ | heq
  · rw [heq]
    exact h
  · rw [heq]
    unfold WikiRepo.registered
    cases db.wikiPages.get? rid' with
    | none =>
      refine h.wiki _ fun w hw hrid => ?_
      rcases Table.mem_put.mp hw with hw | ⟨rfl, -⟩
      · exact h.2.wiki w hw hrid
      · exact absurd hrid hne
    | some w =>
      simp only
      split
      · refine h.wiki _ fun w hw hrid => ?_
        obtain ⟨w₀, hw₀, rfl⟩ := Table.mem_update.mp hw
        split at hrid
        · rename_i hid
          exact absurd ((beq_iff_eq.mp hid).symm.trans hrid) hne
        · rename_i hid
          rw [if_neg hid]
          exact h.2.wiki w₀ hw₀ hrid
      · exact h

theorem claimWiki_calm {rid : Nat} (workerId : Text) (owner : Option ProcessId) (locked : Bool)
    {db : Db} (h : Calm rid db) :
    Calm rid ((WikiRepo.claimNext workerId owner locked).run db).2 := by
  obtain ⟨p, hp⟩ := WikiRepo.run_claimNext workerId owner locked db
  rw [hp]
  refine h.wiki _ fun w hw hrid => ?_
  obtain ⟨w₀, hw₀, rfl⟩ := Table.mem_update.mp hw
  split at hrid
  · rename_i hid
    rw [if_pos hid]
    exact h.2.wiki w₀ hw₀ hrid
  · rename_i hid
    rw [if_neg hid]
    exact h.2.wiki w₀ hw₀ hrid

/-- **Nobody begins work for the repository**: then it stays without. -/
theorem outside_calm {rid : Nat} {a : ServerStep} {db db' : FullDb} (hrun : a.Run db db')
    (hno : ¬BeginsWork rid db a) (h : Calm rid db.toDb) : Calm rid db'.toDb := by
  cases a with
  | poll o =>
    obtain ⟨p, hp, rfl⟩ := hrun
    exact op_calm o hp hno h
  | upsert repoId pr =>
    obtain rfl := hrun
    obtain ⟨r, c, hup, hwork, hcom, -⟩ := onConn_upsert repoId pr true (.fresh db.toDb)
    have hdb : ((PrRepo.upsert repoId pr true).run db.toDb).2 = upserted repoId pr db.toDb := by
      unfold Sql.run
      rw [hup]
      exact hcom.trans hwork
    show Calm rid ((PrRepo.upsert repoId pr true).run db.toDb).2
    rw [hdb]
    exact calm_upserted repoId pr h
  | enqueue s =>
    obtain ⟨hp, rfl⟩ := hrun
    exact stmt_calm s hp hno h
  | claim workerId owner locked =>
    obtain rfl := hrun
    exact claim_calm workerId owner locked h
  | refreshWiki rid' =>
    obtain rfl := hrun
    exact refreshWiki_calm hno h
  | claimWiki workerId owner locked =>
    obtain rfl := hrun
    exact claimWiki_calm workerId owner locked h
  | other => exact Quiet.calm hrun h.2

/-- Some repository is used by nothing in the database, and the step is not about it. -/
theorem exists_unused (db : FullDb) (a : ServerStep) :
    ∃ rid, Idle rid db.toDb ∧ ¬BeginsWork rid db a := by
  let about : Nat := match a with
    | .poll o => o.write.repoId
    | .refreshWiki rid => rid
    | _ => 0
  obtain ⟨rid, hrid⟩ := Infinite.exists_notMem_finset (about ::
    (db.pullRequests.rows.map PullRequest.repoId ++
      db.wikiPages.rows.map WikiPage.repoId)).toFinset
  simp only [List.mem_toFinset, List.mem_cons, List.mem_append, not_or] at hrid
  obtain ⟨habout, hpulls, hwiki⟩ := hrid
  have hof : ∀ pid, ¬OfRepo rid db.toDb pid := by
    rintro pid ⟨p, hp, -, rfl⟩
    exact hpulls (List.mem_map_of_mem hp)
  refine ⟨rid, ⟨fun j _ _ => hof j.prId, fun w hw hr => ?_⟩, fun hb => ?_⟩
  · exact absurd (hr ▸ List.mem_map_of_mem hw) hwiki
  · cases a with
    | poll o =>
      cases o with
      | storeAll repo settings prevOpen prs => exact habout hb.1.symm
      | storeOne repo settings pr => exact habout hb.1.symm
      | _ => exact hb
    | enqueue s =>
      cases s with
      | insert prId => exact hof prId hb
      | inTransaction prId => exact hof prId hb
      | reviveCanceled jobId =>
        obtain ⟨j, -, -, ho⟩ := hb
        exact hof j.prId ho
      | reviveFinished jobId =>
        obtain ⟨j, -, -, ho⟩ := hb
        exact hof j.prId ho
      | _ => exact hb
    | refreshWiki rid' => exact habout hb.symm
    | _ => exact hb

theorem known_outside {a : ServerStep} {db db' : FullDb} (hrun : a.Run db db')
    (h : Known db.toDb) : Known db'.toDb := by
  obtain ⟨rid, hidle, hno⟩ := exists_unused db a
  exact (outside_calm hrun hno ⟨h, hidle⟩).1

/-! ## The law -/

/-- Jobs have their pull requests, and repositories that were found without work still have none. -/
def Checks (db : FullDb) (h : Nat → Option Checked) : Prop :=
  Known db.toDb ∧ ∀ n rid, h n = some (some rid) → Idle rid db.toDb

theorem deleteRepo_obeys (rid : Nat) :
    Obeys contract (fun _ _ => True) none (deleteRepo rid) := by
  have hget : contract.allowed none (DeleteOp.get rid) := trivial
  have hcheck : contract.allowed none (DeleteOp.hasActiveWork rid) := trivial
  have hremove : contract.allowed (some rid) (DeleteOp.remove rid) := rfl
  refine obeys_perform_bind hget (fun repo _ => ?_) fun _ _ => trivial
  cases repo with
  | none => exact obeys_throw trivial
  | some repo =>
    refine obeys_perform_bind hcheck (fun active _ => ?_) fun _ _ => trivial
    cases active with
    | true => exact obeys_throw trivial
    | false => exact obeys_perform_bind hremove (fun _ _ => obeys_pure trivial) fun _ _ => trivial

theorem begins_obeys (db : FullDb) (g : Checked) (p : Prog DeleteOp Exc Nat) (h : Begins db g p) :
    Obeys contract (fun _ _ => True) g p := by
  cases h with
  | request rid => exact deleteRepo_obeys rid

theorem checks_hold : Pool.Holds machine contract Begins (fun db => Known db.toDb) Undisturbed
    Checks where
  init h := ⟨h, nofun⟩
  start := by
    intro w n g p h _ hn hb
    refine ⟨h.1, fun m rid hm => ?_⟩
    by_cases hmn : m = n
    · subst hmn
      rw [Function.update_self] at hm
      cases hb
      cases hm
    · rw [Function.update_of_ne hmn] at hm
      exact h.2 m rid hm
  call := by
    intro w n g β o next r db' h _ hn hal hex
    obtain ⟨rfl, rfl⟩ := hex
    have hg := Pool.histories_eq_some hn
    cases o with
    | get rid =>
      refine ⟨h.1, fun m rid' hm => ?_⟩
      by_cases hmn : m = n
      · subst hmn
        rw [Function.update_self] at hm
        exact h.2 m rid' (hg.trans hm)
      · rw [Function.update_of_ne hmn] at hm
        exact h.2 m rid' hm
    | hasActiveWork rid =>
      refine ⟨h.1, fun m rid' hm => ?_⟩
      by_cases hmn : m = n
      · subst hmn
        rw [Function.update_self] at hm
        have hrun : (DeleteOp.hasActiveWork rid).program.run w.state =
            (.ok (hasActiveWork rid w.state), w.state) := rfl
        rw [hrun] at hm
        cases hact : hasActiveWork rid w.state with
        | true =>
          rw [hact] at hm
          exact h.2 m rid' (hg.trans hm)
        | false =>
          -- the check has passed
          rw [hact] at hm
          cases hm
          exact hasActiveWork_eq_false.mp hact
      · rw [Function.update_of_ne hmn] at hm
        exact h.2 m rid' hm
    | remove rid =>
      have hq := quiet_remove rid h.1
      refine ⟨hq.known, fun m rid' hm => ?_⟩
      by_cases hmn : m = n
      · subst hmn
        rw [Function.update_self] at hm
        cases hm
      · rw [Function.update_of_ne hmn] at hm
        exact (hq.calm (h.2 m rid' hm)).2
  outside := by
    intro w a db' h hg hrun
    exact ⟨known_outside hrun h.1, fun n rid hn =>
      (outside_calm hrun (hg n rid hn) ⟨h.1, h.2 n rid hn⟩).2⟩

/-- The operations of a request spare active work: they change nothing, or remove a repository that
has none. -/
def SparesActive (w : Requests) (e : Pool.Event ServerStep) (w' : Requests) : Prop :=
  ∀ n, e = .call n → SparesWork w.state w'.state ∧
    (w'.state = w.state ∨
      ∃ rid, w.histories n = some (some rid) ∧ hasActiveWork rid w.state = false)

/-- **Active work is spared**, when nobody begins work for a repository between the check and the
removal. -/
theorem active_work_spared {w w' : Requests} {e : Pool.Event ServerStep}
    (hr : deleting.Reach Undisturbed w) (hu : Undisturbed w e) (hs : deleting.step w e w') :
    SparesActive w e w' := by
  refine checks_hold.stepInvariant begins_obeys ?_ hr hu hs
  clear hr hu hs
  intro w e w' hs _ hstep n he
  subst he
  cases hstep with
  | @call n g β o next r db' hn hex =>
    obtain ⟨rfl, rfl⟩ := hex
    have hal := (hs.obeys n g _ hn).1
    cases o with
    | get rid => exact ⟨.refl w.state, .inl rfl⟩
    | hasActiveWork rid => exact ⟨.refl w.state, .inl rfl⟩
    | remove rid =>
      obtain rfl : g = some rid := hal
      have hidle := hs.holds.2 n rid (Pool.histories_eq_some hn)
      exact ⟨sparesWork_remove hidle,
        .inr ⟨rid, Pool.histories_eq_some hn, hasActiveWork_eq_false.mpr hidle⟩⟩

/-! ## A job that is queued between the check and the removal -/

namespace Requests

variable {G : Requests → Pool.Event ServerStep → Prop} {w : Requests}

/-- Request `n` issues its next operation. -/
def call (w : Requests) (n : Nat) : Requests :=
  match w.threads n with
  | some (g, .call o next) =>
    { w with state := (o.program.run w.state).2 }.put n
      (contract.after g o (o.program.run w.state).1) (next (o.program.run w.state).1)
  | _ => w

/-- A statement of an enqueue. -/
def enqueue {β : Type} (w : Requests) (s : Stmt β) : Requests :=
  { w with state := onServer s.program w.state }

theorem step_call {n : Nat} {g : Checked} {β : Type} {o : DeleteOp β}
    {next : Except Exc β → Prog DeleteOp Exc Nat} (hn : w.threads n = some (g, .call o next)) :
    deleting.step w (.call n) (w.call n) := by
  unfold call
  rw [hn]
  exact .call hn (show machine.exec n o w.state _ _ from ⟨rfl, rfl⟩)

end Requests

/-- The request to delete the second of two repositories, which has no work. -/
def requested : Requests := Pool.put ⟨twoReviewed 1, fun _ => none⟩ 0 none (deleteRepo 2)

/-- Its check has passed. -/
def passed : Requests := (requested.call 0).call 0

theorem reach_passed {G : Requests → Pool.Event ServerStep → Prop} (hstart : ∀ w n, G w (.start n))
    (hcall : ∀ w n, G w (.call n)) : deleting.Reach G passed := by
  have hi : deleting.init ⟨twoReviewed 1, fun _ => none⟩ :=
    ⟨fun j hj => absurd hj Table.mem_empty, fun _ => rfl⟩
  have hs : deleting.step ⟨twoReviewed 1, fun _ => none⟩ (.start 0) requested :=
    .start rfl (.request 2)
  exact (((Sys.Reach.init hi).step (hstart _ _) hs).step (hcall _ _)
    (Requests.step_call (n := 0) rfl)).step (hcall _ _) (Requests.step_call (n := 0) rfl)

theorem active_work_spared_passed : SparesActive passed (.call 0) (passed.call 0) :=
  active_work_spared (reach_passed (fun _ _ => trivial) fun _ _ => trivial) trivial
    (Requests.step_call (n := 0) rfl)

/-- The manual enqueue of a review of its pull request. -/
def manualInsert : Stmt Nat := .insert 2 "h1".toList .manual 0 none

/-- The check of the deletion has passed, and then a job is queued. -/
def queuedMeanwhile : Requests := passed.enqueue manualInsert

theorem step_manualInsert : deleting.step passed (.outside (.enqueue manualInsert))
    queuedMeanwhile := by
  have hp : ∃ p ∈ passed.state.pullRequests, p.id = 2 := by
    refine ⟨{ Post.reviewedPr with id := 2, repoId := 2 }, ?_, rfl⟩
    exact List.mem_cons_of_mem _ (List.mem_singleton_self _)
  refine .outside ⟨fun pid hpid => ?_, rfl⟩
  cases hpid
  exact hp

/-- **A queued job is deleted**: the removal does not ask again. -/
theorem active_work_deleted : ¬deleting.StepInvariant Sys.anyStep SparesActive := by
  intro h
  have hreach : deleting.Reach Sys.anyStep queuedMeanwhile :=
    (reach_passed (fun _ _ => trivial) fun _ _ => trivial).step trivial step_manualInsert
  obtain ⟨hspares, -⟩ := h hreach trivial (Requests.step_call (n := 0) rfl) 0 rfl
  have hj : ∃ j ∈ queuedMeanwhile.state.reviewJobs.rows, isActive j.status = true ∧
      j ∉ (queuedMeanwhile.call 0).state.reviewJobs.rows := by decide +kernel
  obtain ⟨j, hjm, ha, hgone⟩ := hj
  exact hgone (hspares.jobs j hjm ha)

end Race
