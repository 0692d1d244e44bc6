import AlmightyReview.Delete.Closed
import AlmightyReview.Post.Reserve

/-!
# Which pull requests a cleanup deletes

A cleanup reads its candidates before its transaction, so anything may have happened to them since;
each is checked again in the transaction that deletes it.

* `BelongsTo`: the rows that belong to a pull request; no row belongs to two.
* `Pruned`: the working copy of a cleanup. What is gone was eligible, and what is left has all that
  belongs to it.
* `eligible_of_deleted`: only what is eligible at the commit is deleted.
* `deletions_closed`: what holds of both deletions, in every consistent database.
-/

namespace Deletion

open Sql Refs

variable {db : FullDb}

/-! ## Which pull requests a cleanup deletes -/

section Eligible

variable {days : Int} {pid : Nat} {pids : List Nat} {db₀ : FullDb}

/-- No two rows of a table have one key. -/
theorem eq_of_key {t : TableName} {r r' : RowOf t} (hr : r ∈ db.rows t) (hr' : r' ∈ db.rows t)
    (h : keyOf t r = keyOf t r') : r = r' :=
  List.inj_on_of_nodup_map (nodup_rows db t) hr hr' h

/-- A run goes with one pull request. -/
theorem run_of_one {a b i : Nat} (ha : (doomedRuns [a] db.rows).contains i = true)
    (hb : (doomedRuns [b] db.rows).contains i = true) : a = b := by
  obtain ⟨r, hr, hra, rfl⟩ := mem_doomedRuns.mp ha
  obtain ⟨r', hr', hrb, hid⟩ := mem_doomedRuns.mp hb
  obtain rfl := eq_of_key (t := .reviewRun) hr' hr hid
  rw [singleton_contains, beq_iff_eq] at hra hrb
  exact hra.symm.trans hrb

/-- What goes with a pull request goes with no other. -/
theorem doomed_of_one {a b : Nat} {t : TableName} {r : RowOf t}
    (ha : doomed none [a] db.rows t r = true)
    (hb : doomed none [b] db.rows t r = true) : a = b := by
  have heq : ∀ {i : Nat}, [a].contains i = true → [b].contains i = true → a = b := by
    intro i ha hb
    rw [singleton_contains, beq_iff_eq] at ha hb
    exact ha.symm.trans hb
  cases t with
  | repo => cases ha
  | reviewRule => cases ha
  | wikiPage => cases ha
  | pullRequest => exact heq ha hb
  | preScreen => exact heq ha hb
  | reviewRun => exact heq ha hb
  | reviewJob => exact heq ha hb
  | findingDecision =>
    obtain ⟨f, hf, hfa, hid⟩ := mem_doomedFindings.mp ha
    obtain ⟨f', hf', hfb, hid'⟩ := mem_doomedFindings.mp hb
    obtain rfl := eq_of_key (t := .finding) hf hf' (hid.trans hid'.symm)
    exact run_of_one hfa hfb
  | vendorResult => exact run_of_one ha hb
  | finding => exact run_of_one ha hb
  | runFindingSummary => exact run_of_one ha hb
  | postedComment => exact run_of_one ha hb
  | slackPost => exact run_of_one ha hb
  | feedbackSignal => exact run_of_one ha hb
  | postOperation => exact run_of_one ha hb

/-- What goes with pull requests depends on the runs and findings that go with them. -/
theorem doomed_of_doomed {prs : List Nat} {rows rows' : AllRows}
    (hruns : ∀ i, (doomedRuns prs rows).contains i = true →
      (doomedRuns prs rows').contains i = true)
    (hfindings : ∀ i, (doomedFindings (doomedRuns prs rows) rows).contains i = true →
      (doomedFindings (doomedRuns prs rows') rows').contains i = true)
    {t : TableName} {r : RowOf t} (h : doomed none prs rows t r = true) :
    doomed none prs rows' t r = true := by
  cases t with
  | repo => cases h
  | reviewRule => cases h
  | wikiPage => cases h
  | pullRequest => exact h
  | preScreen => exact h
  | reviewRun => exact h
  | reviewJob => exact h
  | findingDecision => exact hfindings _ h
  | vendorResult => exact hruns _ h
  | finding => exact hruns _ h
  | runFindingSummary => exact hruns _ h
  | postedComment => exact hruns _ h
  | slackPost => exact hruns _ h
  | feedbackSignal => exact hruns _ h
  | postOperation => exact hruns _ h

/-- The row belongs to the pull request: it is the request itself, or hangs on it. -/
def BelongsTo (p : PullRequest) (db : FullDb) (t : TableName) (r : RowOf t) : Prop :=
  r ∈ db.rows t ∧ doomed none [p.id] db.rows t r = true

theorem belongsTo_self {p : PullRequest} (hp : p ∈ db.pullRequests) :
    BelongsTo p db .pullRequest p :=
  ⟨hp, (singleton_contains p.id).trans (beq_self_eq_true p.id)⟩

/-- The working copy of a cleanup: what is gone was eligible, and what is left has all that belongs
to it. -/
structure Pruned (days : Int) (pids : List Nat) (db₀ db : FullDb) : Prop where
  now : db.now = db₀.now
  sub : ∀ t, ∀ r ∈ db.rows t, r ∈ db₀.rows t
  kept : ∀ p ∈ db₀.pullRequests, (p.id ∈ pids ∧ eligible days db₀ p = true) ∨
    ∀ t r, BelongsTo p db₀ t r → BelongsTo p db t r

theorem Pruned.refl (db₀ : FullDb) : Pruned days pids db₀ db₀ :=
  ⟨rfl, fun _ _ hr => hr, fun _ _ => .inr fun _ _ h => h⟩

/-- The database after a cleanup of one pull request has of the others all that belongs to them. -/
theorem belongsTo_without {p : PullRequest} {db' : FullDb}
    (hrows : db'.rows = without (doomed none [pid] db.rows) cleanupTables db.rows)
    (hne : p.id ≠ pid) {t : TableName} {r : RowOf t} (h : BelongsTo p db t r) :
    BelongsTo p db' t r := by
  have hstays : ∀ {t : TableName} {r : RowOf t}, BelongsTo p db t r → r ∈ db'.rows t := by
    intro t r h
    rw [hrows]
    refine mem_without.mpr ⟨h.1, fun _ => ?_⟩
    by_contra hd
    exact hne (doomed_of_one h.2 (Bool.not_eq_false _ ▸ hd))
  have hruns : ∀ i, (doomedRuns [p.id] db.rows).contains i = true →
      (doomedRuns [p.id] db'.rows).contains i = true := by
    intro i hi
    obtain ⟨q, hq, hpr, hid⟩ := mem_doomedRuns.mp hi
    exact mem_doomedRuns.mpr ⟨q, hstays (t := .reviewRun) ⟨hq, hpr⟩, hpr, hid⟩
  refine ⟨hstays h, doomed_of_doomed hruns (fun i hi => ?_) h.2⟩
  obtain ⟨f, hf, hrun, hid⟩ := mem_doomedFindings.mp hi
  exact mem_doomedFindings.mpr ⟨f, hstays (t := .finding) ⟨hf, hrun⟩, hruns _ hrun, hid⟩

theorem any_congr_of_key {α : Type} {l m : List α} {k q : α → Bool}
    (h : ∀ a, k a = true → (a ∈ l ↔ a ∈ m)) :
    (l.any fun a => k a && q a) = m.any fun a => k a && q a := by
  rw [Bool.eq_iff_iff, List.any_eq_true, List.any_eq_true]
  refine exists_congr fun a => ?_
  rw [Bool.and_eq_true]
  constructor
  · rintro ⟨ha, hk, hq⟩
    exact ⟨(h a hk).mp ha, hk, hq⟩
  · rintro ⟨ha, hk, hq⟩
    exact ⟨(h a hk).mpr ha, hk, hq⟩

/-- A pull request with all that belongs to it is eligible when it was. -/
theorem Pruned.eligible_eq (h : Pruned days pids db₀ db) {p : PullRequest}
    (hp : ∀ t r, BelongsTo p db₀ t r → BelongsTo p db t r) :
    eligible days db p = eligible days db₀ p := by
  have hjobs := any_congr_of_key (k := fun j : ReviewJob => j.prId == p.id)
    (q := fun j => j.status == .queued || j.status == .running) (l := db.reviewJobs.rows)
    (m := db₀.reviewJobs.rows) fun j hj => ⟨h.sub .reviewJob j, fun hm =>
      (hp .reviewJob j ⟨hm, (singleton_contains j.prId).trans hj⟩).1⟩
  have hruns := any_congr_of_key (k := fun r : ReviewRun => r.prId == p.id)
    (q := fun r => r.status == .running) (l := db.reviewRuns.rows)
    (m := db₀.reviewRuns.rows) fun r hr => ⟨h.sub .reviewRun r, fun hm =>
      (hp .reviewRun r ⟨hm, (singleton_contains r.prId).trans hr⟩).1⟩
  unfold eligible
  rw [hjobs, hruns, h.now]

/-- The cleanup of one eligible pull request. -/
theorem Pruned.delete {p : PullRequest} {db' : FullDb} (h : Pruned days pids db₀ db)
    (hp : p ∈ db.pullRequests) (hpid : p.id ∈ pids) (hel : eligible days db p = true)
    (hnow : db'.now = db.now)
    (hrows : db'.rows = without (doomed none [p.id] db.rows) cleanupTables db.rows) :
    Pruned days pids db₀ db' := by
  refine ⟨hnow.trans h.now, fun t r hr => ?_, fun q hq => ?_⟩
  · rw [hrows] at hr
    exact h.sub t r (mem_without.mp hr).1
  · rcases h.kept q hq with hq' | hq'
    · exact .inl hq'
    · by_cases hid : q.id = p.id
      · obtain rfl : q = p := eq_of_key (t := .pullRequest) hq (h.sub .pullRequest p hp) hid
        exact .inl ⟨hpid, (h.eligible_eq hq').symm.trans hel⟩
      · exact .inr fun t r hb => belongsTo_without hrows hid (hq' t r hb)

theorem pruned_cleanupOne {c c' : Conn FullDb} {r : Cleaned} (h : Pruned days pids db₀ c.working)
    (hpid : pid ∈ pids) (hrun : (cleanupOne days pid).onConn c = (.ok r, c')) :
    Pruned days pids db₀ c'.working := by
  unfold cleanupOne at hrun
  simp only [onConn_bind, onConn_select] at hrun
  cases hrow : c.working.pullRequests.find? fun p => p.id == pid && eligible days c.working p with
  | none =>
    rw [hrow] at hrun
    cases hrun
    exact h
  | some p =>
    rw [hrow] at hrun
    have hp := Table.mem_of_find? hrow
    have hcond := Table.of_find? hrow
    simp only [Bool.and_eq_true, beq_iff_eq] at hcond
    obtain ⟨rfl, hel⟩ := hcond
    simp only [onConn_bind, onConn_select] at hrun
    cases he : (execAll (cleanupStatements p.id (runIdsOf p.id c.working))).onConn c with
    | mk res c₁ =>
      rw [he] at hrun
      cases res with
      | error e => cases hrun
      | ok u =>
        cases hrun
        obtain ⟨cleared, hclears, horder, hstart, hend⟩ :=
          clears_cleanupStatements p.id c.working
        obtain ⟨hnow, hrows⟩ := rows_of_execAll hclears horder hstart he
        exact h.delete hp hpid hel hnow (by rw [hrows, hend])

theorem pruned_cleanupEach (all : List Nat) {c c' : Conn FullDb} {r : Cleaned}
    (h : Pruned days all db₀ c.working) (hall : ∀ pid ∈ pids, pid ∈ all)
    (hrun : (cleanupEach days pids).onConn c = (.ok r, c')) : Pruned days all db₀ c'.working := by
  induction pids generalizing c r with
  | nil =>
    cases hrun
    exact h
  | cons pid pids ih =>
    unfold cleanupEach at hrun
    rw [onConn_bind] at hrun
    split at hrun
    · rename_i r₁ c₁ h₁
      rw [onConn_bind] at hrun
      split at hrun
      · rename_i r₂ c₂ h₂
        cases hrun
        exact ih (pruned_cleanupOne h (hall pid List.mem_cons_self) h₁)
          (fun pid' hp => hall pid' (List.mem_cons_of_mem _ hp)) h₂
      · cases hrun
    · cases hrun

/-- **Only what is eligible goes**, whatever the candidates were: each is checked again in the
transaction that deletes it. The others keep all that belongs to them. -/
theorem pruned_cleanup (days : Int) (pids : List Nat) (db : FullDb) :
    Pruned days pids db ((cleanupTransaction days pids).run db).2 := by
  unfold cleanupTransaction
  rw [run_transaction (inside_cleanupEach days pids)]
  cases he : (cleanupEach days pids).onConn ⟨db, db, true⟩ with
  | mk res c' =>
    cases res with
    | error e => exact .refl db
    | ok r => exact pruned_cleanupEach pids (c := ⟨db, db, true⟩) (.refl db) (fun _ h => h) he

theorem eligible_of_deleted (days : Int) (pids : List Nat) (db : FullDb) {p : PullRequest}
    (hp : p ∈ db.pullRequests)
    (hgone : p ∉ ((cleanupTransaction days pids).run db).2.pullRequests) :
    p.id ∈ pids ∧ eligible days db p = true :=
  ((pruned_cleanup days pids db).kept p hp).resolve_right fun h =>
    hgone (h .pullRequest p (belongsTo_self hp)).1

end Eligible

/-- No job of the pull request waits or runs, and no run of it runs. -/
def Idle (db : FullDb) (p : PullRequest) : Prop :=
  (∀ j ∈ db.reviewJobs, j.prId = p.id → j.status ≠ .queued ∧ j.status ≠ .running) ∧
    ∀ r ∈ db.reviewRuns, r.prId = p.id → r.status ≠ .running

theorem idle_of_eligible {days : Int} {p : PullRequest} (h : eligible days db p = true) :
    p.state ≠ .opened ∧ Idle db p := by
  simp only [eligible, Bool.and_eq_true, bne_iff_ne, Bool.not_eq_true', List.any_eq_false,
    Bool.or_eq_true, beq_iff_eq, not_and, not_or] at h
  exact ⟨h.1.1.1, h.1.2, h.2⟩

/-- **Deletions are closed.** No statement of a removal or of a cleanup leaves a declared reference
without its row, and no row that is left refers to a deleted one. Whatever was enqueued, claimed or
reopened since a cleanup chose its candidates `pids`, it deletes no pull request that is open or
has work when it deletes. -/
theorem deletions_closed (db : FullDb) (h : Consistent db) :
    (∀ rid, ∃ removed db', (remove rid).run db = (.ok removed, db') ∧
      NoneDangle keyOf references db.rows db'.rows) ∧
    ∀ days pids, (∃ r db', (cleanupTransaction days pids).run db = (.ok r, db') ∧
      NoneDangle keyOf references db.rows db'.rows) ∧
      ∀ p ∈ db.pullRequests, p ∉ ((cleanupTransaction days pids).run db).2.pullRequests →
        p.state ≠ .opened ∧ Idle db p := by
  refine ⟨fun rid => ?_, fun days pids => ⟨?_, fun p hp hgone => ?_⟩⟩
  · obtain ⟨removed, db', hrun, -, hn⟩ := remove_closed h rid
    exact ⟨removed, db', hrun, hn⟩
  · obtain ⟨r, db', hrun, -, hn⟩ := cleanup_closed h days pids
    exact ⟨r, db', hrun, hn⟩
  · exact idle_of_eligible (eligible_of_deleted days pids db hp hgone).2

/-! ## Two repositories -/

/-- A vendor result of a run. -/
def vendorResultOf (id runId : Nat) : VendorResult where
  id := id
  runId := runId
  vendor := "claude".toList
  status := .done
  durationMs := none
  rawPath := none
  error := none
  startedAt := none
  executionMeta := none

theorem nodup_vendorResultOf (vendorRun : Nat) :
    ([vendorResultOf 1 vendorRun].map Row.id).Nodup := List.nodup_singleton _

theorem fresh_vendorResultOf (vendorRun : Nat) :
    ∀ v ∈ [vendorResultOf 1 vendorRun], Row.id v < 2 := by
  intro v hv
  rw [List.mem_singleton.mp hv]
  exact Nat.one_lt_two

/-- Two repositories with a pull request and a run each. The finding of the first run has a vendor
result of the run `vendorRun`. -/
def twoReviewed (vendorRun : Nat) : FullDb :=
  { Db.empty 0 with
    repos := .ofRows [Post.reviewedRepo, { Post.reviewedRepo with id := 2 }] 3 (by decide)
      (by decide)
    pullRequests := .ofRows [Post.reviewedPr, { Post.reviewedPr with id := 2, repoId := 2 }] 3
      (by decide) (by decide)
    reviewRuns := .ofRows
      [Post.reviewedRun, { Post.reviewedRun with id := 2, prId := 2, repoId := some 2 }] 3
      (by decide) (by decide)
    vendorResults := .ofRows [vendorResultOf 1 vendorRun] 2 (nodup_vendorResultOf vendorRun)
      (fresh_vendorResultOf vendorRun)
    findings := .ofRows [{ Post.pendingFinding 1 "c".toList with vendorResultId := some 1 }] 2
      (by decide) (by decide)
    preScreens := .empty
    runFindingSummaries := .empty
    reviewRules := .empty
    slackPosts := .empty
    feedbackSignals := .empty }

theorem ownPullRequest_twoReviewed (vendorRun : Nat) :
    OwnPullRequest (twoReviewed vendorRun).rows := by
  refine ⟨(fun _ _ _ hj => nomatch hj), (fun _ hj => nomatch hj), ?_⟩
  show ∀ r ∈ (twoReviewed 0).reviewRuns.rows, ∀ p ∈ (twoReviewed 0).pullRequests.rows,
    p.id = r.prId → ∀ k ∈ r.repoId, p.repoId = k
  decide

theorem consistent_twoReviewed : Consistent (twoReviewed 1) := by
  refine ⟨by decide, ownPullRequest_twoReviewed 1,
    ⟨?_, (fun _ _ _ ho => nomatch ho), (fun _ hc => nomatch hc), (fun _ ho => nomatch ho)⟩⟩
  show ∀ f ∈ (twoReviewed 1).findings.rows, ∀ v ∈ (twoReviewed 1).vendorResults.rows,
    f.vendorResultId = some v.id → v.runId = f.runId
  decide

theorem deletions_closed_twoReviewed : ∃ removed db',
    (remove 2).run (twoReviewed 1) = (.ok removed, db') ∧
      NoneDangle keyOf references (twoReviewed 1).rows db'.rows :=
  (deletions_closed (twoReviewed 1) consistent_twoReviewed).1 2

/-- Foreign keys in order, and runs with jobs and the repository of their own pull request, are not
enough: the vendor result of a finding may be of the run of another repository. -/
theorem not_closed_across_runs : ¬∀ db : FullDb, Closed keyOf declared db.rows →
    OwnPullRequest db.rows → ∀ rid, ∃ removed db', (remove rid).run db = (.ok removed, db') ∧
      NoneDangle keyOf references db.rows db'.rows := by
  intro h
  obtain ⟨removed, db', hrun, -⟩ := h (twoReviewed 2) (by decide) (ownPullRequest_twoReviewed 2) 2
  have hraised : ((remove 2).run (twoReviewed 2)).1.toBool = false := by decide +kernel
  rw [hrun] at hraised
  cases hraised

end Deletion
