import AlmightyReview.Delete.Remove

/-!
# Deletions are closed

A deletion takes with it everything that refers to what it deletes, in an order in which no
declared reference is ever without its row.

* `doomed`: the rows that go with some pull requests, and with their repository.
* `OwnPullRequest`, `OwnRun`: what belongs together: the jobs and the repository of a run are those
  of its pull request, and what a finding or a list of findings refers to is of the same run.
* `inherits_doomed`: then a row that refers to a doomed row is doomed.
* `Orderly`: an order of tables in which children are cleared before their parents.
-/

namespace Deletion

open Sql Refs

/-! ## What goes -/

/-- The runs of these pull requests. -/
def doomedRuns (prs : List Nat) (rows : AllRows) : List Nat :=
  ((rows .reviewRun).filter fun r : ReviewRun => prs.contains r.prId).map ReviewRun.id

/-- The findings of these runs. -/
def doomedFindings (runs : List Nat) (rows : AllRows) : List Nat :=
  ((rows .finding).filter fun f : Finding => runs.contains f.runId).map Finding.id

/-- The rows that go with pull requests, and with a repository. -/
def doomed (rid : Option Nat) (prs : List Nat) (rows : AllRows) : ∀ t, RowOf t → Bool
  | .repo => fun r : Repo => rid == some r.id
  | .pullRequest => fun p : PullRequest => prs.contains p.id
  | .preScreen => fun s : PreScreen => prs.contains s.prId
  | .reviewRun => fun r : ReviewRun => prs.contains r.prId
  | .vendorResult => fun v : VendorResult => (doomedRuns prs rows).contains v.runId
  | .finding => fun f : Finding => (doomedRuns prs rows).contains f.runId
  | .runFindingSummary => fun s : RunFindingSummary => (doomedRuns prs rows).contains s.runId
  | .findingDecision => fun d : FindingDecision =>
    (doomedFindings (doomedRuns prs rows) rows).contains d.findingId
  | .reviewRule => fun r : ReviewRule => rid == some r.repoId
  | .postedComment => fun c : PostedComment => (doomedRuns prs rows).contains c.runId
  | .slackPost => fun s : SlackPost => (doomedRuns prs rows).contains s.runId
  | .feedbackSignal => fun s : FeedbackSignal => (doomedRuns prs rows).contains s.runId
  | .wikiPage => fun w : WikiPage => rid == some w.repoId
  | .reviewJob => fun j : ReviewJob => prs.contains j.prId
  | .postOperation => fun o : PostOperation => (doomedRuns prs rows).contains o.runId

/-! ## What belongs together -/

/-- The jobs and the repository of a run are those of its pull request. -/
structure OwnPullRequest (rows : AllRows) : Prop where
  ownerJob : ∀ r : ReviewRun, r ∈ rows .reviewRun → ∀ j : ReviewJob, j ∈ rows .reviewJob →
    r.ownerJobId = some j.id → j.prId = r.prId
  runOfJob : ∀ j : ReviewJob, j ∈ rows .reviewJob → ∀ r : ReviewRun, r ∈ rows .reviewRun →
    j.runId = some r.id ∨ j.retryRunId = some r.id → r.prId = j.prId
  repo : ∀ r : ReviewRun, r ∈ rows .reviewRun → ∀ p : PullRequest, p ∈ rows .pullRequest →
    p.id = r.prId → ∀ k ∈ r.repoId, p.repoId = k

/-- The vendor result and the operation of a finding, and the findings of a list, are those of the
same run. -/
structure OwnRun (rows : AllRows) : Prop where
  vendorResult : ∀ f : Finding, f ∈ rows .finding → ∀ v : VendorResult, v ∈ rows .vendorResult →
    f.vendorResultId = some v.id → v.runId = f.runId
  operation : ∀ f : Finding, f ∈ rows .finding → ∀ o : PostOperation, o ∈ rows .postOperation →
    f.postingOperationId = some o.id → o.runId = f.runId
  posted : ∀ c : PostedComment, c ∈ rows .postedComment → ∀ f : Finding, f ∈ rows .finding →
    f.id ∈ c.findingIds → f.runId = c.runId
  listed : ∀ o : PostOperation, o ∈ rows .postOperation → ∀ f : Finding, f ∈ rows .finding →
    f.id ∈ o.findingIds ++ o.newFindingIds → f.runId = o.runId

/-- A database with its foreign keys in order, in which belongs together what refers to each
other. -/
structure Consistent (db : FullDb) : Prop where
  closed : Closed keyOf declared db.rows
  ownPullRequest : OwnPullRequest db.rows
  ownRun : OwnRun db.rows

/-! ## What refers to it goes too -/

variable {rid : Option Nat} {prs : List Nat} {rows : AllRows}

theorem contains_of_eq {is : List Nat} {i j : Nat} (h : i = j) (hi : is.contains i = true) :
    is.contains j = true :=
  h ▸ hi

theorem mem_doomedRuns {i : Nat} : (doomedRuns prs rows).contains i = true ↔
    ∃ r : ReviewRun, r ∈ rows .reviewRun ∧ prs.contains r.prId = true ∧ r.id = i := by
  unfold doomedRuns
  rw [List.contains_iff_mem, List.mem_map]
  simp only [List.mem_filter, and_assoc]

theorem mem_doomedFindings {runs : List Nat} {i : Nat} :
    (doomedFindings runs rows).contains i = true ↔
      ∃ f : Finding, f ∈ rows .finding ∧ runs.contains f.runId = true ∧ f.id = i := by
  unfold doomedFindings
  rw [List.contains_iff_mem, List.mem_map]
  simp only [List.mem_filter, and_assoc]

/-- A reference from an optional column. -/
theorem mem_option {o : Option Nat} {t : TableName} {p : TableName × Nat} :
    p ∈ o.toList.map (t, ·) ↔ ∃ i, o = some i ∧ p = (t, i) := by
  cases o <;> simp

theorem mem_ids {is : List Nat} {t : TableName} {p : TableName × Nat} :
    p ∈ is.map (t, ·) ↔ ∃ i ∈ is, p = (t, i) := by
  simp [eq_comm]

/-- A row of a doomed run is doomed. -/
theorem doomed_of_run {i : Nat} {r : ReviewRun} (hr : r ∈ rows .reviewRun)
    (hk : r.id = i) (hd : prs.contains r.prId = true) :
    (doomedRuns prs rows).contains i = true :=
  mem_doomedRuns.mpr ⟨r, hr, hd, hk⟩

/-- **What refers to a doomed row is doomed.** -/
theorem inherits_doomed (hclosed : Closed keyOf declared rows) (hpr : OwnPullRequest rows)
    (hrun : OwnRun rows)
    (hrepo : ∀ k, rid = some k → ∀ p : PullRequest, p ∈ rows .pullRequest → p.repoId = k →
      prs.contains p.id = true) :
    Inherits keyOf references rows (doomed rid prs rows) := by
  intro t r hr p hp q hq hk hd
  cases t with
  | repo => cases hp
  | pullRequest =>
    obtain rfl := List.mem_singleton.mp hp
    simp only [doomed, beq_iff_eq] at hd
    exact hrepo _ hd r hr hk.symm
  | preScreen =>
    obtain rfl := List.mem_singleton.mp hp
    exact contains_of_eq hk hd
  | reviewRun =>
    rcases List.mem_append.mp hp with hp | hp
    · rcases List.mem_cons.mp hp with rfl | hp
      · exact contains_of_eq hk hd
      · -- the repository of the run is that of its pull request
        obtain ⟨k, hrk, rfl⟩ := mem_option.mp hp
        obtain ⟨pr, hprm, hprk⟩ := hclosed .reviewRun r hr (.pullRequest, ReviewRun.prId r)
          List.mem_cons_self
        simp only [doomed, beq_iff_eq] at hd
        have hrid : rid = some k := hd.trans (congrArg some hk)
        have := hrepo k hrid pr hprm (hpr.repo r hr pr hprm hprk k hrk)
        have hid : PullRequest.id pr = ReviewRun.prId r := hprk
        show prs.contains (ReviewRun.prId r) = true
        rwa [← hid]
    · obtain ⟨k, hjk, rfl⟩ := mem_option.mp hp
      have hprid := hpr.ownerJob r hr q hq (hjk.trans (congrArg some hk.symm))
      show prs.contains (ReviewRun.prId r) = true
      rw [← hprid]
      exact hd
  | vendorResult =>
    obtain rfl := List.mem_singleton.mp hp
    exact doomed_of_run hq hk hd
  | finding =>
    rcases List.mem_append.mp hp with hp | hp
    · rcases List.mem_cons.mp hp with rfl | hp
      · exact doomed_of_run hq hk hd
      · obtain ⟨k, hvk, rfl⟩ := mem_option.mp hp
        have hrid := hrun.vendorResult r hr q hq (hvk.trans (congrArg some hk.symm))
        show (doomedRuns prs rows).contains (Finding.runId r) = true
        rw [← hrid]
        exact hd
    · obtain ⟨k, hok, rfl⟩ := mem_option.mp hp
      have hrid := hrun.operation r hr q hq (hok.trans (congrArg some hk.symm))
      show (doomedRuns prs rows).contains (Finding.runId r) = true
      rw [← hrid]
      exact hd
  | runFindingSummary =>
    obtain rfl := List.mem_singleton.mp hp
    exact doomed_of_run hq hk hd
  | findingDecision =>
    obtain rfl := List.mem_singleton.mp hp
    exact mem_doomedFindings.mpr ⟨q, hq, hd, hk⟩
  | reviewRule =>
    obtain rfl := List.mem_singleton.mp hp
    simp only [doomed, beq_iff_eq] at hd ⊢
    exact hd.trans (congrArg some hk)
  | postedComment =>
    rcases List.mem_append.mp hp with hp | hp
    · obtain rfl := List.mem_singleton.mp hp
      exact doomed_of_run hq hk hd
    · obtain ⟨k, hfk, rfl⟩ := mem_ids.mp hp
      have hkq : k = Finding.id q := hk.symm
      rw [hkq] at hfk
      have hrid := hrun.posted r hr q hq hfk
      show (doomedRuns prs rows).contains (PostedComment.runId r) = true
      rw [← hrid]
      exact hd
  | slackPost =>
    obtain rfl := List.mem_singleton.mp hp
    exact doomed_of_run hq hk hd
  | feedbackSignal =>
    obtain rfl := List.mem_singleton.mp hp
    exact doomed_of_run hq hk hd
  | wikiPage =>
    obtain rfl := List.mem_singleton.mp hp
    simp only [doomed, beq_iff_eq] at hd ⊢
    exact hd.trans (congrArg some hk)
  | reviewJob =>
    rcases List.mem_append.mp hp with hp | hp
    · rcases List.mem_cons.mp hp with rfl | hp
      · exact contains_of_eq hk hd
      · have hjob : ∃ k, (ReviewJob.runId r = some k ∨ ReviewJob.retryRunId r = some k) ∧
            p = (.reviewRun, k) := by
          rcases List.mem_append.mp hp with hp | hp
          · obtain ⟨k, h, rfl⟩ := mem_option.mp hp
            exact ⟨k, .inl h, rfl⟩
          · obtain ⟨k, h, rfl⟩ := mem_option.mp hp
            exact ⟨k, .inr h, rfl⟩
        obtain ⟨k, hrk, rfl⟩ := hjob
        have hkq : k = ReviewRun.id q := hk.symm
        rw [hkq] at hrk
        have hprid := hpr.runOfJob r hr q hq hrk
        show prs.contains (ReviewJob.prId r) = true
        rw [← hprid]
        exact hd
    · cases hp
  | postOperation =>
    rcases List.mem_append.mp hp with hp | hp
    · obtain rfl := List.mem_singleton.mp hp
      exact doomed_of_run hq hk hd
    · obtain ⟨k, hfk, rfl⟩ := mem_ids.mp hp
      have hkq : k = Finding.id q := hk.symm
      rw [hkq] at hfk
      have hrid := hrun.listed r hr q hq hfk
      show (doomedRuns prs rows).contains (PostOperation.runId r) = true
      rw [← hrid]
      exact hd

/-! ## Statements in order -/

/-- The tables that a `DELETE` clears of the doomed rows, by what cascades too. -/
def clearedBy : TableName → TableName → Bool
  | .reviewRun, t => t == .reviewRun || t == .runFindingSummary
  | .repo, t => t == .repo || t == .reviewRule || t == .wikiPage
  | t, t' => t' == t

/-- The tables that are clear after a statement. -/
def clearedAfter (cleared : TableName → Bool) (t : TableName) : TableName → Bool :=
  fun t' => cleared t' || clearedBy t t'

/-- Whenever a table is clear, those that may refer to it are clear. -/
def ChildrenFirst (cleared : TableName → Bool) : Prop :=
  ∀ t, ∀ t' ∈ parents t, cleared t' = true → cleared t = true

instance (cleared : TableName → Bool) : Decidable (ChildrenFirst cleared) :=
  inferInstanceAs (Decidable (∀ t, ∀ t' ∈ parents t, cleared t' = true → cleared t = true))

/-- An order of tables in which children are cleared before their parents, and none twice. -/
def Orderly : (TableName → Bool) → List TableName → Prop
  | _, [] => True
  | cleared, t :: ts =>
    cleared t = false ∧ ChildrenFirst (clearedAfter cleared t) ∧ Orderly (clearedAfter cleared t) ts

instance : ∀ (cleared : TableName → Bool) (ts : List TableName), Decidable (Orderly cleared ts)
  | _, [] => isTrue trivial
  | cleared, t :: ts =>
    have := instDecidableOrderly (clearedAfter cleared t) ts
    inferInstanceAs (Decidable (cleared t = false ∧ ChildrenFirst (clearedAfter cleared t) ∧
      Orderly (clearedAfter cleared t) ts))

/-- Statements that delete the doomed rows of their tables, each where it stands. -/
inductive Clears (rid : Option Nat) (prs : List Nat) (rows : AllRows) :
    (TableName → Bool) → List Statement → Prop
  | nil {cleared} : Clears rid prs rows cleared []
  | cons {cleared s ss} :
    (∀ r ∈ rows s.table,
      s.cond (without (doomed rid prs rows) cleared rows) r = doomed rid prs rows s.table r) →
    (s.table = .repo → ∃ r : Repo, r ∈ rows .repo ∧ rid = some r.id) →
    Clears rid prs rows (clearedAfter cleared s.table) ss → Clears rid prs rows cleared (s :: ss)

variable {cleared : TableName → Bool} {db : FullDb}

theorem without_of_not {t : TableName} (h : cleared t = false) :
    without (doomed rid prs rows) cleared rows t = rows t := by
  unfold without
  rw [if_neg (by simp [h])]

theorem without_of {t : TableName} (h : cleared t = true) :
    without (doomed rid prs rows) cleared rows t =
      (rows t).filter fun r => !doomed rid prs rows t r := by
  unfold without
  rw [if_pos h]

/-- A `DELETE` of the doomed rows of one table. -/
theorem rows_deleteFrom {t : TableName} {p : RowOf t → Bool}
    (hdb : db.rows = without (doomed rid prs rows) cleared rows)
    (hp : ∀ r ∈ db.rows t, p r = doomed rid prs rows t r) :
    (db.deleteFrom t p).rows =
      without (doomed rid prs rows) (fun t' => cleared t' || t' == t) rows := by
  funext t'
  by_cases ht : t' = t
  · subst ht
    rw [FullDb.rows_deleteFrom_self, without_of (by simp),
      List.filter_congr fun r hr => by rw [hp r hr], hdb]
    by_cases hc : cleared t' = true
    · rw [without_of hc, List.filter_filter]
      simp
    · rw [without_of_not (Bool.not_eq_true _ ▸ hc)]
  · rw [FullDb.rows_deleteFrom_of_ne ht, hdb]
    unfold without
    simp [ht]

/-- The keys that a statement on runs deletes. -/
theorem keysWhere_reviewRun {p : ReviewRun → Bool} (hdb : db.rows .reviewRun = rows .reviewRun)
    (hp : ∀ r ∈ db.rows .reviewRun, p r = doomed rid prs rows .reviewRun r) :
    db.keysWhere .reviewRun p = doomedRuns prs rows := by
  unfold FullDb.keysWhere doomedRuns
  rw [List.filter_congr hp, hdb]
  rfl

theorem now_apply (s : Statement) (db : FullDb) : (s.apply db).now = db.now := by
  obtain ⟨t, cond⟩ := s
  unfold Statement.apply FullDb.deleteCascade
  cases t <;> simp only [FullDb.now_deleteFrom]

/-- The rows after a statement on a table that was not clear. -/
theorem rows_apply {s : Statement} (hdb : db.rows = without (doomed rid prs rows) cleared rows)
    (ht : cleared s.table = false)
    (hp : ∀ r ∈ rows s.table, s.cond db.rows r = doomed rid prs rows s.table r)
    (hrepo : s.table = .repo → ∃ r : Repo, r ∈ rows .repo ∧ rid = some r.id) :
    (s.apply db).rows =
      without (doomed rid prs rows) (clearedAfter cleared s.table) rows := by
  obtain ⟨t, cond⟩ := s
  have hsame : db.rows t = rows t := by rw [hdb, without_of_not ht]
  have hp' : ∀ r ∈ db.rows t, cond db.rows r = doomed rid prs rows t r := by
    rw [hsame]
    exact hp
  have h₁ := rows_deleteFrom hdb hp'
  show (db.deleteCascade t (cond db.rows)).rows = _
  cases t
  case reviewRun =>
    have hkeys := keysWhere_reviewRun hsame hp'
    have h₂ := rows_deleteFrom (t := .runFindingSummary)
      (p := fun s => (doomedRuns prs rows).contains s.runId) h₁ fun r _ => rfl
    show ((db.deleteFrom .reviewRun (cond db.rows)).deleteFrom .runFindingSummary fun s =>
      (db.keysWhere .reviewRun (cond db.rows)).contains s.runId).rows = _
    rw [hkeys, h₂]
    congr 1
    funext t'
    exact Bool.or_assoc _ _ _
  case repo =>
    obtain ⟨r, hr, rfl⟩ := hrepo rfl
    have hkeys : ∀ k, (db.keysWhere .repo (cond db.rows)).contains k = (some r.id == some k) := by
      intro k
      rw [Bool.eq_iff_iff, List.contains_iff_mem, beq_iff_eq, Option.some.injEq]
      unfold FullDb.keysWhere
      rw [List.filter_congr hp', hsame, List.mem_map]
      constructor
      · rintro ⟨q, hq, hqk⟩
        have hd := (List.mem_filter.mp hq).2
        simp only [doomed, beq_iff_eq, Option.some.injEq] at hd
        exact hd.trans hqk
      · intro hk
        exact ⟨r, List.mem_filter.mpr ⟨hr, by simp [doomed]⟩, hk⟩
    have h₂ :=
      rows_deleteFrom (t := .reviewRule) (p := fun q : ReviewRule => some r.id == some q.repoId)
      h₁ fun q _ => rfl
    have h₃ :=
      rows_deleteFrom (t := .wikiPage) (p := fun q : WikiPage => some r.id == some q.repoId)
      h₂ fun q _ => rfl
    show (((db.deleteFrom .repo (cond db.rows)).deleteFrom .reviewRule fun q =>
      (db.keysWhere .repo (cond db.rows)).contains q.repoId).deleteFrom .wikiPage fun q =>
        (db.keysWhere .repo (cond db.rows)).contains q.repoId).rows = _
    simp only [hkeys]
    rw [h₃]
    congr 1
    funext t'
    simp only [clearedAfter, clearedBy, Bool.or_assoc]
  all_goals exact h₁

/-- **Statements that clear their tables run.** No reference is ever without its row. -/
theorem onConn_execAll (hclosed : Closed keyOf declared rows)
    (hinherits : Inherits keyOf declared rows (doomed rid prs rows)) {ss : List Statement}
    (h : Clears rid prs rows cleared ss) (ho : Orderly cleared (ss.map Statement.table))
    {c : Conn FullDb} (hc : c.working.rows = without (doomed rid prs rows) cleared rows) :
    ∃ c', (execAll ss).onConn c = (.ok (), c') ∧ c'.committed = c.committed ∧
      c'.working.rows = without (doomed rid prs rows)
        (ss.foldl (fun cleared s => clearedAfter cleared s.table) cleared) rows := by
  induction h generalizing c with
  | nil => exact ⟨c, rfl, rfl, hc⟩
  | @cons cleared s ss hcond hrepo _ ih =>
    obtain ⟨ht, hfirst, ho⟩ := ho
    have hrows := rows_apply hc ht (fun r hr => by rw [hc]; exact hcond r hr) hrepo
    have hok : Closed keyOf declared (s.apply c.working).rows := by
      rw [hrows]
      exact closed_without hclosed hinherits fun t r _ p hp hcl =>
        hfirst t p.1 (mem_parents hp) hcl
    obtain ⟨c', hrun, hcom, hend⟩ := ih ho (c := { c with
      working := s.apply c.working
      inTransaction := true }) hrows
    refine ⟨c', ?_, hcom, hend⟩
    show (s.exec >>= fun _ => execAll ss).onConn c = _
    rw [onConn_bind, onConn_exec, if_pos hok]
    exact hrun

/-- What statements that clear their tables leave when none of them is refused. -/
theorem rows_of_execAll {ss : List Statement} (h : Clears rid prs rows cleared ss)
    (ho : Orderly cleared (ss.map Statement.table)) {c c' : Conn FullDb}
    (hc : c.working.rows = without (doomed rid prs rows) cleared rows)
    (hrun : (execAll ss).onConn c = (.ok (), c')) :
    c'.working.now = c.working.now ∧
      c'.working.rows = without (doomed rid prs rows)
        (ss.foldl (fun cleared s => clearedAfter cleared s.table) cleared) rows := by
  induction h generalizing c with
  | nil =>
    cases hrun
    exact ⟨rfl, hc⟩
  | @cons cleared s ss hcond hrepo _ ih =>
    obtain ⟨ht, -, ho⟩ := ho
    have hrows := rows_apply hc ht (fun r hr => by rw [hc]; exact hcond r hr) hrepo
    have hb : (execAll (s :: ss)).onConn c = (s.exec >>= fun _ => execAll ss).onConn c := rfl
    rw [hb, onConn_bind, onConn_exec] at hrun
    split at hrun
    · rename_i a c₁ heq
      split at heq
      · cases heq
        obtain ⟨hnow, hend⟩ := ih ho hrows hrun
        exact ⟨hnow.trans (now_apply s c.working), hend⟩
      · cases heq
    · cases hrun

/-! ## What stays is consistent -/

theorem OwnPullRequest.mono {rows' : AllRows} (h : OwnPullRequest rows)
    (hsub : ∀ t, ∀ r ∈ rows' t, r ∈ rows t) : OwnPullRequest rows' where
  ownerJob r hr j hj := h.ownerJob r (hsub .reviewRun r hr) j (hsub .reviewJob j hj)
  runOfJob j hj r hr := h.runOfJob j (hsub .reviewJob j hj) r (hsub .reviewRun r hr)
  repo r hr p hp := h.repo r (hsub .reviewRun r hr) p (hsub .pullRequest p hp)

theorem OwnRun.mono {rows' : AllRows} (h : OwnRun rows)
    (hsub : ∀ t, ∀ r ∈ rows' t, r ∈ rows t) : OwnRun rows' where
  vendorResult f hf v hv := h.vendorResult f (hsub .finding f hf) v (hsub .vendorResult v hv)
  operation f hf o ho := h.operation f (hsub .finding f hf) o (hsub .postOperation o ho)
  posted c hc f hf := h.posted c (hsub .postedComment c hc) f (hsub .finding f hf)
  listed o ho f hf := h.listed o (hsub .postOperation o ho) f (hsub .finding f hf)

/-- The keys of a table are distinct. -/
theorem nodup_rows (db : FullDb) (t : TableName) : ((db.rows t).map (keyOf t)).Nodup := by
  cases t
  · exact db.repos.nodup
  · exact db.pullRequests.nodup
  · exact db.preScreens.nodup
  · exact db.reviewRuns.nodup
  · exact db.vendorResults.nodup
  · exact db.findings.nodup
  · exact db.runFindingSummaries.nodup
  · exact db.findingDecisions.nodup
  · exact db.reviewRules.nodup
  · exact db.postedComments.nodup
  · exact db.slackPosts.nodup
  · exact db.feedbackSignals.nodup
  · exact db.wikiPages.nodup
  · exact db.reviewJobs.nodup
  · exact db.postOperations.nodup

/-- Among the keys of the rows that meet `p` is the key of a row exactly when it meets `p`. -/
theorem contains_keys {t : TableName} (p : RowOf t → Bool) {r : RowOf t} (hr : r ∈ db.rows t) :
    (((db.rows t).filter p).map (keyOf t)).contains (keyOf t r) = p r := by
  rw [Bool.eq_iff_iff, List.contains_iff_mem, List.mem_map]
  constructor
  · rintro ⟨q, hq, hk⟩
    obtain ⟨hq, hpq⟩ := List.mem_filter.mp hq
    rwa [← List.inj_on_of_nodup_map (nodup_rows db t) hq hr hk]
  · exact fun hp => ⟨r, List.mem_filter.mpr ⟨hr, hp⟩, rfl⟩

/-- A database without the doomed rows is consistent, and nothing in it refers to one of them. -/
theorem Consistent.without {db' : FullDb} (h : Consistent db)
    (hrepo : ∀ k, rid = some k → ∀ p : PullRequest, p ∈ db.rows .pullRequest → p.repoId = k →
      prs.contains p.id = true)
    (hdb' : db'.rows = Refs.without (doomed rid prs db.rows) cleared db.rows)
    (hcleared : ∀ t, ∀ r ∈ db.rows t, ∀ p ∈ references t r, cleared p.1 = true →
      cleared t = true) :
    Consistent db' ∧ NoneDangle keyOf references db.rows db'.rows ∧
      ∀ t, ∀ r ∈ db'.rows t, r ∈ db.rows t := by
  have hin := inherits_doomed h.closed h.ownPullRequest h.ownRun hrepo
  have hsub : ∀ t, ∀ r ∈ db'.rows t, r ∈ db.rows t := fun t r hr => by
    rw [hdb'] at hr
    exact (mem_without.mp hr).1
  refine ⟨⟨?_, h.ownPullRequest.mono hsub, h.ownRun.mono hsub⟩, ?_, hsub⟩
  · rw [hdb']
    exact closed_without h.closed (fun t r hr p hp => hin t r hr p (List.mem_append_left _ hp))
      fun t r hr p hp => hcleared t r hr p (List.mem_append_left _ hp)
  · rw [hdb']
    exact noneDangle_without hin hcleared

/-! ## The removal of a repository -/

section Remove

variable {rid : Nat}

theorem prIds_without (h : cleared .pullRequest = false) :
    prIds rid (without (doomed (some rid) prs rows) cleared rows) = prIds rid rows := by
  unfold prIds
  rw [without_of_not h]

/-- A run is of the repository when its pull request is. -/
theorem any_pullRequest (pid : Nat) (rows : AllRows) :
    ((rows .pullRequest).any fun p : PullRequest => p.id == pid && p.repoId == rid) =
      (prIds rid rows).contains pid := by
  rw [Bool.eq_iff_iff, List.contains_iff_mem]
  simp only [prIds, List.any_eq_true, List.mem_map, List.mem_filter, Bool.and_eq_true, beq_iff_eq]
  constructor
  · rintro ⟨p, hp, hid, hr⟩
    exact ⟨p, ⟨hp, hr⟩, hid⟩
  · rintro ⟨p, ⟨hp, hr⟩, hid⟩
    exact ⟨p, hp, hid, hr⟩

theorem runIds_eq (rows : AllRows) : runIds rid rows = doomedRuns (prIds rid rows) rows := by
  unfold runIds doomedRuns
  exact congrArg (List.map ReviewRun.id) (List.filter_congr fun r _ => any_pullRequest r.prId rows)

theorem runIds_without (hp : cleared .pullRequest = false) (hr : cleared .reviewRun = false) :
    runIds rid (without (doomed (some rid) prs rows) cleared rows) =
      doomedRuns (prIds rid rows) rows := by
  rw [runIds_eq, prIds_without hp]
  unfold doomedRuns
  rw [without_of_not hr]

theorem findingIds_eq (rows : AllRows) :
    findingIds rid rows = doomedFindings (doomedRuns (prIds rid rows) rows) rows := by
  unfold findingIds doomedFindings
  refine congrArg (List.map Finding.id) (List.filter_congr fun f _ => ?_)
  rw [Bool.eq_iff_iff, mem_doomedRuns, List.any_eq_true]
  simp only [Bool.and_eq_true, beq_iff_eq]
  constructor
  · rintro ⟨r, hr, hid, hpr⟩
    exact ⟨r, hr, (any_pullRequest r.prId rows).symm.trans hpr, hid⟩
  · rintro ⟨r, hr, hpr, hid⟩
    exact ⟨r, hr, hid, (any_pullRequest r.prId rows).trans hpr⟩

/-- The statements of a removal clear the tables of what goes with the repository. -/
theorem clears_remove {r : Repo} (hr : r ∈ db.rows .repo) (hid : r.id = rid) :
    Clears (some rid) (prIds rid db.rows) db.rows (fun _ => false) (removeStatements rid) := by
  have hrun : ∀ q : ReviewRun, q ∈ db.rows .reviewRun →
      (doomedRuns (prIds rid db.rows) db.rows).contains q.id =
        (prIds rid db.rows).contains q.prId := fun q hq =>
    contains_keys (t := .reviewRun) (fun q : ReviewRun => (prIds rid db.rows).contains q.prId) hq
  have hpr : ∀ q : PullRequest, q ∈ db.rows .pullRequest →
      (q.repoId == rid) = (prIds rid db.rows).contains q.id := fun q hq =>
    (contains_keys (t := .pullRequest) (fun q : PullRequest => q.repoId == rid) hq).symm
  refine .cons (fun d _ => ?_) nofun (.cons (fun s _ => ?_) nofun (.cons (fun s _ => ?_) nofun
    (.cons (fun c _ => ?_) nofun (.cons (fun f _ => ?_) nofun (.cons (fun v _ => ?_) nofun
    (.cons (fun o _ => ?_) nofun (.cons (fun j _ => ?_) nofun (.cons (fun q hq => ?_) nofun
    (.cons (fun s _ => ?_) nofun (.cons (fun q hq => ?_) nofun (.cons (fun w _ => ?_) nofun
    (.cons (fun q _ => ?_) (fun _ => ⟨r, hr, congrArg some hid.symm⟩) .nil))))))))))))
  · show (findingIds rid _).contains _ = _
    rw [without_none, findingIds_eq]
    rfl
  · show (runIds rid _).contains _ = _
    rw [runIds_without rfl rfl]
    rfl
  · show (runIds rid _).contains _ = _
    rw [runIds_without rfl rfl]
    rfl
  · show (runIds rid _).contains _ = _
    rw [runIds_without rfl rfl]
    rfl
  · show (runIds rid _).contains _ = _
    rw [runIds_without rfl rfl]
    rfl
  · show (runIds rid _).contains _ = _
    rw [runIds_without rfl rfl]
    rfl
  · show (runIds rid _).contains _ = _
    rw [runIds_without rfl rfl]
    rfl
  · show (prIds rid _).contains _ = _
    rw [prIds_without rfl]
    rfl
  · show (runIds rid _).contains _ = _
    rw [runIds_without rfl rfl]
    exact hrun q hq
  · show (prIds rid _).contains _ = _
    rw [prIds_without rfl]
    rfl
  · exact hpr q hq
  · exact Bool.beq_comm
  · exact Bool.beq_comm

theorem orderly_remove (rid : Nat) :
    Orderly (fun _ => false) ((removeStatements rid).map Statement.table) := by
  show Orderly (fun _ => false) [.findingDecision, .feedbackSignal, .slackPost, .postedComment,
    .finding, .vendorResult, .postOperation, .reviewJob, .reviewRun, .preScreen, .pullRequest,
    .wikiPage, .repo]
  decide

/-- A removal clears all tables. -/
theorem cleared_remove (rid : Nat) : (removeStatements rid).foldl
    (fun cleared s => clearedAfter cleared s.table) (fun _ => false) = fun _ => true := by
  funext t
  cases t <;> rfl

/-- What `remove` does behind its `SELECT`. -/
def removeFound (rid : Nat) : Option Repo → Sql FullDb Exc Bool
  | none => pure false
  | some _ => transaction do
    execAll (removeStatements rid)
    pure true

theorem run_remove (rid : Nat) :
    (remove rid).run db = (removeFound rid (db.repos.get? rid)).run db := rfl

/-- **A removal is closed**: no statement of it fails, and nothing is left that refers to what it
deleted. -/
theorem remove_closed (h : Consistent db) (rid : Nat) :
    ∃ removed db', (remove rid).run db = (.ok removed, db') ∧ Consistent db' ∧
      NoneDangle keyOf references db.rows db'.rows := by
  rw [run_remove]
  cases hg : db.repos.get? rid with
  | none => exact ⟨false, db, rfl, h, .refl _⟩
  | some r =>
    obtain ⟨hr, hid⟩ := Table.get?_eq_some.mp hg
    have hrepo : ∀ k, some rid = some k → ∀ p : PullRequest, p ∈ db.rows .pullRequest →
        p.repoId = k → (prIds rid db.rows).contains p.id = true := by
      intro k hk p hp hpk
      have := contains_keys (t := .pullRequest) (fun q : PullRequest => q.repoId == rid) hp
      exact this.trans (beq_iff_eq.mpr (hpk.trans (Option.some.inj hk).symm))
    have hin := inherits_doomed h.closed h.ownPullRequest h.ownRun hrepo
    obtain ⟨c', hrun, hcom, hrows⟩ := onConn_execAll (c := ⟨db, db, true⟩) h.closed
      (fun t r hr p hp => hin t r hr p (List.mem_append_left _ hp)) (clears_remove hr hid)
      (orderly_remove rid) rfl
    rw [cleared_remove] at hrows
    refine ⟨true, c'.working, ?_, ?_⟩
    · show (transaction (execAll (removeStatements rid) >>= fun _ => pure true)).run db = _
      rw [run_transaction (inside_bind (inside_execAll _) fun _ => inside_pure _),
        onConn_bind, hrun]
      rfl
    · obtain ⟨hc, hn, -⟩ := h.without hrepo hrows fun _ _ _ _ _ _ => rfl
      exact ⟨hc, hn⟩

end Remove

/-! ## The cleanup of pull requests -/

section Cleanup

variable {days : Int} {pid : Nat} {pids : List Nat}

/-- The tables of what hangs on a run. -/
def runTables : TableName → Bool
  | .findingDecision | .feedbackSignal | .slackPost | .postedComment | .postOperation | .finding
  | .vendorResult => true
  | _ => false

theorem singleton_contains (i : Nat) : [pid].contains i = (i == pid) := by
  rw [Bool.eq_iff_iff, List.contains_iff_mem, List.mem_singleton, beq_iff_eq]

theorem doomedRuns_singleton (db : FullDb) : doomedRuns [pid] db.rows = runIdsOf pid db := by
  unfold doomedRuns runIdsOf
  exact congrArg (List.map ReviewRun.id) (List.filter_congr fun r _ => singleton_contains r.prId)

/-- The statements on the pull request itself, after those on its runs. -/
theorem clears_tail (rows : AllRows) (cleared : TableName → Bool) :
    Clears none [pid] rows cleared
      [⟨.reviewJob, fun _ (j : ReviewJob) => j.prId == pid⟩,
        ⟨.reviewRun, fun _ (r : ReviewRun) => r.prId == pid⟩,
        ⟨.preScreen, fun _ (s : PreScreen) => s.prId == pid⟩,
        ⟨.pullRequest, fun _ (p : PullRequest) => p.id == pid⟩] := by
  refine .cons (fun j _ => ?_) nofun (.cons (fun r _ => ?_) nofun (.cons (fun s _ => ?_) nofun
    (.cons (fun p _ => ?_) nofun .nil)))
  · exact (singleton_contains j.prId).symm
  · exact (singleton_contains r.prId).symm
  · exact (singleton_contains s.prId).symm
  · exact (singleton_contains p.id).symm

theorem clears_cleanup (hruns : runIdsOf pid db ≠ []) : Clears none [pid] db.rows (fun _ => false)
    (cleanupStatements pid (runIdsOf pid db)) := by
  unfold cleanupStatements
  rw [if_neg hruns, ← doomedRuns_singleton]
  refine .cons (fun d _ => rfl) nofun (.cons (fun s _ => rfl) nofun (.cons (fun s _ => rfl) nofun
    (.cons (fun c _ => rfl) nofun (.cons (fun o _ => rfl) nofun (.cons (fun f _ => rfl) nofun
    (.cons (fun v _ => rfl) nofun (clears_tail _ _)))))))

/-- Without runs the tables of what hangs on runs are clear from the start. -/
theorem without_runTables (hruns : runIdsOf pid db = []) :
    db.rows = without (doomed none [pid] db.rows) runTables db.rows := by
  have hd : doomedRuns [pid] db.rows = [] := (doomedRuns_singleton db).trans hruns
  funext t
  unfold without
  split
  · rename_i ht
    refine (List.filter_eq_self.mpr fun r _ => ?_).symm
    cases t <;> first | exact absurd ht Bool.false_ne_true | simp [doomed, hd, doomedFindings]
  · rfl

/-- The tables that a cleanup clears. -/
def cleanupTables : TableName → Bool
  | .repo | .reviewRule | .wikiPage => false
  | _ => true

/-- The tables that a cleanup leaves refer to the table of the repositories only. -/
theorem cleanupTables_of_ref (t : TableName) (r : RowOf t) (_ : r ∈ db.rows t) (p : TableName × Nat)
    (hp : p ∈ references t r) (hcl : cleanupTables p.1 = true) : cleanupTables t = true := by
  have key : ∀ i, p ∈ [(TableName.repo, i)] → cleanupTables t = true := by
    intro i hp
    rw [List.mem_singleton.mp hp] at hcl
    cases hcl
  cases t
  case repo => cases hp
  case reviewRule => exact key _ hp
  case wikiPage => exact key _ hp
  all_goals rfl

/-- The statements for a pull request clear the tables of what goes with it, from the tables that
are clear when it has no runs. -/
theorem clears_cleanupStatements (pid : Nat) (db : FullDb) : ∃ cleared,
    Clears none [pid] db.rows cleared (cleanupStatements pid (runIdsOf pid db)) ∧
      Orderly cleared ((cleanupStatements pid (runIdsOf pid db)).map Statement.table) ∧
      db.rows = without (doomed none [pid] db.rows) cleared db.rows ∧
      (cleanupStatements pid (runIdsOf pid db)).foldl
        (fun cleared s => clearedAfter cleared s.table) cleared = cleanupTables := by
  by_cases hruns : runIdsOf pid db = []
  · have hss : cleanupStatements pid (runIdsOf pid db) =
        [⟨.reviewJob, fun _ (j : ReviewJob) => j.prId == pid⟩,
          ⟨.reviewRun, fun _ (r : ReviewRun) => r.prId == pid⟩,
          ⟨.preScreen, fun _ (s : PreScreen) => s.prId == pid⟩,
          ⟨.pullRequest, fun _ (p : PullRequest) => p.id == pid⟩] := by
      unfold cleanupStatements
      rw [if_pos hruns]
      rfl
    rw [hss]
    refine ⟨runTables, clears_tail db.rows runTables, ?_, without_runTables hruns, ?_⟩
    · show Orderly runTables [.reviewJob, .reviewRun, .preScreen, .pullRequest]
      decide
    · funext t
      cases t <;> rfl
  · refine ⟨fun _ => false, clears_cleanup hruns, ?_, rfl, ?_⟩
    · unfold cleanupStatements
      rw [if_neg hruns]
      show Orderly (fun _ => false) [.findingDecision, .feedbackSignal, .slackPost,
        .postedComment, .postOperation, .finding, .vendorResult, .reviewJob, .reviewRun,
        .preScreen, .pullRequest]
      decide
    · unfold cleanupStatements
      rw [if_neg hruns]
      funext t
      cases t <;> rfl

/-- **The cleanup of one pull request is closed.** -/
theorem execAll_cleanup (pid : Nat) (h : Consistent db) {c : Conn FullDb} (hc : c.working = db) :
    ∃ c', (execAll (cleanupStatements pid (runIdsOf pid db))).onConn c = (.ok (), c') ∧
      c'.committed = c.committed ∧
      c'.working.rows = without (doomed none [pid] db.rows) cleanupTables db.rows := by
  have hin : Inherits keyOf declared db.rows (doomed none [pid] db.rows) := fun t r hr p hp =>
    inherits_doomed h.closed h.ownPullRequest h.ownRun (fun _ hk => by cases hk) t r hr p
      (List.mem_append_left _ hp)
  obtain ⟨cleared, hclears, horder, hstart, hend⟩ := clears_cleanupStatements pid db
  obtain ⟨c', hrun, hcom, hrows⟩ := onConn_execAll h.closed hin hclears horder (c := c)
    (by rw [hc]; exact hstart)
  exact ⟨c', hrun, hcom, by rw [hrows, hend]⟩

/-- A step of the cleanup, from a consistent working copy to another. -/
structure Cleans (c c' : Conn FullDb) : Prop where
  committed : c'.committed = c.committed
  consistent : Consistent c'.working
  noneDangle : NoneDangle keyOf references c.working.rows c'.working.rows
  sub : ∀ t, ∀ r ∈ c'.working.rows t, r ∈ c.working.rows t

theorem Cleans.refl {c : Conn FullDb} (h : Consistent c.working) : Cleans c c :=
  ⟨rfl, h, .refl _, fun _ _ hr => hr⟩

theorem Cleans.trans {c c' c'' : Conn FullDb} (h : Cleans c c') (h' : Cleans c' c'') :
    Cleans c c'' :=
  ⟨h'.committed.trans h.committed, h'.consistent, h.noneDangle.trans h'.noneDangle h'.sub,
    fun t r hr => h.sub t r (h'.sub t r hr)⟩

theorem onConn_cleanupOne (days : Int) (pid : Nat) {c : Conn FullDb} (h : Consistent c.working) :
    ∃ r c', (cleanupOne days pid).onConn c = (.ok r, c') ∧ Cleans c c' := by
  unfold cleanupOne
  simp only [onConn_bind, onConn_select]
  cases hrow : c.working.pullRequests.find? fun p => p.id == pid && eligible days c.working p with
  | none => exact ⟨⟨0, []⟩, c, rfl, .refl h⟩
  | some p =>
    obtain ⟨c', hrun, hcom, hrows⟩ := execAll_cleanup pid h (c := c) rfl
    refine ⟨⟨1, rawPaths (runIdsOf pid c.working) c.working⟩, c', ?_, ?_⟩
    · simp only [onConn_bind, onConn_select, hrun]
      rfl
    · obtain ⟨hcons, hn, hsub⟩ := h.without (fun _ hk => by cases hk) hrows cleanupTables_of_ref
      exact ⟨hcom, hcons, hn, hsub⟩

theorem onConn_cleanupEach (days : Int) (pids : List Nat) {c : Conn FullDb}
    (h : Consistent c.working) :
    ∃ r c', (cleanupEach days pids).onConn c = (.ok r, c') ∧ Cleans c c' := by
  induction pids generalizing c with
  | nil => exact ⟨⟨0, []⟩, c, rfl, .refl h⟩
  | cons pid pids ih =>
    obtain ⟨r₁, c₁, h₁, hc₁⟩ := onConn_cleanupOne days pid h
    obtain ⟨r₂, c₂, h₂, hc₂⟩ := ih hc₁.consistent
    refine ⟨⟨r₁.prs + r₂.prs, r₁.rawPaths ++ r₂.rawPaths⟩, c₂, ?_, hc₁.trans hc₂⟩
    unfold cleanupEach
    simp only [onConn_bind, h₁, h₂]
    rfl

/-- **A cleanup is closed**, whatever the candidates are. -/
theorem cleanup_closed (h : Consistent db) (days : Int) (pids : List Nat) :
    ∃ r db', (cleanupTransaction days pids).run db = (.ok r, db') ∧ Consistent db' ∧
      NoneDangle keyOf references db.rows db'.rows := by
  obtain ⟨r, c', hrun, hc⟩ := onConn_cleanupEach days pids
    (c := ⟨db, db, true⟩) h
  refine ⟨r, c'.working, ?_, hc.consistent, hc.noneDangle⟩
  unfold cleanupTransaction
  rw [run_transaction (inside_cleanupEach days pids), hrun]

end Cleanup

end Deletion
