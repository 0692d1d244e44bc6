import AlmightyReview.Delete.Eligible
import AlmightyReview.Pr.Newer

/-!
# How long a pull request has been closed

A cleanup takes the age of a pull request from `updated_at`. `upsert` sets it with every change of
the state, `mark_closed` closes a pull request without it.

* `AgeState`: the database with its past, and the closings that `mark_closed` made.
* `ClosedSince`: from some time on the pull request was stored and never open.
* `AgeChange`, `Ages`: what an operation makes of the state and time of a row.
* `Aged`: the invariant. A pull request that is not open has not been since its `updated_at`, or
  since a closing by `mark_closed`.
* `ReconciledLongAgo`: the guard. What a cleanup may delete was not closed by `mark_closed` within
  the period. Then it deletes only what has been closed for the period (`deleted_long_closed`).
* `deleted_just_closed`: without the guard, it deletes what was closed just now.
-/

namespace Retention

open Sql PrRepo Poller Deletion

/-! ## The system -/

structure AgeState where
  db : FullDb
  /-- The databases before, the newest first. -/
  past : List FullDb
  /-- The closings that `mark_closed` made: the pull request and the time. -/
  reconciled : List (Nat × Time)

/-- From time `t` on, in databases from the newest to the oldest, the pull request was there and
not open. -/
def ClosedSince (id : Nat) (t : Time) : List FullDb → Prop
  | [] => False
  | db :: older => (∃ p ∈ db.pullRequests, p.id = id ∧ p.state ≠ .opened) ∧
    (db.now ≤ t ∨ ClosedSince id t older)

/-- The pull request has been closed for the period. -/
def LongClosed (period : Nat) (s : AgeState) (id : Nat) : Prop :=
  ∃ t, t + period ≤ s.db.now ∧ ClosedSince id t (s.db :: s.past)

inductive AgeStep where
  /-- Time passes. -/
  | wait (seconds : Nat)
  | upsert (repoId : Nat) (pr : PullInfo) (commit : Bool)
  | markClosed (repoId : Nat) (numbers : List Nat) (commit : Bool)
  /-- The operation of a poll. -/
  | poll {β : Type} (o : PollOp β)
  | webhook (settings : PollSettings) (fullName : Text) (pr : PullInfo)
  /-- The rest of the server works. -/
  | server
  /-- A cleanup deletes, after it chose these candidates. -/
  | cleanup (days : Int) (pids : List Nat)

/-- The repository and the numbers that `mark_closed` is called with. -/
def AgeStep.reconciles : AgeStep → Nat × List Nat
  | .markClosed repoId numbers _ => (repoId, numbers)
  | .poll o => (o.write.repoId, o.write.closed)
  | _ => (0, [])

/-- The database after a program on the tables of the server. -/
def onServer {β : Type} (p : Sql Db Exc β) (db : FullDb) : FullDb :=
  { db with toDb := (p.run db.toDb).2 }

/-- The state of a row and its time are the same. -/
def SameAge (r r' : PullRequest) : Prop := r'.state = r.state ∧ r'.updatedAt = r.updatedAt

def AgeStep.Run (db : FullDb) : AgeStep → FullDb → Prop
  | .wait seconds, db' => db' = { db with now := db.now + seconds }
  | .upsert repoId pr commit, db' => db' = onServer (PrRepo.upsert repoId pr commit) db
  | .markClosed repoId numbers commit, db' =>
    db' = onServer (PrRepo.markClosed repoId numbers commit) db
  | .poll o, db' => ∃ p, o.program = some p ∧ db' = onServer p db
  | .webhook settings fullName pr, db' => db' = onServer (githubWebhook settings fullName pr) db
  | .server, db' => db'.now = db.now ∧ ∀ r' ∈ db'.pullRequests, ∃ r ∈ db.pullRequests,
    r'.id = r.id ∧ r'.repoId = r.repoId ∧ r'.number = r.number ∧ SameAge r r'
  | .cleanup days pids, db' => 0 < days ∧ db' = ((cleanupTransaction days pids).run db).2

/-- The pull requests that the step closes by `mark_closed`. -/
def closedBy (a : AgeStep) (db db' : FullDb) : List PullRequest :=
  db.pullRequests.rows.filter fun r => closes a.reconciles.1 a.reconciles.2 r &&
    (db'.pullRequests.get? r.id).any fun r' => r'.state != .opened

def AgeState.moved (s : AgeState) (a : AgeStep) (db' : FullDb) : AgeState where
  db := db'
  past := s.db :: s.past
  reconciled := (closedBy a s.db db').map (fun r => (r.id, db'.now)) ++ s.reconciled

/-- **Pull requests that grow old**, from an empty table on. -/
def aging : Sys AgeState AgeStep where
  init s := s.db.pullRequests = .empty ∧ s.past = [] ∧ s.reconciled = []
  step s a s' := ∃ db', a.Run s.db db' ∧ s' = s.moved a db'

/-! ## What an operation makes of a row -/

/-- What storing pull requests at time `now` and closing `numbers` makes of a row. -/
inductive AgeChange (now : Time) (repoId : Nat) (numbers : List Nat) (r r' : PullRequest) : Prop
  | kept : r'.repoId = r.repoId → r'.number = r.number → SameAge r r' →
    AgeChange now repoId numbers r r'
  | refreshed : r'.updatedAt = some now → AgeChange now repoId numbers r r'
  | reconciled : closes repoId numbers r = true → r'.state = .closed →
    AgeChange now repoId numbers r r'

/-- The rows after some pull requests were stored and some of `numbers` closed. -/
structure Ages (repoId : Nat) (numbers : List Nat) (db₀ db : Db) : Prop where
  now : db.now = db₀.now
  pulls : PullsFrom (fun r => r.updatedAt = some db₀.now) (AgeChange db₀.now repoId numbers) db₀ db

section Ages

variable {repoId : Nat} {numbers : List Nat} {db₀ : Db}

theorem Ages.refl (db : Db) : Ages repoId numbers db db :=
  ⟨rfl, .refl (fun _ => .kept rfl rfl ⟨rfl, rfl⟩) db⟩

theorem ages_aboutPulls : AboutPulls (Ages repoId numbers db₀) :=
  fun _ _ he hnow h => ⟨hnow.trans h.now, h.pulls.of_eq he⟩

/-- `upsert` sets the time of what it stores. -/
theorem upsert_ages (pr : PullInfo) (commit : Bool) :
    Preserves (Ages repoId numbers db₀) (upsert repoId pr commit) := by
  refine preserves_bind (preserves_execute fun db h => ?_) fun _ => ?_
  · show Ages repoId numbers db₀ (upserted repoId pr db)
    unfold upserted
    cases hf : db.pullRequests.find? (pullFor repoId pr.number) with
    | none =>
      refine ⟨h.now, ?_, Table.forall_insert h.pulls.rows ?_⟩
      · show db₀.pullRequests.nextId ≤ db.pullRequests.nextId + 1
        exact Nat.le_succ_of_le h.pulls.nextId
      · exact .new h.pulls.nextId (congrArg some h.now)
    | some row =>
      refine ⟨h.now, h.pulls.update (f := overwrite pr db.now) (fun _ => rfl) rfl
        (fun r _ _ => congrArg some h.now) fun r r' _ _ => .refreshed (congrArg some h.now)⟩
  · refine preserves_bind (preserves_when fun _ => preserves_commit) fun _ => ?_
    refine preserves_bind (preserves_select _) fun row => ?_
    cases row with
    | none => exact preserves_throw _
    | some row => exact preserves_pure _

/-- `mark_closed` leaves the time as it was. -/
theorem markClosed_ages (commit : Bool) :
    Preserves (Ages repoId numbers db₀) (markClosed repoId numbers commit) := by
  refine preserves_bind (preserves_execute fun db h => ⟨h.now, ?_⟩) fun _ =>
    preserves_bind (preserves_when fun _ => preserves_commit) fun _ => preserves_pure _
  refine h.pulls.update (f := fun r => { r with state := .closed }) (fun _ => rfl) rfl
    (fun r _ hn => hn) fun r r' hc ho => ?_
  cases ho with
  | kept hrepo hnum hsame =>
    refine .reconciled ?_ rfl
    simpa only [closes, hrepo, hnum, hsame.1] using hc
  | refreshed ht => exact .refreshed ht
  | reconciled _ hst => simp [closes, hst] at hc

theorem storePull_ages (repo : Repo) (settings : PollSettings) (commit : Bool) (pr : PullInfo) :
    Preserves (Ages repo.id numbers db₀) (storePull repo settings commit pr) := by
  refine preserves_bind (upsert_ages pr _) fun pid => ?_
  have henq : Preserves (Ages repo.id numbers db₀) (do
      let counts ← enqueue commit pid
      pure (if counts then 1 else 0) : Sql Db Exc Nat) :=
    preserves_bind (enqueue_pulls ages_aboutPulls _ _) fun _ => preserves_pure _
  exact preserves_bind (needsReview_pulls pid) fun needed =>
    preserves_ite (fun _ => henq) fun _ => preserves_pure _

theorem storePulls_ages (repo : Repo) (settings : PollSettings) (prs : List PullInfo) :
    Preserves (Ages repo.id numbers db₀) (storePulls repo settings prs) := by
  induction prs with
  | nil => exact preserves_pure _
  | cons pr prs ih =>
    exact preserves_bind (storePull_ages repo settings _ pr) fun n =>
      preserves_bind ih fun m => preserves_pure _

theorem op_ages {β : Type} (o : PollOp β) {p : Sql Db Exc β} (hp : o.program = some p) (db : Db) :
    Ages o.write.repoId o.write.closed db (p.run db).2 := by
  refine preserves_run ?_ (Ages.refl db)
  cases o with
  | openBefore repoId =>
    cases hp
    exact preserves_select _
  | listPrs => cases hp
  | storeAll repo settings prevOpen prs =>
    cases hp
    refine preserves_transaction (preserves_bind (storePulls_ages repo settings prs) fun n => ?_)
    refine preserves_bind ?_ fun _ => preserves_pure _
    exact preserves_bind (markClosed_ages _) fun _ => preserves_pure _
  | storeOne repo settings pr =>
    cases hp
    exact preserves_transaction (storePull_ages repo settings _ pr)
  | close repo prevOpen prs =>
    cases hp
    exact preserves_transaction (preserves_bind (markClosed_ages _) fun _ => preserves_pure _)

theorem storeHooked_ages (repo : Repo) (settings : PollSettings) (pr : PullInfo) (db : Db) :
    Ages repo.id numbers db ((storeHooked repo settings pr).run db).2 := by
  refine preserves_run ?_ (Ages.refl db)
  refine preserves_bind (upsert_ages _ _) fun pid => ?_
  have henq : Preserves (Ages repo.id numbers db) (do
      let _ ← JobRepo.enqueue pid pr.headSha .auto 0 true
      pure .enqueued : Sql Db Exc Hooked) :=
    preserves_bind (preserves_bind (enqueueWithResult_pulls ages_aboutPulls _ _ _ _ _) fun _ =>
      preserves_pure _) fun _ => preserves_pure _
  refine preserves_bind (needsReview_pulls pid) fun needed => ?_
  exact preserves_ite (fun _ => henq) fun _ => preserves_pure _

end Ages

/-! ## The invariant -/

/-- A pull request that is not open has not been since its time, or since a closing by
`mark_closed`. -/
def Aged (s : AgeState) : Prop :=
  ∀ p ∈ s.db.pullRequests, p.state ≠ .opened → ∃ t, ClosedSince p.id t (s.db :: s.past) ∧
    ((∃ u, p.updatedAt = some u ∧ t ≤ u) ∨ (p.id, t) ∈ s.reconciled)

/-- Nothing is closed when no number is given. -/
theorem AgeChange.of_nil {now : Time} {repoId repoId' : Nat} {numbers : List Nat}
    {r r' : PullRequest} (h : AgeChange now repoId [] r r') :
    AgeChange now repoId' numbers r r' := by
  cases h with
  | kept hrepo hnum hsame => exact .kept hrepo hnum hsame
  | refreshed ht => exact .refreshed ht
  | reconciled hc => simp [closes] at hc

/-- The row is new and has the time `now`, or comes from a row of `db`. -/
abbrev Changed (a : AgeStep) (now : Time) (db : Db) (r' : PullRequest) : Prop :=
  From (fun r => r.updatedAt = some now) (AgeChange now a.reconciles.1 a.reconciles.2) db r'

theorem Ages.changed {a : AgeStep} {db d : Db} (h : Ages a.reconciles.1 a.reconciles.2 db d)
    {r' : PullRequest} (hr' : r' ∈ d.pullRequests) : Changed a d.now db r' := by
  rw [h.now]
  exact h.pulls.rows r' hr'

/-- After a step that stores only. -/
theorem Ages.changed_of_nil {repoId : Nat} {db d : Db} (h : Ages repoId [] db d) (a : AgeStep)
    {r' : PullRequest} (hr' : r' ∈ d.pullRequests) : Changed a d.now db r' := by
  rw [h.now]
  cases h.pulls.rows r' hr' with
  | new hid hn => exact .new hid hn
  | old hr hid ho => exact .old hr hid ho.of_nil

theorem githubWebhook_ages (settings : PollSettings) (fullName : Text) (pr : PullInfo) (db : Db) :
    ∃ repoId, Ages repoId [] db ((githubWebhook settings fullName pr).run db).2 := by
  cases hr : hooked fullName db with
  | none =>
    have hrun : ((githubWebhook settings fullName pr).run db).2 = db := by
      simp only [githubWebhook, run, onConn_bind, onConn_select, Conn.fresh, hr, onConn_pure]
    exact ⟨0, hrun.symm ▸ .refl db⟩
  | some repo =>
    have hrun : (githubWebhook settings fullName pr).run db =
        (storeHooked repo settings pr).run db := by
      simp only [githubWebhook, run, onConn_bind, onConn_select, Conn.fresh, hr]
    exact ⟨repo.id, hrun.symm ▸ storeHooked_ages repo settings pr db⟩

/-- What a step makes of the rows. -/
theorem changed_of_run {a : AgeStep} {db db' : FullDb} (h : a.Run db db') {r' : PullRequest}
    (hr' : r' ∈ db'.pullRequests) : Changed a db'.now db.toDb r' := by
  cases a with
  | wait seconds =>
    obtain rfl := h
    exact .old hr' rfl (.kept rfl rfl ⟨rfl, rfl⟩)
  | upsert repoId pr commit =>
    obtain rfl := h
    have hages : Ages repoId [] db.toDb ((PrRepo.upsert repoId pr commit).run db.toDb).2 :=
      preserves_run (upsert_ages pr commit) (.refl db.toDb)
    exact hages.changed_of_nil _ hr'
  | markClosed repoId numbers commit =>
    obtain rfl := h
    have hages : Ages repoId numbers db.toDb
        ((PrRepo.markClosed repoId numbers commit).run db.toDb).2 :=
      preserves_run (markClosed_ages commit) (.refl db.toDb)
    exact hages.changed (a := .markClosed repoId numbers commit) hr'
  | poll o =>
    obtain ⟨p, hp, rfl⟩ := h
    exact (op_ages o hp db.toDb).changed (a := .poll o) hr'
  | webhook settings fullName pr =>
    obtain rfl := h
    obtain ⟨repoId, hages⟩ := githubWebhook_ages settings fullName pr db.toDb
    exact hages.changed_of_nil _ hr'
  | server =>
    obtain ⟨r, hr, hid, hrepo, hnum, hsame⟩ := h.2 r' hr'
    exact .old hr hid.symm (.kept hrepo hnum hsame)
  | cleanup days pids =>
    obtain ⟨-, rfl⟩ := h
    have hr := (pruned_cleanup days pids db).sub .pullRequest r' hr'
    exact .old hr rfl (.kept rfl rfl ⟨rfl, rfl⟩)

theorem mem_closedBy {a : AgeStep} {db db' : FullDb} {r r' : PullRequest}
    (hr : r ∈ db.pullRequests) (hr' : r' ∈ db'.pullRequests) (hid : r.id = r'.id)
    (hc : closes a.reconciles.1 a.reconciles.2 r = true) (hst : r'.state ≠ .opened) :
    r ∈ closedBy a db db' := by
  refine List.mem_filter.mpr ⟨hr, ?_⟩
  have hget : db'.pullRequests.get? r.id = some r' := hid ▸ Table.get?_of_mem hr'
  rw [hc, Bool.true_and, hget, Option.any_some, bne_iff_ne]
  exact hst

/-- Every step keeps the invariant. -/
theorem aged_moved {s : AgeState} {a : AgeStep} {db' : FullDb} (h : Aged s)
    (hrun : a.Run s.db db') :
    Aged (s.moved a db') := by
  intro r' hr' hst
  have hhere : ∃ p ∈ db'.pullRequests, p.id = r'.id ∧ p.state ≠ .opened := ⟨r', hr', rfl, hst⟩
  cases changed_of_run hrun hr' with
  | new _ ht => exact ⟨db'.now, ⟨hhere, .inl (Nat.le_refl _)⟩, .inl ⟨_, ht, Nat.le_refl _⟩⟩
  | @old r hr hid ho =>
    cases ho with
    | kept _ _ hsame =>
      -- it was not open before either
      obtain ⟨t, hsince, ht⟩ := h r hr (hsame.1 ▸ hst)
      rw [hid] at hsince ht
      refine ⟨t, ⟨hhere, .inr hsince⟩, ?_⟩
      rcases ht with ⟨u, hu, hle⟩ | hrec
      · exact .inl ⟨u, hsame.2.trans hu, hle⟩
      · exact .inr (List.mem_append_right _ hrec)
    | refreshed ht => exact ⟨db'.now, ⟨hhere, .inl (Nat.le_refl _)⟩, .inl ⟨_, ht, Nat.le_refl _⟩⟩
    | reconciled hc =>
      refine ⟨db'.now, ⟨hhere, .inl (Nat.le_refl _)⟩, .inr (List.mem_append_left _ ?_)⟩
      exact List.mem_map.mpr ⟨r, mem_closedBy hr hr' hid hc hst, by rw [hid]⟩

theorem aged_init {s : AgeState} (h : aging.init s) : Aged s := by
  intro p hp
  rw [h.1] at hp
  exact absurd hp Table.mem_empty

/-! ## The law -/

/-- What the cleanup may delete was not closed by `mark_closed` within the period. -/
def ReconciledLongAgo (s : AgeState) : AgeStep → Prop
  | .cleanup days pids => ∀ p ∈ s.db.pullRequests, p.id ∈ pids → eligible days s.db p = true →
    ∀ t, (p.id, t) ∈ s.reconciled → t + daysToSeconds days ≤ s.db.now
  | _ => True

/-- A cleanup deletes a pull request, and what belongs to it, only after it has been closed for the
period. -/
def DeletesLongClosed (s : AgeState) (a : AgeStep) (s' : AgeState) : Prop :=
  ∀ days pids, a = .cleanup days pids → ∀ p ∈ s.db.pullRequests,
    ∀ t r, BelongsTo p s.db t r → r ∉ s'.db.rows t → LongClosed (daysToSeconds days) s p.id

theorem aged_inductive : aging.Inductive ReconciledLongAgo Aged where
  init := aged_init
  step := by
    rintro s a s' h - ⟨db', hrun, rfl⟩
    exact aged_moved h hrun

theorem lt_of_eligible {days : Int} {db : FullDb} {p : PullRequest} {u : Time}
    (h : eligible days db p = true) (hu : p.updatedAt = some u) :
    u + daysToSeconds days < db.now := by
  simp only [eligible, Bool.and_eq_true, hu, decide_eq_true_eq] at h
  exact h.1.1.2

/-- **Only what was closed long ago is deleted**, when nothing that may be was closed by
`mark_closed` within the period. -/
theorem deleted_long_closed {s s' : AgeState} {a : AgeStep}
    (hs : aging.Reach ReconciledLongAgo s) (ha : ReconciledLongAgo s a)
    (hstep : aging.step s a s') :
    DeletesLongClosed s a s' := by
  refine aged_inductive.stepInvariant ?_ hs ha hstep
  rintro s a s' h hg ⟨db', hrun, rfl⟩ days pids rfl p hp t r hb hgone
  obtain ⟨-, rfl⟩ := hrun
  obtain ⟨hpid, hel⟩ := ((pruned_cleanup days pids s.db).kept p hp).resolve_right
    fun hkept => hgone (hkept t r hb).1
  obtain ⟨t, hsince, ht⟩ := h p hp (idle_of_eligible hel).1
  refine ⟨t, ?_, hsince⟩
  rcases ht with ⟨u, hu, hle⟩ | hrec
  · exact (Nat.add_le_add_right hle _).trans (Nat.le_of_lt (lt_of_eligible hel hu))
  · exact hg p hp hpid hel t hrec

/-! ## A pull request that was closed just now -/

/-- A day in seconds. -/
def day : Nat := 86400

/-- A repository whose pull requests are stored and not reviewed. -/
def watchedRepo : Repo := { autoRepo with vendorClaudeOn := false, vendorCodexOn := false }

def watched : AgeState where
  db := { Db.empty 0 with
    repos := .ofRows [watchedRepo] 2 (by decide) (by decide)
    preScreens := .empty
    runFindingSummaries := .empty
    reviewRules := .empty
    slackPosts := .empty
    feedbackSignals := .empty }
  past := []
  reconciled := []

/-- The transaction of a poll. -/
def polled (prevOpen : List Nat) (prs : List PullInfo) (s : AgeState) : AgeState :=
  s.moved (.poll (.storeAll watchedRepo ⟨false⟩ prevOpen prs)) (onServer (transaction do
    let n ← storePulls watchedRepo ⟨false⟩ prs
    closeGone watchedRepo prevOpen prs
    pure n) s.db)

def waited (seconds : Nat) (s : AgeState) : AgeState :=
  s.moved (.wait seconds) { s.db with now := s.db.now + seconds }

theorem reach_polled {G : AgeState → AgeStep → Prop} {s : AgeState} (h : aging.Reach G s)
    (prevOpen : List Nat) (prs : List PullInfo)
    (hg : G s (.poll (.storeAll watchedRepo ⟨false⟩ prevOpen prs))) :
    aging.Reach G (polled prevOpen prs s) :=
  h.step hg ⟨_, ⟨_, rfl, rfl⟩, rfl⟩

theorem reach_waited {G : AgeState → AgeStep → Prop} {s : AgeState} (h : aging.Reach G s)
    (seconds : Nat) (hg : G s (.wait seconds)) : aging.Reach G (waited seconds s) :=
  h.step hg ⟨_, rfl, rfl⟩

/-- A pull request is open for a hundred days, and then a poll does not list it any more. -/
def justClosed : AgeState :=
  polled [7] [] (waited (100 * day) (polled [] [pullAt "A".toList] watched))

/-- It was closed a month ago. -/
def closedForLong : AgeState := waited (31 * day) justClosed

theorem reach_justClosed {G : AgeState → AgeStep → Prop} (hp : ∀ s o, G s (.poll (β := Nat) o))
    (hw : ∀ s n, G s (.wait n)) : aging.Reach G justClosed :=
  reach_polled (reach_waited (reach_polled (.init ⟨rfl, rfl, rfl⟩) [] _ (hp _ _)) _ (hw _ _)) [7] []
    (hp _ _)

/-- The row of the pull request. -/
def closedPull : PullRequest := { newPull 1 (pullAt "A".toList) 0 1 with state := .closed }

theorem rows_closedForLong : closedForLong.db.pullRequests.rows = [closedPull] := by
  decide +kernel

theorem deleted_closedForLong : LongClosed (daysToSeconds 30) closedForLong 1 := by
  have hp : closedPull ∈ closedForLong.db.pullRequests := by
    rw [Table.mem_def, rows_closedForLong]
    exact List.mem_singleton_self _
  refine deleted_long_closed (reach_waited (reach_justClosed (fun _ _ => trivial)
    fun _ _ => trivial) _ trivial) (a := .cleanup 30 [1]) ?_ ⟨_, ⟨by decide, rfl⟩, rfl⟩ 30 [1] rfl
    closedPull hp .pullRequest closedPull (belongsTo_self hp) (by decide +kernel)
  have hrec : ∀ e ∈ closedForLong.reconciled, e.2 + daysToSeconds 30 ≤ closedForLong.db.now := by
    decide +kernel
  exact fun p _ _ _ t ht => hrec (p.id, t) ht

/-- A cleanup deletes a pull request that was open until now. -/
theorem deleted_just_closed : ¬aging.StepInvariant Sys.anyStep DeletesLongClosed := by
  intro h
  have hrows : justClosed.db.pullRequests.rows = [closedPull] := by decide +kernel
  have hp : closedPull ∈ justClosed.db.pullRequests := by
    rw [Table.mem_def, hrows]
    exact List.mem_singleton_self _
  obtain ⟨t, ht, -, hnow | ⟨⟨p, hp, -, hst⟩, -⟩⟩ :=
    h (reach_justClosed (fun _ _ => trivial) fun _ _ => trivial)
    (a := .cleanup 30 [1]) trivial ⟨_, ⟨by decide, rfl⟩, rfl⟩ 30 [1] rfl closedPull hp
    .pullRequest closedPull (belongsTo_self hp) (by decide +kernel)
  · have hperiod : daysToSeconds 30 = 2592000 := by decide
    exact absurd (ht.trans hnow) (by rw [hperiod]; exact Nat.not_le.mpr (Nat.lt_add_of_pos_right
      (by decide)))
  · -- in the database before the poll it was open
    have hopen :
        ∀ p ∈ (waited (100 * day) (polled [] [pullAt "A".toList] watched)).db.pullRequests.rows,
        p.state = .opened := by decide +kernel
    exact hst (hopen p hp)

end Retention
