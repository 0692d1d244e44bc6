import AlmightyReview.Review.Effect

/-!
# What the transactions of a review have stored

* `exec_write_error`: a transaction that raised has stored nothing of a review.
* `publish_ok`, `retryPublish_ok`, ..: what is stored when a transaction returned.
-/

namespace Pipeline

open Sql FindingPolicy

/-! ## Transactions that raise -/

/-- The runs, the results and the findings are the same. -/
structure Same (db db' : Db) : Prop where
  runs : db'.reviewRuns = db.reviewRuns
  results : db'.vendorResults = db.vendorResults
  findings : db'.findings = db.findings

theorem Same.refl (db : Db) : Same db db := ⟨rfl, rfl, rfl⟩

theorem Same.ofReviews (db₀ : Db) : OfReviews (Same db₀) :=
  fun _ _ hr hv hf h => ⟨hr.trans h.runs, hv.trans h.results, hf.trans h.findings⟩

theorem updateRun_inside (runId : Nat) (f : Db → ReviewRun → ReviewRun)
    (hf : ∀ db r, Row.id (f db r) = Row.id r) : (ReviewRepo.updateRun runId f hf).Inside :=
  inside_bind (inside_execute _) fun _ => inside_pure _

theorem finishRun_inside (runId : Nat) (status : RunStatus) (error : Option Text) :
    (ReviewRepo.finishRun runId status error false).Inside :=
  inside_bind (updateRun_inside _ _ _) fun _ => inside_when fun h => by cases h

/-- The statements at the end of a run that is not published. -/
theorem conclude_inside (e : Ending) (results : List VendorRunResult) (status : RunStatus)
    (error : Option Text) : (do
      persistVendorResults e.rows 1 results
      ReviewRepo.finishRun e.runId status error false).Inside :=
  inside_bind (persistVendorResults_leaves ..).2 fun _ => finishRun_inside _ _ _

theorem assertProcessLease_inside (runId : Nat) (owner : Option ProcessId) :
    (assertProcessLease runId owner).Inside := by
  intro c
  obtain ⟨r, hr⟩ := onConn_assertProcessLease runId owner c
  rw [hr]

theorem assertCurrentHead_inside (runId prId : Nat) (headSha : Sha) :
    (assertCurrentHead runId prId headSha).Inside := by
  intro c
  obtain ⟨r, hr⟩ := onConn_assertCurrentHead runId prId headSha c
  rw [hr]

/-- The statements of the end of a retry. -/
def retryBody (canonicalClaim : Text → Text) (e : RetryEnding) : Sql Db Exc Unit := do
  assertProcessLease e.runId e.ownerProcessId
  assertCurrentHead e.runId e.prId e.headSha
  let results ← groupRetryDuplicates canonicalClaim e.runId e.dedupeMode e.results
  retryStatements e results

theorem retryBody_inside (canonicalClaim : Text → Text) (e : RetryEnding) :
    (retryBody canonicalClaim e).Inside :=
  inside_bind (assertProcessLease_inside _ _) fun _ =>
    inside_bind (assertCurrentHead_inside _ _ _) fun _ =>
      inside_bind (inside_execute _) fun results => retryStatements_inside e results

theorem publish_atomic (e : Ending) : (publish e).Atomic := by
  refine atomic_bind inside_beginImmediate fun _ => atomic_tryCatch ?_
    fun ex => inside_bind inside_rollback fun _ => inside_throw ex
  refine atomic_bind (assertProcessLease_inside _ _) fun _ => ?_
  refine atomic_bind (inside_select _) fun actual => atomic_ite (fun _ => ?_) fun _ => ?_
  · exact (inside_bind inside_rollback fun _ => inside_pure _).atomic
  · exact atomic_bind (publishStatements_inside e) fun _ => atomic_commit_pure _

/-- **A transaction that raises** has stored nothing of a review. -/
theorem write_same {β : Type} {q : Write β} {db : Db} {e : Exc}
    (h : (q.program.run db).1 = .error e) : Same db (q.program.run db).2 := by
  have hof := Same.ofReviews db
  have of_atomic : q.program.Atomic → Same db (q.program.run db).2 := by
    intro ha
    rw [ha.run h]
    exact .refl db
  have of_preserves : Preserves (Same db) q.program → Same db (q.program.run db).2 :=
    fun hp => preserves_run hp (.refl db)
  cases q with
  | createRun run => cases h
  | setBaseSha runId sha => cases h
  | finishRun runId status error => cases h
  | markReviewed prId sha => cases h
  | setContext runId text => cases h
  | setContextChunks runId chunks =>
    exact of_atomic (atomic_bind (inside_lift _) fun _ =>
      atomic_bind (updateRun_inside _ _ _) fun _ => atomic_commit)
  | setPolicySnapshot runId policy =>
    exact of_atomic (atomic_bind (inside_execute _) fun _ =>
      atomic_bind (inside_when fun _ => inside_throw _) fun _ => atomic_when fun _ => atomic_commit)
  | addVendorResult runId vendor => cases h
  | storeFailed e => exact of_atomic (atomic_transaction (conclude_inside e _ _ _))
  | publish e => exact of_atomic (publish_atomic e)
  | cancelStale e => exact of_atomic (atomic_transaction (conclude_inside e _ _ _))
  | retryPublish canonicalClaim e =>
    exact of_atomic (atomic_transaction (retryBody_inside canonicalClaim e))
  | claimNext workerId owner => exact of_preserves (ofReviews_claimNext hof _ _ _)
  | markDone jobId runId owner => exact of_preserves (ofReviews_markDone hof _ _ _)
  | markCanceled jobId error owner => exact of_preserves (ofReviews_markCanceled hof _ _ _)
  | markFailed jobId error retry runId owner =>
    exact of_preserves (ofReviews_markFailed hof _ _ _ _ _)
  | cancelStaleAndEnqueueLatest jobId owner =>
    exact of_preserves (ofReviews_cancelStaleAndEnqueueLatest hof _ _)
  | failJobRuns jobId error => cases h

/-! ## Transactions that return -/

theorem createRun_ok {run : NewRun} {db : Db} {id : Nat}
    (h : ((Write.createRun run).program.run db).1 = .ok id) :
    id = db.reviewRuns.nextId ∧
      ((Write.createRun run).program.run db).2.reviewRuns.nextId = id + 1 := by
  cases h
  exact ⟨rfl, rfl⟩

theorem addVendorResult_ok {runId : Nat} {vendor : Text} {db : Db} {id : Nat}
    (h : ((Write.addVendorResult runId vendor).program.run db).1 = .ok id) :
    id = db.vendorResults.nextId ∧
      ((Write.addVendorResult runId vendor).program.run db).2.vendorResults.nextId = id + 1 := by
  cases h
  exact ⟨rfl, rfl⟩

/-- The rows of a run have this status. -/
def HasStatus (runId : Nat) (status : RunStatus) (db : Db) : Prop :=
  ∀ r ∈ db.reviewRuns, r.id = runId → r.status = status

theorem finishRun_returns (P : Db → Prop) (runId : Nat) (status : RunStatus)
    (error : Option Text) :
    Returns P (fun _ => HasStatus runId status)
      (ReviewRepo.finishRun runId status error false) := by
  refine returns_bind (returns_bind (returns_execute fun d _ => ?_) fun _ =>
    returns_pure fun _ h => h) fun _ => returns_when (fun h => by cases h) fun _ _ h => h
  refine Table.forall_updated ?_ ?_ ?_
  · exact fun _ => rfl
  · exact fun _ _ _ _ => rfl
  · exact fun _ _ hp hid => absurd hid (by simpa using hp)

/-- A run is finished with its status. -/
theorem finishRun_ok (runId : Nat) (status : RunStatus) (error : Option Text) (db : Db) :
    HasStatus runId status ((Write.finishRun runId status error).program.run db).2 := by
  have h := finishRun_returns (fun _ => True) runId status error (.fresh db) () trivial rfl
  exact h

/-- A transaction at the end of a run that is not published. -/
theorem conclude_returns (e : Ending) (results : List VendorRunResult) (status : RunStatus)
    (error : Option Text) : Returns (fun _ => True) (fun _ => HasStatus e.runId status) (do
      persistVendorResults e.rows 1 results
      ReviewRepo.finishRun e.runId status error false) :=
  returns_bind (R := fun _ _ => True) (fun _ _ _ _ => trivial) fun _ => finishRun_returns _ _ _ _

theorem storeFailed_ok {e : Ending} {db : Db}
    (h : ((Write.storeFailed e).program.run db).1 = .ok ()) :
    HasStatus e.runId .failed ((Write.storeFailed e).program.run db).2 :=
  (conclude_returns e _ _ _).transaction (conclude_inside e _ _ _) trivial h

theorem cancelStale_ok {e : Ending} {db : Db}
    (h : ((Write.cancelStale e).program.run db).1 = .ok ()) :
    HasStatus e.runId .canceled ((Write.cancelStale e).program.run db).2 :=
  (conclude_returns e _ _ _).transaction (conclude_inside e _ _ _) trivial h

/-- No run of the job is running. -/
theorem failJobRuns_ok (jobId : Nat) (error : Text) (db : Db) :
    ∀ r ∈ ((Write.failJobRuns jobId error).program.run db).2.reviewRuns,
      r.ownerJobId = some jobId → r.status ≠ .running := by
  refine Table.forall_updated ?_ ?_ ?_
  · exact fun _ => rfl
  · exact fun r _ _ _ hs => by cases hs
  · intro r _ hp hjob hs
    simp [hjob, hs] at hp

/-- The run has the policy. -/
theorem setPolicySnapshot_ok {runId : Nat} {policy : PolicySnapshot} {db : Db}
    (h : ((Write.setPolicySnapshot runId policy).program.run db).1 = .ok ()) :
    ∀ r ∈ ((Write.setPolicySnapshot runId policy).program.run db).2.reviewRuns, r.id = runId →
      r.policy = some (policySnapshotRecord policy) := by
  let p : ReviewRun → Bool := fun r => r.id == runId && r.status == .running && r.policy.isNone
  have hrun : (Write.setPolicySnapshot runId policy).program.run db =
      if db.reviewRuns.count p = 1 then
        (.ok (), { db with
          reviewRuns := db.reviewRuns.update p fun r => { r with
            policy := some (policySnapshotRecord policy) } })
      else (.error (.runtimeError "run policy snapshot is not mutable".toList), db) := by
    unfold Write.program ReviewRepo.setPolicySnapshot Sql.run Conn.fresh
    by_cases hc : db.reviewRuns.count p = 1
    · have hc' : (Db.reviewRunTable.get db).count p = 1 := hc
      simp only [onConn_bind, onConn_updateRows, onConn_when]
      rw [if_pos hc, if_neg (not_not.mpr hc')]
      rfl
    · have hc' : (Db.reviewRunTable.get db).count p ≠ 1 := hc
      simp only [onConn_bind, onConn_updateRows, onConn_when]
      rw [if_neg hc, if_pos hc']
      rfl
  rw [hrun] at h ⊢
  by_cases hc : db.reviewRuns.count p = 1
  · rw [if_pos hc]
    have hid : ∀ r, p r = true → Row.id r = runId := fun r hr => by
      simp only [p, Bool.and_eq_true, beq_iff_eq] at hr
      exact hr.1.1
    obtain ⟨r₀, hr₀, hp₀⟩ := (Table.count_eq_one hid).mp hc
    refine Table.forall_updated ?_ ?_ ?_
    · exact fun _ => rfl
    · exact fun r _ _ _ => rfl
    · intro r hr hp hrid
      rw [Table.eq_of_id hr hr₀ (hrid.trans (hid r₀ hp₀).symm), hp₀] at hp
      cases hp
  · rw [if_neg hc] at h
    cases h

/-! ## The end of a run that is published -/

/-- The result is not running. -/
def Reported (vrId : Nat) (db : Db) : Prop :=
  ∀ v ∈ db.vendorResults, v.id = vrId → v.status ≠ .running

section Results

variable {rows : List VendorRow} {attempt : Nat}

theorem finishVendorResult_returns {P : Db → Prop} {i vrId : Nat} {status : VendorStatus}
    {error : Option Text} {durationMs : Option Nat} {executionMeta : ExecutionEnvelope}
    (hP : ∀ d, P d → i = vrId ∨ Reported i d) :
    Returns P (fun _ => Reported i)
      (ReviewRepo.finishVendorResult vrId status error durationMs executionMeta false) := by
  refine returns_bind (R := fun _ d => status ≠ .running ∧ P d)
    (returns_when (fun _ => returns_throw _) fun hs d hd => ⟨hs, hd⟩) fun _ => ?_
  refine returns_lift_bind fun _ _ => ?_
  refine returns_bind (R := fun _ d => status ≠ .running ∧ P d)
    (returns_select fun d hd => hd) fun row => ?_
  refine returns_lift_bind fun merged _ => ?_
  refine returns_bind (returns_execute fun d hd => ?_) fun _ =>
    returns_when (fun h => by cases h) fun _ d hd => hd
  refine Table.forall_updated ?_ ?_ ?_
  · exact fun _ => rfl
  · exact fun _ _ _ _ => hd.1
  · intro v hv hp hid
    obtain rfl | hr := hP d hd.2
    · exact absurd hid (by simpa using hp)
    · exact hr v hv hid

theorem persistVendorResult_returns {P : Db → Prop} {i : Nat} {r : VendorRunResult}
    (hP : ∀ d, P d → (∀ row, rowFor rows r.vendor = .ok row → i = row.vrId) ∨ Reported i d) :
    Returns P (fun _ => Reported i) (persistVendorResult rows attempt r) := by
  refine returns_lift_bind fun row hrow => returns_lift_bind fun envelope _ => ?_
  exact finishVendorResult_returns fun d hd => (hP d hd).imp_left fun h => h row hrow

/-- A result that is not running stays so. -/
theorem persistVendorResults_keeps (i : Nat) (results : List VendorRunResult) :
    Returns (Reported i) (fun _ => Reported i) (persistVendorResults rows attempt results) := by
  induction results with
  | nil => exact returns_pure fun _ h => h
  | cons r rs ih => exact returns_bind (persistVendorResult_returns fun _ h => .inr h) fun _ => ih

/-- The results of all the vendors are stored. -/
theorem persistVendorResults_returns {results : List VendorRunResult} {r : VendorRunResult}
    (hr : r ∈ results) {row : VendorRow} (hrow : rowFor rows r.vendor = .ok row) :
    Returns (fun _ => True) (fun _ => Reported row.vrId)
      (persistVendorResults rows attempt results) := by
  induction results with
  | nil => cases hr
  | cons r' rs ih =>
    rcases List.mem_cons.mp hr with rfl | hr
    · refine returns_bind (persistVendorResult_returns fun _ _ => .inl fun row' hrow' => ?_)
        fun _ => persistVendorResults_keeps _ _
      rw [Except.ok.inj (hrow.symm.trans hrow')]
    · exact returns_bind (R := fun _ _ => True) (fun _ _ _ _ => trivial) fun _ => ih hr

end Results

section Leaves

variable {γ : Type} {g : Db → γ}

theorem persistVendorResults_leaves_of (hg : ∀ db t, g { db with vendorResults := t } = g db)
    (rows : List VendorRow) (attempt : Nat) (results : List VendorRunResult) :
    Leaves g (persistVendorResults rows attempt results) := by
  induction results with
  | nil => exact leaves_pure _
  | cons r rs ih =>
    refine leaves_bind ?_ fun _ => ih
    refine leaves_bind (leaves_lift _) fun row => leaves_bind (leaves_lift _) fun envelope => ?_
    refine leaves_bind (leaves_when fun _ => leaves_throw _) fun _ => ?_
    refine leaves_bind (leaves_lift _) fun _ => leaves_bind (leaves_select _) fun row => ?_
    refine leaves_bind (leaves_lift _) fun merged => ?_
    exact leaves_bind (leaves_execute fun db => hg db _) fun _ => leaves_when fun h => by cases h

theorem persist_leaves_of (hg : ∀ db t, g { db with findings := t } = g db) (runId : Nat)
    (items : List FindingItem) : Leaves g (persist runId items) := by
  induction items with
  | nil => exact leaves_pure _
  | cons item items ih =>
    refine leaves_bind ?_ fun _ => ih
    exact leaves_bind (leaves_execute fun db => hg db _) fun _ =>
      leaves_bind (leaves_when fun h => by cases h) fun _ => leaves_pure _

theorem finishRun_leaves_of (hg : ∀ db t, g { db with reviewRuns := t } = g db) (runId : Nat)
    (status : RunStatus) (error : Option Text) :
    Leaves g (ReviewRepo.finishRun runId status error false) :=
  leaves_bind (leaves_bind (leaves_execute fun db => hg db _) fun _ => leaves_pure _)
    fun _ => leaves_when fun h => by cases h

theorem markReviewed_leaves_of (hg : ∀ db t, g { db with pullRequests := t } = g db) (prId : Nat)
    (headSha : Sha) : Leaves g (PrRepo.markReviewed prId headSha false) :=
  leaves_bind (leaves_execute fun db => hg db _) fun _ => leaves_when fun h => by cases h

end Leaves

/-- What a run that is published has left. -/
structure Published (e : Ending) (db db' : Db) : Prop where
  alive : ∀ p, e.ownerProcessId = some p → ProcessRepo.alive db p = true
  head : actualHead e.prId db = e.headSha
  run : HasStatus e.runId .done db'
  reported : ∀ r ∈ e.results, ∀ row, rowFor e.rows r.vendor = .ok row → Reported row.vrId db'
  reviewed : ∀ pr ∈ db'.pullRequests, pr.id = e.prId →
    pr.headSha = e.headSha ∧ pr.lastReviewedSha = some e.headSha

theorem publishStatements_run (e : Ending) :
    Returns (fun _ => True) (fun _ => HasStatus e.runId .done) (publishStatements e) := by
  refine returns_bind (R := fun _ _ => True) (fun _ _ _ _ => trivial) fun _ => ?_
  refine returns_bind (R := fun _ _ => True) (fun _ _ _ _ => trivial) fun _ => ?_
  refine returns_bind (finishRun_returns _ _ _ _) fun _ => ?_
  exact (markReviewed_leaves_of (g := Db.reviewRuns) (fun _ _ => rfl) _ _).returns
    (P := fun t => ∀ r ∈ t, r.id = e.runId → r.status = .done)

theorem publishStatements_reported (e : Ending) {r : VendorRunResult} (hr : r ∈ e.results)
    {row : VendorRow} (hrow : rowFor e.rows r.vendor = .ok row) :
    Returns (fun _ => True) (fun _ => Reported row.vrId) (publishStatements e) := by
  refine returns_bind (persistVendorResults_returns hr hrow) fun _ => ?_
  have hleaves : Leaves Db.vendorResults (do
      persist e.runId e.items
      ReviewRepo.finishRun e.runId .done none false
      PrRepo.markReviewed e.prId e.headSha false) :=
    leaves_bind (persist_leaves_of (fun _ _ => rfl) _ _) fun _ =>
      leaves_bind (finishRun_leaves_of (fun _ _ => rfl) _ _ _) fun _ =>
        markReviewed_leaves_of (fun _ _ => rfl) _ _
  exact hleaves.returns (P := fun t => ∀ v ∈ t, v.id = row.vrId → v.status ≠ .running)

theorem publishStatements_reviewed (e : Ending) (prs : Table PullRequest)
    (hhead : ∀ pr ∈ prs, pr.id = e.prId → pr.headSha = e.headSha) :
    Returns (fun d => d.pullRequests = prs) (fun _ d => ∀ pr ∈ d.pullRequests, pr.id = e.prId →
      pr.headSha = e.headSha ∧ pr.lastReviewedSha = some e.headSha) (publishStatements e) := by
  refine returns_bind ((persistVendorResults_leaves_of (g := Db.pullRequests) (fun _ _ => rfl)
    _ _ _).returns (P := (· = prs))) fun _ => ?_
  refine returns_bind ((persist_leaves_of (g := Db.pullRequests) (fun _ _ => rfl) _ _).returns
    (P := (· = prs))) fun _ => ?_
  refine returns_bind ((finishRun_leaves_of (g := Db.pullRequests) (fun _ _ => rfl) _ _ _).returns
    (P := (· = prs))) fun _ => ?_
  refine returns_bind (returns_execute fun d hd => ?_) fun _ =>
    returns_when (fun h => by cases h) fun _ _ h => h
  refine Table.forall_updated ?_ ?_ ?_
  · exact fun _ => rfl
  · exact fun pr hpr _ hid => ⟨hhead pr (hd ▸ hpr) hid, rfl⟩
  · exact fun pr _ hp hid => absurd hid (by simpa using hp)

theorem assertProcessLease_ok {runId : Nat} {owner : Option ProcessId} {c c' : Conn Db}
    (h : (assertProcessLease runId owner).onConn c = (.ok (), c')) :
    c' = c ∧ ∀ p, owner = some p → ProcessRepo.alive c.working p = true := by
  cases owner with
  | none =>
    cases h
    exact ⟨rfl, fun p hp => by cases hp⟩
  | some p =>
    unfold assertProcessLease at h
    simp only [onConn_bind, onConn_select, onConn_when, onConn_throw] at h
    split at h
    · cases h
    · rename_i ha
      cases h
      exact ⟨rfl, fun q hq => by cases hq; simpa using ha⟩

theorem headSha_of_actualHead {prId : Nat} {db : Db} {pr : PullRequest} (hpr : pr ∈ db.pullRequests)
    (hid : pr.id = prId) : pr.headSha = actualHead prId db := by
  unfold actualHead
  rw [Table.get?_eq_some.mpr ⟨hpr, hid⟩]

/-- What the final transaction does: nothing, or its statements, under a live lease and at the head
of the pull request. -/
theorem publish_cases (e : Ending) (db : Db) :
    ((publish e).run db).2 = db ∧ ((publish e).run db).1 ≠ .ok none ∨
      (∀ p, e.ownerProcessId = some p → ProcessRepo.alive db p = true) ∧
        actualHead e.prId db = e.headSha ∧
        ((publish e).run db).1 = .ok none ∧
        ∃ c, (publishStatements e).onConn ⟨db, db, true⟩ = (.ok (), c) ∧
          ((publish e).run db).2 = c.working := by
  obtain ⟨r, hr⟩ := onConn_assertProcessLease e.runId e.ownerProcessId ⟨db, db, true⟩
  unfold publish Sql.run Conn.fresh
  simp only [onConn_bind, onConn_beginImmediate, onConn_tryCatch, hr]
  cases r with
  | error ex => exact .inl ⟨rfl, by simp⟩
  | ok u =>
    by_cases hhead : actualHead e.prId db ≠ e.headSha
    · simp [hhead]
    · have hin := publishStatements_inside e ⟨db, db, true⟩
      rcases hs : (publishStatements e).onConn ⟨db, db, true⟩ with ⟨ex | u', c⟩
      · rw [hs] at hin
        have hcom : c.committed = db := hin
        simp [hhead, hs, hcom]
      · refine .inr ⟨(assertProcessLease_ok hr).2, not_not.mp hhead, ?_⟩
        simp only [onConn_select, if_neg hhead, onConn_bind, hs, onConn_commit, onConn_pure]
        exact ⟨trivial, c, rfl, rfl⟩

/-- **A run is published** under a live lease, at the head of its pull request. -/
theorem publish_ok {e : Ending} {db : Db} (h : ((publish e).run db).1 = .ok none) :
    Published e db ((publish e).run db).2 := by
  obtain ⟨-, hn⟩ | ⟨halive, hhead, -, c, hc, hdb⟩ := publish_cases e db
  · exact absurd h hn
  rw [hdb]
  have of : ∀ {P : Db → Prop} {Q : Unit → Db → Prop}, Returns P Q (publishStatements e) → P db →
      Q () c.working := by
    intro P Q hret hP
    have := hret ⟨db, db, true⟩ () hP
    rw [hc] at this
    exact this rfl
  exact {
    alive := halive
    head := hhead
    run := of (publishStatements_run e) trivial
    reported := fun r hr row hrow => of (publishStatements_reported e hr hrow) trivial
    reviewed := of (publishStatements_reviewed e db.pullRequests fun pr hpr hid =>
      (headSha_of_actualHead hpr hid).trans hhead) rfl }

/-- A final transaction that found another head has stored nothing. -/
theorem publish_moved {e : Ending} {db : Db} {actual : Sha}
    (h : ((publish e).run db).1 = .ok (some actual)) : ((publish e).run db).2 = db := by
  obtain ⟨hdb, -⟩ | ⟨-, -, hn, -⟩ := publish_cases e db
  · exact hdb
  · rw [hn] at h
    cases h

end Pipeline
