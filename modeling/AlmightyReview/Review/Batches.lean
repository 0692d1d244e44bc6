import AlmightyReview.Lib.Fault
import AlmightyReview.Review.Grouping

/-!
# What the transactions of a review do to the findings

The end of a run stores its findings, and the end of a retry stores more of them after those that
are stored have joined their groups.

* `persisted`: the table after `_persist`.
* `regrouped`, `newInGroups`: the stored and the new findings of a retry, in their groups.
* `publish_findings`, `retryPublish_findings`: a transaction does this or nothing.
-/

namespace Pipeline

open Sql FindingPolicy

/-! ## The findings that a transaction stores -/

/-- The table after `_persist`. -/
def persisted (runId : Nat) (now : Time) : List FindingItem → Table Finding → Table Finding
  | [], t => t
  | item :: items, t =>
    persisted runId now items (t.insert fun id => FindingRepo.newFinding runId item now id)

theorem onConn_persist (runId : Nat) (items : List FindingItem) (c : Conn Db) :
    ∃ t, (persist runId items).onConn c = (.ok (), ⟨c.committed,
      { c.working with
        findings := persisted runId c.working.now items c.working.findings }, t⟩) := by
  induction items generalizing c with
  | nil => exact ⟨c.inTransaction, rfl⟩
  | cons item items ih =>
    obtain ⟨t, ht⟩ := ih ⟨c.committed, { c.working with
      findings := c.working.findings.insert fun id =>
        FindingRepo.newFinding runId item c.working.now id }, true⟩
    refine ⟨t, ?_⟩
    unfold persist FindingRepo.add
    simp only [onConn_bind, onConn_insertInto, onConn_when, onConn_pure, Bool.false_eq_true,
      if_false]
    exact ht

/-- The part of the database that only `_persist` and the groups of a retry change. -/
def findingsNow (db : Db) : Table Finding × Time := (db.findings, db.now)

theorem finishVendorResult_leaves (vrId : Nat) (status : VendorStatus) (error : Option Text)
    (durationMs : Option Nat) (executionMeta : ExecutionEnvelope) :
    Leaves findingsNow
      (ReviewRepo.finishVendorResult vrId status error durationMs executionMeta false) ∧
    (ReviewRepo.finishVendorResult vrId status error durationMs executionMeta false).Inside := by
  constructor
  · refine leaves_bind (leaves_when fun _ => leaves_throw _) fun _ => ?_
    refine leaves_bind (leaves_lift _) fun _ => ?_
    refine leaves_bind (leaves_select _) fun row => ?_
    refine leaves_bind (leaves_lift _) fun merged => ?_
    refine leaves_bind (leaves_execute fun _ => rfl) fun _ => ?_
    exact leaves_when fun h => by cases h
  · refine inside_bind (inside_when fun _ => inside_throw _) fun _ => ?_
    refine inside_bind (inside_lift _) fun _ => ?_
    refine inside_bind (inside_select _) fun row => ?_
    refine inside_bind (inside_lift _) fun merged => ?_
    refine inside_bind (inside_execute _) fun _ => ?_
    exact inside_when fun h => by cases h

theorem persistVendorResults_leaves (rows : List VendorRow) (attempt : Nat)
    (results : List VendorRunResult) :
    Leaves findingsNow (persistVendorResults rows attempt results) ∧
      (persistVendorResults rows attempt results).Inside := by
  induction results with
  | nil => exact ⟨leaves_pure _, inside_pure _⟩
  | cons r rs ih =>
    constructor
    · refine leaves_bind ?_ fun _ => ih.1
      refine leaves_bind (leaves_lift _) fun row => leaves_bind (leaves_lift _) fun envelope => ?_
      exact (finishVendorResult_leaves ..).1
    · refine inside_bind ?_ fun _ => ih.2
      refine inside_bind (inside_lift _) fun row => inside_bind (inside_lift _) fun envelope => ?_
      exact (finishVendorResult_leaves ..).2

theorem persist_inside (runId : Nat) (items : List FindingItem) : (persist runId items).Inside := by
  intro c
  obtain ⟨t, ht⟩ := onConn_persist runId items c
  rw [ht]

theorem onConn_assertProcessLease (runId : Nat) (owner : Option ProcessId) (c : Conn Db) :
    ∃ r, (assertProcessLease runId owner).onConn c = (r, c) := by
  cases owner with
  | none => exact ⟨.ok (), rfl⟩
  | some p =>
    unfold assertProcessLease
    simp only [onConn_bind, onConn_select, onConn_when, onConn_throw]
    split
    · exact ⟨_, rfl⟩
    · exact ⟨_, rfl⟩

theorem onConn_assertCurrentHead (runId prId : Nat) (headSha : Sha) (c : Conn Db) :
    ∃ r, (assertCurrentHead runId prId headSha).onConn c = (r, c) := by
  unfold assertCurrentHead
  simp only [onConn_bind, onConn_select, onConn_when, onConn_throw]
  split
  · exact ⟨_, rfl⟩
  · exact ⟨_, rfl⟩

theorem publishStatements_inside (e : Ending) : (publishStatements e).Inside := by
  refine inside_bind (persistVendorResults_leaves ..).2 fun _ => ?_
  refine inside_bind (persist_inside e.runId e.items) fun _ => ?_
  refine inside_bind ?_ fun _ => ?_
  · refine inside_bind ?_ fun _ => inside_when fun h => by cases h
    exact inside_bind (inside_execute _) fun _ => inside_pure _
  · exact inside_bind (inside_execute _) fun _ => inside_when fun h => by cases h

/-- The statements of a final transaction store the items. -/
theorem onConn_publishStatements {e : Ending} {c c' : Conn Db}
    (h : (publishStatements e).onConn c = (.ok (), c')) :
    c'.working.findings = persisted e.runId c.working.now e.items c.working.findings := by
  have hleave := (persistVendorResults_leaves e.rows 1 e.results).1 c
  unfold publishStatements at h
  rw [onConn_bind] at h
  rcases hr : (persistVendorResults e.rows 1 e.results).onConn c with ⟨e' | u, c₁⟩
  · rw [hr] at h
    cases h
  · rw [hr] at h hleave
    obtain ⟨t, ht⟩ := onConn_persist e.runId e.items c₁
    have hnow := congrArg Prod.snd hleave
    have hfind := congrArg Prod.fst hleave
    simp only [findingsNow] at hnow hfind
    simp only [onConn_bind, ht] at h
    have hrest : Leaves Db.findings (do
        ReviewRepo.finishRun e.runId .done none false
        PrRepo.markReviewed e.prId e.headSha false) := by
      refine leaves_bind ?_ fun _ => ?_
      · refine leaves_bind ?_ fun _ => leaves_when fun h => by cases h
        exact leaves_bind (leaves_execute fun _ => rfl) fun _ => leaves_pure _
      · exact leaves_bind (leaves_execute fun _ => rfl) fun _ => leaves_when fun h => by cases h
    have hend := hrest ⟨c₁.committed, { c₁.working with
      findings := persisted e.runId c₁.working.now e.items c₁.working.findings }, t⟩
    rw [onConn_bind] at hend
    rw [h] at hend
    rw [← hnow, ← hfind]
    exact hend

/-- **A final transaction** stores the items, or leaves the findings as they are. -/
theorem publish_findings (e : Ending) (db : Db) :
    ((publish e).run db).2.findings = db.findings ∨
      ((publish e).run db).2.findings = persisted e.runId db.now e.items db.findings := by
  obtain ⟨r, hr⟩ := onConn_assertProcessLease e.runId e.ownerProcessId ⟨db, db, true⟩
  unfold publish Sql.run Conn.fresh
  simp only [onConn_bind, onConn_beginImmediate, onConn_tryCatch, hr]
  cases r with
  | error ex => exact .inl rfl
  | ok u =>
    by_cases hhead : actualHead e.prId db ≠ e.headSha
    · simp [hhead]
    · have hin := publishStatements_inside e ⟨db, db, true⟩
      rcases hs : (publishStatements e).onConn ⟨db, db, true⟩ with ⟨ex | u', c⟩
      · rw [hs] at hin
        have hcom : c.committed = db := hin
        simp [hhead, hs, hcom]
      · have hstored := onConn_publishStatements hs
        simp only [onConn_select, if_neg hhead, onConn_bind, hs, onConn_commit, onConn_pure]
        exact .inr hstored

section RetryPublish

variable (canonicalClaim : Text → Text) (e : RetryEnding) (db : Db)

/-- The keys of the new findings. -/
def newKeys : List DuplicateKey := (findingsOf e.results).map (duplicateKey canonicalClaim)

/-- The groups of the keys of the new findings. -/
def newGroups : List (DuplicateKey × Option Nat) :=
  retryGroups canonicalClaim e.runId db (newKeys canonicalClaim e)
    (newKeys canonicalClaim e).reverse.dedup.reverse (lastGroup e.runId db)

/-- The stored findings after the new ones have joined their groups. -/
def regrouped : Table Finding :=
  db.findings.update (·.runId == e.runId)
    (groupStored canonicalClaim e.dedupeMode (newGroups canonicalClaim e db) db)
    fun f => groupStored_id canonicalClaim e.dedupeMode (newGroups canonicalClaim e db) db f

/-- The new findings in their groups. -/
def newInGroups : List ReviewFinding :=
  withEarlier (duplicateKey canonicalClaim)
    (groupNext canonicalClaim e.runId e.dedupeMode (newGroups canonicalClaim e db) db) []
    (findingsOf e.results)

/-- The items of `_persist` at the end of a retry. -/
def retryItems (findings : List ReviewFinding) : List FindingItem :=
  findings.map fun f => ⟨f.vendorResultId, f, .single, none⟩

theorem onConn_groupRetryDuplicates (c : Conn Db) :
    (groupRetryDuplicates canonicalClaim e.runId e.dedupeMode e.results).onConn c =
      (.ok (groupNewResults canonicalClaim e.runId e.dedupeMode
          (newGroups canonicalClaim e c.working) c.working [] e.results),
        ⟨c.committed, { c.working with findings := regrouped canonicalClaim e c.working }, true⟩) :=
  rfl

/-- The statements of the end of a retry after its findings are in groups. -/
def retryStatements (results : List VendorRunResult) : Sql Db Exc Unit := do
  let findings ← lift (preparedFindings e.rows results)
  let attempt ← select (ReviewRepo.nextExecutionAttempt (e.rows.map (·.vrId)))
  persistVendorResults e.rows attempt results
  persist e.runId (retryItems findings)
  when e.mergeEnabled (retagConsensus e.runId)

theorem retryStatements_inside (results : List VendorRunResult) :
    (retryStatements e results).Inside := by
  refine inside_bind (inside_lift _) fun findings => ?_
  refine inside_bind (inside_select _) fun attempt => ?_
  refine inside_bind (persistVendorResults_leaves ..).2 fun _ => ?_
  refine inside_bind (persist_inside e.runId (retryItems findings)) fun _ => ?_
  exact inside_when fun _ => inside_execute _

/-- What the statements after the groups store. -/
theorem onConn_retryStatements {results : List VendorRunResult} {c c' : Conn Db}
    (h : (retryStatements e results).onConn c = (.ok (), c')) :
    ∃ findings, preparedFindings e.rows results = .ok findings ∧
      (c'.working.findings =
          persisted e.runId c.working.now (retryItems findings) c.working.findings ∨
        ∃ merged, c'.working.findings =
          (persisted e.runId c.working.now (retryItems findings) c.working.findings).update
            (·.runId == e.runId) (retag merged) (retag_id merged)) := by
  unfold retryStatements at h
  simp only [onConn_bind, onConn_lift] at h
  cases hp : preparedFindings e.rows results with
  | error ex =>
    rw [hp] at h
    cases h
  | ok findings =>
    rw [hp] at h
    refine ⟨findings, rfl, ?_⟩
    simp only [onConn_bind, onConn_select] at h
    have hleave := (persistVendorResults_leaves e.rows
      (ReviewRepo.nextExecutionAttempt (e.rows.map (·.vrId)) c.working) results).1 c
    rcases hr : (persistVendorResults e.rows
      (ReviewRepo.nextExecutionAttempt (e.rows.map (·.vrId)) c.working) results).onConn c with
      ⟨ex | u, c₁⟩
    · rw [hr] at h
      cases h
    · rw [hr] at h hleave
      obtain ⟨t, ht⟩ := onConn_persist e.runId (retryItems findings) c₁
      have hnow := congrArg Prod.snd hleave
      have hfind := congrArg Prod.fst hleave
      simp only [findingsNow] at hnow hfind
      simp only [onConn_bind, ht, onConn_when] at h
      rw [← hnow, ← hfind]
      split at h
      · have hc' : _ = c' := congrArg Prod.snd h
        rw [← hc']
        exact .inr ⟨_, rfl⟩
      · have hc' : _ = c' := congrArg Prod.snd h
        rw [← hc']
        exact .inl rfl

/-- **The end of a retry** changes the groups and stores the new findings, or leaves everything as
it is. -/
theorem retryPublish_findings :
    ((retryPublish canonicalClaim e).run db).2 = db ∨
      ∃ findings t, preparedFindings e.rows (groupNewResults canonicalClaim e.runId e.dedupeMode
          (newGroups canonicalClaim e db) db [] e.results) = .ok findings ∧
        t = persisted e.runId db.now (retryItems findings) (regrouped canonicalClaim e db) ∧
        (((retryPublish canonicalClaim e).run db).2.findings = t ∨
          ∃ merged, ((retryPublish canonicalClaim e).run db).2.findings =
            t.update (·.runId == e.runId) (retag merged) (retag_id merged)) := by
  let body : Sql Db Exc Unit := do
    assertProcessLease e.runId e.ownerProcessId
    assertCurrentHead e.runId e.prId e.headSha
    let results ← groupRetryDuplicates canonicalClaim e.runId e.dedupeMode e.results
    retryStatements e results
  have hbody : retryPublish canonicalClaim e = transaction body := rfl
  obtain ⟨r, hr⟩ := onConn_assertProcessLease e.runId e.ownerProcessId ⟨db, db, true⟩
  obtain ⟨r', hr'⟩ := onConn_assertCurrentHead e.runId e.prId e.headSha ⟨db, db, true⟩
  have hinside : body.Inside := by
    refine inside_bind (fun c => ?_) fun _ => inside_bind (fun c => ?_) fun _ => ?_
    · obtain ⟨r, hr⟩ := onConn_assertProcessLease e.runId e.ownerProcessId c
      rw [hr]
    · obtain ⟨r, hr⟩ := onConn_assertCurrentHead e.runId e.prId e.headSha c
      rw [hr]
    · exact inside_bind (inside_execute _) fun results => retryStatements_inside e results
  rw [hbody, run_transaction hinside]
  rcases hrun : body.onConn ⟨db, db, true⟩ with ⟨ex | u, c⟩
  · exact .inl rfl
  · simp only [body, onConn_bind, hr] at hrun
    cases r with
    | error ex => cases hrun
    | ok u₁ =>
      simp only [hr'] at hrun
      cases r' with
      | error ex => cases hrun
      | ok u₂ =>
        simp only [onConn_groupRetryDuplicates] at hrun
        obtain ⟨findings, hfindings, hstored⟩ := onConn_retryStatements e hrun
        exact .inr ⟨findings, _, hfindings, rfl, hstored⟩

end RetryPublish

end Pipeline
