import AlmightyReview.Lib.Evolve
import AlmightyReview.Lib.Returns
import AlmightyReview.Review.Batches
import AlmightyReview.Review.Op

/-!
# What a transaction of a review does

The runs, the results and the findings before and after each transaction (`Write`).

* `Write.OnRun`, `Write.OnResult`, `Write.OnFinding`: what a transaction may make of a row that is
  there; `Write.NewRun`, .. : of which rows it may add. `Touches`: it does only that.
* `exec_write`: a transaction raises and changes nothing, or returns and does only that.
* `publish_ok`, `retryPublish_ok`, ..: what else holds when a transaction returned.
-/

namespace Pipeline

open Sql FindingPolicy

/-! ## Rows -/

/-- The run is closed. -/
def Closed (status : RunStatus) (error : Option Text) (r r' : ReviewRun) : Prop :=
  ∃ now, r' = { r with
    status := status
    error := error
    finishedAt := some now }

/-- The result of a vendor is not running any more. -/
structure Finished (v v' : VendorResult) : Prop where
  runId : v'.runId = v.runId
  vendor : v'.vendor = v.vendor
  status : v'.status ≠ .running

/-- What a transaction may make of a run. -/
def Write.OnRun {β : Type} (q : Write β) (r r' : ReviewRun) : Prop :=
  r' = r ∨ match q with
  | .setBaseSha runId sha => r.id = runId ∧ r' = { r with baseSha := some sha }
  | .setContext runId text => r.id = runId ∧ r' = { r with contextText := some text }
  | .setContextChunks runId chunks => r.id = runId ∧ r' = { r with contextChunks := some chunks }
  | .setPolicySnapshot runId policy => r.id = runId ∧ r.status = .running ∧ r.policy = none ∧
    r' = { r with policy := some (FindingPolicy.policySnapshotRecord policy) }
  | .finishRun runId status error => r.id = runId ∧ Closed status error r r'
  | .storeFailed e => r.id = e.runId ∧ Closed .failed (some "all vendors failed".toList) r r'
  | .publish e => r.id = e.runId ∧ Closed .done none r r'
  | .cancelStale e => r.id = e.runId ∧ Closed .canceled (some Exc.staleHeadMessage) r r'
  | .failJobRuns jobId error => r.ownerJobId = some jobId ∧ r.status = .running ∧
    Closed .failed (some error) r r'
  | _ => False

/-- The run that a transaction may add. -/
def Write.NewRun {β : Type} (q : Write β) (r : ReviewRun) : Prop :=
  match q with
  | .createRun run => ∃ repoId now, r = ReviewRepo.newRun run.prId repoId run.headSha run.trigger
    run.effort run.mergeEnabled run.ownerProcessId run.ownerJobId none now r.id
  | _ => False

/-- What a transaction may make of the result of a vendor. -/
def Write.OnResult {β : Type} (q : Write β) (runs : Table ReviewRun) (v v' : VendorResult) :
    Prop :=
  v' = v ∨ match q with
  | .storeFailed e => v.id ∈ e.rows.map VendorRow.vrId ∧ Finished v v'
  | .publish e => v.id ∈ e.rows.map VendorRow.vrId ∧ Finished v v'
  | .cancelStale e => v.id ∈ e.rows.map VendorRow.vrId ∧ Finished v v'
  | .retryPublish _ e => v.id ∈ e.rows.map VendorRow.vrId ∧ Finished v v'
  | .failJobRuns jobId _ => v.status = .running ∧ Finished v v' ∧
    ∃ r ∈ runs, r.id = v.runId ∧ r.ownerJobId = some jobId ∧ r.status = .running
  | _ => False

/-- The result that a transaction may add. -/
def Write.NewResult {β : Type} (q : Write β) (v : VendorResult) : Prop :=
  match q with
  | .addVendorResult runId vendor => v.runId = runId ∧ v.vendor = vendor
  | _ => False

/-- What a transaction may make of a finding. -/
def Write.OnFinding {β : Type} (q : Write β) (f f' : Finding) : Prop :=
  f' = f ∨ match q with
  | .retryPublish _ e => f.runId = e.runId ∧ f'.runId = e.runId
  | _ => False

/-- The findings that a transaction may add. -/
def Write.NewFinding {β : Type} (q : Write β) (f : Finding) : Prop :=
  match q with
  | .publish e => f.runId = e.runId
  | .retryPublish _ e => f.runId = e.runId
  | _ => False

/-- A transaction does only what it may to the runs, the results and the findings. -/
structure Touches {β : Type} (q : Write β) (db db' : Db) : Prop where
  runs : db.reviewRuns.Evolves q.NewRun q.OnRun db'.reviewRuns
  results : db.vendorResults.Evolves q.NewResult (q.OnResult db.reviewRuns) db'.vendorResults
  findings : db.findings.Evolves q.NewFinding q.OnFinding db'.findings

theorem Touches.refl {β : Type} (q : Write β) (db : Db) : Touches q db db :=
  ⟨.refl (fun _ => .inl rfl) _, .refl (fun _ => .inl rfl) _, .refl (fun _ => .inl rfl) _⟩

section Statements

variable {β : Type} {q : Write β} {db₀ db : Db} {α : Type}

/-- An `UPDATE` of runs. -/
theorem touches_runs {p : Db → ReviewRun → Bool} {f : Db → ReviewRun → ReviewRun}
    {hid : ∀ db r, Row.id (f db r) = Row.id r}
    (hnew : ∀ db r, p db r = true → q.NewRun r → q.NewRun (f db r))
    (hold : ∀ db r r', p db r' = true → r.id = r'.id → q.OnRun r r' → q.OnRun r (f db r')) :
    Preserves (Touches q db₀) (updateRows Db.reviewRunTable p f hid : Sql Db Exc Nat) :=
  preserves_execute fun db h =>
    ⟨h.runs.update (hid db) (hnew db) (hold db), h.results, h.findings⟩

/-- An `UPDATE` of results. -/
theorem touches_results {p : Db → VendorResult → Bool} {f : Db → VendorResult → VendorResult}
    {hid : ∀ db v, Row.id (f db v) = Row.id v}
    (hnew : ∀ db v, p db v = true → q.NewResult v → q.NewResult (f db v))
    (hold : ∀ db v v', Touches q db₀ db → p db v' = true → v.id = v'.id →
      q.OnResult db₀.reviewRuns v v' → q.OnResult db₀.reviewRuns v (f db v')) :
    Preserves (Touches q db₀) (updateRows Db.vendorResultTable p f hid : Sql Db Exc Nat) :=
  preserves_execute fun db h =>
    ⟨h.runs, h.results.update (hid db) (hnew db) fun v v' => hold db v v' h, h.findings⟩

/-- `UPDATE review_run .. WHERE id = ?`. -/
theorem touches_updateRun {runId : Nat} {f : Db → ReviewRun → ReviewRun}
    {hid : ∀ db r, Row.id (f db r) = Row.id r} (hq : ∀ r, ¬q.NewRun r)
    (hold : ∀ db r r', r.id = runId → q.OnRun r r' → q.OnRun r (f db r')) :
    Preserves (Touches q db₀) (ReviewRepo.updateRun runId f hid) := by
  refine preserves_bind (touches_runs (fun db r _ hn => absurd hn (hq r)) ?_)
    fun _ => preserves_pure _
  intro db r r' hp hid ho
  exact hold db r r' (hid.trans (by simpa using hp)) ho

/-- The end of a vendor's part in a run. -/
theorem touches_finishVendorResult {vrId : Nat} {status : VendorStatus} {error : Option Text}
    {durationMs : Option Nat} {executionMeta : ExecutionEnvelope} (hq : ∀ v, ¬q.NewResult v)
    (hold : ∀ v v' v'', v.id = vrId → q.OnResult db₀.reviewRuns v v' → Finished v' v'' →
      q.OnResult db₀.reviewRuns v v'') :
    Preserves (Touches q db₀)
      (ReviewRepo.finishVendorResult vrId status error durationMs executionMeta false) := by
  unfold ReviewRepo.finishVendorResult
  by_cases hs : status = .running
  · rw [Sql.when, if_pos hs]
    exact preserves_throw _
  refine preserves_bind (preserves_when fun _ => preserves_throw _) fun _ => ?_
  refine preserves_bind (preserves_lift _) fun _ => ?_
  refine preserves_bind (preserves_select _) fun row => ?_
  refine preserves_bind (preserves_lift _) fun merged => ?_
  refine preserves_bind (touches_results (fun db v _ hn => absurd hn (hq v)) ?_)
    fun _ => preserves_when fun _ => preserves_commit
  intro db v v' _ hp hid ho
  exact hold v v' _ (hid.trans (by simpa using hp)) ho ⟨rfl, rfl, hs⟩

theorem rowFor_mem {rows : List VendorRow} {vendor : Text} {row : VendorRow}
    (h : rowFor rows vendor = .ok row) : row ∈ rows := by
  unfold rowFor at h
  split at h
  · rename_i found hf
    obtain rfl := Except.ok.inj h
    exact List.mem_of_find?_eq_some hf
  · cases h

theorem touches_persistVendorResults {rows : List VendorRow} {attempt : Nat}
    {results : List VendorRunResult} (hq : ∀ v, ¬q.NewResult v)
    (hold : ∀ v v' v'', v.id ∈ rows.map VendorRow.vrId → q.OnResult db₀.reviewRuns v v' →
      Finished v' v'' → q.OnResult db₀.reviewRuns v v'') :
    Preserves (Touches q db₀) (persistVendorResults rows attempt results) := by
  induction results with
  | nil => exact preserves_pure _
  | cons r rs ih =>
    refine preserves_bind ?_ fun _ => ih
    refine preserves_lift_bind fun row hrow => preserves_bind (preserves_lift _) fun envelope => ?_
    refine touches_finishVendorResult hq fun v v' v'' hid => hold v v' v'' ?_
    exact hid ▸ List.mem_map_of_mem (rowFor_mem hrow)

/-- The findings that are stored. -/
theorem touches_persist {runId : Nat} {items : List FindingItem}
    (hnew : ∀ f, f.runId = runId → q.NewFinding f) :
    Preserves (Touches q db₀) (persist runId items) := by
  induction items with
  | nil => exact preserves_pure _
  | cons item items ih =>
    refine preserves_bind ?_ fun _ => ih
    refine preserves_bind (preserves_execute fun db h => ?_) fun _ =>
      preserves_bind (preserves_when fun _ => preserves_commit) fun _ => preserves_pure _
    exact ⟨h.runs, h.results, h.findings.insert (fun _ => rfl) (hnew _ rfl)⟩

/-- An `UPDATE` of findings. -/
theorem touches_updateFindings {α : Type} {p : Db → Finding → Bool} {f : Db → Finding → Finding}
    {hf : ∀ db r, Row.id (f db r) = Row.id r} {a : Db → α}
    (hnew : ∀ db r, p db r = true → q.NewFinding r → q.NewFinding (f db r))
    (hold : ∀ db r r', p db r' = true → q.OnFinding r r' → q.OnFinding r (f db r')) :
    Preserves (Touches q db₀) (execute (fun db =>
      ({ db with findings := db.findings.update (p db) (f db) (hf db) }, a db)) :
        Sql Db Exc α) :=
  preserves_execute fun db h =>
    ⟨h.runs, h.results, h.findings.update (hf db) (hnew db) fun r r' hp _ => hold db r r' hp⟩

end Statements

/-! ## Transactions -/

theorem Finished.trans {v v' v'' : VendorResult} (h : Finished v v') (h' : Finished v' v'') :
    Finished v v'' :=
  ⟨h'.runId.trans h.runId, h'.vendor.trans h.vendor, h'.status⟩

/-- A run that was closed is closed again. -/
theorem Closed.again {s s' : RunStatus} {error error' : Option Text} {r r' r'' : ReviewRun}
    (h : r' = r ∨ Closed s error r r') (h' : Closed s' error' r' r'') : Closed s' error' r r'' := by
  obtain ⟨now, rfl⟩ := h'
  obtain rfl | ⟨now', rfl⟩ := h
  · exact ⟨now, rfl⟩
  · exact ⟨now, rfl⟩

/-- The end of a run: its results, and the row. -/
theorem touches_conclude {β : Type} {q : Write β} {db₀ : Db} (e : Ending)
    (results : List VendorRunResult) {status : RunStatus} {error : Option Text}
    (hrun : ∀ r, ¬q.NewRun r) (hresult : ∀ v, ¬q.NewResult v)
    (hold : ∀ r r', q.OnRun r r' ↔ r' = r ∨ r.id = e.runId ∧ Closed status error r r')
    (holdResult : ∀ v v', q.OnResult db₀.reviewRuns v v' ↔
      v' = v ∨ v.id ∈ e.rows.map VendorRow.vrId ∧ Finished v v') :
    Preserves (Touches q db₀) (persistVendorResults e.rows 1 results) ∧
      Preserves (Touches q db₀) (ReviewRepo.finishRun e.runId status error false) := by
  constructor
  · refine touches_persistVendorResults hresult fun v v' v'' hid ho hf => ?_
    rw [holdResult] at ho ⊢
    obtain rfl | ⟨-, ho⟩ := ho
    · exact .inr ⟨hid, hf⟩
    · exact .inr ⟨hid, ho.trans hf⟩
  · refine preserves_bind (touches_updateRun hrun fun db r r' hid ho => ?_) fun _ =>
      preserves_when fun _ => preserves_commit
    rw [hold] at ho ⊢
    exact .inr ⟨hid, Closed.again (ho.imp_right And.right) ⟨db.now, rfl⟩⟩

/-- The updates of a job that timed out. -/
theorem touches_failJobRuns {db₀ : Db} (jobId : Nat) (error : Text) :
    Preserves (Touches (.failJobRuns jobId error) db₀) (failJobRuns jobId error) := by
  refine preserves_bind (touches_results (fun _ _ _ hn => hn.elim) ?_) fun _ => ?_
  · intro db v v' h hp hid ho
    simp only [Bool.and_eq_true, beq_iff_eq, List.any_eq_true] at hp
    obtain ⟨hv, r', hr', hrun, hjob, hstatus⟩ := hp
    obtain rfl | ⟨-, ho, -⟩ := ho
    · refine .inr ⟨hv, ⟨rfl, rfl, by simp⟩, ?_⟩
      -- a run that is still running was so before
      obtain ⟨-, hn⟩ | ⟨r, hr, -, ho⟩ := h.runs.rows r' hr'
      · exact hn.elim
      · obtain rfl | ⟨-, -, now, rfl⟩ := ho
        · exact ⟨r', hr, hrun, hjob, hstatus⟩
        · cases hstatus
    · exact absurd hv ho.status
  · refine preserves_bind (touches_runs (fun _ _ _ hn => hn.elim) ?_) fun _ => preserves_commit
    intro db r r' hp hid ho
    simp only [Bool.and_eq_true, beq_iff_eq] at hp
    obtain rfl | ⟨-, -, now, rfl⟩ := ho
    · exact .inr ⟨hp.1, hp.2, db.now, rfl⟩
    · cases hp.2

/-- What is said of the runs, the results and the findings. -/
def OfReviews (I : Db → Prop) : Prop :=
  ∀ db db' : Db, db'.reviewRuns = db.reviewRuns → db'.vendorResults = db.vendorResults →
    db'.findings = db.findings → I db → I db'

theorem Touches.ofReviews {β : Type} (q : Write β) (db₀ : Db) : OfReviews (Touches q db₀) :=
  fun _ _ hr hv hf h => ⟨hr ▸ h.runs, hv ▸ h.results, hf ▸ h.findings⟩

section Queue

variable {I : Db → Prop} (hI : OfReviews I)

include hI

theorem ofReviews_updateJobs {p : Db → ReviewJob → Bool} {f : Db → ReviewJob → ReviewJob}
    {hf : ∀ db r, Row.id (f db r) = Row.id r} :
    Preserves I (updateRows Db.reviewJobTable p f hf : Sql Db Exc Nat) :=
  preserves_execute fun db => hI db _ rfl rfl rfl

theorem ofReviews_insertJob (prId : Nat) (headSha : Sha) (trigger : Trigger) (priority : Int)
    (retryRunId : Option Nat) :
    Preserves I (JobRepo.insertJob prId headSha trigger priority retryRunId) := by
  refine preserves_execute fun db h => ?_
  split
  · exact h
  · exact hI db _ rfl rfl rfl h

theorem ofReviews_claimNext (workerId : Text) (owner : Option ProcessId) (locked : Bool) :
    Preserves I (JobRepo.claimNext workerId owner locked) := by
  refine preserves_ite (fun _ => preserves_pure _) fun _ => ?_
  refine preserves_bind preserves_beginImmediate fun _ => ?_
  refine preserves_bind (preserves_select _) fun row => ?_
  split
  · exact preserves_bind preserves_rollback fun _ => preserves_pure _
  · exact preserves_bind (ofReviews_updateJobs hI) fun _ =>
      preserves_bind preserves_commit fun _ => preserves_select _

theorem ofReviews_markDone (jobId runId : Nat) (owner : Option ProcessId) :
    Preserves I (JobRepo.markDone jobId runId owner) :=
  preserves_bind (ofReviews_updateJobs hI) fun _ =>
    preserves_bind (preserves_when fun _ => preserves_throw _) fun _ => preserves_commit

theorem ofReviews_markCanceled (jobId : Nat) (error : Text) (owner : Option ProcessId) :
    Preserves I (JobRepo.markCanceled jobId error owner) :=
  preserves_bind (ofReviews_updateJobs hI) fun _ =>
    preserves_bind (preserves_when fun _ => preserves_throw _) fun _ => preserves_commit

theorem ofReviews_markFailed (jobId : Nat) (error : Text) (retry : Bool) (runId : Option Nat)
    (owner : Option ProcessId) :
    Preserves I (JobRepo.markFailed jobId error retry runId owner) := by
  refine preserves_bind (preserves_select _) fun row => ?_
  split
  · exact preserves_throw _
  · refine preserves_bind (preserves_when fun _ => preserves_throw _) fun _ => ?_
    exact preserves_bind (preserves_ite (fun _ => ofReviews_updateJobs hI)
      fun _ => ofReviews_updateJobs hI) fun _ => preserves_commit

theorem ofReviews_cancelStaleAndEnqueueLatest (jobId : Nat) (owner : Option ProcessId) :
    Preserves I (JobRepo.cancelStaleAndEnqueueLatest jobId owner) := by
  refine preserves_tryCatch ?_ fun e => preserves_bind preserves_rollback fun _ =>
    preserves_throw e
  refine preserves_bind preserves_beginImmediate fun _ => ?_
  refine preserves_bind (preserves_select _) fun job => ?_
  split
  · exact preserves_bind preserves_rollback fun _ => preserves_pure _
  refine preserves_bind (preserves_select _) fun pr => ?_
  refine preserves_bind (ofReviews_updateJobs hI) fun _ => ?_
  split
  · exact preserves_bind preserves_commit fun _ => preserves_pure _
  refine preserves_bind (ofReviews_insertJob hI _ _ _ _ _) fun _ => ?_
  refine preserves_bind (preserves_select _) fun found => ?_
  have hrow : Preserves I (JobRepo.rowOf found) := by
    cases found
    · exact preserves_throw _
    · exact preserves_pure _
  refine preserves_bind hrow fun latest => ?_
  refine preserves_bind (preserves_when fun _ => ?_) fun _ =>
    preserves_bind preserves_commit fun _ => preserves_pure _
  exact preserves_bind (ofReviews_updateJobs hI) fun _ => preserves_pure _

theorem ofReviews_markReviewed (prId : Nat) (headSha : Sha) (commit : Bool) :
    Preserves I (PrRepo.markReviewed prId headSha commit) :=
  preserves_bind (preserves_execute fun db => hI db _ rfl rfl rfl) fun _ =>
    preserves_when fun _ => preserves_commit

omit hI in
theorem preserves_assertProcessLease (runId : Nat) (owner : Option ProcessId) :
    Preserves I (assertProcessLease runId owner) := by
  cases owner with
  | none => exact preserves_pure _
  | some p =>
    exact preserves_bind (preserves_select _) fun _ => preserves_when fun _ => preserves_throw _

end Queue

theorem touches_publish {db₀ : Db} (e : Ending) :
    Preserves (Touches (.publish e) db₀) (publish e) := by
  have hend := @touches_conclude _ (.publish e) db₀ e e.results _ _ (fun _ hn => hn)
    (fun _ hn => hn) (fun _ _ => Iff.rfl) fun _ _ => Iff.rfl
  refine preserves_bind preserves_beginImmediate fun _ => preserves_tryCatch ?_
    fun ex => preserves_bind preserves_rollback fun _ => preserves_throw ex
  refine preserves_bind (preserves_assertProcessLease _ _) fun _ => ?_
  refine preserves_bind (preserves_select _) fun actual => preserves_ite (fun _ => ?_) fun _ => ?_
  · exact preserves_bind preserves_rollback fun _ => preserves_pure _
  refine preserves_bind ?_ fun _ => preserves_bind preserves_commit fun _ => preserves_pure _
  refine preserves_bind hend.1 fun _ => ?_
  refine preserves_bind (touches_persist fun f hf => hf) fun _ => ?_
  exact preserves_bind hend.2 fun _ => ofReviews_markReviewed (Touches.ofReviews _ _) _ _ _

theorem groupStored_runId (canonicalClaim : Text → Text) (mode : Text)
    (groups : List (DuplicateKey × Option Nat)) (db : Db) (f : Finding) :
    (groupStored canonicalClaim mode groups db f).runId = f.runId := by
  unfold groupStored
  split <;> rfl

theorem retag_runId (merged : List (Merged Finding)) (f : Finding) :
    (retag merged f).runId = f.runId := by
  unfold retag
  split <;> rfl

theorem touches_retryPublish {db₀ : Db} (canonicalClaim : Text → Text) (e : RetryEnding) :
    Preserves (Touches (.retryPublish canonicalClaim e) db₀) (retryPublish canonicalClaim e) := by
  -- an `UPDATE` of the findings of the run that keeps their run
  have hupdate : ∀ {α : Type} {f : Db → Finding → Finding}
      {hf : ∀ db r, Row.id (f db r) = Row.id r} {a : Db → α},
      (∀ db r, (f db r).runId = r.runId) →
        Preserves (Touches (.retryPublish canonicalClaim e) db₀) (execute fun db =>
          ({ db with findings := db.findings.update (·.runId == e.runId) (f db) (hf db) }, a db) :
            Sql Db Exc α) := by
    intro α f hf a hrun
    refine touches_updateFindings (fun db r hp _ => ?_) fun db r r' hp ho => ?_
    · exact (hrun db r).trans (by simpa using hp)
    · have hp : r'.runId = e.runId := by simpa using hp
      refine .inr ⟨?_, (hrun db r').trans hp⟩
      obtain rfl | ⟨ho, -⟩ := ho
      · exact hp
      · exact ho
  refine preserves_transaction ?_
  refine preserves_bind (preserves_assertProcessLease _ _) fun _ => ?_
  refine preserves_bind (preserves_bind (preserves_select _) fun _ =>
    preserves_when fun _ => preserves_throw _) fun _ => ?_
  refine preserves_bind (hupdate fun db f => groupStored_runId _ _ _ db f) fun results => ?_
  refine preserves_bind (preserves_lift _) fun findings => ?_
  refine preserves_bind (preserves_select _) fun attempt => ?_
  refine preserves_bind (touches_persistVendorResults (fun _ hn => hn) ?_) fun _ => ?_
  · intro v v' v'' hid ho hf
    obtain rfl | ⟨-, ho⟩ := ho
    · exact .inr ⟨hid, hf⟩
    · exact .inr ⟨hid, ho.trans hf⟩
  refine preserves_bind (touches_persist fun f hf => hf) fun _ => ?_
  exact preserves_when fun _ => hupdate fun db f => retag_runId _ f

/-- **Every transaction** does only what it may. -/
theorem write_touches {β : Type} (q : Write β) (db₀ : Db) :
    Preserves (Touches q db₀) q.program := by
  have hof := Touches.ofReviews q db₀
  cases q with
  | createRun run =>
    refine preserves_bind (preserves_execute fun db h => ?_) fun _ =>
      preserves_bind preserves_commit fun _ => preserves_pure _
    exact ⟨h.runs.insert (fun _ => rfl) ⟨_, _, rfl⟩, h.results, h.findings⟩
  | setBaseSha runId sha =>
    refine preserves_bind (touches_updateRun (fun _ hn => hn) fun db r r' hid ho => ?_)
      fun _ => preserves_commit
    obtain rfl | ⟨-, rfl⟩ := ho
    · exact .inr ⟨hid, rfl⟩
    · exact .inr ⟨hid, rfl⟩
  | finishRun runId status error =>
    refine preserves_bind (touches_updateRun (fun _ hn => hn) fun db r r' hid ho => ?_)
      fun _ => preserves_when fun _ => preserves_commit
    exact .inr ⟨hid, Closed.again (ho.imp_right And.right) ⟨db.now, rfl⟩⟩
  | markReviewed prId sha => exact ofReviews_markReviewed hof _ _ _
  | setContext runId text =>
    refine preserves_bind (touches_updateRun (fun _ hn => hn) fun db r r' hid ho => ?_)
      fun _ => preserves_commit
    obtain rfl | ⟨-, rfl⟩ := ho
    · exact .inr ⟨hid, rfl⟩
    · exact .inr ⟨hid, rfl⟩
  | setContextChunks runId chunks =>
    refine preserves_bind (preserves_lift _) fun _ => ?_
    refine preserves_bind (touches_updateRun (fun _ hn => hn) fun db r r' hid ho => ?_)
      fun _ => preserves_commit
    obtain rfl | ⟨-, rfl⟩ := ho
    · exact .inr ⟨hid, rfl⟩
    · exact .inr ⟨hid, rfl⟩
  | setPolicySnapshot runId policy =>
    refine preserves_bind (touches_runs (fun _ _ _ hn => hn.elim) ?_) fun _ =>
      preserves_bind (preserves_when fun _ => preserves_throw _) fun _ =>
        preserves_when fun _ => preserves_commit
    intro db r r' hp hid ho
    simp only [Bool.and_eq_true, beq_iff_eq, Option.isNone_iff_eq_none] at hp
    obtain rfl | ⟨-, -, -, rfl⟩ := ho
    · exact .inr ⟨hp.1.1, hp.1.2, hp.2, rfl⟩
    · cases hp.2
  | addVendorResult runId vendor =>
    refine preserves_bind (preserves_execute fun db h => ?_) fun _ =>
      preserves_bind preserves_commit fun _ => preserves_pure _
    exact ⟨h.runs, h.results.insert (fun _ => rfl) ⟨rfl, rfl⟩, h.findings⟩
  | storeFailed e =>
    have hend := @touches_conclude _ (.storeFailed e) db₀ e e.results _ _ (fun _ hn => hn)
      (fun _ hn => hn) (fun _ _ => Iff.rfl) fun _ _ => Iff.rfl
    exact preserves_transaction (preserves_bind hend.1 fun _ => hend.2)
  | publish e => exact touches_publish e
  | cancelStale e =>
    have hend := @touches_conclude _ (.cancelStale e) db₀ e
      (e.results.map fun r => { r with status := .canceled }) _ _ (fun _ hn => hn) (fun _ hn => hn)
      (fun _ _ => Iff.rfl) fun _ _ => Iff.rfl
    exact preserves_transaction (preserves_bind hend.1 fun _ => hend.2)
  | retryPublish canonicalClaim e => exact touches_retryPublish canonicalClaim e
  | claimNext workerId owner => exact ofReviews_claimNext hof _ _ _
  | markDone jobId runId owner => exact ofReviews_markDone hof _ _ _
  | markCanceled jobId error owner => exact ofReviews_markCanceled hof _ _ _
  | markFailed jobId error retry runId owner => exact ofReviews_markFailed hof _ _ _ _ _
  | cancelStaleAndEnqueueLatest jobId owner =>
    exact ofReviews_cancelStaleAndEnqueueLatest hof _ _
  | failJobRuns jobId error => exact touches_failJobRuns jobId error

end Pipeline
