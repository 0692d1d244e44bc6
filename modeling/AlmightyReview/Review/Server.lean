import AlmightyReview.Delete.Remove
import AlmightyReview.Post.Api
import AlmightyReview.Review.Effect
import AlmightyReview.Review.Lane

/-!
# The server and its reviews

The lanes of all the processes of the server on one database, as a pool of programs.

* `machine`: what an operation does, and `Elsewhere`: what everything else that works on the
  database does to the runs, the results and the findings. The other tables may change in any way.
* `reviews`: the system. A lane may start at any time, and a program that is never scheduled again
  has crashed.
* The programs that are modelled elsewhere do only what `Elsewhere` allows.
-/

namespace Pipeline

open Sql

/-! ## What happens elsewhere -/

/-- What becomes of a run outside its execution: its contexts expire, and a run that is left running
fails. -/
structure Elapses (r r' : ReviewRun) : Prop where
  same : { r' with
    status := r.status
    error := r.error
    finishedAt := r.finishedAt
    contextText := r.contextText
    contextChunks := r.contextChunks } = r
  closed : r'.status = r.status ∧ r'.error = r.error ∧ r'.finishedAt = r.finishedAt ∨
    r.status = .running ∧ r'.status = .failed

/-- What becomes of a result outside the executions. -/
structure ResultElapses (v v' : VendorResult) : Prop where
  runId : v'.runId = v.runId
  vendor : v'.vendor = v.vendor
  status : v'.status = v.status ∨ v.status = .running ∧ v'.status = .failed

theorem Elapses.refl (r : ReviewRun) : Elapses r r := ⟨rfl, .inl ⟨rfl, rfl, rfl⟩⟩

theorem ResultElapses.refl (v : VendorResult) : ResultElapses v v := ⟨rfl, rfl, .inl rfl⟩

/-- A run that is left running fails. -/
theorem Elapses.fail {r r' : ReviewRun} (h : Elapses r r') (hs : r'.status = .running)
    (error : Option Text) (now : Option Time) :
    Elapses r { r' with
      status := .failed
      error := error
      finishedAt := now } := by
  refine ⟨h.same, .inr ⟨?_, rfl⟩⟩
  obtain ⟨he, -⟩ | ⟨he, -⟩ := h.closed
  · exact he ▸ hs
  · exact he

theorem ResultElapses.fail {v v' : VendorResult} (h : ResultElapses v v')
    (hs : v'.status = .running) (error : Option Text) :
    ResultElapses v { v' with
      status := .failed
      error := error } := by
  refine ⟨h.runId, h.vendor, .inr ⟨?_, rfl⟩⟩
  obtain he | ⟨he, -⟩ := h.status
  · exact he ▸ hs
  · exact he

/-- What happens elsewhere. -/
structure Elsewhere (db db' : Db) : Prop where
  runs : db.reviewRuns.Fades Elapses db'.reviewRuns
  results : db.vendorResults.Fades ResultElapses db'.vendorResults
  findings : db.findings.Fades (fun f f' => f'.runId = f.runId) db'.findings

theorem Elsewhere.refl (db : Db) : Elsewhere db db :=
  ⟨.refl Elapses.refl _, .refl ResultElapses.refl _,
    ⟨Nat.le_refl _, fun f hf => ⟨f, hf, rfl, rfl⟩⟩⟩

theorem Elsewhere.ofReviews (db₀ : Db) : OfReviews (Elsewhere db₀) :=
  fun _ _ hr hv hf h => ⟨hr ▸ h.runs, hv ▸ h.results, hf ▸ h.findings⟩

/-! ## The system -/

def machine : Machine Op Exc Db Unit where
  exec _ o db r db' := Op.Exec o db r db'
  outside _ db db' := Elsewhere db db'

/-- A lane begins with its next job. -/
def Starts (_ : Db) (g : Execution) (p : Review Bool) : Prop :=
  ∃ lane : Lane, g = { owner := lane.ownerProcessId } ∧ p = runOneJob lane

/-- The reviews of the server, from the database after `init_schema` on. -/
def reviews : Sys (Pool Op Exc Db Execution Bool) (Pool.Event Unit) :=
  Pool.system machine contract Starts fun db => ∃ now, db = Db.empty now

theorem starts_obeys (db : Db) (g : Execution) (p : Review Bool) (h : Starts db g p) :
    Prog.Obeys contract (fun _ _ => True) g p := by
  obtain ⟨lane, rfl, rfl⟩ := h
  exact runOneJob_obeys lane

/-! ## Programs elsewhere -/

/-- `cleanup_context_payloads`: the contexts of runs that ended before the last days expire. -/
def cleanupContextPayloads (retentionDays : Nat) : Sql Db Exc Nat := do
  let rowcount ← updateRows Db.reviewRunTable
    (fun db r => r.status != .running &&
      (match r.finishedAt with
        | none => false
        | some t => t + retentionDays * 86400 < db.now) &&
      (r.contextText.isSome || r.contextChunks.isSome))
    (fun _ r => { r with
      contextText := none
      contextChunks := none })
  commit
  pure rowcount

section Programs

variable {db₀ : Db}

theorem elsewhere_findings {p : Db → Finding → Bool} {f : Db → Finding → Finding}
    {hf : ∀ db r, Row.id (f db r) = Row.id r} (h : ∀ db r, (f db r).runId = r.runId) :
    Preserves (Elsewhere db₀) (updateRows Db.findingTable p f hf : Sql Db Exc Nat) :=
  preserves_execute fun db he =>
    ⟨he.runs, he.results, he.findings.update (hf db) fun _ r' _ _ ho => (h db r').trans ho⟩

/-- The runs that fail are those that are running. -/
theorem failRuns_elsewhere {runIds : List Nat} {c : Conn Db} (hc : Elsewhere db₀ c.committed)
    (hw : Elsewhere db₀ c.working)
    (hrunning : ∀ r ∈ c.working.reviewRuns, runIds.contains r.id = true → r.status = .running) :
    Elsewhere db₀ ((ProcessRepo.failRuns runIds).onConn c).2.committed ∧
      Elsewhere db₀ ((ProcessRepo.failRuns runIds).onConn c).2.working := by
  refine ⟨hc, ?_, ?_, hw.findings⟩
  · refine hw.runs.update ?_ ?_
    · exact fun _ => rfl
    · exact fun _ r' hr' hp ho => ho.fail (hrunning r' hr' hp) _ _
  · refine hw.results.update ?_ ?_
    · exact fun _ => rfl
    · intro _ v' _ hp ho
      simp only [Bool.and_eq_true, beq_iff_eq] at hp
      exact ho.fail hp.1 _

/-- `recover_expired` fails runs that are running, and their results. -/
theorem recoverExpired_elsewhere (minutes : Nat) :
    Preserves (Elsewhere db₀) (ProcessRepo.recoverExpired minutes) := by
  have hof := Elsewhere.ofReviews db₀
  refine preserves_transaction ?_
  refine preserves_bind (ofReviews_updateJobs hof) fun _ => ?_
  intro c hc hw
  rw [onConn_bind, onConn_select]
  refine preserves_bind_at ?_ fun runs =>
    preserves_bind (preserves_execute fun db => hof db _ rfl rfl rfl) fun _ =>
      preserves_bind (preserves_execute fun db => hof db _ rfl rfl rfl) fun _ => preserves_pure _
  split
  · refine failRuns_elsewhere hc hw fun r hr hmem => ?_
    obtain ⟨r', hr', hid⟩ := List.mem_map.mp (List.contains_iff_mem.mp hmem)
    obtain ⟨hr', hp⟩ := List.mem_filter.mp hr'
    rw [Table.eq_of_id hr hr' hid.symm]
    simp only [ProcessRepo.runExpired, Bool.and_eq_true, beq_iff_eq] at hp
    exact hp.1
  · exact ⟨hc, hw⟩

theorem cleanupContextPayloads_elsewhere (retentionDays : Nat) :
    Preserves (Elsewhere db₀) (cleanupContextPayloads retentionDays) := by
  refine preserves_bind (preserves_execute fun db he => ⟨?_, he.results, he.findings⟩) fun _ =>
    preserves_bind preserves_commit fun _ => preserves_pure _
  refine he.runs.update ?_ ?_
  · exact fun _ => rfl
  · exact fun _ _ _ _ ho => ⟨ho.same, ho.closed⟩

/-- A change of findings, one after the other. -/
theorem elsewhere_updateEach {p : Nat → Finding → Bool} {f : Finding → Finding}
    {hf : ∀ r, Row.id (f r) = Row.id r} {missing : Nat → Exc} (h : ∀ r, (f r).runId = r.runId)
    (is : List Nat) : Preserves (Elsewhere db₀) (updateEach Db.findingTable p f hf missing is) := by
  induction is with
  | nil => exact preserves_pure _
  | cons i is ih =>
    exact preserves_bind (elsewhere_findings fun _ => h) fun _ =>
      preserves_ite (fun _ => ih) fun _ => preserves_throw _

theorem elsewhere_rowOf {ρ : Type} (row : Option ρ) :
    Preserves (Elsewhere db₀) (JobRepo.rowOf row) := by
  cases row
  · exact preserves_throw _
  · exact preserves_pure _

theorem prepare_elsewhere (r : Post.PostRequest) : Preserves (Elsewhere db₀) (Post.prepare r) := by
  have hof := Elsewhere.ofReviews db₀
  refine preserves_bind preserves_beginImmediate fun _ => preserves_tryCatch ?_
    fun e => preserves_bind preserves_rollback fun _ => preserves_throw e
  refine preserves_bind (preserves_select _) fun found => ?_
  split
  · exact preserves_bind preserves_commit fun _ => preserves_pure _
  refine preserves_bind (preserves_bind (preserves_select _) fun _ =>
    preserves_bind (preserves_when fun _ => preserves_throw _) fun _ =>
      preserves_execute fun db => hof db _ rfl rfl rfl) fun operationId => ?_
  refine preserves_bind (elsewhere_updateEach (f := Post.reserved operationId) (fun _ => rfl) _)
    fun _ => ?_
  exact preserves_bind preserves_commit fun _ =>
    preserves_bind (preserves_select _) fun _ => elsewhere_rowOf _

theorem abortUnapplied_elsewhere (operationId : Nat) (ownerToken : Text) :
    Preserves (Elsewhere db₀) (Post.abortUnapplied operationId ownerToken) := by
  have hof := Elsewhere.ofReviews db₀
  refine preserves_bind (preserves_select _) fun op => ?_
  refine preserves_bind (preserves_when fun _ => preserves_throw _) fun _ => ?_
  refine preserves_bind (elsewhere_findings fun _ _ => rfl) fun _ => ?_
  exact preserves_bind (preserves_execute fun db => hof db _ rfl rfl rfl) fun _ => preserves_commit

theorem finalize_elsewhere (operationId : Nat) :
    Preserves (Elsewhere db₀) (Post.finalize operationId) := by
  have hof := Elsewhere.ofReviews db₀
  refine preserves_bind (preserves_select _) fun row =>
    preserves_bind (elsewhere_rowOf _) fun op => ?_
  refine preserves_bind (elsewhere_updateEach (f := Post.posted) (fun _ => rfl) _) fun _ => ?_
  exact preserves_bind (preserves_execute fun db => hof db _ rfl rfl rfl) fun _ => preserves_pure _

theorem patchFinding_elsewhere (fid : Nat) (patch : Post.FindingPatch) :
    Preserves (Elsewhere db₀) (Post.patchFinding fid patch) := by
  have hof := Elsewhere.ofReviews db₀
  have hset : ∀ status text, Preserves (Elsewhere db₀) (Post.setStatus fid status text) := by
    intro status text
    refine preserves_bind (preserves_select _) fun _ => ?_
    refine preserves_bind (elsewhere_findings fun _ _ => rfl) fun _ => preserves_when fun _ => ?_
    exact preserves_bind (preserves_execute fun db => hof db _ rfl rfl rfl) fun _ =>
      preserves_pure _
  refine preserves_transaction ?_
  refine preserves_bind (preserves_select _) fun found => ?_
  split
  · exact preserves_throw _
  refine preserves_bind (preserves_when fun _ => preserves_throw _) fun _ => ?_
  refine preserves_bind (preserves_select _) fun current => ?_
  refine preserves_bind (preserves_when fun _ => preserves_throw _) fun _ => ?_
  refine preserves_bind ?_ fun _ => preserves_bind (preserves_select _) fun _ => elsewhere_rowOf _
  unfold Post.applyPatch
  split
  · exact preserves_throw _
  · exact preserves_bind (preserves_when fun _ => preserves_throw _) fun _ => hset _ _
  · exact preserves_bind (preserves_when fun _ => preserves_throw _) fun _ => hset _ _

/-! ## Deletions -/

/-- The same, seen from the whole database. -/
def ElsewhereOf (db₀ : Db) (db : FullDb) : Prop := Elsewhere db₀ db.toDb

theorem elsewhere_deleteFrom {db : FullDb} (h : ElsewhereOf db₀ db) (t : TableName)
    (p : RowOf t → Bool) : ElsewhereOf db₀ (db.deleteFrom t p) := by
  cases t with
  | reviewRun => exact ⟨h.runs.delete p, h.results, h.findings⟩
  | vendorResult => exact ⟨h.runs, h.results.delete p, h.findings⟩
  | finding => exact ⟨h.runs, h.results, h.findings.delete p⟩
  | _ => exact ⟨h.runs, h.results, h.findings⟩

theorem elsewhere_deleteCascade {db : FullDb} (h : ElsewhereOf db₀ db) (t : TableName)
    (p : RowOf t → Bool) : ElsewhereOf db₀ (db.deleteCascade t p) := by
  cases t with
  | reviewRun => exact elsewhere_deleteFrom (elsewhere_deleteFrom h _ _) _ _
  | repo => exact elsewhere_deleteFrom (elsewhere_deleteFrom (elsewhere_deleteFrom h _ _) _ _) _ _
  | _ => exact elsewhere_deleteFrom h _ _

theorem elsewhere_execAll (ss : List Deletion.Statement) :
    Preserves (ElsewhereOf db₀) (Deletion.execAll ss) := by
  induction ss with
  | nil => exact preserves_pure _
  | cons s ss ih =>
    refine preserves_bind ?_ fun _ => ih
    intro c hc hw
    unfold Deletion.Statement.exec
    rw [onConn_bind, onConn_select]
    by_cases hclosed : Refs.Closed keyOf declared (s.apply c.working).rows
    · simp only [if_pos hclosed, onConn_execute]
      exact ⟨hc, elsewhere_deleteCascade hw _ _⟩
    · simp only [if_neg hclosed, onConn_throw]
      exact ⟨hc, hw⟩

/-- The deletion of a repository. -/
theorem remove_elsewhere (rid : Nat) : Preserves (ElsewhereOf db₀) (Deletion.remove rid) := by
  refine preserves_bind (preserves_select _) fun found => ?_
  split
  · exact preserves_pure _
  · exact preserves_transaction (preserves_bind (elsewhere_execAll _) fun _ => preserves_pure _)

/-- The deletion of pull requests that were closed long ago. -/
theorem cleanupTransaction_elsewhere (days : Int) (pids : List Nat) :
    Preserves (ElsewhereOf db₀) (Deletion.cleanupTransaction days pids) := by
  refine preserves_transaction ?_
  induction pids with
  | nil => exact preserves_pure _
  | cons pid pids ih =>
    refine preserves_bind ?_ fun _ => preserves_bind ih fun _ => preserves_pure _
    refine preserves_bind (preserves_select _) fun row => ?_
    split
    · exact preserves_pure _
    refine preserves_bind (preserves_select _) fun runs => ?_
    refine preserves_bind (preserves_select _) fun paths => ?_
    exact preserves_bind (elsewhere_execAll _) fun _ => preserves_pure _

end Programs

end Pipeline
