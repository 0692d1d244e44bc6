import AlmightyReview.Lib.Raise
import AlmightyReview.Review.Op

/-!
# Signals

The pipeline and the queue speak to the worker by exceptions (`Exc.isSignal`). Nothing else raises
one of them: not the functions that a run computes with, not the world (`Ext.Answers`), and of the
transactions of a run only the final one, which says that the lease is lost.

* `Quiet e`: the exception is no signal.
* `write_quiet`, `publish_signal`: what the transactions of a run raise.
-/

namespace Pipeline

open Raise

/-- The exception is no signal. -/
def Quiet (e : Exc) : Prop := Exc.isSignal e = false

/-! ## Computations -/

section Pure

open DiffFilter

theorem quiet_reject (c : Bool) (message : Text) :
    Only Quiet (VendorTelemetry.reject c message) :=
  only_ite (fun _ => only_throw rfl) fun _ => only_pure ()

theorem quiet_decodeGitBytes (s : Text) : Only Quiet (decodeGitBytes s) := by
  fun_induction decodeGitBytes s with
  | case1 => exact only_ok _
  | case2 a b c s _ _ ih => exact only_map ih
  | case3 a b c s _ _ => exact only_error rfl
  | case4 a b c s _ ih => exact only_map ih
  | case5 c s _ ih => exact only_map ih

theorem quiet_headerTarget (header : Text) : Only Quiet (headerTarget header) := by
  unfold headerTarget
  split
  · exact only_ite (fun _ => only_map (only_map (quiet_decodeGitBytes _))) fun _ => only_ok _
  · exact only_ok _

theorem quiet_splitFileBlocks (diff : Text) : Only Quiet (splitFileBlocks diff) :=
  only_map (only_mapM (fun _ => only_map (quiet_headerTarget _)) _)

theorem quiet_changedLines (diff : Text) : Only Quiet (changedLines diff) :=
  only_map (quiet_splitFileBlocks diff)

theorem quiet_filterReviewable (diff : Text) : Only Quiet (filterReviewable diff) :=
  only_map (quiet_splitFileBlocks diff)

theorem quiet_piecesOf (budget : Nat) (block : Text × Text) :
    Only Quiet (piecesOf budget block) :=
  only_ite (fun _ => only_ok _) fun _ => only_map (quiet_changedLines _)

theorem quiet_recordsFrom (i : Nat) (seen : Finset (Text × Nat))
    (chunks : List (Text × SetDict Text Nat)) : Only Quiet (recordsFrom i seen chunks) := by
  induction chunks generalizing i seen with
  | nil => exact only_ok _
  | cons chunk chunks ih =>
    rw [recordsFrom]
    exact only_ite (fun _ => only_map (ih _ _)) fun _ => only_error rfl

theorem quiet_chunkRecordsByBudget (diff : Text) (budget : Nat) :
    Only Quiet (chunkRecordsByBudget diff budget) := by
  unfold chunkRecordsByBudget
  refine only_ite (fun _ => only_error rfl) fun _ => only_ite (fun _ => only_ok _) fun _ => ?_
  refine only_bind (quiet_splitFileBlocks diff) fun blocks => ?_
  refine only_bind (only_mapM (quiet_piecesOf budget) blocks) fun pieces => ?_
  refine only_bind (quiet_recordsFrom _ _ _) fun records => ?_
  refine only_bind (quiet_changedLines diff) fun expected => ?_
  exact only_ite (fun _ => only_ok _) fun _ => only_error rfl

theorem quiet_chunkByBudget (diff : Text) (budget : Nat) :
    Only Quiet (chunkByBudget diff budget) :=
  only_map (quiet_chunkRecordsByBudget diff budget)

end Pure

theorem quiet_requireNonce (nonce : Option Text) : Only Quiet (requireNonce nonce) := by
  unfold requireNonce
  split
  · exact only_ite (fun _ => only_pure _) fun _ => only_throw rfl
  · exact only_throw rfl

theorem quiet_buildPromptChunks (pr : PullRequest) (diff contextText : Text)
    (contextByHash : Option (List (Text × Text))) (nonceByIndex : Nat → Option Text) :
    Only Quiet (buildPromptChunks pr diff contextText contextByHash nonceByIndex) :=
  only_bind (quiet_chunkRecordsByBudget _ _) fun _ =>
    only_mapM (fun _ => only_bind (quiet_requireNonce _) fun _ => only_pure _) _

theorem quiet_requireVendor (ad : Adapter) (prompts : List PromptChunk) :
    Only Quiet (requireVendor ad prompts) :=
  quiet_reject _ _

theorem quiet_chunkerOf (prompts : List PromptChunk) : Only Quiet (chunkerOf prompts) := by
  unfold chunkerOf
  split
  · exact only_pure _
  · exact only_throw rfl

theorem quiet_executionIdentity (ad : Adapter) (hp : HarnessProfile) (version : Option Text)
    (prompts : List PromptChunk) (diff : Text) (policy : FindingPolicy.PolicySnapshot) :
    Only Quiet (executionIdentity ad hp version prompts diff policy) :=
  only_bind (quiet_chunkerOf prompts) fun _ =>
    only_bind (quiet_reject _ _) fun _ => only_pure _

theorem quiet_rowFor (rows : List VendorRow) (vendor : Text) :
    Only Quiet (rowFor rows vendor) := by
  unfold rowFor
  split
  · exact only_pure _
  · exact only_throw rfl

theorem quiet_preparedFindings (rows : List VendorRow) (results : List VendorRunResult) :
    Only Quiet (preparedFindings rows results) := by
  induction results with
  | nil => exact only_pure _
  | cons r rs ih =>
    exact only_bind (quiet_rowFor rows r.vendor) fun _ => only_bind ih fun _ => only_pure _

theorem quiet_applyScopeAndDuplicatePolicy (canonicalClaim : Text → Text)
    (chunks : List PromptChunk) (scopeMode dedupeMode : Text) (results : List VendorRunResult) :
    Only Quiet (FindingPolicy.applyScopeAndDuplicatePolicy canonicalClaim chunks scopeMode
      dedupeMode results) :=
  only_map (only_ite (fun _ => only_ok _) fun _ => only_error rfl)

/-! ## Envelopes -/

section Envelopes

open VendorTelemetry

theorem quiet_validateIdentity (i : ExecutionIdentity) : Only Quiet (validateIdentity i) :=
  only_bind (only_forM (fun _ => quiet_reject _ _) _) fun _ =>
    only_bind (quiet_reject _ _) fun _ =>
      only_bind (only_forM (fun _ => quiet_reject _ _) _) fun _ =>
        only_forM (fun _ => quiet_reject _ _) _

theorem quiet_validateExecutionChunk (c : ExecutionChunk) :
    Only Quiet (validateExecutionChunk c) :=
  only_bind (quiet_reject _ _) fun _ => only_bind (quiet_reject _ _) fun _ =>
    only_bind (only_forM (fun _ => quiet_reject _ _) _) fun _ => quiet_reject _ _

theorem quiet_validateAttempts (previous : Nat) (attempts : List ExecutionAttempt) :
    Only Quiet (validateAttempts previous attempts) := by
  induction attempts generalizing previous with
  | nil => exact only_pure _
  | cons record rest ih =>
    exact only_bind (quiet_reject _ _) fun _ => only_bind (quiet_reject _ _) fun _ =>
      only_bind (only_forM quiet_validateExecutionChunk _) fun _ => ih _

theorem quiet_validateExecutionEnvelope (e : ExecutionEnvelope) :
    Only Quiet (validateExecutionEnvelope e) :=
  only_bind (quiet_validateIdentity _) fun _ => only_bind (quiet_reject _ _) fun _ =>
    only_bind (quiet_validateAttempts _ _) fun _ => quiet_reject _ _

theorem quiet_buildExecutionEnvelope (identity : ExecutionIdentity) (attempt : Nat)
    (phase : ExecutionPhase) (chunks : List ExecutionChunk) :
    Only Quiet (buildExecutionEnvelope identity attempt phase chunks) :=
  only_bind (quiet_validateExecutionEnvelope _) fun _ => only_pure _

theorem quiet_appendExecutionAttempt (existing : Option ExecutionEnvelope)
    (addition : ExecutionEnvelope) : Only Quiet (appendExecutionAttempt existing addition) := by
  refine only_bind (quiet_validateExecutionEnvelope _) fun _ => ?_
  cases existing with
  | none => exact only_pure _
  | some old =>
    exact only_bind (quiet_validateExecutionEnvelope _) fun _ =>
      only_bind (quiet_reject _ _) fun _ =>
        only_bind (quiet_validateExecutionEnvelope _) fun _ => only_pure _

theorem quiet_attemptEnvelope (result : VendorRunResult) (i : ExecutionIdentity)
    (attempt : Nat) : Only Quiet (attemptEnvelope result i attempt) := by
  unfold attemptEnvelope vendorExecutionEnvelope
  refine only_bind (only_ite (fun _ => quiet_buildExecutionEnvelope _ _ _ _)
    fun _ => only_throw rfl) fun envelope => ?_
  refine only_ite (fun _ => only_pure _) fun _ => ?_
  exact only_bind (quiet_buildExecutionEnvelope _ _ _ _) fun _ => only_pure _

end Envelopes

/-! ## Statements -/

section Statements

open Sql

theorem quiet_validateChunksFrom (total : Nat) (chunks : List ContextChunk) :
    Only Quiet (ReviewRepo.validateChunksFrom total chunks) := by
  induction chunks generalizing total with
  | nil => exact only_pure _
  | cons c cs ih =>
    exact only_bind (quiet_reject _ _) fun _ => only_bind (quiet_reject _ _) fun _ =>
      only_bind (quiet_reject _ _) fun _ => ih _

theorem raises_updateRun (runId : Nat) (f : Db → ReviewRun → ReviewRun)
    (hf : ∀ db r, Row.id (f db r) = Row.id r) :
    Raises Quiet (ReviewRepo.updateRun runId f hf) :=
  raises_bind (raises_execute _) fun _ => raises_pure _

theorem raises_finishRun (runId : Nat) (status : RunStatus) (error : Option Text)
    (commit : Bool) : Raises Quiet (ReviewRepo.finishRun runId status error commit) :=
  raises_bind (raises_updateRun _ _ _) fun _ => raises_when fun _ => raises_commit

theorem raises_markReviewed (prId : Nat) (headSha : Sha) (commit : Bool) :
    Raises Quiet (PrRepo.markReviewed prId headSha commit) :=
  raises_bind (raises_execute _) fun _ => raises_when fun _ => raises_commit

theorem quiet_appended (executionMeta : ExecutionEnvelope) (row : Option VendorResult) :
    Only Quiet (ReviewRepo.appended executionMeta row) := by
  cases row with
  | none => exact only_throw rfl
  | some row => exact quiet_appendExecutionAttempt _ _

theorem raises_persistVendorResult (rows : List VendorRow) (attempt : Nat)
    (r : VendorRunResult) : Raises Quiet (persistVendorResult rows attempt r) := by
  refine raises_bind (raises_lift (quiet_rowFor rows r.vendor)) fun row => ?_
  refine raises_bind (raises_lift (quiet_attemptEnvelope r row.identity attempt))
    fun envelope => ?_
  unfold ReviewRepo.finishVendorResult
  refine raises_bind (raises_when fun _ => raises_throw rfl) fun _ => ?_
  refine raises_bind (raises_lift (quiet_validateExecutionEnvelope _)) fun _ => ?_
  refine raises_bind (raises_select _) fun stored => ?_
  refine raises_bind (raises_lift (quiet_appended _ stored)) fun merged => ?_
  exact raises_bind (raises_execute _) fun _ => raises_when fun _ => raises_commit

theorem raises_persistVendorResults (rows : List VendorRow) (attempt : Nat)
    (results : List VendorRunResult) :
    Raises Quiet (persistVendorResults rows attempt results) := by
  induction results with
  | nil => exact raises_pure _
  | cons r rs ih => exact raises_bind (raises_persistVendorResult rows attempt r) fun _ => ih

theorem raises_persist (runId : Nat) (items : List FindingItem) :
    Raises Quiet (persist runId items) := by
  induction items with
  | nil => exact raises_pure _
  | cons item items ih =>
    refine raises_bind ?_ fun _ => ih
    exact raises_bind (raises_execute _) fun _ =>
      raises_bind (raises_when fun _ => raises_commit) fun _ => raises_pure _

/-- The exception is no signal, or says that the lease is lost. -/
def QuietOrLost (e : Exc) : Prop := Quiet e ∨ ∃ runId message, e = .pipelineLeaseLost runId message

theorem Raises.mono {α : Type} {P P' : Exc → Prop} {p : Sql Db Exc α} (hp : Raises P p)
    (h : ∀ e, P e → P' e) : Raises P' p := fun c e he => h e (hp c e he)

theorem raises_assertProcessLease (runId : Nat) (owner : Option ProcessId) :
    Raises QuietOrLost (assertProcessLease runId owner) := by
  cases owner with
  | none => exact raises_pure _
  | some p =>
    exact raises_bind (raises_select _) fun _ =>
      raises_when fun _ => raises_throw (.inr ⟨_, _, rfl⟩)

theorem raises_publish (e : Ending) : Raises QuietOrLost (publish e) := by
  have hquiet : ∀ e, Quiet e → QuietOrLost e := fun _ => .inl
  refine raises_bind raises_beginImmediate fun _ => raises_tryCatch ?_
    fun _ he => raises_bind raises_rollback fun _ => raises_throw he
  refine raises_bind (raises_assertProcessLease _ _) fun _ => ?_
  refine raises_bind (raises_select _) fun actual => raises_ite (fun _ => ?_) fun _ => ?_
  · exact raises_bind raises_rollback fun _ => raises_pure _
  · refine raises_bind (Raises.mono ?_ hquiet) fun _ =>
      raises_bind raises_commit fun _ => raises_pure _
    exact raises_bind (raises_persistVendorResults _ _ _) fun _ =>
      raises_bind (raises_persist _ _) fun _ =>
        raises_bind (raises_finishRun _ _ _ _) fun _ => raises_markReviewed _ _ _

theorem raises_cancelStale (e : Ending) : Raises Quiet (cancelStale e) :=
  raises_transaction (raises_bind (raises_persistVendorResults _ _ _) fun _ =>
    raises_finishRun _ _ _ _)

theorem raises_storeFailed (e : Ending) : Raises Quiet (storeFailed e) :=
  raises_transaction (raises_bind (raises_persistVendorResults _ _ _) fun _ =>
    raises_finishRun _ _ _ _)

theorem raises_setPolicySnapshot (runId : Nat) (policy : FindingPolicy.PolicySnapshot)
    (commit : Bool) : Raises Quiet (ReviewRepo.setPolicySnapshot runId policy commit) :=
  raises_bind (raises_execute _) fun _ =>
    raises_bind (raises_when fun _ => raises_throw rfl) fun _ => raises_when fun _ => raises_commit

theorem raises_setContextChunks (runId : Nat) (chunks : List ContextChunk) :
    Raises Quiet (ReviewRepo.setContextChunks runId chunks) :=
  raises_bind (raises_lift (only_bind (quiet_reject _ _) fun _ => quiet_validateChunksFrom _ _))
    fun _ => raises_bind (raises_updateRun _ _ _) fun _ => raises_commit

end Statements

/-! ## Operations -/

/-- The transactions of a run that is not at its end. -/
def Write.ofRun {β : Type} : Write β → Bool
  | .createRun .. => true
  | .setBaseSha .. => true
  | .finishRun .. => true
  | .markReviewed .. => true
  | .setContext .. => true
  | .setContextChunks .. => true
  | .setPolicySnapshot .. => true
  | .addVendorResult .. => true
  | .storeFailed .. => true
  | .cancelStale .. => true
  | _ => false

theorem raises_ofRun {β : Type} {q : Write β} (hq : q.ofRun = true) :
    Sql.Raises Quiet q.program := by
  cases q with
  | createRun run =>
    exact Sql.raises_bind (Sql.raises_execute _) fun _ =>
      Sql.raises_bind Sql.raises_commit fun _ => Sql.raises_pure _
  | setBaseSha runId sha =>
    exact Sql.raises_bind (raises_updateRun _ _ _) fun _ => Sql.raises_commit
  | finishRun runId status error => exact raises_finishRun _ _ _ _
  | markReviewed prId sha => exact raises_markReviewed _ _ _
  | setContext runId text =>
    exact Sql.raises_bind (raises_updateRun _ _ _) fun _ => Sql.raises_commit
  | setContextChunks runId chunks => exact raises_setContextChunks _ _
  | setPolicySnapshot runId policy => exact raises_setPolicySnapshot _ _ _
  | addVendorResult runId vendor =>
    exact Sql.raises_bind (Sql.raises_execute _) fun _ =>
      Sql.raises_bind Sql.raises_commit fun _ => Sql.raises_pure _
  | storeFailed e => exact raises_storeFailed e
  | cancelStale e => exact raises_cancelStale e
  | _ => cases hq

theorem exec_read_error {β : Type} {q : Read β} {db db' : Db} {e : Exc}
    (h : Op.Exec (.read q) db (.error e) db') : ∃ m, e = .operationalError m := by
  obtain ⟨-, h | ⟨m, h⟩⟩ := h
  · cases h
  · exact ⟨m, Except.error.inj h⟩

theorem exec_ext_error {β : Type} {q : Ext β} {db db' : Db} {e : Exc}
    (h : Op.Exec (.ext q) db (.error e) db') : Quiet e := by
  obtain ⟨-, h⟩ := h
  cases q with
  | nonces count => exact h.elim
  | elapsed vendor => exact h.elim
  | review vendor chunk version =>
    cases h
    rfl
  | _ => exact h

theorem exec_write_error {β : Type} {q : Write β} {P : Exc → Prop} (hq : Sql.Raises P q.program)
    {db db' : Db} {e : Exc} (h : Op.Exec (.write q) db (.error e) db') :
    P e ∨ ∃ m, e = .operationalError m := by
  obtain h | ⟨-, m, h⟩ := h
  · exact .inl (Sql.raises_run hq (congrArg Prod.fst h).symm)
  · exact .inr ⟨m, Except.error.inj h⟩

/-- **Transactions of a run** raise no signal. -/
theorem write_quiet {β : Type} {q : Write β} (hq : q.ofRun = true) {db db' : Db} {e : Exc}
    (h : Op.Exec (.write q) db (.error e) db') : Quiet e := by
  obtain h | ⟨m, rfl⟩ := exec_write_error (raises_ofRun hq) h
  · exact h
  · rfl

theorem publish_signal {ending : Ending} {db db' : Db} {e : Exc}
    (h : Op.Exec (.write (.publish ending)) db (.error e) db') : QuietOrLost e := by
  obtain h | ⟨m, rfl⟩ := exec_write_error (raises_publish ending) h
  · exact h
  · exact .inl rfl

end Pipeline
