import AlmightyReview.Post.Api

/-!
# What the steps of a posting do to the database

One lemma for each function: what it returns, and the database after it. An invariant of findings
and operations is derived from these lemmas, and no proof unfolds the functions again.

* `PrepareOutcome`: the four ways in which `prepare` ends. Only a new operation changes the
  database (`prepared`).
* `run_claim`, `run_abortUnapplied`, `run_markRemote`, `run_markError`: a single row is changed, or
  the database is as it was.
* `FinalizeOutcome`, `PatchOutcome`: the transaction is done as a whole or not at all.
-/

namespace Post

open Sql JobRepo

/-! ## Prepare -/

theorem id_of_reservable {runId i : Nat} {f : Finding} (h : reservable runId i f = true) :
    Row.id f = i := by
  simp only [reservable, Bool.and_eq_true, beq_iff_eq] at h
  exact h.1.1.1

theorem not_reservable_reserved (runId operationId i : Nat) (f : Finding) :
    reservable runId i (reserved operationId f) = false := by
  simp [reservable, reserved]

/-- Another operation has the marker. -/
def markerTaken (db : Db) (marker : Text) : Bool :=
  (db.postOperations.find? fun o => o.marker == marker).isSome

/-- Every new finding of the request can be reserved. -/
def Reservable (r : PostRequest) (db : Db) : Prop :=
  AllMeet (reservable r.runId) db.findings r.newIds

/-- The row of a new operation. -/
def preparedOperation (r : PostRequest) (db : Db) : PostOperation :=
  newOperation r (operationIdentity r) db.now db.postOperations.nextId

/-- The database with a new operation and its findings reserved. -/
def prepared (r : PostRequest) (db : Db) : Db :=
  { db with
    postOperations := db.postOperations.insert (newOperation r (operationIdentity r) db.now)
    findings := db.findings.update (fun f => r.newIds.contains (Row.id f))
      (reserved db.postOperations.nextId) }

theorem mem_prepared_operations {r : PostRequest} {db : Db} {o : PostOperation} :
    o ∈ (prepared r db).postOperations ↔ o ∈ db.postOperations ∨ o = preparedOperation r db := by
  rw [prepared, Table.mem_insert]
  rfl

theorem mem_prepared_findings {r : PostRequest} {db : Db} {f' : Finding} :
    f' ∈ (prepared r db).findings ↔ ∃ f ∈ db.findings,
      f' = if r.newIds.contains f.id then reserved db.postOperations.nextId f else f := by
  rw [prepared, Table.mem_update]
  rfl

/-- The ways in which `prepare` ends. -/
inductive PrepareOutcome (r : PostRequest) (db : Db) : Except Exc PostOperation × Db → Prop
  | existing {o : PostOperation} : findOperation db (operationIdentity r).key = some o →
    PrepareOutcome r db (.ok o, db)
  | taken : findOperation db (operationIdentity r).key = none →
    markerTaken db (operationIdentity r).marker = true →
    PrepareOutcome r db (.error (.integrityError
      "UNIQUE constraint failed: github_post_operation.marker".toList), db)
  | conflict {fid : Nat} : findOperation db (operationIdentity r).key = none →
    markerTaken db (operationIdentity r).marker = false → ¬Reservable r db → fid ∈ r.newIds →
    PrepareOutcome r db (.error (changedWhilePreparing fid), db)
  | new : findOperation db (operationIdentity r).key = none →
    markerTaken db (operationIdentity r).marker = false → Reservable r db →
    PrepareOutcome r db (.ok (preparedOperation r db), prepared r db)

/-- The reservation of all new findings, on a connection whose working copy has the findings of
`db`. -/
theorem onConn_reserveAll {r : PostRequest} {db : Db} {c : Conn Db} (operationId : Nat)
    (hc : c.inTransaction = true) (hf : c.working.findings = db.findings) (h : Reservable r db) :
    (reserveAll operationId r.runId r.newIds).onConn c = (.ok (), { c with
      working := { c.working with
        findings := db.findings.update (fun f => r.newIds.contains (Row.id f))
          (reserved operationId) } }) := by
  have h' : AllMeet (reservable r.runId) (Db.findingTable.get c.working) r.newIds := by
    show AllMeet _ c.working.findings _
    rwa [hf]
  refine (onConn_updateEach (fun _ _ => id_of_reservable)
    (fun i f _ => not_reservable_reserved _ _ i f) hc h').trans ?_
  rw [← hf]
  rfl

theorem onConn_reserveAll_error {r : PostRequest} {db : Db} {c : Conn Db} (operationId : Nat)
    (hf : c.working.findings = db.findings) (h : ¬Reservable r db) :
    ∃ fid ∈ r.newIds, ∃ c', (reserveAll operationId r.runId r.newIds).onConn c =
      (.error (changedWhilePreparing fid), c') ∧ c'.committed = c.committed := by
  refine onConn_updateEach_error (fun _ _ => id_of_reservable)
    (fun i f _ => not_reservable_reserved _ _ i f) ?_
  show ¬AllMeet _ c.working.findings _
  rwa [hf]

theorem prepare_outcome (r : PostRequest) (db : Db) : PrepareOutcome r db ((prepare r).run db) := by
  cases he : findOperation db (operationIdentity r).key with
  | some o =>
    have h : (prepare r).run db = (.ok o, db) := by
      simp [prepare, run, Conn.fresh, he]
    exact h ▸ .existing he
  | none =>
    cases hm : markerTaken db (operationIdentity r).marker with
    | true =>
      have hm' := hm
      unfold markerTaken at hm'
      have h : (prepare r).run db = (.error (.integrityError
          "UNIQUE constraint failed: github_post_operation.marker".toList), db) := by
        simp [prepare, insertOperation, run, Conn.fresh, he, hm']
      exact h ▸ .taken he hm
    | false =>
      have hm' := hm
      unfold markerTaken at hm'
      -- the connection after the `INSERT`
      let c : Conn Db := ⟨db, { db with
        postOperations := db.postOperations.insert (newOperation r (operationIdentity r) db.now) },
        true⟩
      have hins : (insertOperation r (operationIdentity r)).onConn ⟨db, db, true⟩ =
          (.ok db.postOperations.nextId, c) := by
        simp [insertOperation, hm', c, Db.postOperationTable]
      by_cases hr : Reservable r db
      · have hres := onConn_reserveAll (c := c) db.postOperations.nextId rfl rfl hr
        have hget : (prepared r db).postOperations.get? db.postOperations.nextId =
            some (preparedOperation r db) :=
          Table.get?_eq_some.mpr ⟨Table.mem_insert_self _, rfl⟩
        have h : (prepare r).run db = (.ok (preparedOperation r db), prepared r db) := by
          unfold prepare run Conn.fresh
          simp only [onConn_bind, onConn_beginImmediate, onConn_tryCatch, onConn_select, he, hins,
            hres, onConn_commit]
          rw [show c.working.postOperations = (prepared r db).postOperations from rfl, hget]
          rfl
        exact h ▸ .new he hm hr
      · obtain ⟨fid, hfid, c', hres, hcom⟩ :=
          onConn_reserveAll_error (c := c) db.postOperations.nextId rfl hr
        have h : (prepare r).run db = (.error (changedWhilePreparing fid), db) := by
          unfold prepare run Conn.fresh
          simp only [onConn_bind, onConn_beginImmediate, onConn_tryCatch, onConn_select, he, hins,
            hres, onConn_rollback, onConn_throw, hcom]
          rfl
        exact h ▸ .conflict he hm hr hfid

/-! ## Claim and abort -/

/-- The row of a claimed operation. -/
def applying (ownerToken : Text) (now : Time) (o : PostOperation) : PostOperation :=
  { o with status := .applying, ownerToken := some ownerToken, lockedAt := some now,
           updatedAt := now }

/-- The operations after a claim. -/
def claimedOperations (operationId : Nat) (ownerToken : Text) (db : Db) : Table PostOperation :=
  db.postOperations.update (fun o => o.id == operationId && claimable db.now o)
    (applying ownerToken db.now)

theorem run_claim (operationId : Nat) (ownerToken : Text) (db : Db) :
    (claim operationId ownerToken).run db =
      (.ok (db.postOperations.count (fun o => o.id == operationId && claimable db.now o) == 1),
        { db with postOperations := claimedOperations operationId ownerToken db }) := rfl

theorem mem_claim_operations {operationId : Nat} {ownerToken : Text} {db : Db}
    {o' : PostOperation} :
    o' ∈ ((claim operationId ownerToken).run db).2.postOperations ↔ ∃ o ∈ db.postOperations,
      o' = if o.id == operationId && claimable db.now o then applying ownerToken db.now o
        else o := by
  rw [run_claim, claimedOperations, Table.mem_update]

theorem status_of_claimable {now : Time} {o : PostOperation} (h : claimable now o = true) :
    o.status = .pending ∨ o.status = .applying := by
  simp only [claimable, Bool.or_eq_true, Bool.and_eq_true, beq_iff_eq] at h
  rcases h with h | ⟨h, -⟩
  · exact .inl h
  · exact .inr h

/-- The claim succeeds exactly on an operation that may be claimed. -/
theorem claim_eq_true {operationId : Nat} {ownerToken : Text} {db : Db} :
    ((claim operationId ownerToken).run db).1 = .ok true ↔
      ∃ o ∈ db.postOperations, o.id = operationId ∧ claimable db.now o = true := by
  rw [run_claim]
  simp only [Except.ok.injEq, beq_iff_eq]
  rw [Table.count_eq_one (i := operationId)]
  · simp
  · intro o ho
    simp only [Bool.and_eq_true, beq_iff_eq] at ho
    exact ho.1

/-- The database after `abort_unapplied`. -/
def aborted (operationId : Nat) (db : Db) : Db :=
  { db with
    findings := db.findings.update (fun f => f.postingOperationId == some operationId)
      (fun f => { f with postingOperationId := none })
    postOperations := db.postOperations.delete (fun o => o.id == operationId) }

theorem mem_aborted_operations {operationId : Nat} {db : Db} {o : PostOperation} :
    o ∈ (aborted operationId db).postOperations ↔ o ∈ db.postOperations ∧ o.id ≠ operationId := by
  rw [aborted, Table.mem_delete, beq_eq_false_iff_ne]

theorem mem_aborted_findings {operationId : Nat} {db : Db} {f' : Finding} :
    f' ∈ (aborted operationId db).findings ↔ ∃ f ∈ db.findings,
      f' = if f.postingOperationId == some operationId then { f with postingOperationId := none }
        else f := by
  rw [aborted, Table.mem_update]

theorem run_abortUnapplied (operationId : Nat) (ownerToken : Text) (db : Db) :
    (abortUnapplied operationId ownerToken).run db =
      if (db.postOperations.get? operationId).any (abortable ownerToken) then
        (.ok (), aborted operationId db)
      else (.error (.postingConflict "posting operation cannot be safely aborted".toList), db) := by
  cases h : (db.postOperations.get? operationId).any (abortable ownerToken) with
  | true =>
    unfold abortUnapplied run Conn.fresh
    simp only [onConn_bind, onConn_select, onConn_when, h, Bool.not_true, Bool.false_eq_true,
      if_false, onConn_updateRows, onConn_deleteRows, onConn_commit, if_true]
    rfl
  | false => simp [abortUnapplied, run, Conn.fresh, h]

/-! ## Remote application -/

theorem id_of_heldBy {operationId : Nat} {ownerToken : Text} {o : PostOperation}
    (h : heldBy operationId ownerToken o = true) : Row.id o = operationId := by
  simp only [heldBy, Bool.and_eq_true, beq_iff_eq] at h
  exact h.1.1

theorem status_of_heldBy {operationId : Nat} {ownerToken : Text} {o : PostOperation}
    (h : heldBy operationId ownerToken o = true) : o.status = .applying := by
  simp only [heldBy, Bool.and_eq_true, beq_iff_eq] at h
  exact h.1.2

/-- The row of an operation that was applied on GitHub. -/
def remoteApplied (reviewId url : Text) (now : Time) (o : PostOperation) : PostOperation :=
  { o with status := .remoteApplied, remoteReviewId := some reviewId, remoteUrl := some url,
           error := none, ownerToken := none, lockedAt := none, updatedAt := now }

theorem run_markRemote (operationId : Nat) (reviewId url ownerToken : Text) (db : Db) :
    (markRemote operationId reviewId url ownerToken).run db =
      if ∃ o ∈ db.postOperations, heldBy operationId ownerToken o = true then
        (.ok (), { db with
          postOperations := db.postOperations.update (heldBy operationId ownerToken)
            (remoteApplied reviewId url db.now) })
      else (.error (.postingConflict "post operation ownership lost".toList), db) := by
  have hc := Table.count_eq_one (t := db.postOperations) (p := heldBy operationId ownerToken)
    fun _ => id_of_heldBy
  by_cases h : ∃ o ∈ db.postOperations, heldBy operationId ownerToken o = true
  · rw [if_pos h]
    simp [markRemote, run, Conn.fresh, Db.postOperationTable, hc.mpr h]
    rfl
  · rw [if_neg h]
    have h1 : db.postOperations.count (heldBy operationId ownerToken) ≠ 1 := fun h' => h (hc.mp h')
    simp [markRemote, run, Conn.fresh, Db.postOperationTable, h1]

/-- What a held operation becomes. -/
theorem mem_markRemote_operations {operationId : Nat} {reviewId url ownerToken : Text} {db : Db}
    {o₀ o' : PostOperation} (h₀ : o₀ ∈ db.postOperations)
    (hheld : heldBy operationId ownerToken o₀ = true) :
    o' ∈ ((markRemote operationId reviewId url ownerToken).run db).2.postOperations ↔
      ∃ o ∈ db.postOperations, o' = if heldBy operationId ownerToken o then
        remoteApplied reviewId url db.now o else o := by
  rw [run_markRemote, if_pos ⟨o₀, h₀, hheld⟩, Table.mem_update]

/-- The row of an operation with a recorded error. -/
def withError (error : Text) (now : Time) (o : PostOperation) : PostOperation :=
  { o with error := some (error.take 1000), updatedAt := now }

theorem run_markError (operationId : Nat) (error ownerToken : Text) (db : Db) :
    (markError operationId error ownerToken).run db =
      (.ok (), { db with
        postOperations := db.postOperations.update (heldBy operationId ownerToken)
          (withError error db.now) }) := rfl

theorem mem_markError_operations {operationId : Nat} {error ownerToken : Text} {db : Db}
    {o' : PostOperation} :
    o' ∈ ((markError operationId error ownerToken).run db).2.postOperations ↔
      ∃ o ∈ db.postOperations, o' = if heldBy operationId ownerToken o then
        withError error db.now o else o := by
  rw [run_markError, Table.mem_update]

/-! ## Finalize -/

theorem id_of_finalizable {operationId i : Nat} {f : Finding}
    (h : finalizable operationId i f = true) : Row.id f = i := by
  simp only [finalizable, Bool.and_eq_true, beq_iff_eq] at h
  exact h.1.1

theorem not_finalizable_posted (operationId i : Nat) (f : Finding) :
    finalizable operationId i (posted f) = false := by
  simp [finalizable, posted]

theorem inside_rowOf {ρ : Type} (row : Option ρ) : (rowOf row : Sql Db Exc ρ).Inside := by
  cases row
  · exact inside_throw _
  · exact inside_pure _

theorem inside_finalizeStatements (p : Posting) : (finalizeStatements p).Inside := by
  refine inside_bind (inside_bind (inside_execute _) fun _ => inside_pure _) fun _ => ?_
  refine inside_bind (show (addPosted p).Inside from fun _ => rfl) fun _ => ?_
  refine inside_bind (inside_select _) fun _ => inside_bind (inside_rowOf _) fun op => ?_
  exact inside_bind (inside_updateEach _ _ _ _ _ _) fun _ =>
    inside_bind (inside_execute _) fun _ => inside_pure _

theorem id_superseded (db : Db) (c : PostedComment) :
    Row.id { c with supersededAt := some db.now } = Row.id c := rfl

theorem id_posted (p : Posting) (db : Db) (i : Nat) :
    Row.id (PostedComment.mk i p.runId p.vendor (some p.reviewId) (some p.url) (some p.marker)
      (some p.body) (some db.now) (some p.headSha) p.findingIds .review none) = i := rfl

theorem id_succeeded (db : Db) (o : PostOperation) : Row.id (succeeded db.now o) = Row.id o := rfl

/-- The posted comments after the previous one was superseded and the new one added. -/
def postedComments (p : Posting) (db : Db) : Table PostedComment :=
  (db.postedComments.update (fun c => some c.id == p.prevId)
    (fun c => { c with supersededAt := some db.now }) (id_superseded db)).insert (fun id =>
      { id := id, runId := p.runId, vendor := p.vendor, githubCommentId := some p.reviewId,
        url := some p.url, marker := some p.marker, body := some p.body, postedAt := some db.now,
        headSha := some p.headSha, findingIds := p.findingIds, kind := .review,
        supersededAt := none }) (id_posted p db)

/-- The database after the last transaction of a posting. -/
def finalized (p : Posting) (o : PostOperation) (db : Db) : Db :=
  { db with
    postedComments := postedComments p db
    findings := db.findings.update (fun f => o.newFindingIds.contains (Row.id f)) posted
    postOperations := db.postOperations.update (fun o => o.id == p.operationId)
      (succeeded db.now) (id_succeeded db) }

theorem mem_finalized_operations {p : Posting} {o o' : PostOperation} {db : Db} :
    o' ∈ (finalized p o db).postOperations ↔ ∃ op ∈ db.postOperations,
      o' = if op.id == p.operationId then succeeded db.now op else op := by
  rw [finalized, Table.mem_update]

theorem mem_finalized_findings {p : Posting} {o : PostOperation} {db : Db} {f' : Finding} :
    f' ∈ (finalized p o db).findings ↔ ∃ f ∈ db.findings,
      f' = if o.newFindingIds.contains f.id then posted f else f := by
  rw [finalized, Table.mem_update]
  rfl

/-- The ways in which the last transaction of a posting ends. -/
inductive FinalizeOutcome (p : Posting) (db : Db) : Except Exc Unit × Db → Prop
  | missing : db.postOperations.get? p.operationId = none →
    FinalizeOutcome p db
      (.error (.typeError "'NoneType' object is not subscriptable".toList), db)
  | lost {o : PostOperation} {fid : Nat} : db.postOperations.get? p.operationId = some o →
    ¬AllMeet (finalizable p.operationId) db.findings o.newFindingIds → fid ∈ o.newFindingIds →
    FinalizeOutcome p db (.error (reservationLost fid), db)
  | done {o : PostOperation} : db.postOperations.get? p.operationId = some o →
    AllMeet (finalizable p.operationId) db.findings o.newFindingIds →
    FinalizeOutcome p db (.ok (), finalized p o db)

theorem finalize_outcome (p : Posting) (db : Db) :
    FinalizeOutcome p db ((finalizePosting p).run db) := by
  unfold finalizePosting
  rw [run_transaction (inside_finalizeStatements p)]
  -- the connection after the comment was recorded
  let c : Conn Db := ⟨db, { db with postedComments := postedComments p db }, true⟩
  have hstart :
      (finalizeStatements p).onConn ⟨db, db, true⟩ = (finalize p.operationId).onConn c := by
    unfold finalizeStatements supersede addPosted
    simp only [onConn_bind, onConn_updateRows, onConn_insertInto, onConn_pure]
    rfl
  rw [hstart]
  unfold finalize
  cases hget : db.postOperations.get? p.operationId with
  | none =>
    have hget' : c.working.postOperations.get? p.operationId = none := hget
    simp only [onConn_bind, onConn_select, hget', rowOf, onConn_throw]
    exact .missing hget
  | some o =>
    have hget' : c.working.postOperations.get? p.operationId = some o := hget
    simp only [onConn_bind, onConn_select, hget', rowOf, onConn_pure]
    by_cases ho : AllMeet (finalizable p.operationId) db.findings o.newFindingIds
    · have hres : (postAll p.operationId o.newFindingIds).onConn c = (.ok (), { c with
          working := { c.working with
            findings := db.findings.update (fun f => o.newFindingIds.contains (Row.id f))
              posted } }) :=
        onConn_updateEach (fun _ _ => id_of_finalizable)
          (fun i f _ => not_finalizable_posted _ i f) rfl ho
      simp only [hres, onConn_updateRows]
      exact .done hget ho
    · obtain ⟨fid, hfid, c', hres, -⟩ : ∃ fid ∈ o.newFindingIds, ∃ c',
          (postAll p.operationId o.newFindingIds).onConn c = (.error (reservationLost fid), c') ∧
            c'.committed = c.committed :=
        onConn_updateEach_error (fun _ _ => id_of_finalizable)
          (fun i f _ => not_finalizable_posted _ i f) ho
      simp only [hres]
      exact .lost hget ho hfid

/-! ## Patch -/

theorem inside_setStatus (fid : Nat) (status : FindingStatus) (editedText : Option Text) :
    (setStatus fid status editedText).Inside := by
  refine inside_bind (inside_select _) fun _ => inside_bind (inside_execute _) fun _ => ?_
  exact inside_when fun _ => inside_bind (inside_execute _) fun _ => inside_pure _

theorem inside_patchStatements (fid : Nat) (patch : FindingPatch) :
    (patchStatements fid patch).Inside := by
  refine inside_bind (inside_select _) fun finding => ?_
  split
  · exact inside_throw _
  · refine inside_bind (inside_when fun _ => inside_throw _) fun _ => ?_
    refine inside_bind (inside_select _) fun _ => ?_
    refine inside_bind (inside_when fun _ => inside_throw _) fun _ => ?_
    refine inside_bind ?_ fun _ => inside_bind (inside_select _) fun _ => inside_rowOf _
    unfold applyPatch
    split
    · exact inside_throw _
    · exact inside_bind (inside_when fun _ => inside_throw _) fun _ => inside_setStatus _ _ _
    · exact inside_bind (inside_when fun _ => inside_throw _) fun _ => inside_setStatus _ _ _

/-- The finding after the user's decision. -/
def decided (status : FindingStatus) (editedText : Option Text) (f : Finding) : Finding :=
  { f with status := status, editedText := editedText.or f.editedText }

/-- The decisions after `set_status`. -/
def decisions (fid : Nat) (status : FindingStatus) (db : Db) : Table FindingDecision :=
  let prev := (db.findings.get? fid).map (·.status)
  if prev.any (· != status) then
    db.findingDecisions.insert fun id => ⟨id, fid, prev, status, db.now⟩
  else db.findingDecisions

/-- The database after an accepted patch. -/
def patched (fid : Nat) (status : FindingStatus) (editedText : Option Text) (db : Db) : Db :=
  { db with
    findings := db.findings.update (fun f => f.id == fid) (decided status editedText)
    findingDecisions := decisions fid status db }

theorem mem_patched_findings {fid : Nat} {status : FindingStatus} {text : Option Text} {db : Db}
    {f' : Finding} : f' ∈ (patched fid status text db).findings ↔ ∃ f ∈ db.findings,
      f' = if f.id == fid then decided status text f else f := by
  rw [patched, Table.mem_update]

/-- The text that a patch sets: only an edit sets one. -/
def patchText (patch : FindingPatch) (status : FindingStatus) : Option Text :=
  if status = .edited then some (patch.editedText.getD []).strip else none

/-- The ways in which `patch_finding` ends. -/
inductive PatchOutcome (fid : Nat) (patch : FindingPatch) (db : Db) :
    Except Exc Finding × Db → Prop
  | refused (e : Exc) : PatchOutcome fid patch db (.error e, db)
  | done {f : Finding} {status : FindingStatus} : f ∈ db.findings → f.id = fid →
    f.postingOperationId = none → isCurrentRun db f.runId = true →
    patchStatus patch.status = some status →
    PatchOutcome fid patch db (.ok (decided status (patchText patch status) f),
      patched fid status (patchText patch status) db)

theorem onConn_setStatus (fid : Nat) (status : FindingStatus) (editedText : Option Text)
    (db : Db) : (setStatus fid status editedText).onConn ⟨db, db, true⟩ =
      (.ok (), ⟨db, patched fid status editedText db, true⟩) := by
  unfold setStatus patched decisions
  simp only [onConn_bind, onConn_select, onConn_updateRows, onConn_when, onConn_insertInto,
    onConn_pure]
  split <;> rfl

/-- An accepted change is the one that the patch asks for. -/
theorem onConn_applyPatch (fid : Nat) (patch : FindingPatch) (db : Db) :
    (∃ status, patchStatus patch.status = some status ∧
      (applyPatch fid patch).onConn ⟨db, db, true⟩ =
        (.ok (), ⟨db, patched fid status (patchText patch status) db, true⟩)) ∨
      ∃ e, (applyPatch fid patch).onConn ⟨db, db, true⟩ = (.error e, ⟨db, db, true⟩) := by
  unfold applyPatch
  split
  · exact .inr ⟨_, rfl⟩
  · rename_i hs
    by_cases he : (patch.editedText.getD []).strip = []
    · exact .inr ⟨emptyEdit, by simp [he]⟩
    · refine .inl ⟨.edited, hs, ?_⟩
      simp [he, onConn_setStatus, patchText]
  · rename_i status hne hs
    by_cases he : patch.editedText.isSome = true
    · exact .inr ⟨strayText, by simp [he]⟩
    · refine .inl ⟨status, hs, ?_⟩
      have hne' : status ≠ .edited := fun h => hne h
      simp [he, onConn_setStatus, patchText, hne']

theorem patch_outcome (fid : Nat) (patch : FindingPatch) (db : Db) :
    PatchOutcome fid patch db ((patchFinding fid patch).run db) := by
  unfold patchFinding
  rw [run_transaction (inside_patchStatements fid patch)]
  unfold patchStatements
  cases hget : db.findings.get? fid with
  | none =>
    simp only [onConn_bind, onConn_select, hget, onConn_throw]
    exact .refused _
  | some f =>
    obtain ⟨hf, hid⟩ := Table.get?_eq_some.mp hget
    simp only [onConn_bind, onConn_select, hget, onConn_when, onConn_throw]
    by_cases hp : f.postingOperationId.isSome = true
    · simp only [hp, if_true]
      exact .refused _
    · by_cases hc : isCurrentRun db f.runId = true
      · simp only [hp, hc, Bool.not_true, Bool.false_eq_true, if_false]
        have hnone : f.postingOperationId = none := by simpa using hp
        rcases onConn_applyPatch fid patch db with ⟨status, hs, happ⟩ | ⟨e, happ⟩
        · have hget' : (patched fid status (patchText patch status) db).findings.get? fid =
              some (decided status (patchText patch status) f) := by
            rw [Table.get?_eq_some, patched, Table.mem_update]
            exact ⟨⟨f, hf, by simp [show f.id = fid from hid]⟩, hid⟩
          simp only [happ, hget', rowOf, onConn_pure]
          exact .done hf hid hnone hc hs
        · simp only [happ]
          exact .refused e
      · simp only [hp, hc, Bool.not_false, if_true, Bool.false_eq_true, if_false]
        exact .refused _

end Post
