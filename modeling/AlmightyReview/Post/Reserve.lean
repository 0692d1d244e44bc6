import AlmightyReview.Lib.Sys
import AlmightyReview.Post.Steps

/-!
# The reservation of findings

While a posting operation is unfinished, its new findings are reserved for it: the link is kept in
`finding.posting_operation_id` and in the operation's `new_finding_ids`.

* `posting`: the system of all steps that write findings or operations, in any order.
* `Reservations`: the inductive invariant. `link` says that both sides of the link agree.
* `Frame`: a step that leaves the operations and the reserved findings alone.
* `reservation_law`: the invariant, with what a `prepare` leaves that raises or is given up.
-/

namespace Post

open Sql

/-! ## The system -/

/-- The operation has not succeeded yet. -/
def unfinished (o : PostOperation) : Bool := o.status != .succeeded

/-- The clock shows `t`. -/
def atTime (t : Time) (db : Db) : Db := { db with now := t }

/-- The other requests of the server: they add findings, delete a run with its findings and its
operations, or write what no posting reads. -/
structure Elsewhere (db db' : Db) : Prop where
  operations : ∀ o ∈ db'.postOperations, o ∈ db.postOperations
  operationIds : db.postOperations.nextId ≤ db'.postOperations.nextId
  findingIds : db.findings.nextId ≤ db'.findings.nextId
  findings : ∀ f' ∈ db'.findings,
    (∃ f ∈ db.findings, f'.id = f.id ∧ f'.runId = f.runId ∧ f'.vendor = f.vendor ∧
      f'.status = f.status ∧ f'.postingOperationId = f.postingOperationId) ∨
    (db.findings.nextId ≤ f'.id ∧ f'.status = .pending ∧ f'.postingOperationId = none)
  /-- An operation goes only with all findings of its run. -/
  deleted : ∀ o ∈ db.postOperations, o ∈ db'.postOperations ∨ ∀ f ∈ db'.findings, f.runId ≠ o.runId
  /-- A finding goes only with all operations of its run. -/
  kept : ∀ f ∈ db.findings, (∃ f' ∈ db'.findings, f'.id = f.id) ∨
    ∀ o ∈ db'.postOperations, o.runId ≠ f.runId

/-- The steps that write findings or operations. -/
inductive PostStep where
  | prepare (r : PostRequest)
  | claim (operationId : Nat) (ownerToken : Text)
  | markRemote (operationId : Nat) (reviewId url ownerToken : Text)
  | markError (operationId : Nat) (error ownerToken : Text)
  | abortUnapplied (operationId : Nat) (ownerToken : Text)
  | finalize (p : Posting)
  | patch (fid : Nat) (change : FindingPatch)
  | elsewhere

/-- A step of the system: the database before and after it. A transaction that raises is rolled
back and is a step too. -/
def PostStep.Run (db : Db) : PostStep → Db → Prop
  | .prepare r, db' => db' = ((Post.prepare r).run db).2
  | .claim i token, db' => db' = ((Post.claim i token).run db).2
  | .markRemote i reviewId url token, db' => db' = ((Post.markRemote i reviewId url token).run db).2
  | .markError i error token, db' => db' = ((Post.markError i error token).run db).2
  | .abortUnapplied i token, db' => db' = ((Post.abortUnapplied i token).run db).2
  | .finalize p, db' => db' = ((finalizePosting p).run db).2
  | .patch fid change, db' => db' = ((patchFinding fid change).run db).2
  | .elsewhere, db' => Elsewhere db db'

/-- Any sequence of steps on a database in which nothing has been posted yet. -/
def posting : Sys Db PostStep where
  init db := db.postOperations.rows = [] ∧
    ∀ f ∈ db.findings, f.status = .pending ∧ f.postingOperationId = none
  step db a db' := a.Run db db'

/-! ## The invariant -/

/-- An unfinished operation `o` of the finding's run lists the finding. -/
def ReservedFor (operations : Table PostOperation) (f : Finding) (o : Nat) : Prop :=
  ∃ op ∈ operations, op.id = o ∧ op.runId = f.runId ∧ unfinished op = true ∧
    f.id ∈ op.newFindingIds

/-- What holds of findings and operations between any two steps. -/
structure Reservations (findings : Table Finding) (operations : Table PostOperation) : Prop where
  link : ∀ f ∈ findings, ∀ o, f.postingOperationId = some o ↔ ReservedFor operations f o
  approved : ∀ f ∈ findings, f.postingOperationId.isSome = true → postable f.status = true
  listed : ∀ op ∈ operations, ∀ i ∈ op.newFindingIds, ∃ f ∈ findings, f.id = i ∧ f.runId = op.runId

namespace Reservations

variable {findings : Table Finding} {operations : Table PostOperation}

/-- A reservation names a stored operation, so not the next one. -/
theorem ne_nextId (h : Reservations findings operations) {f : Finding} (hf : f ∈ findings) :
    f.postingOperationId ≠ some operations.nextId := by
  intro ho
  obtain ⟨op, hop, hid, -⟩ := (h.link f hf _).mp ho
  have hlt : op.id < operations.nextId := Table.lt_nextId hop
  omega

theorem init {db : Db} (h : posting.init db) : Reservations db.findings db.postOperations where
  link := by
    intro f hf o
    rw [(h.2 f hf).2]
    constructor
    · intro hn
      cases hn
    · rintro ⟨op, hop, -⟩
      rw [Table.mem_def, h.1] at hop
      cases hop
  approved := by
    intro f hf hs
    rw [(h.2 f hf).2] at hs
    cases hs
  listed := by
    intro op hop
    rw [Table.mem_def, h.1] at hop
    cases hop

/-! ### One operation changes its state -/

/-- An update of operations that keeps what the link reads. -/
theorem updateOperation (h : Reservations findings operations) {p : PostOperation → Bool}
    {f : PostOperation → PostOperation} (hsame : ∀ o, p o = true → (f o).runId = o.runId ∧
      (f o).newFindingIds = o.newFindingIds ∧ unfinished (f o) = unfinished o)
    (hf : ∀ o, Row.id (f o) = Row.id o) : Reservations findings (operations.update p f hf) := by
  have hrow : ∀ o, (if p o then f o else o).id = o.id ∧
      (if p o then f o else o).runId = o.runId ∧
      (if p o then f o else o).newFindingIds = o.newFindingIds ∧
      unfinished (if p o then f o else o) = unfinished o := by
    intro o
    by_cases hp : p o = true
    · rw [if_pos hp]
      exact ⟨hf o, hsame o hp⟩
    · rw [if_neg hp]
      exact ⟨rfl, rfl, rfl, rfl⟩
  refine ⟨fun g hg o => (h.link g hg o).trans ⟨?_, ?_⟩, h.approved, fun op' hop' i hi => ?_⟩
  · rintro ⟨op, hop, hid, hr, hu, hm⟩
    obtain ⟨e₁, e₂, e₃, e₄⟩ := hrow op
    exact ⟨if p op then f op else op, Table.mem_update_of_mem hop hf, e₁.trans hid,
      e₂.trans hr, e₄.trans hu, e₃ ▸ hm⟩
  · rintro ⟨op', hop', hid, hr, hu, hm⟩
    obtain ⟨op, hop, rfl⟩ := Table.mem_update.mp hop'
    obtain ⟨e₁, e₂, e₃, e₄⟩ := hrow op
    exact ⟨op, hop, e₁.symm.trans hid, e₂.symm.trans hr, e₄.symm.trans hu, e₃ ▸ hm⟩
  · obtain ⟨op, hop, rfl⟩ := Table.mem_update.mp hop'
    obtain ⟨-, e₂, e₃, -⟩ := hrow op
    rw [e₂]
    exact h.listed op hop i (e₃ ▸ hi)

theorem claim {db : Db} (h : Reservations db.findings db.postOperations) (i : Nat)
    (token : Text) : Reservations ((Post.claim i token).run db).2.findings
      ((Post.claim i token).run db).2.postOperations := by
  rw [run_claim]
  apply h.updateOperation
  · intro o hp
    refine ⟨rfl, rfl, ?_⟩
    simp only [Bool.and_eq_true] at hp
    rcases status_of_claimable hp.2 with hs | hs <;> simp only [unfinished, hs] <;> rfl
  · exact fun _ => rfl

theorem markRemote {db : Db} (h : Reservations db.findings db.postOperations) (i : Nat)
    (reviewId url token : Text) :
    Reservations ((Post.markRemote i reviewId url token).run db).2.findings
      ((Post.markRemote i reviewId url token).run db).2.postOperations := by
  rw [run_markRemote]
  split
  · apply h.updateOperation
    · intro o hp
      refine ⟨rfl, rfl, ?_⟩
      have hs : o.status = .applying := status_of_heldBy hp
      simp only [unfinished, remoteApplied, hs]
      rfl
    · exact fun _ => rfl
  · exact h

theorem markError {db : Db} (h : Reservations db.findings db.postOperations) (i : Nat)
    (error token : Text) : Reservations ((Post.markError i error token).run db).2.findings
      ((Post.markError i error token).run db).2.postOperations := by
  rw [run_markError]
  apply h.updateOperation
  · exact fun _ _ => ⟨rfl, rfl, rfl⟩
  · exact fun _ => rfl

/-! ### Findings are reserved and freed -/

/-- The row of a requested id is the one that can be reserved. -/
theorem reservable_row {db : Db} {r : PostRequest} (hr : Reservable r db) {f : Finding}
    (hf : f ∈ db.findings) (hi : f.id ∈ r.newIds) :
    f.runId = r.runId ∧ postable f.status = true ∧ f.postingOperationId = none := by
  obtain ⟨g, hg, hp⟩ := hr.2 f.id hi
  have hgf : g = f := Table.eq_of_id hg hf (id_of_reservable hp)
  simp only [reservable, Bool.and_eq_true, beq_iff_eq, Option.isNone_iff_eq_none, hgf] at hp
  exact ⟨hp.1.1.2, hp.1.2, hp.2⟩

theorem prepared {db : Db} {r : PostRequest} (h : Reservations db.findings db.postOperations)
    (hr : Reservable r db) :
    Reservations (Post.prepared r db).findings (Post.prepared r db).postOperations := by
  refine ⟨?_, ?_, ?_⟩
  · intro f' hf' o
    obtain ⟨f, hf, rfl⟩ := mem_prepared_findings.mp hf'
    by_cases hi : f.id ∈ r.newIds
    · rw [if_pos (by simpa using hi)]
      obtain ⟨hrun, -, hnone⟩ := reservable_row hr hf hi
      constructor
      · intro ho
        cases ho
        exact ⟨_, mem_prepared_operations.mpr (.inr rfl), rfl, hrun.symm, rfl, hi⟩
      · rintro ⟨op, hop, rfl, hop'⟩
        rcases mem_prepared_operations.mp hop with hold | rfl
        · have hsome : f.postingOperationId = some op.id :=
            (h.link f hf op.id).mpr ⟨op, hold, rfl, hop'⟩
          rw [hnone] at hsome
          cases hsome
        · rfl
    · rw [if_neg (by simpa using hi), h.link f hf o]
      constructor
      · rintro ⟨op, hop, hop'⟩
        exact ⟨op, mem_prepared_operations.mpr (.inl hop), hop'⟩
      · rintro ⟨op, hop, hop'⟩
        rcases mem_prepared_operations.mp hop with hold | rfl
        · exact ⟨op, hold, hop'⟩
        · exact absurd hop'.2.2.2 hi
  · intro f' hf' hs
    obtain ⟨f, hf, rfl⟩ := mem_prepared_findings.mp hf'
    by_cases hi : f.id ∈ r.newIds
    · rw [if_pos (by simpa using hi)]
      exact (reservable_row hr hf hi).2.1
    · rw [if_neg (by simpa using hi)] at hs ⊢
      exact h.approved f hf hs
  · intro op hop i hi
    have hs : ∃ f ∈ db.findings, f.id = i ∧ f.runId = op.runId := by
      rcases mem_prepared_operations.mp hop with hold | rfl
      · exact h.listed op hold i hi
      · obtain ⟨f, hf, hp⟩ := hr.2 i hi
        have hid : f.id = i := id_of_reservable hp
        exact ⟨f, hf, hid, (reservable_row hr hf (hid ▸ hi)).1⟩
    obtain ⟨f, hf, hid, hrun⟩ := hs
    refine ⟨_, mem_prepared_findings.mpr ⟨f, hf, rfl⟩, ?_⟩
    split <;> exact ⟨hid, hrun⟩

theorem prepare {db : Db} (h : Reservations db.findings db.postOperations) (r : PostRequest) :
    Reservations ((Post.prepare r).run db).2.findings
      ((Post.prepare r).run db).2.postOperations := by
  have ho := prepare_outcome r db
  generalize (Post.prepare r).run db = out at ho ⊢
  cases ho with
  | existing _ => exact h
  | taken _ _ => exact h
  | conflict _ _ _ _ => exact h
  | new _ _ hr => exact h.prepared hr

theorem aborted {db : Db} (h : Reservations db.findings db.postOperations) (i : Nat) :
    Reservations (Post.aborted i db).findings (Post.aborted i db).postOperations := by
  refine ⟨?_, ?_, ?_⟩
  · intro f' hf' o
    obtain ⟨f, hf, rfl⟩ := mem_aborted_findings.mp hf'
    have hold := h.link f hf
    by_cases hi : f.postingOperationId = some i
    · rw [if_pos (by simpa using hi)]
      constructor
      · intro ho
        cases ho
      · rintro ⟨op, hop, rfl, hop'⟩
        obtain ⟨hop, hne⟩ := mem_aborted_operations.mp hop
        have hsome : f.postingOperationId = some op.id := (hold op.id).mpr ⟨op, hop, rfl, hop'⟩
        rw [hi, Option.some.injEq] at hsome
        exact absurd hsome.symm hne
    · rw [if_neg (by simpa using hi), hold o]
      constructor
      · rintro ⟨op, hop, rfl, hop'⟩
        refine ⟨op, mem_aborted_operations.mpr ⟨hop, ?_⟩, rfl, hop'⟩
        rintro rfl
        exact hi ((hold op.id).mpr ⟨op, hop, rfl, hop'⟩)
      · rintro ⟨op, hop, hop'⟩
        exact ⟨op, (mem_aborted_operations.mp hop).1, hop'⟩
  · intro f' hf' hs
    obtain ⟨f, hf, rfl⟩ := mem_aborted_findings.mp hf'
    split at hs
    · cases hs
    · rename_i hi
      rw [if_neg hi]
      exact h.approved f hf hs
  · intro op hop j hj
    obtain ⟨f, hf, hid, hrun⟩ := h.listed op (mem_aborted_operations.mp hop).1 j hj
    refine ⟨_, mem_aborted_findings.mpr ⟨f, hf, rfl⟩, ?_⟩
    split <;> exact ⟨hid, hrun⟩

theorem abortUnapplied {db : Db} (h : Reservations db.findings db.postOperations) (i : Nat)
    (token : Text) : Reservations ((Post.abortUnapplied i token).run db).2.findings
      ((Post.abortUnapplied i token).run db).2.postOperations := by
  rw [run_abortUnapplied]
  split
  · exact h.aborted i
  · exact h

/-- The operations that are unfinished after the last transaction are the others. -/
theorem reservedFor_finalized {p : Posting} {o : PostOperation} {db : Db} {f : Finding} {i : Nat} :
    ReservedFor (Post.finalized p o db).postOperations f i ↔
      i ≠ p.operationId ∧ ReservedFor db.postOperations f i := by
  constructor
  · rintro ⟨op', hop', rfl, hr, hu, hm⟩
    obtain ⟨op, hop, rfl⟩ := mem_finalized_operations.mp hop'
    by_cases hi : op.id = p.operationId
    · rw [if_pos (by simpa using hi)] at hu
      cases hu
    · rw [if_neg (by simpa using hi)] at hr hu hm ⊢
      exact ⟨hi, op, hop, rfl, hr, hu, hm⟩
  · rintro ⟨hi, op, hop, rfl, hop'⟩
    refine ⟨op, mem_finalized_operations.mpr ⟨op, hop, ?_⟩, rfl, hop'⟩
    rw [if_neg (by simpa using hi)]

/-- The findings of an operation are posted and the operation succeeds: both sides are let go. -/
theorem finalized {db : Db} {p : Posting} {o : PostOperation}
    (h : Reservations db.findings db.postOperations)
    (hget : db.postOperations.get? p.operationId = some o)
    (hall : AllMeet (finalizable p.operationId) db.findings o.newFindingIds) :
    Reservations (Post.finalized p o db).findings (Post.finalized p o db).postOperations := by
  obtain ⟨ho, hid⟩ := Table.get?_eq_some.mp hget
  have hrow : ∀ f ∈ db.findings, f.id ∈ o.newFindingIds →
      f.postingOperationId = some p.operationId := by
    intro f hf hi
    obtain ⟨g, hg, hp⟩ := hall.2 f.id hi
    have hgf : g = f := Table.eq_of_id hg hf (id_of_finalizable hp)
    simp only [finalizable, Bool.and_eq_true, beq_iff_eq, hgf] at hp
    exact hp.1.2
  refine ⟨?_, ?_, ?_⟩
  · intro f' hf' i
    obtain ⟨f, hf, rfl⟩ := mem_finalized_findings.mp hf'
    by_cases hm : f.id ∈ o.newFindingIds
    · rw [if_pos (by simpa using hm)]
      constructor
      · intro hn
        cases hn
      · intro hres
        obtain ⟨hi, hres⟩ := reservedFor_finalized.mp hres
        have hsome : f.postingOperationId = some i := (h.link f hf i).mpr hres
        rw [hrow f hf hm, Option.some.injEq] at hsome
        exact absurd hsome.symm hi
    · rw [if_neg (by simpa using hm), h.link f hf i, reservedFor_finalized]
      refine ⟨fun hres => ⟨?_, hres⟩, And.right⟩
      rintro rfl
      obtain ⟨op, hop, hop', -, -, hlist⟩ := hres
      have hopo : op = o := Table.eq_of_id hop ho (hop'.trans hid.symm)
      exact hm (hopo ▸ hlist)
  · intro f' hf' hs
    obtain ⟨f, hf, rfl⟩ := mem_finalized_findings.mp hf'
    split at hs
    · cases hs
    · rename_i hm
      rw [if_neg hm]
      exact h.approved f hf hs
  · intro op' hop' j hj
    obtain ⟨op, hop, rfl⟩ := mem_finalized_operations.mp hop'
    have hsame : ∀ c : Prop, [Decidable c] → (if c then succeeded db.now op else op).runId =
        op.runId ∧ (if c then succeeded db.now op else op).newFindingIds = op.newFindingIds := by
      intro c _
      split <;> exact ⟨rfl, rfl⟩
    rw [(hsame _).2] at hj
    obtain ⟨f, hf, hfid, hrun⟩ := h.listed op hop j hj
    rw [(hsame _).1]
    refine ⟨_, mem_finalized_findings.mpr ⟨f, hf, rfl⟩, ?_⟩
    split <;> exact ⟨hfid, hrun⟩

theorem finalize {db : Db} (h : Reservations db.findings db.postOperations) (p : Posting) :
    Reservations ((finalizePosting p).run db).2.findings
      ((finalizePosting p).run db).2.postOperations := by
  have ho := finalize_outcome p db
  generalize (finalizePosting p).run db = out at ho ⊢
  cases ho with
  | missing _ => exact h
  | lost _ _ _ => exact h
  | done hget hall => exact h.finalized hget hall

/-! ### Steps that leave the link alone -/

/-- A patch changes the status of a finding that is not reserved. -/
theorem patch {db : Db} (h : Reservations db.findings db.postOperations) (fid : Nat)
    (change : FindingPatch) : Reservations ((patchFinding fid change).run db).2.findings
      ((patchFinding fid change).run db).2.postOperations := by
  have ho := patch_outcome fid change db
  generalize (patchFinding fid change).run db = out at ho ⊢
  cases ho with
  | refused e => exact h
  | @done f status hf hid hnone hcur hs =>
    refine ⟨?_, ?_, ?_⟩
    · intro g' hg' o
      obtain ⟨g, hg, rfl⟩ := mem_patched_findings.mp hg'
      have hlink := h.link g hg o
      split <;> exact hlink
    · intro g' hg' hs'
      obtain ⟨g, hg, rfl⟩ := mem_patched_findings.mp hg'
      by_cases hi : g.id = fid
      · have hgf : g = f := Table.eq_of_id hg hf (hi.trans hid.symm)
        rw [if_pos (by simpa using hi), hgf] at hs'
        simp [decided, hnone] at hs'
      · rw [if_neg (by simpa using hi)] at hs' ⊢
        exact h.approved g hg hs'
    · intro op hop i hi
      obtain ⟨g, hg, hgid, hrun⟩ := h.listed op hop i hi
      refine ⟨_, mem_patched_findings.mpr ⟨g, hg, rfl⟩, ?_⟩
      split <;> exact ⟨hgid, hrun⟩

theorem elsewhere {db db' : Db} (h : Reservations db.findings db.postOperations)
    (he : Elsewhere db db') : Reservations db'.findings db'.postOperations := by
  refine ⟨?_, ?_, ?_⟩
  · intro f' hf' o
    rcases he.findings f' hf' with ⟨f, hf, hid, hrun, -, -, hp⟩ | ⟨hlt, -, hnone⟩
    · rw [hp, h.link f hf o]
      constructor
      · rintro ⟨op, hop, rfl, hr, hu, hm⟩
        rcases he.deleted op hop with hop' | hgone
        · exact ⟨op, hop', rfl, hr.trans hrun.symm, hu, hid ▸ hm⟩
        · exact absurd (hrun.trans hr.symm) (hgone f' hf')
      · rintro ⟨op, hop, rfl, hr, hu, hm⟩
        exact ⟨op, he.operations op hop, rfl, hr.trans hrun, hu, hid ▸ hm⟩
    · rw [hnone]
      constructor
      · intro hn
        cases hn
      · rintro ⟨op, hop, -, -, -, hm⟩
        -- an id that is listed is older
        obtain ⟨f, hf, hid, -⟩ := h.listed op (he.operations op hop) _ hm
        have hold : f.id < db.findings.nextId := Table.lt_nextId hf
        omega
  · intro f' hf' hs
    rcases he.findings f' hf' with ⟨f, hf, -, -, -, hst, hp⟩ | ⟨-, -, hnone⟩
    · rw [hst]
      exact h.approved f hf (hp ▸ hs)
    · rw [hnone] at hs
      cases hs
  · intro op hop i hi
    obtain ⟨f, hf, hid, hrun⟩ := h.listed op (he.operations op hop) i hi
    rcases he.kept f hf with ⟨f', hf', hid'⟩ | hgone
    · rcases he.findings f' hf' with ⟨g, hg, hgid, hgrun, -⟩ | ⟨hlt, -⟩
      · have hgf : g = f := Table.eq_of_id hg hf (hgid.symm.trans hid')
        exact ⟨f', hf', hid'.trans hid, by rw [hgrun, hgf, hrun]⟩
      · have hold : f.id < db.findings.nextId := Table.lt_nextId hf
        omega
    · exact absurd hrun.symm (hgone op hop)

/-- **The step lemma.** Every step keeps the link. -/
theorem step {db db' : Db} {a : PostStep} (h : Reservations db.findings db.postOperations)
    (hs : a.Run db db') : Reservations db'.findings db'.postOperations := by
  cases a with
  | prepare r => exact hs ▸ h.prepare r
  | claim i token => exact hs ▸ h.claim i token
  | markRemote i reviewId url token => exact hs ▸ h.markRemote i reviewId url token
  | markError i error token => exact hs ▸ h.markError i error token
  | abortUnapplied i token => exact hs ▸ h.abortUnapplied i token
  | finalize p => exact hs ▸ h.finalize p
  | patch fid change => exact hs ▸ h.patch fid change
  | elsewhere => exact h.elsewhere hs

theorem inductive_posting : posting.Inductive Sys.anyStep
    fun db => Reservations db.findings db.postOperations where
  init := init
  step h _ hs := h.step hs

end Reservations

/-! ## A new operation that is given up -/

/-- The operation that a claim and the abort of a new operation find. -/
theorem get_preparedOperation {r : PostRequest} {db : Db} :
    (prepared r db).postOperations.get? db.postOperations.nextId = some (preparedOperation r db) :=
  Table.get?_eq_some.mpr ⟨mem_prepared_operations.mpr (.inr rfl), rfl⟩

/-- The findings of a new operation are free again: none was reserved for it before. -/
theorem findings_aborted_prepared {r : PostRequest} {db : Db}
    (h : Reservations db.findings db.postOperations) (hr : Reservable r db) :
    (prepared r db).findings.update
      (fun f => f.postingOperationId == some db.postOperations.nextId)
      (fun f => { f with postingOperationId := none }) = db.findings := by
  refine Table.ext ?_ rfl
  simp only [prepared, Table.update, List.map_map]
  refine (List.map_congr_left fun f hf => ?_).trans (List.map_id _)
  have hne : f.postingOperationId ≠ some db.postOperations.nextId := h.ne_nextId hf
  simp only [Function.comp_apply, id_eq]
  by_cases hi : f.id ∈ r.newIds
  · obtain ⟨-, -, hnone⟩ := Reservations.reservable_row hr hf hi
    have hin : r.newIds.contains (Row.id f) = true := by simpa using hi
    simp only [hin, if_true, reserved, beq_self_eq_true]
    rw [← hnone]
  · have hout : r.newIds.contains (Row.id f) = false := by simpa using hi
    simp only [hout, Bool.false_eq_true, if_false]
    rw [if_neg (by simpa using hne)]

/-- The new operation is deleted and the others are as they were. -/
theorem rows_aborted_prepared (r : PostRequest) (db : Db) (p : PostOperation → Bool)
    (f : PostOperation → PostOperation) (hf : ∀ o, Row.id (f o) = Row.id o)
    (hp : ∀ o, p o = true → o.id = db.postOperations.nextId) :
    (((prepared r db).postOperations.update p f hf).delete
      fun o => o.id == db.postOperations.nextId).rows = db.postOperations.rows := by
  have hold : ∀ o ∈ db.postOperations.rows, (if p o then f o else o) = o ∧
      o.id ≠ db.postOperations.nextId := by
    intro o ho
    have hlt : o.id < db.postOperations.nextId := Table.lt_nextId (t := db.postOperations) ho
    refine ⟨if_neg fun hpo => ?_, by omega⟩
    have := hp o hpo
    omega
  have hnew : (if p (preparedOperation r db) then f (preparedOperation r db)
      else preparedOperation r db).id = db.postOperations.nextId := by
    split
    · exact hf _
    · rfl
  simp only [prepared, Table.delete, Table.update, Table.insert, List.map_append, List.map_cons,
    List.map_nil, List.filter_append]
  have hmap : db.postOperations.rows.map (fun o => if p o then f o else o) =
      db.postOperations.rows :=
    (List.map_congr_left fun o ho => (hold o ho).1).trans (List.map_id _)
  rw [hmap, List.filter_eq_self.mpr fun o ho => by simpa using (hold o ho).2]
  have hlast : ([if p (preparedOperation r db) then f (preparedOperation r db)
      else preparedOperation r db].filter fun o => !(o.id == db.postOperations.nextId)) = [] := by
    simp only [List.filter_cons, List.filter_nil, hnew, beq_self_eq_true, Bool.not_true,
      Bool.false_eq_true, if_false]
  exact (congrArg (db.postOperations.rows ++ ·) hlast).trans (List.append_nil _)

/-- What a new operation that is claimed and given up returns and leaves; the clock shows `t₁` at
the claim and `t₂` at the abort. -/
structure GivesUp (db prepared : Db) (operationId : Nat) (token : Text) (t₁ t₂ : Time) : Prop where
  claims : ((claim operationId token).run (atTime t₁ prepared)).1 = .ok true
  aborts : ((abortUnapplied operationId token).run
    (atTime t₂ ((claim operationId token).run (atTime t₁ prepared)).2)).1 = .ok ()
  findings : ((abortUnapplied operationId token).run
    (atTime t₂ ((claim operationId token).run (atTime t₁ prepared)).2)).2.findings = db.findings
  operations : ((abortUnapplied operationId token).run
    (atTime t₂ ((claim operationId token).run (atTime t₁ prepared)).2)).2.postOperations.rows =
      db.postOperations.rows

theorem givesUp_prepared {r : PostRequest} {db : Db}
    (h : Reservations db.findings db.postOperations) (hr : Reservable r db) (token : Text)
    (t₁ t₂ : Time) : GivesUp db (prepared r db) db.postOperations.nextId token t₁ t₂ := by
  have hmem : preparedOperation r db ∈ (prepared r db).postOperations :=
    mem_prepared_operations.mpr (.inr rfl)
  -- the operation after the claim
  have hget : (claimedOperations db.postOperations.nextId token
      (atTime t₁ (prepared r db))).get? db.postOperations.nextId =
        some { preparedOperation r db with
          status := .applying, ownerToken := some token, lockedAt := some t₁,
          updatedAt := t₁ } := by
    rw [Table.get?_eq_some, claimedOperations, Table.mem_update]
    refine ⟨⟨_, hmem, ?_⟩, rfl⟩
    rw [if_pos (by simp [claimable, preparedOperation, newOperation])]
    rfl
  have habort := run_abortUnapplied db.postOperations.nextId token
    (atTime t₂ ((claim db.postOperations.nextId token).run (atTime t₁ (prepared r db))).2)
  rw [if_pos] at habort
  · refine ⟨?_, by rw [habort], ?_, ?_⟩
    · exact claim_eq_true.mpr ⟨_, hmem, rfl, rfl⟩
    · rw [habort]
      exact findings_aborted_prepared h hr
    · rw [habort]
      apply rows_aborted_prepared r db
      · exact fun _ => rfl
      · intro o ho
        simp only [Bool.and_eq_true, beq_iff_eq] at ho
        exact ho.1
  · rw [run_claim]
    simp only [atTime] at hget ⊢
    rw [hget]
    simp [abortable, truthy, preparedOperation, newOperation]

/-! ## The law -/

/-- What the reservation of findings promises in every state. -/
structure ReservationLaw (db : Db) : Prop where
  /-- A finding is reserved for `o` exactly when the unfinished operation `o` of its run lists
  it. -/
  link : ∀ f ∈ db.findings, ∀ o,
    f.postingOperationId = some o ↔ ReservedFor db.postOperations f o
  /-- A reserved finding is approved or edited. -/
  approved : ∀ f ∈ db.findings, f.postingOperationId.isSome = true →
    f.status = .approved ∨ f.status = .edited
  /-- A `prepare` that raises changes nothing. -/
  prepare_error : ∀ r e, ((prepare r).run db).1 = .error e → ((prepare r).run db).2 = db
  /-- A new operation that is claimed and given up leaves findings and operations as they were. -/
  abort_restores : ∀ r op token t₁ t₂, ((prepare r).run db).1 = .ok op →
    op ∉ db.postOperations → GivesUp db ((prepare r).run db).2 op.id token t₁ t₂

theorem law_of_reservations {db : Db} (h : Reservations db.findings db.postOperations) :
    ReservationLaw db where
  link := h.link
  approved := by
    intro f hf hs
    simpa [postable] using h.approved f hf hs
  prepare_error := by
    intro r e he
    have ho := prepare_outcome r db
    generalize (prepare r).run db = out at ho he
    cases ho with
    | existing _ => cases he
    | taken _ _ => rfl
    | conflict _ _ _ _ => rfl
    | new _ _ _ => cases he
  abort_restores := by
    intro r op token t₁ t₂ hok hnew
    have ho := prepare_outcome r db
    generalize (prepare r).run db = out at ho hok ⊢
    cases ho with
    | existing he =>
      cases hok
      exact absurd (Table.mem_of_find? he) hnew
    | taken _ _ => cases hok
    | conflict _ _ _ _ => cases hok
    | new _ _ hr =>
      cases hok
      exact givesUp_prepared h hr token t₁ t₂

/-- **Findings are reserved consistently.** In every state that any steps reach, the two sides of
the link agree, a reserved finding is approved, and a `prepare` is undone as a whole. -/
theorem reservation_law {db : Db} (h : posting.Reach Sys.anyStep db) : ReservationLaw db :=
  law_of_reservations (Reservations.inductive_posting.reach h)

/-! ## A reviewed pull request -/

/-- A finding of run 1 as the review stores it. -/
def pendingFinding (id : Nat) (claim : Text) : Finding where
  id := id
  runId := 1
  vendorResultId := none
  vendor := "claude".toList
  file := "a.py".toList
  line := 1
  severity := .high
  category := "bug".toList
  claim := claim
  rationale := "r".toList
  confidence := none
  consensus := .single
  consensusGroupId := none
  status := .pending
  editedText := none
  createdAt := none
  postingOperationId := none
  sourceChunkIndex := none
  ownerChunkIndex := none
  scopeStatus := none
  postingEligible := true
  duplicateGroupId := none
  duplicateSuggested := false
  verifyStatus := none
  verifyRationale := none
  verifyIndependent := none
  verifyEvidenceStatus := none

def reviewedRepo : Repo where
  id := 1
  fullName := "o/r".toList
  enabled := true
  triggerMode := .auto
  claudeModel := none
  claudeEffort := none
  codexModel := none
  codexEffort := none
  vendorClaudeOn := true
  vendorCodexOn := true
  mergeEnabled := false
  harnessName := "default".toList
  incrementalReviewOn := none
  verifySinglesOn := none
  skipDraftOn := none
  reviewScopeGuardMode := none
  reviewDedupeMode := none

def reviewedRun : ReviewRun where
  id := 1
  prId := 1
  repoId := some 1
  headSha := "h1".toList
  trigger := .auto
  effort := "medium".toList
  mergeEnabled := false
  status := .done
  startedAt := none
  finishedAt := none
  error := none
  ownerProcessId := none
  ownerJobId := none
  policy := none
  contextText := none
  contextChunks := none
  baseSha := none

def reviewedPr : PullRequest where
  id := 1
  repoId := 1
  number := 7
  title := none
  author := none
  headSha := "h1".toList
  baseRef := none
  baseSha := none
  state := .opened
  url := none
  createdAt := none
  headRef := none
  body := none
  isDraft := false
  lastReviewedSha := none
  updatedAt := none

/-- One reviewed pull request: a run with two pending findings of one vendor. -/
def reviewed : Db :=
  { Db.empty 0 with
    repos := .ofRows [reviewedRepo] 2 (by decide) (by decide)
    pullRequests := .ofRows [reviewedPr] 2 (by decide) (by decide)
    reviewRuns := .ofRows [reviewedRun] 2 (by decide) (by decide)
    findings := .ofRows [pendingFinding 1 "c1".toList, pendingFinding 2 "c2".toList] 3 (by decide)
      (by decide) }

theorem init_reviewed : posting.init reviewed :=
  ⟨rfl, by decide⟩

/-- The database after the user approved a finding. -/
def approve (fid : Nat) (db : Db) : Db := patched fid .approved none db

/-- A run goes on with the step `a`. -/
theorem reach_next {G : Db → PostStep → Prop} {db db' : Db} (a : PostStep)
    (h : posting.Reach G db) (hg : G db a) (hs : a.Run db db') : posting.Reach G db' :=
  .step h hg hs

/-- The request of a posting after the first finding was approved. -/
def firstRequest : PostRequest :=
  (postRequests [] (approve 1 reviewed) 1).head (by decide)

/-- One finding was approved and its posting has begun. -/
theorem reservation_law_begun : ReservationLaw (prepared firstRequest (approve 1 reviewed)) :=
  reservation_law
    (reach_next (.prepare firstRequest)
      (reach_next (.patch 1 ⟨"approved".toList, none⟩) (.init init_reviewed) trivial rfl)
      trivial rfl)

end Post
