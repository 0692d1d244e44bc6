import AlmightyReview.Lib.Double
import AlmightyReview.Lib.Table

/-!
# The summary of the findings of a run

`run_finding_summary` has the counts of the findings of a run and their greatest id. The triggers
of the schema keep it, one row change after the other.

* `FindingRow`: a row of `finding` as the schema stores it, with any text as its status.
* `Counter`: a counted column, and which findings it counts.
* `insertTrigger`, `deleteTrigger`, `updateTrigger`: the bodies of the triggers. A `MAX(0, n-1)` of
  a count is the subtraction of natural numbers.
* `Change`: a change of one row. A statement that changes several rows is the sequence of its
  changes: the triggers are run after each row.
* `Consistent`: the summary of every run is the aggregate of its findings.
-/

/-- A row of `finding`, with the columns that the summary and the pages read. -/
structure FindingRow where
  id : Nat
  runId : Nat
  file : Option Text
  severity : Option Text
  confidence : Option Double
  consensus : Option Text
  status : Text
  postingEligible : Int
  deriving DecidableEq

instance : Row FindingRow := ⟨FindingRow.id⟩

@[simp] theorem FindingRow.row_id (f : FindingRow) : Row.id f = f.id := rfl

namespace FindingSummary

/-! ## Columns -/

/-- A column that counts findings. -/
inductive Counter where
  | total | pending | approved | dismissed | edited | posted | unknown | postable
  deriving DecidableEq, Repr

/-- The statuses that have a column of their own. -/
def known : List Text :=
  ["pending".toList, "approved".toList, "dismissed".toList, "edited".toList, "posted".toList]

/-- The findings that a column counts. -/
def Counter.meets : Counter → FindingRow → Bool
  | total, _ => true
  | pending, f => f.status == "pending".toList
  | approved, f => f.status == "approved".toList
  | dismissed, f => f.status == "dismissed".toList
  | edited, f => f.status == "edited".toList
  | posted, f => f.status == "posted".toList
  | unknown, f => !known.contains f.status
  | postable, f =>
    f.postingEligible == 1 && (f.status == "approved".toList || f.status == "edited".toList)

/-- What one finding adds to a column. -/
def Counter.amount (c : Counter) (f : FindingRow) : Nat := if c.meets f then 1 else 0

/-- A row of `run_finding_summary`; its key is `runId`. -/
@[ext]
structure Summary where
  runId : Nat
  maxFindingId : Nat
  count : Counter → Nat

instance : Row Summary := ⟨Summary.runId⟩

@[simp] theorem Summary.row_id (s : Summary) : Row.id s = s.runId := rfl

def zeros (runId : Nat) : Summary := ⟨runId, 0, fun _ => 0⟩

/-- The tables of the findings and of their summaries. -/
structure SummaryDb where
  findings : Table FindingRow
  summaries : Table Summary

/-- The summary of a run; a missing row counts as zeros. -/
def summaryOf (t : Table Summary) (runId : Nat) : Summary := (t.get? runId).getD (zeros runId)

/-! ## Recomputation -/

def ofRun (runId : Nat) (f : FindingRow) : Bool := f.runId == runId

/-- The aggregate of the findings of a run. -/
def recomputed (findings : Table FindingRow) (runId : Nat) : Summary where
  runId := runId
  maxFindingId := findings.maxId (ofRun runId)
  count c := findings.count fun f => ofRun runId f && c.meets f

/-- Every column of the summary of every run is the aggregate of its findings. -/
def Consistent (db : SummaryDb) : Prop :=
  ∀ runId, summaryOf db.summaries runId = recomputed db.findings runId

/-! ## Triggers -/

/-- The summary of a run with one finding. -/
def first (new : FindingRow) : Summary := ⟨new.runId, new.id, fun c => c.amount new⟩

/-- A summary with one finding more. -/
def Summary.add (new : FindingRow) (s : Summary) : Summary :=
  { s with
    maxFindingId := max s.maxFindingId new.id
    count := fun c => s.count c + c.amount new }

/-- A summary with one finding less, and what becomes of its greatest id. -/
def Summary.remove (old : FindingRow) (last : Nat → Nat) (s : Summary) : Summary :=
  { s with
    maxFindingId := last s.maxFindingId
    count := fun c => s.count c - c.amount old }

/-- `trg_finding_summary_insert`. -/
def insertTrigger (new : FindingRow) (t : Table Summary) : Table Summary :=
  t.upsert (first new) (Summary.add new)

/-- `trg_finding_summary_delete`; `findings` are those that are left. -/
def deleteTrigger (findings : Table FindingRow) (old : FindingRow) (t : Table Summary) :
    Table Summary :=
  t.update (fun s => s.runId == old.runId) (Summary.remove old fun m =>
    if m = old.id then findings.maxId (ofRun old.runId) else m)

/-- `trg_finding_summary_update`; `findings` are those after the update. -/
def updateTrigger (findings : Table FindingRow) (old new : FindingRow) (t : Table Summary) :
    Table Summary :=
  insertTrigger new (t.update (fun s => s.runId == old.runId) (Summary.remove old fun m =>
    if old.runId ≠ new.runId ∧ m = old.id then findings.maxId (ofRun old.runId) else m))

/-- The triggers of a database. -/
structure Triggers where
  afterInsert : FindingRow → Table Summary → Table Summary
  afterDelete : Table FindingRow → FindingRow → Table Summary → Table Summary
  afterUpdate : Table FindingRow → FindingRow → FindingRow → Table Summary → Table Summary

/-- The triggers of the schema. -/
def Triggers.current : Triggers := ⟨insertTrigger, deleteTrigger, updateTrigger⟩

/-! ## Changes of the findings -/

/-- The `SET` list of an `UPDATE`: the columns that it names, with their values. -/
structure Assignments where
  id : Option Nat := none
  runId : Option Nat := none
  file : Option (Option Text) := none
  severity : Option (Option Text) := none
  confidence : Option (Option Double) := none
  consensus : Option (Option Text) := none
  status : Option Text := none
  postingEligible : Option Int := none
  deriving DecidableEq

def Assignments.assign (a : Assignments) (f : FindingRow) : FindingRow where
  id := a.id.getD f.id
  runId := a.runId.getD f.runId
  file := a.file.getD f.file
  severity := a.severity.getD f.severity
  confidence := a.confidence.getD f.confidence
  consensus := a.consensus.getD f.consensus
  status := a.status.getD f.status
  postingEligible := a.postingEligible.getD f.postingEligible

/-- `UPDATE OF status,posting_eligible,run_id`: the update trigger is run for these columns. -/
def Assignments.watched (a : Assignments) : Bool :=
  a.status.isSome || a.postingEligible.isSome || a.runId.isSome

/-- A change of one row of `finding`. An `INSERT` that names no key takes the next one. -/
inductive Change where
  | insert (row : FindingRow)
  | update (id : Nat) (set : Assignments)
  | delete (id : Nat)
  deriving DecidableEq

/-- One change under the triggers. A key that is in use is an error, which changes nothing. -/
def Change.apply (T : Triggers) (db : SummaryDb) : Change → SummaryDb
  | insert row =>
    if (db.findings.get? row.id).isSome then db
    else ⟨db.findings.put row, T.afterInsert row db.summaries⟩
  | update id set =>
    match db.findings.get? id with
    | none => db
    | some old =>
      let rest := db.findings.delete fun f => f.id == old.id
      let new := set.assign old
      if (rest.get? new.id).isSome then db
      else if set.watched then ⟨rest.put new, T.afterUpdate (rest.put new) old new db.summaries⟩
      else ⟨rest.put new, db.summaries⟩
  | delete id =>
    match db.findings.get? id with
    | none => db
    | some old =>
      let rest := db.findings.delete fun f => f.id == old.id
      ⟨rest, T.afterDelete rest old db.summaries⟩

theorem Change.apply_insert (T : Triggers) {db : SummaryDb} {row : FindingRow}
    (h : ∀ f ∈ db.findings, f.id ≠ row.id) :
    (Change.insert row).apply T db = ⟨db.findings.put row, T.afterInsert row db.summaries⟩ := by
  have hg : db.findings.get? row.id = none := Table.get?_eq_none.mpr h
  simp [Change.apply, hg]

theorem Change.apply_delete (T : Triggers) {db : SummaryDb} {old : FindingRow}
    (h : old ∈ db.findings) :
    (Change.delete old.id).apply T db =
      ⟨db.findings.delete fun f => f.id == old.id,
        T.afterDelete (db.findings.delete fun f => f.id == old.id) old db.summaries⟩ := by
  have hg : db.findings.get? old.id = some old := Table.get?_of_mem h
  simp [Change.apply, hg]

/-- The rows without the old one have no row with its key. -/
theorem ne_of_mem_rest {findings : Table FindingRow} {old f : FindingRow}
    (hf : f ∈ findings.delete fun f => f.id == old.id) : f.id ≠ old.id := by
  simpa using (Table.mem_delete.mp hf).2

theorem Change.apply_update (T : Triggers) {db : SummaryDb} {old : FindingRow} {set : Assignments}
    (h : old ∈ db.findings) (hid : set.id = none) :
    (Change.update old.id set).apply T db =
      let findings := (db.findings.delete fun f => f.id == old.id).put (set.assign old)
      ⟨findings, if set.watched then T.afterUpdate findings old (set.assign old) db.summaries
        else db.summaries⟩ := by
  have hg : db.findings.get? old.id = some old := Table.get?_of_mem h
  have hfree : (db.findings.delete fun f => f.id == old.id).get? (set.assign old).id = none := by
    rw [show (set.assign old).id = old.id by simp [Assignments.assign, hid]]
    exact Table.get?_eq_none.mpr fun f hf => ne_of_mem_rest hf
  simp only [Change.apply, hg, hfree, Option.isSome_none, Bool.false_eq_true, if_false]
  split <;> rfl

def applyAll (T : Triggers) (changes : List Change) (db : SummaryDb) : SummaryDb :=
  changes.foldl (Change.apply T) db

/-- The change names no new key for a row. -/
def Change.KeepsId : Change → Prop
  | update _ set => set.id = none
  | _ => True

instance : DecidablePred Change.KeepsId := fun c =>
  match c with
  | .insert _ => isTrue trivial
  | .update _ set => inferInstanceAs (Decidable (set.id = none))
  | .delete _ => isTrue trivial

/-! ## Summaries after a trigger -/

variable {t : Table Summary} {findings : Table FindingRow} {old new : FindingRow} {runId : Nat}

theorem add_zeros : (zeros new.runId).add new = first new := by
  ext
  · rfl
  · show max 0 new.id = new.id
    omega
  · show 0 + _ = _
    rw [Nat.zero_add]
    rfl

theorem summaryOf_insertTrigger : summaryOf (insertTrigger new t) runId =
    if runId = new.runId then (summaryOf t runId).add new else summaryOf t runId := by
  unfold summaryOf insertTrigger
  rw [Table.get?_upsert]
  by_cases h : runId = new.runId
  · subst h
    rw [if_pos rfl, if_pos (show new.runId = Row.id (first new) from rfl)]
    cases t.get? new.runId with
    | none => exact add_zeros.symm
    | some s => rfl
  · rw [if_neg h, if_neg (show ¬runId = Row.id (first new) from h)]

/-- What the `UPDATE` of a trigger leaves, when the run of the old row has a summary. -/
theorem summaryOf_remove (last : Nat → Nat) (h : (t.get? old.runId).isSome) :
    summaryOf (t.update (fun s => s.runId == old.runId) (Summary.remove old last)) runId =
      if runId = old.runId then (summaryOf t runId).remove old last else summaryOf t runId := by
  unfold summaryOf
  rw [Table.get?_update]
  by_cases hr : runId = old.runId
  · subst hr
    obtain ⟨s, hs⟩ := Option.isSome_iff_exists.mp h
    have hid : s.runId = old.runId := (Table.get?_eq_some.mp hs).2
    rw [if_pos rfl, hs]
    simp [hid]
  · rw [if_neg hr]
    cases hs : t.get? runId with
    | none => rfl
    | some s =>
      have hid : s.runId = runId := (Table.get?_eq_some.mp hs).2
      simp [hid, hr]

/-! ## Recomputations after a change -/

theorem ofRun_iff {f : FindingRow} : ofRun runId f = true ↔ f.runId = runId := by
  simp [ofRun]

/-- A row that is inserted adds itself to its run. -/
theorem recomputed_put (h : ∀ f ∈ findings, f.id ≠ new.id) : recomputed (findings.put new) runId =
    if runId = new.runId then (recomputed findings runId).add new
    else recomputed findings runId := by
  by_cases hr : runId = new.runId
  · have hp : ofRun runId new = true := ofRun_iff.mpr hr.symm
    rw [if_pos hr]
    ext c
    · rfl
    · show (findings.put new).maxId _ = max (findings.maxId _) new.id
      rw [Table.maxId_put h, if_pos hp]
      rfl
    · show (findings.put new).count _ = findings.count _ + c.amount new
      rw [Table.count_put h]
      simp [hp, Counter.amount]
  · have hp : ofRun runId new = false := by
      simpa [ofRun] using Ne.symm hr
    rw [if_neg hr]
    ext c
    · rfl
    · show (findings.put new).maxId _ = findings.maxId _
      rw [Table.maxId_put h, if_neg (by simp [hp])]
    · show (findings.put new).count _ = findings.count _
      rw [Table.count_put h]
      simp [hp]

/-- A row that goes takes itself from its run; the greatest id is that of the rows that are left. -/
theorem recomputed_delete (h : old ∈ findings) :
    recomputed (findings.delete fun f => f.id == old.id) runId =
      if runId = old.runId then (recomputed findings runId).remove old fun _ =>
        (findings.delete fun f => f.id == old.id).maxId (ofRun old.runId)
      else recomputed findings runId := by
  by_cases hr : runId = old.runId
  · have hp : ofRun runId old = true := ofRun_iff.mpr hr.symm
    rw [if_pos hr]
    ext c
    · rfl
    · subst hr
      rfl
    · show (findings.delete fun f => f.id == old.id).count _ = findings.count _ - c.amount old
      have := Table.count_delete_id (q := fun f => ofRun runId f && c.meets f) h
      simp only [hp, Bool.true_and] at this
      unfold Counter.amount
      simp only [FindingRow.row_id] at this
      omega
  · have hp : ofRun runId old = false := by
      simpa [ofRun] using Ne.symm hr
    rw [if_neg hr]
    ext c
    · rfl
    · exact Table.maxId_delete_of_ne h fun ht => by simp [hp] at ht
    · show (findings.delete fun f => f.id == old.id).count _ = findings.count _
      have := Table.count_delete_id (q := fun f => ofRun runId f && c.meets f) h
      simpa [hp] using this.symm

/-- The greatest id of a run after a row went, as a trigger finds it. -/
theorem last_delete (h : old ∈ findings) :
    (if findings.maxId (ofRun old.runId) = old.id then
        (findings.delete fun f => f.id == old.id).maxId (ofRun old.runId)
      else findings.maxId (ofRun old.runId)) =
      (findings.delete fun f => f.id == old.id).maxId (ofRun old.runId) := by
  by_cases hm : findings.maxId (ofRun old.runId) = old.id
  · rw [if_pos hm]
  · rw [if_neg hm]
    exact (Table.maxId_delete_of_ne h fun _ => hm).symm

/-! ## One change -/

variable {db : SummaryDb}

/-- A run with a finding has a summary. -/
theorem Consistent.summary_isSome (h : Consistent db) (hold : old ∈ db.findings) :
    (db.summaries.get? old.runId).isSome := by
  rw [Option.isSome_iff_ne_none]
  intro hn
  have hz : summaryOf db.summaries old.runId = zeros old.runId := by
    unfold summaryOf
    rw [hn]
    rfl
  have hc : (recomputed db.findings old.runId).count .total = 0 := by
    rw [← h, hz]
    rfl
  have hp : 0 < (recomputed db.findings old.runId).count .total :=
    Table.count_pos.mpr ⟨old, hold, by simp [ofRun, Counter.meets]⟩
  omega

theorem consistent_insert (h : Consistent db) (hnew : ∀ f ∈ db.findings, f.id ≠ new.id) :
    Consistent ⟨db.findings.put new, insertTrigger new db.summaries⟩ := by
  intro runId
  show summaryOf (insertTrigger new db.summaries) runId = recomputed (db.findings.put new) runId
  rw [summaryOf_insertTrigger, recomputed_put hnew, h]

theorem consistent_delete (h : Consistent db) (hold : old ∈ db.findings) :
    Consistent ⟨db.findings.delete fun f => f.id == old.id,
      deleteTrigger (db.findings.delete fun f => f.id == old.id) old db.summaries⟩ := by
  intro runId
  show summaryOf (deleteTrigger _ old db.summaries) runId = recomputed _ runId
  unfold deleteTrigger
  rw [summaryOf_remove _ (h.summary_isSome hold), recomputed_delete hold, h]
  by_cases hr : runId = old.runId
  · subst hr
    rw [if_pos rfl, if_pos rfl]
    ext c
    · rfl
    · exact last_delete hold
    · rfl
  · rw [if_neg hr, if_neg hr]

/-- The summary of a run when a row of it stays in it. -/
theorem add_remove_same (hold : old ∈ findings) (hid : new.id = old.id) :
    ((recomputed findings old.runId).remove old id).add new =
      ((recomputed findings old.runId).remove old fun _ =>
        (findings.delete fun f => f.id == old.id).maxId (ofRun old.runId)).add new := by
  have hp : ofRun old.runId old = true := ofRun_iff.mpr rfl
  have hle : old.id ≤ findings.maxId (ofRun old.runId) := Table.le_maxId hold hp
  ext c
  · rfl
  · show max (findings.maxId (ofRun old.runId)) new.id =
      max ((findings.delete fun f => f.id == old.id).maxId (ofRun old.runId)) new.id
    rw [hid, max_eq_left hle]
    exact (Table.maxId_delete_id hold hp).symm
  · rfl

theorem consistent_update (h : Consistent db) (hold : old ∈ db.findings) (hid : new.id = old.id) :
    Consistent ⟨(db.findings.delete fun f => f.id == old.id).put new,
      updateTrigger ((db.findings.delete fun f => f.id == old.id).put new) old new
        db.summaries⟩ := by
  have hne : ∀ f ∈ db.findings.delete fun f => f.id == old.id, f.id ≠ new.id := fun f hf => by
    rw [hid]
    exact ne_of_mem_rest hf
  intro runId
  show summaryOf (updateTrigger _ old new db.summaries) runId = recomputed _ runId
  unfold updateTrigger
  rw [summaryOf_insertTrigger, summaryOf_remove _ (h.summary_isSome hold), recomputed_put hne,
    recomputed_delete hold, h]
  by_cases hrun : old.runId = new.runId
  · -- the row stays in its run: the greatest id stays too
    simp only [hrun, ne_eq, not_true_eq_false, false_and, if_false]
    by_cases hr : runId = new.runId
    · subst hr
      rw [if_pos rfl, if_pos rfl, if_pos rfl, if_pos rfl, ← hrun]
      exact add_remove_same hold hid
    · rw [if_neg hr, if_neg hr, if_neg hr, if_neg hr]
  · -- the row moves: its old run loses it as in a deletion
    have hlast : ((db.findings.delete fun f => f.id == old.id).put new).maxId (ofRun old.runId) =
        (db.findings.delete fun f => f.id == old.id).maxId (ofRun old.runId) := by
      rw [Table.maxId_put hne, if_neg]
      rw [ofRun_iff]
      exact Ne.symm hrun
    simp only [ne_eq, hrun, not_false_eq_true, true_and, hlast]
    by_cases hr : runId = old.runId
    · subst hr
      rw [if_neg hrun, if_pos rfl, if_neg hrun, if_pos rfl]
      ext c
      · rfl
      · exact last_delete hold
      · rfl
    · rw [if_neg hr, if_neg hr]

/-- An update that names no watched column leaves what the summary reads. -/
theorem consistent_unwatched (h : Consistent db) (hold : old ∈ db.findings) (hid : new.id = old.id)
    (hrun : new.runId = old.runId) (hmeets : ∀ c : Counter, c.meets new = c.meets old) :
    Consistent ⟨(db.findings.delete fun f => f.id == old.id).put new, db.summaries⟩ := by
  have hne : ∀ f ∈ db.findings.delete fun f => f.id == old.id, f.id ≠ new.id := fun f hf => by
    rw [hid]
    exact ne_of_mem_rest hf
  intro runId
  show summaryOf db.summaries runId = recomputed _ runId
  rw [recomputed_put hne, recomputed_delete hold, h, hrun]
  by_cases hr : runId = old.runId
  · subst hr
    have hp : ofRun old.runId old = true := ofRun_iff.mpr rfl
    rw [if_pos rfl, if_pos rfl, ← add_remove_same hold hid]
    have hle : old.id ≤ db.findings.maxId (ofRun old.runId) := Table.le_maxId hold hp
    ext c
    · rfl
    · show db.findings.maxId _ = max (db.findings.maxId _) new.id
      rw [hid, max_eq_left hle]
    · show db.findings.count _ = db.findings.count _ - c.amount old + c.amount new
      have hc := Table.count_delete_id (q := fun f => ofRun old.runId f && c.meets f) hold
      simp only [hp, Bool.true_and] at hc
      unfold Counter.amount
      rw [hmeets c]
      omega
  · rw [if_neg hr, if_neg hr]

/-- What an assignment of other columns keeps. -/
theorem Assignments.assign_unwatched {a : Assignments} (h : a.watched = false) (f : FindingRow) :
    (a.assign f).runId = f.runId ∧ ∀ c : Counter, c.meets (a.assign f) = c.meets f := by
  unfold watched at h
  simp only [Bool.or_eq_false_iff, Option.isSome_eq_false_iff, Option.isNone_iff_eq_none] at h
  obtain ⟨⟨hs, he⟩, hr⟩ := h
  refine ⟨by simp [assign, hr], fun c => ?_⟩
  cases c <;> simp [Counter.meets, assign, hs, he]

/-- One change that keeps the keys keeps the summaries. -/
theorem consistent_apply (h : Consistent db) {c : Change} (hc : c.KeepsId) :
    Consistent (c.apply .current db) := by
  cases c with
  | insert row =>
    by_cases hs : (db.findings.get? row.id).isSome
    · show Consistent (if _ then _ else _)
      rw [if_pos hs]
      exact h
    · have hnew : ∀ f ∈ db.findings, f.id ≠ row.id :=
        Table.get?_eq_none.mp (Option.not_isSome_iff_eq_none.mp hs)
      rw [Change.apply_insert _ hnew]
      exact consistent_insert h hnew
  | update id set =>
    cases hg : db.findings.get? id with
    | none =>
      simp only [Change.apply, hg]
      exact h
    | some old =>
      obtain ⟨hold, rfl⟩ := Table.get?_eq_some.mp hg
      have hset : set.id = none := hc
      have hid : (set.assign old).id = old.id := by
        simp [Assignments.assign, hset]
      rw [show Row.id old = old.id from rfl, Change.apply_update _ hold hset]
      by_cases hw : set.watched = true
      · simp only [hw, if_true]
        exact consistent_update h hold hid
      · obtain ⟨hrun, hmeets⟩ := set.assign_unwatched (Bool.not_eq_true _ ▸ hw) old
        simp only [hw]
        exact consistent_unwatched h hold hid hrun hmeets
  | delete id =>
    cases hg : db.findings.get? id with
    | none =>
      simp only [Change.apply, hg]
      exact h
    | some old =>
      obtain ⟨hold, rfl⟩ := Table.get?_eq_some.mp hg
      rw [show Row.id old = old.id from rfl, Change.apply_delete _ hold]
      exact consistent_delete h hold

/-! ## Runs of changes -/

theorem consistent_applyAll (h : Consistent db) {changes : List Change}
    (hc : ∀ c ∈ changes, c.KeepsId) : Consistent (applyAll .current changes db) := by
  induction changes generalizing db with
  | nil => exact h
  | cons c changes ih =>
    exact ih (consistent_apply h (hc c List.mem_cons_self))
      fun c' hc' => hc c' (List.mem_cons_of_mem _ hc')

/-- **The summary is the aggregate.** After any changes that keep the keys, every column of the
summary of every run is the aggregate of its findings. -/
theorem summary_eq_recomputed (db : SummaryDb) (h : Consistent db) (changes : List Change)
    (hc : ∀ c ∈ changes, c.KeepsId) (runId : Nat) :
    summaryOf (applyAll .current changes db).summaries runId =
      recomputed (applyAll .current changes db).findings runId :=
  consistent_applyAll h hc runId

/-! ## Runs on concrete databases -/

/-- The database without findings. -/
def SummaryDb.empty : SummaryDb := ⟨.empty, .empty⟩

theorem consistent_empty : Consistent .empty := by
  intro runId
  rfl

/-- A pending finding. -/
def sample (id runId : Nat) : FindingRow where
  id := id
  runId := runId
  file := some "a.py".toList
  severity := some "high".toList
  confidence := some .half
  consensus := some "single".toList
  status := "pending".toList
  postingEligible := 1

theorem summary_eq_recomputed_run :
    summaryOf (applyAll .current [.insert (sample 1 7), .insert (sample 2 7),
      .update 2 { runId := some 8 }, .update 1 { status := some "approved".toList },
      .delete 2] .empty).summaries 7 =
    recomputed (applyAll .current [.insert (sample 1 7), .insert (sample 2 7),
      .update 2 { runId := some 8 }, .update 1 { status := some "approved".toList },
      .delete 2] .empty).findings 7 :=
  summary_eq_recomputed .empty consistent_empty _ (by decide) 7

/-- An update of the key is not followed: the trigger is run for other columns. -/
theorem summary_ne_after_id_update :
    ¬∀ (db : SummaryDb), Consistent db → ∀ (changes : List Change) (runId : Nat),
      summaryOf (applyAll .current changes db).summaries runId =
        recomputed (applyAll .current changes db).findings runId := by
  intro h
  have := congrArg Summary.maxFindingId
    (h .empty consistent_empty [.insert (sample 1 7), .update 1 { id := some 5 }] 7)
  revert this
  decide

end FindingSummary
