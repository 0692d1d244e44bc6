import AlmightyReview.Page.Pages

/-!
# The migration of the summary

What `init_schema` does with `run_finding_summary` of an earlier database: it makes the table or
adds the column `max_finding_id`, adds the rows that are missing, and makes the triggers that are
missing.

* `Schema`: the findings, the summary in one of its forms, and the triggers that the database has.
* `Earlier`: the databases of the earlier generations.
* `Rebuilt`: the summary of every run is the aggregate and stays so, all findings of a run are on
  its pages, and a second migration changes nothing.
* `rebuilt_iff`: this is so unless the table is from before `max_finding_id` and has rows of runs
  with findings, or triggers. The column gets 0 in such rows, `INSERT OR IGNORE` leaves them, and
  a trigger that exists is not made again.
-/

namespace Migration

open FindingSummary PageRepo

/-- A summary row without `max_finding_id`. -/
structure Counts where
  runId : Nat
  count : Counter → Nat

instance : Row Counts := ⟨Counts.runId⟩

/-- The table `run_finding_summary` of a database. -/
inductive SummaryTable where
  | missing
  | withoutMax (rows : Table Counts)
  | current (rows : Table Summary)

abbrev InsertTrigger := FindingRow → Table Summary → Table Summary
abbrev DeleteTrigger := Table FindingRow → FindingRow → Table Summary → Table Summary
abbrev UpdateTrigger := Table FindingRow → FindingRow → FindingRow → Table Summary → Table Summary

/-- What `init_schema` finds and leaves. -/
structure Schema where
  findings : Table FindingRow
  summary : SummaryTable
  onInsert : Option InsertTrigger
  onDelete : Option DeleteTrigger
  onUpdate : Option UpdateTrigger

/-! ## The migration -/

/-- `CREATE TABLE IF NOT EXISTS`, and `_ensure_column` with the default 0. -/
def ensureTable : SummaryTable → Table Summary
  | .missing => .empty
  | .withoutMax rows => rows.mapRows (fun c => ⟨c.runId, 0, c.count⟩) fun _ => rfl
  | .current rows => rows

/-- `INSERT OR IGNORE .. SELECT .. FROM finding GROUP BY run_id`. -/
def backfill (findings : Table FindingRow) (t : Table Summary) : Table Summary :=
  (findings.rows.map FindingRow.runId).foldl (fun t runId => t.put (recomputed findings runId)) t

/-- `CREATE TRIGGER IF NOT EXISTS` leaves a trigger that the database has. -/
def initSchema (s : Schema) : Schema where
  findings := s.findings
  summary := .current (backfill s.findings (ensureTable s.summary))
  onInsert := some (s.onInsert.getD insertTrigger)
  onDelete := some (s.onDelete.getD deleteTrigger)
  onUpdate := some (s.onUpdate.getD updateTrigger)

/-- The tables of a migrated database. -/
def Schema.db (s : Schema) : SummaryDb := ⟨s.findings, ensureTable s.summary⟩

/-- The triggers of a database; a missing trigger does nothing. -/
def Schema.triggers (s : Schema) : Triggers where
  afterInsert := s.onInsert.getD fun _ t => t
  afterDelete := s.onDelete.getD fun _ _ t => t
  afterUpdate := s.onUpdate.getD fun _ _ _ t => t

/-! ## Earlier databases -/

/-- A trigger body that does not name `max_finding_id`: the column keeps its values, and is 0 in
a new row. -/
def IgnoresMax (body : Table Summary → Table Summary) : Prop :=
  ∀ t, ∀ s ∈ body t, s.maxFindingId = 0 ∨ ∃ s₀ ∈ t, s.maxFindingId = s₀.maxFindingId

/-- A database of an earlier generation. The rows of its summary are right, a run may have none,
and each trigger may be there or not. -/
structure Earlier (s : Schema) : Prop where
  /-- Keys start at 1. -/
  keys : ∀ f ∈ s.findings, 0 < f.id
  missing : s.summary = .missing → s.onInsert = none ∧ s.onDelete = none ∧ s.onUpdate = none
  counts : ∀ rows, s.summary = .withoutMax rows →
    ∀ r ∈ rows, r.count = (recomputed s.findings r.runId).count
  insertIgnores : ∀ rows, s.summary = .withoutMax rows →
    ∀ body ∈ s.onInsert, ∀ new, IgnoresMax (body new)
  deleteIgnores : ∀ rows, s.summary = .withoutMax rows →
    ∀ body ∈ s.onDelete, ∀ findings old, IgnoresMax (body findings old)
  updateIgnores : ∀ rows, s.summary = .withoutMax rows →
    ∀ body ∈ s.onUpdate, ∀ findings old new, IgnoresMax (body findings old new)
  current : ∀ rows, s.summary = .current rows →
    (∀ r ∈ rows, r = recomputed s.findings r.runId) ∧
      (∀ body ∈ s.onInsert, body = insertTrigger) ∧
      (∀ body ∈ s.onDelete, body = deleteTrigger) ∧
      ∀ body ∈ s.onUpdate, body = updateTrigger

/-- All findings of every run are on its pages. -/
def PagesComplete (db : SummaryDb) : Prop :=
  ∀ f ∈ db.findings, ∀ limit, db.findings.rows.length ≤ limit →
    f ∈ findingsPage f.runId (findingsSnapshot f.runId db).1 none limit db

/-- What a migration is for. -/
structure Rebuilt (s : Schema) : Prop where
  /-- The summary is the aggregate, also after later changes of the findings. -/
  consistent : ∀ changes : List Change, (∀ c ∈ changes, c.KeepsId) →
    Consistent (applyAll (initSchema s).triggers changes (initSchema s).db)
  pages : ∀ changes : List Change, (∀ c ∈ changes, c.KeepsId) →
    PagesComplete (applyAll (initSchema s).triggers changes (initSchema s).db)
  again : initSchema (initSchema s) = initSchema s

/-- The table has the column, or neither triggers nor rows of runs with findings. -/
def Migratable (s : Schema) : Prop :=
  ∀ rows, s.summary = .withoutMax rows →
    (∀ r ∈ rows, ∀ f ∈ s.findings, f.runId ≠ r.runId) ∧
      s.onInsert = none ∧ s.onDelete = none ∧ s.onUpdate = none

/-! ## Missing rows -/

variable {s : Schema} {findings : Table FindingRow} {t : Table Summary}

theorem get?_foldl_put (runIds : List Nat) (t : Table Summary) (runId : Nat) :
    (runIds.foldl (fun t runId => t.put (recomputed findings runId)) t).get? runId =
      if runId ∈ runIds then some ((t.get? runId).getD (recomputed findings runId))
      else t.get? runId := by
  induction runIds generalizing t with
  | nil => rfl
  | cons i runIds ih =>
    rw [List.foldl_cons, ih, Table.get?_put]
    have hid : Row.id (recomputed findings i) = i := rfl
    rw [hid]
    by_cases hi : runId = i
    · subst hi
      by_cases hm : runId ∈ runIds
      · rw [if_pos hm, if_pos rfl, if_pos List.mem_cons_self]
        rfl
      · rw [if_neg hm, if_pos rfl, if_pos List.mem_cons_self]
    · rw [if_neg hi]
      by_cases hm : runId ∈ runIds
      · rw [if_pos hm, if_pos (List.mem_cons_of_mem _ hm)]
      · rw [if_neg hm, if_neg fun h => (List.mem_cons.mp h).elim hi hm]

theorem get?_backfill (runId : Nat) : (backfill findings t).get? runId =
    if ∃ f ∈ findings, f.runId = runId then
      some ((t.get? runId).getD (recomputed findings runId))
    else t.get? runId := by
  unfold backfill
  rw [get?_foldl_put]
  simp only [List.mem_map]
  rfl

/-- A run without findings has zeros. -/
theorem recomputed_of_none {runId : Nat} (h : ∀ f ∈ findings, f.runId ≠ runId) :
    recomputed findings runId = zeros runId := by
  have hp : ∀ f ∈ findings, ofRun runId f = false := fun f hf => by
    simpa [ofRun] using h f hf
  ext c
  · rfl
  · refine Table.maxId_eq_iff.mpr ⟨fun f hf ht => ?_, .inl rfl⟩
    rw [hp f hf] at ht
    cases ht
  · refine Table.count_eq_zero.mpr fun f hf => ?_
    rw [hp f hf]
    rfl

/-- Right rows and the rows that are added make the summaries the aggregates. -/
theorem consistent_backfill (h : ∀ r ∈ t, r = recomputed findings r.runId) :
    Consistent ⟨findings, backfill findings t⟩ := by
  intro runId
  show ((backfill findings t).get? runId).getD (zeros runId) = recomputed findings runId
  rw [get?_backfill]
  have hrow : ∀ r, t.get? runId = some r → r = recomputed findings runId := by
    intro r hr
    obtain ⟨hmem, hid⟩ := Table.get?_eq_some.mp hr
    have hid' : r.runId = runId := hid
    rw [← hid']
    exact h r hmem
  by_cases hf : ∃ f ∈ findings, f.runId = runId
  · rw [if_pos hf]
    cases hg : t.get? runId with
    | none => rfl
    | some r => exact hrow r hg
  · rw [if_neg hf]
    cases hg : t.get? runId with
    | none =>
      exact (recomputed_of_none fun f hfm heq => hf ⟨f, hfm, heq⟩).symm
    | some r => exact hrow r hg

/-- A second backfill finds nothing to add. -/
theorem backfill_backfill : backfill findings (backfill findings t) = backfill findings t := by
  have hall : ∀ runId ∈ findings.rows.map FindingRow.runId,
      ((backfill findings t).get? runId).isSome := by
    intro runId hr
    obtain ⟨f, hf, rfl⟩ := List.mem_map.mp hr
    rw [get?_backfill, if_pos ⟨f, hf, rfl⟩]
    rfl
  have key : ∀ (runIds : List Nat) (u : Table Summary), (∀ runId ∈ runIds, (u.get? runId).isSome) →
      runIds.foldl (fun t runId => t.put (recomputed findings runId)) u = u := by
    intro runIds u hu
    induction runIds with
    | nil => rfl
    | cons i runIds ih =>
      rw [List.foldl_cons, Table.put_of_isSome (hu i List.mem_cons_self)]
      exact ih fun j hj => hu j (List.mem_cons_of_mem _ hj)
  exact key _ _ hall

/-- **Twice is once.** -/
theorem initSchema_initSchema (s : Schema) : initSchema (initSchema s) = initSchema s := by
  unfold initSchema ensureTable
  rw [backfill_backfill]
  rfl

/-! ## Pages of a consistent database -/

theorem pagesComplete_of_consistent {db : SummaryDb} (h : Consistent db) : PagesComplete db := by
  intro f hf limit hlimit
  have hmax : (findingsSnapshot f.runId db).1 = db.findings.maxId (ofRun f.runId) := by
    have hs := congrArg Summary.maxFindingId (h f.runId)
    unfold summaryOf at hs
    unfold findingsSnapshot
    cases hg : db.summaries.get? f.runId with
    | none =>
      rw [hg] at hs
      exact hs
    | some r =>
      rw [hg] at hs
      exact hs
  have hle : f.id ≤ (findingsSnapshot f.runId db).1 := by
    rw [hmax]
    exact Table.le_maxId (r := f) hf (ofRun_iff.mpr rfl)
  unfold findingsPage Seek.page
  rw [List.take_of_length_le]
  · rw [List.mem_insertionSort, List.mem_filter]
    exact ⟨mem_snapshotRows.mpr ⟨hf, rfl, hle⟩, rfl⟩
  · rw [List.length_insertionSort]
    exact (List.length_filter_le _ _).trans ((List.length_filter_le _ _).trans hlimit)

/-! ## When a migration rebuilds the summary -/

theorem triggers_of_none (hi : s.onInsert = none ∨ s.onInsert = some insertTrigger)
    (hd : s.onDelete = none ∨ s.onDelete = some deleteTrigger)
    (hu : s.onUpdate = none ∨ s.onUpdate = some updateTrigger) :
    (initSchema s).triggers = .current := by
  unfold Schema.triggers initSchema Triggers.current
  rcases hi with hi | hi <;> rcases hd with hd | hd <;> rcases hu with hu | hu <;>
    rw [hi, hd, hu] <;> rfl

theorem eq_none_or {α : Type} {o : Option α} {a : α} (h : ∀ b ∈ o, b = a) :
    o = none ∨ o = some a := by
  cases o with
  | none => exact .inl rfl
  | some b => exact .inr (congrArg some (h b rfl))

/-- After a migration that has nothing old to keep, the triggers are the current ones. -/
theorem triggers_initSchema (h : Earlier s) (hm : Migratable s) :
    (initSchema s).triggers = .current := by
  cases hs : s.summary with
  | missing =>
    obtain ⟨hi, hd, hu⟩ := h.missing hs
    exact triggers_of_none (.inl hi) (.inl hd) (.inl hu)
  | withoutMax rows =>
    obtain ⟨-, hi, hd, hu⟩ := hm rows hs
    exact triggers_of_none (.inl hi) (.inl hd) (.inl hu)
  | current rows =>
    obtain ⟨-, hi, hd, hu⟩ := h.current rows hs
    exact triggers_of_none (eq_none_or hi) (eq_none_or hd) (eq_none_or hu)

theorem consistent_initSchema (h : Earlier s) (hm : Migratable s) :
    Consistent (initSchema s).db := by
  refine consistent_backfill (t := ensureTable s.summary) ?_
  cases hs : s.summary with
  | missing => exact fun r hr => absurd hr Table.mem_empty
  | withoutMax rows =>
    intro r hr
    obtain ⟨c, hc, rfl⟩ := List.mem_map.mp hr
    have hzero := recomputed_of_none ((hm rows hs).1 c hc)
    have hcount := h.counts rows hs c hc
    rw [hzero] at hcount
    show Summary.mk c.runId 0 c.count = recomputed s.findings c.runId
    rw [hzero, hcount]
    rfl
  | current rows => exact (h.current rows hs).1

theorem rebuilt_of_migratable (h : Earlier s) (hm : Migratable s) : Rebuilt s where
  consistent changes hc := by
    rw [triggers_initSchema h hm]
    exact consistent_applyAll (consistent_initSchema h hm) hc
  pages changes hc := by
    rw [triggers_initSchema h hm]
    exact pagesComplete_of_consistent (consistent_applyAll (consistent_initSchema h hm) hc)
  again := initSchema_initSchema s

/-! ## What an old trigger misses -/

/-- Every greatest id of a consistent summary is the id of a finding, or 0. -/
theorem maxFindingId_of_mem {db : SummaryDb} (h : Consistent db) {r : Summary}
    (hr : r ∈ db.summaries) : r.maxFindingId = db.findings.maxId (ofRun r.runId) := by
  have hs : summaryOf db.summaries r.runId = r := by
    unfold summaryOf
    rw [show db.summaries.get? r.runId = some r from Table.get?_of_mem hr]
    rfl
  rw [← hs, h r.runId]
  rfl

/-- A summary with a greatest id has a row. -/
theorem mem_of_maxFindingId {t : Table Summary} {runId : Nat}
    (h : (summaryOf t runId).maxFindingId ≠ 0) : summaryOf t runId ∈ t := by
  unfold summaryOf at h ⊢
  cases hg : t.get? runId with
  | none =>
    rw [hg] at h
    exact absurd rfl h
  | some r => exact (Table.get?_eq_some.mp hg).1

/-- **A body that ignores the column cannot make a new greatest id.** -/
theorem not_consistent_of_ignores {db db' : SummaryDb} {body : Table Summary → Table Summary}
    (hdb : Consistent db) (hbody : IgnoresMax body) (hdb' : db'.summaries = body db.summaries)
    (runId : Nat) (hpos : db'.findings.maxId (ofRun runId) ≠ 0)
    (hnew : ∀ runId', db.findings.maxId (ofRun runId') ≠ db'.findings.maxId (ofRun runId)) :
    ¬Consistent db' := by
  intro h
  have hmax : (summaryOf db'.summaries runId).maxFindingId = db'.findings.maxId (ofRun runId) :=
    congrArg Summary.maxFindingId (h runId)
  have hmem := mem_of_maxFindingId (hmax ▸ hpos)
  rw [hdb'] at hmem
  rcases hbody _ _ hmem with h0 | ⟨r, hr, heq⟩
  · rw [← hdb', hmax] at h0
    exact hpos h0
  · rw [← hdb', hmax, maxFindingId_of_mem hdb hr] at heq
    exact hnew r.runId heq.symm

/-! ## Two new findings -/

section TwoNew

-- two keys after those of all findings
variable (findings : Table FindingRow)

def firstKey : Nat := findings.nextId + 1
def secondKey : Nat := findings.nextId + 2

/-- The findings with one new finding in run 0. -/
def withFirst : Table FindingRow := findings.put (sample (firstKey findings) 0)

/-- The findings with two new findings in run 0. -/
def withBoth : Table FindingRow := (withFirst findings).put (sample (secondKey findings) 0)

variable {findings}

theorem lt_firstKey {f : FindingRow} (h : f ∈ findings) : f.id < firstKey findings := by
  have : f.id < findings.nextId := Table.lt_nextId h
  unfold firstKey
  omega

theorem mem_withFirst {f : FindingRow} :
    f ∈ withFirst findings ↔ f ∈ findings ∨ f = sample (firstKey findings) 0 := by
  unfold withFirst
  rw [Table.mem_put]
  refine or_congr_right ⟨And.left, fun h => ⟨h, fun g hg => ?_⟩⟩
  exact Nat.ne_of_lt (lt_firstKey hg)

theorem lt_secondKey {f : FindingRow} (h : f ∈ withFirst findings) : f.id < secondKey findings := by
  rcases mem_withFirst.mp h with h | rfl
  · exact (lt_firstKey h).trans (Nat.lt_succ_self _)
  · exact Nat.lt_succ_self _

theorem mem_withBoth {f : FindingRow} :
    f ∈ withBoth findings ↔ f ∈ withFirst findings ∨ f = sample (secondKey findings) 0 := by
  unfold withBoth
  rw [Table.mem_put]
  refine or_congr_right ⟨And.left, fun h => ⟨h, fun g hg => ?_⟩⟩
  exact Nat.ne_of_lt (lt_secondKey hg)

/-- Without its newest finding the table is as before. -/
theorem mem_rest {f : FindingRow} :
    f ∈ (withBoth findings).delete (fun f => f.id == (sample (secondKey findings) 0).id) ↔
      f ∈ withFirst findings := by
  rw [Table.mem_delete, mem_withBoth]
  constructor
  · rintro ⟨h | rfl, hne⟩
    · exact h
    · simp at hne
  · intro h
    have hne : f.id ≠ (sample (secondKey findings) 0).id := Nat.ne_of_lt (lt_secondKey h)
    exact ⟨.inl h, by simpa using hne⟩

/-- A greatest id of the earlier findings is below the new keys. -/
theorem maxId_lt (p : FindingRow → Bool) : findings.maxId p < firstKey findings := by
  obtain ⟨-, h | ⟨f, hf, -, hid⟩⟩ := Table.maxId_eq_iff.mp (rfl : findings.maxId p = _)
  · rw [h]
    exact Nat.succ_pos _
  · rw [← hid]
    exact lt_firstKey hf

/-- The greatest id of run 0 in a table with the first new finding, and no later one of the run. -/
theorem maxId_first {t : Table FindingRow} (hfirst : sample (firstKey findings) 0 ∈ t)
    (hle : ∀ f ∈ t, f.runId = 0 → f ∈ withFirst findings) :
    t.maxId (ofRun 0) = firstKey findings := by
  refine Table.maxId_eq_iff.mpr ⟨fun f hf hrun => ?_, .inr ⟨_, hfirst, rfl, rfl⟩⟩
  rcases mem_withFirst.mp (hle f hf (ofRun_iff.mp hrun)) with h | rfl
  · exact (lt_firstKey h).le
  · exact le_rfl

/-- No run has the first new key as its greatest while the second one is in its run. -/
theorem maxId_withBoth_ne (runId : Nat) :
    (withBoth findings).maxId (ofRun runId) ≠ firstKey findings := by
  have hsecond : sample (secondKey findings) 0 ∈ withBoth findings := mem_withBoth.mpr (.inr rfl)
  intro heq
  obtain ⟨hle, hmem⟩ := Table.maxId_eq_iff.mp heq
  rcases hmem with h0 | ⟨f, hf, hrun, hid⟩
  · exact absurd h0 (Nat.succ_ne_zero _)
  · have hrun0 : runId = 0 := by
      rcases mem_withBoth.mp hf with hf | rfl
      · rcases mem_withFirst.mp hf with hf | rfl
        · exact absurd hid (Nat.ne_of_lt (lt_firstKey hf))
        · exact (ofRun_iff.mp hrun).symm
      · exact (ofRun_iff.mp hrun).symm
    subst hrun0
    have : secondKey findings ≤ firstKey findings := hle _ hsecond rfl
    exact absurd this (Nat.not_succ_le_self _)

end TwoNew

/-! ## The condition is necessary -/

section Necessary

variable {rows : Table Counts}

/-- A row that was there keeps the default of the new column. -/
theorem no_findings_of_row (h : Earlier s) (hr : Rebuilt s) (hs : s.summary = .withoutMax rows)
    {r : Counts} (hrow : r ∈ rows) {f : FindingRow} (hf : f ∈ s.findings) : f.runId ≠ r.runId := by
  intro hrun
  have hc := congrArg Summary.maxFindingId (hr.consistent [] (by simp) r.runId)
  have hget : (ensureTable s.summary).get? r.runId = some ⟨r.runId, 0, r.count⟩ := by
    rw [hs]
    exact Table.get?_eq_some.mpr ⟨List.mem_map.mpr ⟨r, hrow, rfl⟩, rfl⟩
  have hkept : summaryOf (initSchema s).db.summaries r.runId = ⟨r.runId, 0, r.count⟩ := by
    show ((backfill s.findings (ensureTable s.summary)).get? r.runId).getD _ = _
    rw [get?_backfill, if_pos ⟨f, hf, hrun⟩, hget]
    rfl
  have hle : f.id ≤ s.findings.maxId (ofRun r.runId) :=
    Table.le_maxId (r := f) hf (ofRun_iff.mpr hrun)
  have h0 : 0 = s.findings.maxId (ofRun r.runId) := by
    have : (summaryOf (initSchema s).db.summaries r.runId).maxFindingId =
        s.findings.maxId (ofRun r.runId) := hc
    rwa [hkept] at this
  have := h.keys f hf
  omega

/-- The database after a new finding of run 0. -/
theorem apply_first (T : Triggers) (db : SummaryDb) :
    applyAll T [.insert (sample (firstKey db.findings) 0)] db =
      ⟨withFirst db.findings,
        T.afterInsert (sample (firstKey db.findings) 0) db.summaries⟩ :=
  Change.apply_insert T fun _ hf => Nat.ne_of_lt (lt_firstKey hf)

theorem keepsId_insert (rows : List FindingRow) :
    ∀ c ∈ rows.map Change.insert, c.KeepsId := by
  intro c hc
  obtain ⟨row, -, rfl⟩ := List.mem_map.mp hc
  trivial

/-- An old insert trigger misses the first new finding. -/
theorem onInsert_eq_none (h : Earlier s) (hr : Rebuilt s) (hs : s.summary = .withoutMax rows) :
    s.onInsert = none := by
  rw [Option.eq_none_iff_forall_ne_some]
  intro body hbody
  have h₁ := hr.consistent [.insert (sample (firstKey s.findings) 0)]
    (keepsId_insert [sample (firstKey s.findings) 0])
  have happly := apply_first (initSchema s).triggers (initSchema s).db
  have hfirst : (withFirst s.findings).maxId (ofRun 0) = firstKey s.findings :=
    maxId_first (mem_withFirst.mpr (.inr rfl)) fun f hf _ => hf
  refine not_consistent_of_ignores (hr.consistent [] (by simp))
    (h.insertIgnores rows hs body hbody (sample (firstKey s.findings) 0)) ?_ 0 ?_ ?_ (happly ▸ h₁)
  · show (s.onInsert.getD insertTrigger) _ _ = body _ _
    rw [hbody]
    rfl
  · show (withFirst s.findings).maxId (ofRun 0) ≠ 0
    rw [hfirst]
    exact Nat.succ_ne_zero _
  · intro runId'
    show s.findings.maxId _ ≠ (withFirst s.findings).maxId (ofRun 0)
    rw [hfirst]
    exact Nat.ne_of_lt (maxId_lt _)

/-- The database after two new findings of run 0. -/
theorem apply_both (T : Triggers) (db : SummaryDb) :
    (applyAll T [.insert (sample (firstKey db.findings) 0),
      .insert (sample (secondKey db.findings) 0)] db).findings = withBoth db.findings := by
  show (Change.apply T (applyAll T [.insert (sample (firstKey db.findings) 0)] db)
    (.insert (sample (secondKey db.findings) 0))).findings = withBoth db.findings
  rw [apply_first, Change.apply_insert T fun _ hf => Nat.ne_of_lt (lt_secondKey hf)]
  rfl

/-- A body that misses a change of the second new finding by which run 0 loses it. -/
theorem not_rebuilt_of_ignores {T : Triggers} {db : SummaryDb} (change : Change)
    {body : Table Summary → Table Summary} (findings : Table FindingRow)
    (hT : ∀ changes : List Change, (∀ c ∈ changes, c.KeepsId) →
      Consistent (applyAll T changes db)) (hkeeps : change.KeepsId) (hbody : IgnoresMax body)
    (happly : ∀ db' : SummaryDb, db'.findings = withBoth db.findings →
      change.apply T db' = ⟨findings, body db'.summaries⟩)
    (hfirst : sample (firstKey db.findings) 0 ∈ findings)
    (hle : ∀ f ∈ findings, f.runId = 0 → f ∈ withFirst db.findings) : False := by
  let both := [Change.insert (sample (firstKey db.findings) 0),
    .insert (sample (secondKey db.findings) 0)]
  have hboth : ∀ c ∈ both, c.KeepsId := keepsId_insert [_, _]
  have hfindings := apply_both T db
  have hend := hT (both ++ [change]) fun c hc => by
    rcases List.mem_append.mp hc with hc | hc
    · exact hboth c hc
    · exact List.mem_singleton.mp hc ▸ hkeeps
  have hlast : applyAll T (both ++ [change]) db =
      ⟨findings, body (applyAll T both db).summaries⟩ := by
    rw [← happly (applyAll T both db) hfindings]
    exact List.foldl_append
  rw [hlast] at hend
  have hmax := maxId_first hfirst hle
  refine not_consistent_of_ignores (hT both hboth) hbody rfl 0 ?_ ?_ hend
  · show findings.maxId (ofRun 0) ≠ 0
    rw [hmax]
    exact Nat.succ_ne_zero _
  · intro runId'
    show (applyAll T both db).findings.maxId _ ≠ findings.maxId (ofRun 0)
    rw [hmax, hfindings]
    exact maxId_withBoth_ne runId'

/-- An old delete trigger misses that the second new finding goes. -/
theorem onDelete_eq_none (h : Earlier s) (hr : Rebuilt s) (hs : s.summary = .withoutMax rows) :
    s.onDelete = none := by
  rw [Option.eq_none_iff_forall_ne_some]
  intro body hbody
  let second := sample (secondKey s.findings) 0
  let rest := (withBoth s.findings).delete fun f => f.id == second.id
  refine not_rebuilt_of_ignores (.delete second.id) rest hr.consistent trivial
    (h.deleteIgnores rows hs body hbody rest second) ?_ ?_ ?_
  · intro db' hdb'
    have hmem : second ∈ db'.findings := by
      rw [hdb']
      exact mem_withBoth.mpr (.inr rfl)
    rw [Change.apply_delete _ hmem, hdb']
    show SummaryDb.mk _ ((s.onDelete.getD deleteTrigger) _ _ _) = _
    rw [hbody]
    rfl
  · exact mem_rest.mpr (mem_withFirst.mpr (.inr rfl))
  · exact fun f hf _ => mem_rest.mp hf

/-- An old update trigger misses that the second new finding moves to run 1. -/
theorem onUpdate_eq_none (h : Earlier s) (hr : Rebuilt s) (hs : s.summary = .withoutMax rows) :
    s.onUpdate = none := by
  rw [Option.eq_none_iff_forall_ne_some]
  intro body hbody
  let second := sample (secondKey s.findings) 0
  let moved := sample (secondKey s.findings) 1
  let after := ((withBoth s.findings).delete fun f => f.id == second.id).put moved
  refine not_rebuilt_of_ignores (.update second.id { runId := some 1 }) after hr.consistent rfl
    (h.updateIgnores rows hs body hbody after second moved) ?_ ?_ ?_
  · intro db' hdb'
    have hmem : second ∈ db'.findings := by
      rw [hdb']
      exact mem_withBoth.mpr (.inr rfl)
    rw [Change.apply_update _ hmem rfl, hdb']
    show SummaryDb.mk _ ((s.onUpdate.getD updateTrigger) _ _ _ _) = _
    rw [hbody]
    rfl
  · exact Table.mem_put.mpr (.inl (mem_rest.mpr (mem_withFirst.mpr (.inr rfl))))
  · intro f hf hrun
    rcases Table.mem_put.mp hf with hf | ⟨rfl, -⟩
    · exact mem_rest.mp hf
    · cases hrun

theorem migratable_of_rebuilt (h : Earlier s) (hr : Rebuilt s) : Migratable s := fun _ hs =>
  ⟨fun _ hrow _ hf => no_findings_of_row h hr hs hrow hf, onInsert_eq_none h hr hs,
    onDelete_eq_none h hr hs, onUpdate_eq_none h hr hs⟩

end Necessary

/-- **When a migration rebuilds the summary**: exactly when the database has the column already, or
no row of a run with findings and no trigger from before it. -/
theorem rebuilt_iff (s : Schema) (h : Earlier s) : Rebuilt s ↔ Migratable s :=
  ⟨migratable_of_rebuilt h, rebuilt_of_migratable h⟩

/-! ## Concrete databases -/

/-- One finding of run 7, and no summary yet. -/
def unsummarized : Schema where
  findings := Table.empty.put (sample 1 7)
  summary := .missing
  onInsert := none
  onDelete := none
  onUpdate := none

theorem earlier_unsummarized : Earlier unsummarized where
  keys := by decide
  missing _ := ⟨rfl, rfl, rfl⟩
  counts _ hs := by cases hs
  insertIgnores _ hs := by cases hs
  deleteIgnores _ hs := by cases hs
  updateIgnores _ hs := by cases hs
  current _ hs := by cases hs

theorem rebuilt_unsummarized : Rebuilt unsummarized :=
  (rebuilt_iff unsummarized earlier_unsummarized).mpr fun _ hs => by cases hs

/-- One finding of run 7, with a summary from before `max_finding_id`. -/
def counted : Schema where
  findings := Table.empty.put (sample 1 7)
  summary := .withoutMax (Table.empty.put ⟨7, (first (sample 1 7)).count⟩)
  onInsert := none
  onDelete := none
  onUpdate := none

theorem earlier_counted : Earlier counted where
  keys := by decide
  missing hs := by cases hs
  counts rows hs r hr := by
    obtain rfl : _ = rows := SummaryTable.withoutMax.inj hs
    obtain rfl : r = ⟨7, (first (sample 1 7)).count⟩ := List.mem_singleton.mp hr
    funext c
    cases c <;> rfl
  insertIgnores _ _ _ hbody := by cases hbody
  deleteIgnores _ _ _ hbody := by cases hbody
  updateIgnores _ _ _ hbody := by cases hbody
  current _ hs := by cases hs

/-- The migrated summary has the default 0 for the greatest id, and the page of the run is empty. -/
theorem not_rebuilt_counted : Earlier counted ∧
    (findingsPage 7 (findingsSnapshot 7 (initSchema counted).db).1 none 50
      (initSchema counted).db) = [] ∧
    ¬Rebuilt counted := by
  have hpage : findingsPage 7 (findingsSnapshot 7 (initSchema counted).db).1 none 50
      (initSchema counted).db = [] := by decide
  refine ⟨earlier_counted, hpage, fun h => ?_⟩
  have hmem : sample 1 7 ∈ findingsPage 7 (findingsSnapshot 7 (initSchema counted).db).1 none 50
      (initSchema counted).db :=
    h.pages [] (by simp) (sample 1 7) (Table.mem_put.mpr (.inr ⟨rfl, by simp⟩)) 50 (by decide)
  rw [hpage] at hmem
  cases hmem

end Migration
