import AlmightyReview.Lib.Sys
import AlmightyReview.Review.Batches
import AlmightyReview.Review.Pipeline

/-!
# Duplicates of a run, batch after batch

The first batch of findings of a run is stored at its end, and every retry stores one more. In
between other columns of the findings change, and other runs have findings too.

* `FromVendor`: the results that `_run_vendor` gives.
* `Basis`: what all batches of a run share. `batches`: the system.
* `OneRepresentative`, `FaithfulGroups`: what holds of the findings of a run.
* `Leading`: the invariant of eligibility. Of the findings with a key that a chunk owns the oldest
  may be posted. `leading_persisted`: storing findings keeps it.
* `GroupedBy`: the invariant of groups. Every finding is in the group of its key, and the keys with
  several findings have groups. `groupedBy_persisted`: storing findings keeps it.
-/

namespace Duplicates

open Pipeline FindingPolicy

/-! ## The system -/

/-- A finding as `parse_findings` makes it: the columns of the server have their defaults. -/
def Parsed (f : ReviewFinding) : Prop :=
  f = {
    vendor := f.vendor
    file := f.file
    line := f.line
    severity := f.severity
    category := f.category
    claim := f.claim
    rationale := f.rationale
    confidence := f.confidence }

/-- What `_run_vendor` gives for some answers of a vendor, or without its credentials. -/
inductive FromVendor : VendorRunResult → Prop
  | ran (vendor : Text) (outcomes : List (ExecutionChunk × List ReviewFinding)) (durationMs : Nat) :
    (∀ o ∈ outcomes, ∃ c answer elapsedMs, o = chunkOutcome vendor c answer elapsedMs ∧
      ∀ fs t, answer = .reviewed fs t → ∀ f ∈ fs, Parsed f) →
    FromVendor (vendorRunResult vendor outcomes durationMs)
  | refused (vendor : Text) (prompts : List PromptChunk) (safeErrorCode : Text) :
    FromVendor (runtimeFailureResult vendor prompts safeErrorCode)

/-- What all batches of a run share. A retry takes place on the chunks of its run only. -/
structure Basis where
  runId : Nat
  canonicalClaim : Text → Text
  chunks : List PromptChunk
  scopeMode : Text
  dedupeMode : Text

/-- `duplicate_key` of a stored finding. -/
def Basis.key (b : Basis) (f : Finding) : DuplicateKey := storedKey b.canonicalClaim f

inductive BatchStep where
  /-- The end of the run: the results of the vendors, the results and the findings after the
  policies, and the findings after their verification. -/
  | first (raw results : List VendorRunResult) (findings verified : List ReviewFinding)
    (mergeEnabled : Bool) (e : Ending)
  /-- The end of a retry. -/
  | retry (raw : List VendorRunResult) (e : RetryEnding)
  /-- Everything else. -/
  | outside

/-- The first batch of a run, as `_execute_run` makes it. -/
structure FirstBatch (b : Basis) (raw results : List VendorRunResult)
    (findings verified : List ReviewFinding) (mergeEnabled : Bool) (e : Ending) : Prop where
  fromVendor : ∀ r ∈ raw, FromVendor r
  policies : applyScopeAndDuplicatePolicy b.canonicalClaim b.chunks b.scopeMode b.dedupeMode raw =
    .ok results
  prepared : preparedFindings e.rows results = .ok findings
  verdicts : List.Forall₂ SameButVerified findings verified
  runId : e.runId = b.runId
  items : e.items = findingItems mergeEnabled verified

/-- A batch of a retry, as `_retry_failed_vendors` makes it. -/
structure RetryBatch (b : Basis) (raw : List VendorRunResult) (e : RetryEnding) : Prop where
  fromVendor : ∀ r ∈ raw, FromVendor r
  scope : applyFindingScope b.chunks b.scopeMode raw = .ok e.results
  runId : e.runId = b.runId
  dedupeMode : e.dedupeMode = b.dedupeMode

/-- The finding after changes of other columns: its status, its posting, its consensus. -/
structure SameFinding (f f' : Finding) : Prop where
  id : f'.id = f.id
  runId : f'.runId = f.runId
  vendor : f'.vendor = f.vendor
  file : f'.file = f.file
  line : f'.line = f.line
  category : f'.category = f.category
  claim : f'.claim = f.claim
  eligible : f'.postingEligible = f.postingEligible
  group : f'.duplicateGroupId = f.duplicateGroupId

/-- The findings of the run are the same ones. -/
structure Corresponds (R : Finding → Finding → Prop) (runId : Nat) (t t' : Table Finding) :
    Prop where
  kept : ∀ f ∈ t, f.runId = runId → ∃ f' ∈ t', R f f'
  old : ∀ f' ∈ t', f'.runId = runId → ∃ f ∈ t, R f f'

/-- The findings of one run, batch after batch. -/
def batches (b : Basis) : Sys Db BatchStep where
  init db := ∀ f ∈ db.findings, f.runId ≠ b.runId
  step db a db' := match a with
    | .first raw results findings verified mergeEnabled e =>
      (∀ f ∈ db.findings, f.runId ≠ b.runId) ∧
        FirstBatch b raw results findings verified mergeEnabled e ∧ db' = ((publish e).run db).2
    | .retry raw e => RetryBatch b raw e ∧ db' = ((retryPublish b.canonicalClaim e).run db).2
    | .outside => Corresponds SameFinding b.runId db.findings db'.findings

/-! ## Statements -/

/-- The findings with a key that some chunk owns have exactly one that may be posted. -/
def OneRepresentative (b : Basis) (db : Db) : Prop :=
  ∀ k, keyOwned b.chunks k = true →
    (∃ f ∈ db.findings, f.runId = b.runId ∧ b.key f = k) →
      ∃! f, f ∈ db.findings ∧ f.runId = b.runId ∧ b.key f = k ∧ f.postingEligible = true

/-- A retry leaves what is stored as eligible as it was. -/
def EligibilityKept (b : Basis) (db : Db) (a : BatchStep) (db' : Db) : Prop :=
  ∀ raw e, a = .retry raw e → ∀ f ∈ db.findings, f.runId = b.runId →
    ∃ f' ∈ db'.findings, f'.id = f.id ∧ f'.postingEligible = f.postingEligible

/-- Two findings of the run are in one group when they have one key, and a finding is in no group
when it is the only one with its key. -/
structure FaithfulGroups (b : Basis) (db : Db) : Prop where
  same : ∀ f ∈ db.findings, ∀ g ∈ db.findings, f.runId = b.runId → g.runId = b.runId → f ≠ g →
    ((∃ n, f.duplicateGroupId = some n ∧ g.duplicateGroupId = some n) ↔ b.key f = b.key g)
  alone : ∀ f ∈ db.findings, f.runId = b.runId →
    (f.duplicateGroupId = none ↔
      ∀ g ∈ db.findings, g.runId = b.runId → b.key g = b.key f → g = f)

/-! ## Vendors -/

theorem group_of_parsed {f : ReviewFinding} (h : Parsed f) : f.duplicateGroupId = none := by
  rw [show f = _ from h]

theorem FromVendor.honest {r : VendorRunResult} (h : FromVendor r) : Honest r := by
  cases h with
  | refused vendor prompts code => exact .inr rfl
  | ran vendor outcomes durationMs houtcomes =>
    by_cases hall : ∀ o ∈ outcomes, o.2 = []
    · exact .inr (List.flatMap_eq_nil_iff.mpr hall)
    · simp only [not_forall] at hall
      obtain ⟨o, ho, hne⟩ := hall
      obtain ⟨c, answer, elapsedMs, rfl, -⟩ := houtcomes o ho
      -- only a chunk that was reviewed has findings
      have hdone : (chunkOutcome vendor c answer elapsedMs).1.status = .done := by
        cases answer with
        | reviewed fs t => rfl
        | timedOut => exact absurd rfl hne
        | processError t => exact absurd rfl hne
        | failed => exact absurd rfl hne
      have hpos : 0 < (outcomes.map Prod.fst).countP (·.status == .done) :=
        List.countP_pos_iff.mpr ⟨_, List.mem_map_of_mem ho, by simp [hdone]⟩
      left
      unfold VendorRunResult.succeeded vendorRunResult runStatus
      dsimp only
      split
      · rfl
      · rfl

theorem FromVendor.group {r : VendorRunResult} (h : FromVendor r) :
    ∀ f ∈ r.findings, f.duplicateGroupId = none := by
  cases h with
  | refused vendor prompts code => exact fun f hf => by cases hf
  | ran vendor outcomes durationMs houtcomes =>
    intro f hf
    obtain ⟨o, ho, hfo⟩ := List.mem_flatMap.mp hf
    obtain ⟨c, answer, elapsedMs, rfl, hparsed⟩ := houtcomes o ho
    cases answer with
    | reviewed fs t =>
      obtain ⟨f₀, hf₀, rfl⟩ := List.mem_map.mp hfo
      have hnone : f₀.duplicateGroupId = none := group_of_parsed (hparsed fs t rfl f₀ hf₀)
      exact hnone
    | timedOut => cases hfo
    | processError t => cases hfo
    | failed => cases hfo

/-! ## Stored findings -/

section Stored

variable {b : Basis} {t t' : Table Finding} {k : DuplicateKey}

/-- The number of findings of the run with the key. -/
def Basis.size (b : Basis) (k : DuplicateKey) (t : Table Finding) : Nat :=
  t.count fun f => f.runId == b.runId && b.key f == k

theorem mem_of_size {f : Finding} (hf : f ∈ t) (hr : f.runId = b.runId) :
    0 < b.size (b.key f) t :=
  Table.count_pos.mpr ⟨f, hf, by simp [hr]⟩

theorem exists_of_size (h : 0 < b.size k t) : ∃ f ∈ t, f.runId = b.runId ∧ b.key f = k := by
  obtain ⟨f, hf, hp⟩ := Table.count_pos.mp h
  simp only [Bool.and_eq_true, beq_iff_eq] at hp
  exact ⟨f, hf, hp⟩

theorem mem_keyed {db : Db} {f : Finding} : f ∈ keyed b.canonicalClaim b.runId k db ↔
    f ∈ db.findings ∧ f.runId = b.runId ∧ b.key f = k := by
  unfold keyed
  rw [List.mem_insertionSort, List.mem_filter]
  simp only [Bool.and_eq_true, beq_iff_eq]
  rfl

theorem length_keyed (db : Db) :
    (keyed b.canonicalClaim b.runId k db).length = b.size k db.findings := by
  unfold keyed Basis.size Table.count
  rw [List.length_insertionSort, List.countP_eq_length_filter]
  rfl

/-- Two findings with one key are two, and two are two findings. -/
theorem two_le_size_iff {f : Finding} (hf : f ∈ t) (hr : f.runId = b.runId) :
    2 ≤ b.size (b.key f) t ↔
      ∃ g ∈ t, g.runId = b.runId ∧ b.key g = b.key f ∧ g ≠ f := by
  have hdel : b.size (b.key f) t = (t.delete fun g => g.id == f.id).count
      (fun g => g.runId == b.runId && b.key g == b.key f) + 1 := by
    refine (Table.count_delete_id hf).trans ?_
    rw [if_pos (by simp [hr])]
    rfl
  have hpos : 2 ≤ b.size (b.key f) t ↔ 0 < (t.delete fun g => g.id == f.id).count
      (fun g => g.runId == b.runId && b.key g == b.key f) := by
    omega
  rw [hpos, Table.count_pos]
  constructor
  · rintro ⟨g, hg, hp⟩
    obtain ⟨hg, hne⟩ := Table.mem_delete.mp hg
    simp only [Bool.and_eq_true, beq_iff_eq, beq_eq_false_iff_ne] at hp hne
    exact ⟨g, hg, hp.1, hp.2, fun heq => hne (heq ▸ rfl)⟩
  · rintro ⟨g, hg, hgr, hk, hne⟩
    have hid : g.id ≠ f.id := fun heq => hne (Table.eq_of_id hg hf heq)
    exact ⟨g, Table.mem_delete.mpr ⟨hg, by simpa using hid⟩, by simp [hgr, hk]⟩

/-- The findings after a batch: the old ones, and the new ones in the order of the batch. -/
theorem mem_persisted {runId : Nat} {now : Time} {items : List FindingItem} {f : Finding} :
    f ∈ persisted runId now items t ↔ f ∈ t ∨ ∃ pre item, After items pre item ∧
      f = FindingRepo.newFinding runId item now (t.nextId + pre.length) := by
  induction items generalizing t with
  | nil => exact ⟨.inl, fun h => h.resolve_right fun ⟨_, _, h, _⟩ => not_after_nil h⟩
  | cons item items ih =>
    rw [persisted, ih, Table.mem_insert]
    constructor
    · rintro ((hf | rfl) | ⟨pre, item', hafter, rfl⟩)
      · exact .inl hf
      · exact .inr ⟨[], item, after_cons.mpr (.inl ⟨rfl, rfl⟩), rfl⟩
      · refine .inr ⟨item :: pre, item', after_cons.mpr (.inr ⟨pre, rfl, hafter⟩), ?_⟩
        rw [Table.nextId_insert, List.length_cons, Nat.add_right_comm, Nat.add_assoc]
    · rintro (hf | ⟨pre, item', hafter, rfl⟩)
      · exact .inl (.inl hf)
      · obtain ⟨rfl, rfl⟩ | ⟨rest, rfl, hrest⟩ := after_cons.mp hafter
        · exact .inl (.inr rfl)
        · refine .inr ⟨rest, item', hrest, ?_⟩
          rw [Table.nextId_insert, List.length_cons, Nat.add_right_comm, Nat.add_assoc]

theorem key_newFinding (item : FindingItem) (now : Time) (id : Nat) :
    b.key (FindingRepo.newFinding b.runId item now id) =
      duplicateKey b.canonicalClaim item.finding := rfl

theorem size_persisted (now : Time) (items : List FindingItem) :
    b.size k (persisted b.runId now items t) =
      b.size k t + (items.map fun i => duplicateKey b.canonicalClaim i.finding).count k := by
  induction items generalizing t with
  | nil => rfl
  | cons item items ih =>
    rw [persisted, ih, List.map_cons, List.count_cons]
    unfold Basis.size
    rw [Table.count_insert]
    have hnew : (FindingRepo.newFinding b.runId item now t.nextId).runId = b.runId := rfl
    simp only [hnew, beq_self_eq_true, Bool.true_and, key_newFinding, beq_iff_eq]
    omega

end Stored

/-! ## The invariants -/

/-- A finding may be posted when a chunk owns its key and no finding with the key is older. -/
def Leading (b : Basis) (t : Table Finding) : Prop :=
  ∀ f ∈ t, f.runId = b.runId → (f.postingEligible = true ↔
    keyOwned b.chunks (b.key f) = true ∧
      ∀ g ∈ t, g.runId = b.runId → b.key g = b.key f → f.id ≤ g.id)

/-- Every finding is in the group of its key, the keys of several findings have groups, and no two
of them have one. -/
structure GroupedBy (b : Basis) (G : DuplicateKey → Option Nat) (t : Table Finding) : Prop where
  group : ∀ f ∈ t, f.runId = b.runId → f.duplicateGroupId = G (b.key f)
  several : ∀ k, (G k).isSome ↔ 2 ≤ b.size k t
  distinct : ∀ k k' n, G k = some n → G k' = some n → k = k'

section Invariants

variable {b : Basis} {G : DuplicateKey → Option Nat} {t t' : Table Finding}

/-- The part of a finding that says which class it is in. -/
structure SameKey (b : Basis) (f f' : Finding) : Prop where
  id : f'.id = f.id
  runId : f'.runId = f.runId
  key : b.key f' = b.key f

/-- The part of a finding that eligibility depends on. -/
structure SameLeader (b : Basis) (f f' : Finding) : Prop extends SameKey b f f' where
  eligible : f'.postingEligible = f.postingEligible

theorem SameFinding.leader {f f' : Finding} (h : SameFinding f f') : SameLeader b f f' := by
  refine ⟨⟨h.id, h.runId, ?_⟩, h.eligible⟩
  simp only [Basis.key, storedKey, h.vendor, h.file, h.line, h.category, h.claim]

theorem Corresponds.mono {R S : Finding → Finding → Prop} {runId : Nat}
    (h : Corresponds R runId t t') (hRS : ∀ f f', R f f' → S f f') : Corresponds S runId t t' where
  kept f hf hr := by
    obtain ⟨f', hf', hR⟩ := h.kept f hf hr
    exact ⟨f', hf', hRS f f' hR⟩
  old f' hf' hr := by
    obtain ⟨f, hf, hR⟩ := h.old f' hf' hr
    exact ⟨f, hf, hRS f f' hR⟩

theorem Leading.of_corresponds (h : Leading b t) (hc : Corresponds (SameLeader b) b.runId t t') :
    Leading b t' := by
  intro f' hf' hr'
  obtain ⟨f, hf, hR⟩ := hc.old f' hf' hr'
  have hr : f.runId = b.runId := hR.runId.symm.trans hr'
  rw [hR.eligible, h f hf hr, hR.key, hR.id]
  refine and_congr_right fun _ => ⟨fun hmin g' hg' hgr' hk => ?_, fun hmin g hg hgr hk => ?_⟩
  · obtain ⟨g, hg, hS⟩ := hc.old g' hg' hgr'
    rw [hS.id]
    exact hmin g hg (hS.runId.symm.trans hgr') (hS.key.symm.trans hk)
  · obtain ⟨g', hg', hS⟩ := hc.kept g hg hgr
    rw [← hS.id]
    exact hmin g' hg' (hS.runId.trans hgr) (hS.key.trans hk)

/-- The keys keep their numbers of findings. -/
theorem size_corresponds (hc : Corresponds (SameKey b) b.runId t t') (k : DuplicateKey) :
    b.size k t' = b.size k t := by
  refine Table.count_congr fun i => ?_
  simp only [Bool.and_eq_true, beq_iff_eq]
  constructor
  · rintro ⟨f', hf', hid, hr', hk⟩
    obtain ⟨f, hf, hR⟩ := hc.old f' hf' hr'
    exact ⟨f, hf, hR.id.symm.trans hid, hR.runId.symm.trans hr', hR.key.symm.trans hk⟩
  · rintro ⟨f, hf, hid, hr, hk⟩
    obtain ⟨f', hf', hR⟩ := hc.kept f hf hr
    exact ⟨f', hf', hR.id.trans hid, hR.runId.trans hr, hR.key.trans hk⟩

theorem GroupedBy.of_corresponds (h : GroupedBy b G t)
    (hc : Corresponds SameFinding b.runId t t') : GroupedBy b G t' where
  group f' hf' hr' := by
    obtain ⟨f, hf, hR⟩ := hc.old f' hf' hr'
    have hl : SameLeader b f f' := hR.leader
    rw [hR.group, hl.key]
    exact h.group f hf (hR.runId.symm.trans hr')
  several k := by
    rw [size_corresponds (hc.mono fun _ _ hR => hR.leader.toSameKey)]
    exact h.several k
  distinct := h.distinct

/-- **A batch is stored**, and its leaders lead. -/
theorem leading_persisted {now : Time} {items : List FindingItem} (h : Leading b t)
    (hitems : Leads b.canonicalClaim b.chunks (fun k => 0 < b.size k t)
      (items.map FindingItem.finding)) : Leading b (persisted b.runId now items t) := by
  intro f hf hr
  rcases mem_persisted.mp hf with hf | ⟨pre, item, hafter, rfl⟩
  · -- what is new is younger
    rw [h f hf hr]
    refine and_congr_right fun _ => ⟨fun hmin g hg hgr hk => ?_, fun hmin g hg hgr hk => ?_⟩
    · rcases mem_persisted.mp hg with hg | ⟨pre, item, -, rfl⟩
      · exact hmin g hg hgr hk
      · have hlt : f.id < t.nextId := Table.lt_nextId hf
        show f.id ≤ t.nextId + pre.length
        omega
    · exact hmin g (mem_persisted.mpr (.inl hg)) hgr hk
  · have hmap := after_map FindingItem.finding hafter
    show item.finding.postingEligible = true ↔ _
    rw [hitems _ _ hmap, key_newFinding, List.map_map]
    refine and_congr_right fun _ => ⟨fun ⟨hfree, hfirst⟩ g hg hgr hk => ?_, fun hmin => ⟨?_, ?_⟩⟩
    · rcases mem_persisted.mp hg with hg | ⟨pre', item', hafter', rfl⟩
      · exact absurd (hk ▸ mem_of_size hg hgr) hfree
      · show t.nextId + pre.length ≤ t.nextId + pre'.length
        by_contra hlt
        have hmem := hafter.mem_of_lt hafter' (by omega)
        exact hfirst (List.mem_map.mpr ⟨item', hmem, hk⟩)
    · intro htaken
      obtain ⟨g, hg, hgr, hk⟩ := exists_of_size htaken
      have hle : t.nextId + pre.length ≤ g.id :=
        hmin g (mem_persisted.mpr (.inl hg)) hgr hk
      have hlt : g.id < t.nextId := Table.lt_nextId hg
      omega
    · intro hmem
      obtain ⟨item', hitem', hk⟩ := List.mem_map.mp hmem
      obtain ⟨pre', hpre'⟩ := exists_after hitem'
      have hlen : pre'.length < pre.length := hpre'.length_lt
      have hafter' : After items pre' item' :=
        hpre'.of_prefix ((List.prefix_append _ _).trans hafter)
      have hle : t.nextId + pre.length ≤ t.nextId + pre'.length :=
        hmin _ (mem_persisted.mpr (.inr ⟨pre', item', hafter', rfl⟩)) rfl hk
      omega

/-- **A batch is stored** in the groups of its keys. -/
theorem groupedBy_persisted {now : Time} {items : List FindingItem}
    (hold : ∀ f ∈ t, f.runId = b.runId → f.duplicateGroupId = G (b.key f))
    (hnew : Grouped b.canonicalClaim G (items.map FindingItem.finding))
    (hseveral : ∀ k, (G k).isSome ↔ 2 ≤ b.size k t +
      (items.map fun i => duplicateKey b.canonicalClaim i.finding).count k)
    (hdistinct : ∀ k k' n, G k = some n → G k' = some n → k = k') :
    GroupedBy b G (persisted b.runId now items t) where
  group f hf hr := by
    rcases mem_persisted.mp hf with hf | ⟨pre, item, hafter, rfl⟩
    · exact hold f hf hr
    · exact hnew item.finding (List.mem_map_of_mem hafter.mem)
  several k := by
    rw [size_persisted]
    exact hseveral k
  distinct := hdistinct

end Invariants

end Duplicates
