import AlmightyReview.Review.Regroup

/-!
# One representative of every class of duplicates

What every batch of a run does to its findings, and what therefore holds of them after any
sequence of batches.

* `FirstBatch.stores`: the items of a first batch, merged or not.
* `RetryBatch.leads`: the items of a retry, after what is stored.
* `leading_batches`, `grouped_batches`: the invariants of the system.
* `one_representative`, `groups_faithful`: the main results.
-/

namespace Duplicates

open Pipeline FindingPolicy

/-! ## A first batch -/

section First

variable {b : Basis} {raw results : List VendorRunResult} {findings verified : List ReviewFinding}
  {mergeEnabled : Bool} {e : Ending}

/-- The findings of a first batch in scope, before they are grouped. -/
theorem FirstBatch.inScope (h : FirstBatch b raw results findings verified mergeEnabled e) :
    ∃ fs, (∀ f ∈ fs, InScope b.canonicalClaim b.chunks f) ∧
      List.Forall₂ Alike (withEarlier (duplicateKey b.canonicalClaim)
        (groupFinding b.canonicalClaim (fs.map (duplicateKey b.canonicalClaim)) b.dedupeMode)
        [] fs) verified := by
  have hpolicies := h.policies
  unfold applyScopeAndDuplicatePolicy at hpolicies
  cases hscope : applyFindingScope b.chunks b.scopeMode raw with
  | error ex =>
    rw [hscope] at hpolicies
    cases hpolicies
  | ok rs =>
    rw [hscope] at hpolicies
    obtain rfl := Except.ok.inj hpolicies
    have hraw : ∀ f ∈ findingsOf raw, f.duplicateGroupId = none := by
      intro f hf
      obtain ⟨r, hr, hf⟩ := List.mem_flatMap.mp hf
      exact (h.fromVendor r hr).group f hf
    have hhonest := applyFindingScope_honest hscope fun r hr => (h.fromVendor r hr).honest
    have hprepared := preparedFindings_alike h.prepared (groupDuplicateCandidates_honest hhonest)
    rw [findingsOf_groupDuplicateCandidates] at hprepared
    refine ⟨findingsOf rs, applyFindingScope_inScope hscope hraw, ?_⟩
    have hverdicts : List.Forall₂ Alike findings verified :=
      h.verdicts.imp fun _ _ => alike_of_sameButVerified
    exact forall₂_trans hprepared hverdicts

/-- The items of a first batch are its findings, in another order where they are merged. -/
theorem FirstBatch.classwise (h : FirstBatch b raw results findings verified mergeEnabled e) :
    Classwise placeOfFinding verified (e.items.map FindingItem.finding) := by
  rw [h.items]
  unfold findingItems
  split
  · have hmap : (((deterministicMerge id verified).map fun m =>
        (⟨m.finding.vendorResultId, m.finding, m.consensus, some m.consensusGroupId⟩ :
          FindingItem)).map FindingItem.finding) =
        (deterministicMerge id verified).map (·.finding) := List.map_map ..
    rw [hmap]
    exact classwise_merge verified
  · intro k
    rw [List.map_map]
    exact congrArg _ (List.map_id verified).symm

theorem file_groupFinding (keys earlier : List DuplicateKey) (mode : Text) (f : ReviewFinding) :
    (groupFinding b.canonicalClaim keys mode earlier f).file = f.file := by
  unfold groupFinding
  dsimp only
  split <;> rfl

/-- **A first batch** has its findings in groups, and the first of each class leads it. -/
theorem FirstBatch.stores (h : FirstBatch b raw results findings verified mergeEnabled e) :
    ∃ keys : List DuplicateKey,
      (∀ k, (e.items.map fun i => duplicateKey b.canonicalClaim i.finding).count k =
        keys.count k) ∧
      Grouped b.canonicalClaim (firstGroup keys) (e.items.map FindingItem.finding) ∧
      (b.dedupeMode = enforce → Leads b.canonicalClaim b.chunks (fun _ => False)
        (e.items.map FindingItem.finding)) := by
  obtain ⟨fs, hfs, halike⟩ := h.inScope
  have hclass := h.classwise
  refine ⟨fs.map (duplicateKey b.canonicalClaim), fun k => ?_, ?_, fun hmode => ?_⟩
  · have hperm : (verified.map (duplicateKey b.canonicalClaim)).Perm
        ((e.items.map FindingItem.finding).map (duplicateKey b.canonicalClaim)) :=
      hclass.perm.map _
    rw [keys_alike halike, map_withEarlier (duplicateKey_groupFinding _), List.map_map] at hperm
    exact (hperm.count_eq k).symm
  · exact ((grouped_group hfs).alike halike).classwise hclass
  · rw [hmode] at halike
    refine ((leads_group hfs).alike halike).classwise hclass fun g hg => ?_
    -- the paths of findings in scope are normalized, and nothing changes them
    obtain ⟨pre, hpre⟩ := exists_after hg
    obtain ⟨_, f, hf, hfg, -⟩ := hpre.forall₂ halike
    obtain ⟨pre₀, f₀, hf₀, rfl, -⟩ := after_withEarlier hf
    unfold FindingPolicy.Normal
    rw [hfg.file, file_groupFinding]
    exact (hfs f₀ hf₀.mem).file

end First

/-- A run without findings. -/
def NoFindings (b : Basis) (t : Table Finding) : Prop := ∀ f ∈ t, f.runId ≠ b.runId

theorem NoFindings.size {b : Basis} {t : Table Finding} (h : NoFindings b t) (k : DuplicateKey) :
    b.size k t = 0 :=
  Table.count_eq_zero.mpr fun f hf => by simp [h f hf]

theorem NoFindings.leading {b : Basis} {t : Table Finding} (h : NoFindings b t) : Leading b t :=
  fun f hf hr => absurd hr (h f hf)

theorem NoFindings.groupedBy {b : Basis} {t : Table Finding} (h : NoFindings b t) :
    GroupedBy b (fun _ => none) t where
  group f hf hr := absurd hr (h f hf)
  several k := iff_of_false Bool.false_ne_true (by rw [h.size]; omega)
  distinct _ _ _ hn := by cases hn

/-! ## A retry -/

section Retry

variable {b : Basis} {raw : List VendorRunResult} {e : RetryEnding} {db : Db}
  {findings : List ReviewFinding}

/-- The findings of a retry are stored in their groups. -/
theorem RetryBatch.prepared (h : RetryBatch b raw e)
    (hp : preparedFindings e.rows (groupNewResults b.canonicalClaim e.runId e.dedupeMode
      (newGroups b.canonicalClaim e db) db [] e.results) = .ok findings) :
    List.Forall₂ Alike (newInGroups b.canonicalClaim e db) findings := by
  have hhonest := applyFindingScope_honest h.scope fun r hr => (h.fromVendor r hr).honest
  have halike := preparedFindings_alike hp (groupNewResults_honest hhonest)
  rw [findingsOf_groupNewResults] at halike
  exact halike

/-- **The first of a class leads it**, unless the run has one already. -/
theorem RetryBatch.leads (h : RetryBatch b raw e) (hmode : b.dedupeMode = enforce)
    (hfindings : List.Forall₂ Alike (newInGroups b.canonicalClaim e db) findings) :
    Leads b.canonicalClaim b.chunks (fun k => 0 < b.size k (regrouped b.canonicalClaim e db))
      ((retryItems findings).map FindingItem.finding) := by
  have hraw : ∀ f ∈ findingsOf raw, f.duplicateGroupId = none := by
    intro f hf
    obtain ⟨r, hr, hf⟩ := List.mem_flatMap.mp hf
    exact (h.fromVendor r hr).group f hf
  have hscope : ∀ f ∈ findingsOf e.results, InScope b.canonicalClaim b.chunks f :=
    applyFindingScope_inScope h.scope hraw
  have htaken : (fun k => 0 < b.size k (regrouped b.canonicalClaim e db)) =
      fun k => 0 < (keyed b.canonicalClaim e.runId k db).length := by
    funext k
    rw [size_corresponds (corresponds_regrouped h.runId), h.runId, length_keyed]
  have hmap : (retryItems findings).map FindingItem.finding = findings := by
    unfold retryItems
    rw [List.map_map]
    exact List.map_id findings
  have hleads : Leads b.canonicalClaim b.chunks
      (fun k => 0 < (keyed b.canonicalClaim e.runId k db).length)
      (newInGroups b.canonicalClaim e db) := by
    unfold newInGroups
    rw [h.dedupeMode, hmode]
    refine leads_groupNext hscope fun f hf hnone => ?_
    by_contra htwo
    have hk : duplicateKey b.canonicalClaim f ∈ newKeys b.canonicalClaim e :=
      List.mem_map_of_mem hf
    have hsome : (groupOf (newGroups b.canonicalClaim e db)
        (duplicateKey b.canonicalClaim f)).isSome := by
      rw [newGroups_eq h.runId]
      refine (isSome_groupOf (mem_newKeys.mp hk)).mpr ?_
      rw [h.runId, length_keyed] at htwo
      exact not_lt.mp htwo
    rw [show groupOf _ _ = none from hnone] at hsome
    cases hsome
  rw [htaken, hmap]
  exact hleads.alike hfindings

end Retry

/-! ## The invariants of the system -/

section System

variable {b : Basis} {db db' : Db} {a : BatchStep}

/-- What a retry leaves: everything as it was, or its findings after the others, with other tags. -/
theorem RetryBatch.stored {raw : List VendorRunResult} {e : RetryEnding}
    (h : RetryBatch b raw e) :
    ((retryPublish b.canonicalClaim e).run db).2 = db ∨
      ∃ findings, List.Forall₂ Alike (newInGroups b.canonicalClaim e db) findings ∧
        Corresponds SameFinding b.runId
          (persisted b.runId db.now (retryItems findings) (regrouped b.canonicalClaim e db))
          ((retryPublish b.canonicalClaim e).run db).2.findings := by
  rcases retryPublish_findings b.canonicalClaim e db with hsame | ⟨findings, t, hp, rfl, ht⟩
  · exact .inl hsame
  · refine .inr ⟨findings, h.prepared hp, ?_⟩
    rcases ht with ht | ⟨merged, ht⟩
    · rw [ht, h.runId]
      exact ⟨fun f hf _ => ⟨f, hf, .refl f⟩, fun f hf _ => ⟨f, hf, .refl f⟩⟩
    · rw [ht, h.runId]
      exact corresponds_update SameFinding.refl fun f _ _ => sameFinding_retag merged f

/-- The leaders lead after every batch. -/
theorem leading_batches (hmode : b.dedupeMode = enforce) :
    (batches b).Inductive Sys.anyStep fun db => Leading b db.findings where
  init h := NoFindings.leading h
  step {db a db'} h _ hstep := by
    cases a with
    | first raw results findings verified mergeEnabled e =>
      obtain ⟨hnone, hbatch, rfl⟩ := hstep
      rcases publish_findings e db with hsame | hstored
      · rw [hsame]
        exact h
      · obtain ⟨keys, -, -, hleads⟩ := hbatch.stores
        rw [hstored, hbatch.runId]
        refine leading_persisted h ?_
        have htaken : (fun k => 0 < b.size k db.findings) = fun _ => False := by
          funext k
          rw [NoFindings.size hnone k]
          exact eq_false (Nat.lt_irrefl 0)
        rw [htaken]
        exact hleads hmode
    | retry raw e =>
      obtain ⟨hbatch, rfl⟩ := hstep
      rcases hbatch.stored with hsame | ⟨findings, hfindings, hstored⟩
      · rw [hsame]
        exact h
      · have hold := h.of_corresponds (leader_regrouped hbatch.runId h)
        have hnew : Leading b (persisted b.runId db.now (retryItems findings)
            (regrouped b.canonicalClaim e db)) :=
          leading_persisted hold (hbatch.leads hmode hfindings)
        exact hnew.of_corresponds (hstored.mono fun _ _ => SameFinding.leader)
    | outside => exact h.of_corresponds (hstep.mono fun _ _ => SameFinding.leader)

/-- The groups are those of the keys after every batch. -/
theorem grouped_batches :
    (batches b).Inductive Sys.anyStep fun db => ∃ G, GroupedBy b G db.findings where
  init h := ⟨_, NoFindings.groupedBy h⟩
  step {db a db'} h _ hstep := by
    obtain ⟨G, hG⟩ := h
    cases a with
    | first raw results findings verified mergeEnabled e =>
      obtain ⟨hnone, hbatch, rfl⟩ := hstep
      rcases publish_findings e db with hsame | hstored
      · rw [hsame]
        exact ⟨G, hG⟩
      · obtain ⟨keys, hcount, hgrouped, -⟩ := hbatch.stores
        rw [hstored, hbatch.runId]
        refine ⟨firstGroup keys, groupedBy_persisted (fun f hf hr => absurd hr (hnone f hf))
          hgrouped (fun k => ?_) fun _ _ _ => firstGroup_inj⟩
        rw [NoFindings.size hnone k, hcount, Nat.zero_add]
        exact isSome_firstGroup
    | retry raw e =>
      obtain ⟨hbatch, rfl⟩ := hstep
      rcases hbatch.stored with hsame | ⟨findings, hfindings, hstored⟩
      · rw [hsame]
        exact ⟨G, hG⟩
      · exact ⟨_, (groupedBy_retry hbatch.runId hG hfindings).of_corresponds hstored⟩
    | outside => exact ⟨G, hG.of_corresponds hstep⟩

end System

/-! ## What the invariants give -/

section Main

variable {b : Basis} {db : Db} {G : DuplicateKey → Option Nat}

/-- The oldest finding with a key. -/
theorem exists_oldest {k : DuplicateKey} (h : ∃ f ∈ db.findings, f.runId = b.runId ∧ b.key f = k) :
    ∃ f ∈ db.findings, f.runId = b.runId ∧ b.key f = k ∧
      ∀ g ∈ db.findings, g.runId = b.runId → b.key g = k → f.id ≤ g.id := by
  obtain ⟨f₀, hf₀⟩ := h
  have hmem : f₀ ∈ keyed b.canonicalClaim b.runId k db := mem_keyed.mpr hf₀
  obtain ⟨f, l, hl⟩ := List.exists_cons_of_ne_nil (List.ne_nil_of_mem hmem)
  have hf : f ∈ keyed b.canonicalClaim b.runId k db := hl ▸ List.mem_cons_self
  obtain ⟨hf, hr, hk⟩ := mem_keyed.mp hf
  exact ⟨f, hf, hr, hk, fun g hg hgr hgk => oldest_of_keyed hl hg hgr hgk⟩

theorem Leading.oneRepresentative (h : Leading b db.findings) : OneRepresentative b db := by
  intro k hown hex
  obtain ⟨f, hf, hr, hk, hmin⟩ := exists_oldest hex
  have heligible : f.postingEligible = true :=
    (h f hf hr).mpr ⟨hk ▸ hown, fun g hg hgr hgk => hmin g hg hgr (hgk.trans hk)⟩
  refine ⟨f, ⟨hf, hr, hk, heligible⟩, ?_⟩
  rintro g ⟨hg, hgr, hgk, hge⟩
  have hgmin := ((h g hg hgr).mp hge).2 f hf hr (hk.trans hgk.symm)
  exact Table.eq_of_id hg hf (Nat.le_antisymm hgmin (hmin g hg hgr hgk))

theorem GroupedBy.faithful (h : GroupedBy b G db.findings) : FaithfulGroups b db where
  same f hf g hg hr hgr hne := by
    rw [h.group f hf hr, h.group g hg hgr]
    constructor
    · rintro ⟨n, hn, hn'⟩
      exact h.distinct _ _ n hn hn'
    · intro hk
      have htwo : 2 ≤ b.size (b.key f) db.findings :=
        (two_le_size_iff hf hr).mpr ⟨g, hg, hgr, hk.symm, hne.symm⟩
      obtain ⟨n, hn⟩ := Option.isSome_iff_exists.mp ((h.several _).mpr htwo)
      exact ⟨n, hn, hk ▸ hn⟩
  alone f hf hr := by
    rw [h.group f hf hr, ← Option.not_isSome_iff_eq_none, h.several, two_le_size_iff hf hr]
    constructor
    · intro hnone g hg hgr hk
      by_contra hne
      exact hnone ⟨g, hg, hgr, hk, hne⟩
    · rintro honly ⟨g, hg, hgr, hk, hne⟩
      exact hne (honly g hg hgr hk)

end Main

/-! ## An example -/

/-- What the vendor claims of a line, whenever it sees it. -/
def unchecked : ReviewFinding where
  vendor := "claude".toList
  file := "a.py".toList
  line := 1
  severity := .high
  category := "bug".toList
  claim := "unchecked".toList
  rationale := []
  confidence := 1

def chunkOf (index : Nat) (file : Text) : PromptChunk where
  index := index
  prompt := []
  diffText := []
  diffHash := []
  contextHash := []
  promptNonce := "00000000".toList
  ownedChangedLines := ⟨[(file, {1})], List.nodup_singleton file⟩
  chunkerVersion := []

/-- A run on two files. -/
def repeating : Basis :=
  ⟨1, id, [chunkOf 0 "a.py".toList, chunkOf 1 "b.py".toList], enforce, enforce⟩

def claudeRow : VendorRow where
  vendor := "claude".toList
  vrId := 1
  identity := {
    protocolVersion := []
    vendor := "claude".toList
    model := []
    effort := []
    promptHash := List.replicate 64 '0'
    harnessConfigHash := List.replicate 64 '0'
    adapterName := []
    adapterVersion := []
    adapterConfigHash := List.replicate 64 '0'
    cliVersion := []
    eventSchemaVersion := []
    diffHash := List.replicate 64 '0'
    contextHash := List.replicate 64 '0'
    chunkerVersion := []
    scopePolicyMode := enforce
    dedupePolicyMode := enforce
    policyDecisionHash := List.replicate 64 '0'
    policyConfigHash := List.replicate 64 '0' }

/-- The vendor makes its claim so many times in a chunk, or runs out of time. -/
def answering (answers : List (PromptChunk × Option Nat)) : VendorRunResult :=
  vendorRunResult "claude".toList (answers.map fun a =>
    chunkOutcome "claude".toList a.1 (match a.2 with
      | some n => .reviewed (List.replicate n unchecked) none
      | none => .timedOut) 5) 5

/-- The claim is made twice in the first chunk, and there is no answer for the second one. -/
def firstAnswers : VendorRunResult :=
  answering [(chunkOf 0 "a.py".toList, some 2), (chunkOf 1 "b.py".toList, none)]

/-- In a retry the claim is made for the second chunk. -/
def retryAnswers : VendorRunResult := answering [(chunkOf 1 "b.py".toList, some 1)]

/-- The results after the policies. -/
def firstResults : List VendorRunResult :=
  (applyScopeAndDuplicatePolicy repeating.canonicalClaim repeating.chunks repeating.scopeMode
    repeating.dedupeMode [firstAnswers]).toOption.getD []

def firstFindings : List ReviewFinding :=
  (preparedFindings [claudeRow] firstResults).toOption.getD []

def firstEnding : Ending :=
  ⟨1, 1, [], none, firstResults, [claudeRow], findingItems true firstFindings⟩

def retryEnding : RetryEnding :=
  ⟨1, 1, [], none, enforce, true,
    (applyFindingScope repeating.chunks repeating.scopeMode [retryAnswers]).toOption.getD [],
    [claudeRow]⟩

/-- The row of the vendor, as running. -/
def beforeBatches : Db :=
  { Db.empty 0 with
    vendorResults := .ofRows [ReviewRepo.newVendorResult 1 "claude".toList .running 0 1] 2
      (by decide) (by decide) }

def firstRun : Except Exc (Option Sha) × Db := (publish firstEnding).run beforeBatches

def retryRun : Except Exc Unit × Db :=
  (retryPublish repeating.canonicalClaim retryEnding).run firstRun.2

theorem eq_ok_of_isOk {ε α : Type} {x : Except ε α} (default : α) (h : x.isOk = true) :
    x = .ok (x.toOption.getD default) := by
  cases x with
  | error e => cases h
  | ok a => rfl

theorem fromVendor_answering (answers : List (PromptChunk × Option Nat)) :
    FromVendor (answering answers) := by
  refine .ran _ _ _ fun o ho => ?_
  obtain ⟨a, -, rfl⟩ := List.mem_map.mp ho
  refine ⟨a.1, _, 5, rfl, fun fs t h f hf => ?_⟩
  rcases a with ⟨c, _ | n⟩
  · cases h
  · obtain ⟨rfl, -⟩ := ChunkAnswer.reviewed.inj h
    obtain rfl := List.eq_of_mem_replicate hf
    rfl

theorem reach_firstRun : (batches repeating).Reach Sys.anyStep firstRun.2 := by
  have hnone : ∀ f ∈ beforeBatches.findings, f.runId ≠ repeating.runId := fun f hf => by cases hf
  have hbatch : FirstBatch repeating [firstAnswers] firstResults firstFindings firstFindings true
      firstEnding := by
    refine ⟨fun r hr => ?_, eq_ok_of_isOk [] (by decide +kernel),
      eq_ok_of_isOk [] (by decide +kernel), List.forall₂_same.mpr fun f _ => rfl, rfl, rfl⟩
    obtain rfl := List.mem_singleton.mp hr
    exact fromVendor_answering _
  have hstep : (batches repeating).step beforeBatches
      (.first [firstAnswers] firstResults firstFindings firstFindings true firstEnding)
      firstRun.2 := ⟨hnone, hbatch, rfl⟩
  exact .step (.init hnone) trivial hstep

theorem step_retryRun :
    (batches repeating).step firstRun.2 (.retry [retryAnswers] retryEnding) retryRun.2 := by
  refine ⟨⟨fun r hr => ?_, eq_ok_of_isOk [] (by decide +kernel), rfl, rfl⟩, rfl⟩
  obtain rfl := List.mem_singleton.mp hr
  exact fromVendor_answering _

/-- The claim is stored three times, in one group. -/
theorem findings_retryRun :
    (retryRun.2.findings.rows.map fun f => (f.postingEligible, f.duplicateGroupId)) =
      [(true, some 1), (false, some 1), (false, some 1)] := by
  decide +kernel

/-! ## Main results -/

/-- **One representative.** Where duplicates are not posted, each class of findings on an owned line
has exactly one that may be posted, and a retry leaves the old ones as they are. -/
theorem one_representative (b : Basis) (hmode : b.dedupeMode = enforce) :
    (∀ {db}, (batches b).Reach Sys.anyStep db → OneRepresentative b db) ∧
      (batches b).StepInvariant Sys.anyStep (EligibilityKept b) := by
  refine ⟨fun hreach => ((leading_batches hmode).reach hreach).oneRepresentative,
    (leading_batches hmode).stepInvariant fun {db a db'} h _ hstep => ?_⟩
  rintro raw e rfl f hf hr
  obtain ⟨hbatch, rfl⟩ := hstep
  rcases hbatch.stored with hsame | ⟨findings, -, hstored⟩
  · rw [hsame]
    exact ⟨f, hf, rfl, rfl⟩
  · -- the finding joins its group, others are stored after it, and it gets another tag
    obtain ⟨f₁, hf₁, hjoin⟩ := (leader_regrouped hbatch.runId h).kept f hf hr
    obtain ⟨f₂, hf₂, htag⟩ :=
      hstored.kept f₁ (mem_persisted.mpr (.inl hf₁)) (hjoin.runId.trans hr)
    exact ⟨f₂, hf₂, htag.id.trans hjoin.id, htag.eligible.trans hjoin.eligible⟩

/-- The run of the example: one of three findings may be posted. -/
theorem one_representative_repeating : OneRepresentative repeating retryRun.2 ∧
    EligibilityKept repeating firstRun.2 (.retry [retryAnswers] retryEnding) retryRun.2 ∧
    retryRun.2.findings.rows.map (·.postingEligible) = [true, false, false] := by
  refine ⟨(one_representative repeating rfl).1 (.step reach_firstRun trivial step_retryRun),
    (one_representative repeating rfl).2 reach_firstRun trivial step_retryRun, ?_⟩
  have hrows := congrArg (List.map Prod.fst) findings_retryRun
  rw [List.map_map] at hrows
  exact hrows

/-- **Groups are faithful** after any sequence of batches. -/
theorem groups_faithful (b : Basis) {db : Db} (h : (batches b).Reach Sys.anyStep db) :
    FaithfulGroups b db := by
  obtain ⟨G, hG⟩ := grouped_batches.reach h
  exact hG.faithful

/-- The run of the example: its three findings are in one group. -/
theorem groups_faithful_repeating : FaithfulGroups repeating retryRun.2 ∧
    retryRun.2.findings.rows.map (·.duplicateGroupId) = [some 1, some 1, some 1] := by
  refine ⟨groups_faithful repeating (.step reach_firstRun trivial step_retryRun), ?_⟩
  have hrows := congrArg (List.map Prod.snd) findings_retryRun
  rw [List.map_map] at hrows
  exact hrows

end Duplicates
