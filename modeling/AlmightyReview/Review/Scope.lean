import AlmightyReview.Review.Findings

/-!
# Scope: observing and enforcing

`apply_finding_scope` in its two modes. What `enforce` keeps is what `observe` marks as eligible,
so a run that observes tells what one that enforces would drop.

* `Owns c f`: chunk `c` has the place of the finding `f` among its lines. When no line has two
  owners, the scope of a finding is decided by that alone (`scopeFinding_cases`).
* `Classified`: what becomes of a finding. `Counted`: what becomes of the counters of the chunks
  of a result. An index stands for the last chunk that has it, as in the dictionary of the chunks.
* `ScopeAgrees`, `scope_agrees`: the two modes agree, for any results.
-/

namespace FindingPolicy

/-! ## Owners -/

/-- The chunk owns the place of the finding. -/
def Owns (c : PromptChunk) (f : ReviewFinding) : Prop :=
  ∃ path, normalizeFindingPath f.file = some path ∧ 0 ≤ f.line ∧
    (path, f.line.toNat) ∈ c.ownedChangedLines.pairs

instance (c : PromptChunk) (f : ReviewFinding) : Decidable (Owns c f) :=
  decidable_of_iff (∃ path ∈ normalizeFindingPath f.file,
    0 ≤ f.line ∧ (path, f.line.toNat) ∈ c.ownedChangedLines.pairs) Iff.rfl

/-- No chunk owns the place of the finding. -/
def Unowned (chunks : List PromptChunk) (f : ReviewFinding) : Prop := ∀ c ∈ chunks, ¬Owns c f

/-- Another chunk than its own owns the place of the finding. -/
def Reassigned (chunks : List PromptChunk) (f : ReviewFinding) : Prop :=
  ∃ c ∈ chunks, Owns c f ∧ f.sourceChunkIndex ≠ some c.index

instance (chunks : List PromptChunk) : DecidablePred (Unowned chunks) := fun f =>
  inferInstanceAs (Decidable (∀ c ∈ chunks, ¬Owns c f))

instance (chunks : List PromptChunk) : DecidablePred (Reassigned chunks) := fun f =>
  inferInstanceAs (Decidable (∃ c ∈ chunks, Owns c f ∧ f.sourceChunkIndex ≠ some c.index))

/-- No line has two owners. -/
def DisjointOwners (chunks : List PromptChunk) : Prop :=
  chunks.Pairwise fun c c' => Disjoint c.ownedChangedLines.pairs c'.ownedChangedLines.pairs

theorem ownersDistinct_iff (seen : Finset (Text × Nat)) (chunks : List PromptChunk) :
    ownersDistinct seen chunks = true ↔
      (∀ c ∈ chunks, Disjoint c.ownedChangedLines.pairs seen) ∧ DisjointOwners chunks := by
  unfold DisjointOwners
  induction chunks generalizing seen with
  | nil => simp [ownersDistinct]
  | cons c cs ih =>
    rw [ownersDistinct, Bool.and_eq_true, decide_eq_true_eq, ih, List.pairwise_cons,
      List.forall_mem_cons]
    simp only [Finset.disjoint_union_right]
    constructor
    · rintro ⟨hc, hcs, hp⟩
      exact ⟨⟨hc, fun c' hc' => (hcs c' hc').1⟩, fun c' hc' => (hcs c' hc').2.symm, hp⟩
    · rintro ⟨⟨hc, hcs⟩, hd, hp⟩
      exact ⟨hc, fun c' hc' => ⟨hcs c' hc', (hd c' hc').symm⟩, hp⟩

theorem ownersDistinct_of_disjoint {chunks : List PromptChunk} (h : DisjointOwners chunks) :
    ownersDistinct ∅ chunks = true :=
  (ownersDistinct_iff ∅ chunks).mpr ⟨fun _ _ => Finset.disjoint_empty_right _, h⟩

/-- A place has one owner. -/
theorem Owns.disjoint {c c' : PromptChunk} {f : ReviewFinding} (h : Owns c f)
    (hd : Disjoint c.ownedChangedLines.pairs c'.ownedChangedLines.pairs) : ¬Owns c' f := by
  rintro ⟨path', hp', -, hm'⟩
  obtain ⟨path, hp, -, hm⟩ := h
  obtain rfl : path' = path := Option.some.inj (hp'.symm.trans hp)
  exact Finset.disjoint_left.mp hd hm hm'

theorem owns_iff {c : PromptChunk} {f : ReviewFinding} {path : Text}
    (hp : normalizeFindingPath f.file = some path) :
    Owns c f ↔ 0 ≤ f.line ∧ (path, f.line.toNat) ∈ c.ownedChangedLines.pairs := by
  constructor
  · rintro ⟨path', hp', h⟩
    obtain rfl : path' = path := Option.some.inj (hp'.symm.trans hp)
    exact h
  · exact fun h => ⟨path, hp, h⟩

/-- The owner that `apply_finding_scope` looks up. -/
theorem ownerOf_eq (chunks : List PromptChunk) (f : ReviewFinding) :
    ownerOf chunks (normalizeFindingPath f.file) f.line =
      (chunks.find? fun c => Owns c f).map PromptChunk.index := by
  cases hp : normalizeFindingPath f.file with
  | none =>
    have hnone : chunks.find? (fun c => decide (Owns c f)) = none := by
      rw [List.find?_eq_none]
      intro c _ hc
      obtain ⟨path, hpath, -⟩ := of_decide_eq_true hc
      rw [hp] at hpath
      cases hpath
    rw [hnone]
    rfl
  | some path =>
    simp only [ownerOf, owns_iff hp]

theorem ownerOf_unowned {chunks : List PromptChunk} {f : ReviewFinding} (h : Unowned chunks f) :
    ownerOf chunks (normalizeFindingPath f.file) f.line = none := by
  rw [ownerOf_eq, Option.map_eq_none_iff, List.find?_eq_none]
  exact fun c hc ho => h c hc (of_decide_eq_true ho)

theorem ownerOf_owns {chunks : List PromptChunk} {f : ReviewFinding} {c : PromptChunk}
    (hd : DisjointOwners chunks) (hc : c ∈ chunks) (h : Owns c f) :
    ownerOf chunks (normalizeFindingPath f.file) f.line = some c.index := by
  rw [ownerOf_eq]
  unfold DisjointOwners at hd
  induction chunks with
  | nil => cases hc
  | cons c₀ cs ih =>
    obtain ⟨hhead, htail⟩ := List.pairwise_cons.mp hd
    rw [List.find?_cons]
    rcases List.mem_cons.mp hc with rfl | hc
    · rw [decide_eq_true h]
      rfl
    · have hno : ¬Owns c₀ f := fun h₀ => h₀.disjoint (hhead c hc) h
      rw [decide_eq_false hno]
      exact ih htail hc

/-- What `apply_finding_scope` does with a finding, by the owner of its place. -/
theorem scopeFinding_cases {chunks : List PromptChunk} (hd : DisjointOwners chunks) (mode : Text)
    (f : ReviewFinding) :
    (Unowned chunks f ∧ scopeFinding chunks mode f =
      { finding := { f with
          file := (normalizeFindingPath f.file).getD f.file
          ownerChunkIndex := none
          scopeStatus := some (if mode = enforce then .rejected else .wouldReject)
          postingEligible := false }
        kept := mode != enforce
        counts := fun c => { c with scopeRejected := c.scopeRejected + 1 } }) ∨
    ∃ c ∈ chunks, Owns c f ∧ scopeFinding chunks mode f =
      { finding := { f with
          file := (normalizeFindingPath f.file).getD f.file
          ownerChunkIndex := some c.index
          scopeStatus := some (if f.sourceChunkIndex = some c.index then .owned else .reassigned)
          postingEligible := true }
        kept := true
        counts := if f.sourceChunkIndex = some c.index then id
          else fun c => { c with scopeReassigned := c.scopeReassigned + 1 } } := by
  by_cases hu : Unowned chunks f
  · refine .inl ⟨hu, ?_⟩
    simp only [scopeFinding, ownerOf_unowned hu, if_pos]
  · obtain ⟨c, hc, ho⟩ : ∃ c ∈ chunks, Owns c f := by
      unfold Unowned at hu
      push Not at hu
      exact hu
    refine .inr ⟨c, hc, ho, ?_⟩
    simp only [scopeFinding, ownerOf_owns hd hc ho, reduceCtorEq, if_false]
    by_cases hs : f.sourceChunkIndex = some c.index
    · rw [if_pos hs.symm, if_pos hs, if_pos hs]
    · rw [if_neg (Ne.symm hs), if_neg hs, if_neg hs]

/-! ## Findings -/

/-- `found` is `raw` after it was observed: only its path is spelled in another way and its scope
is decided. It is eligible when a chunk owns its place. -/
structure Classified (chunks : List PromptChunk) (raw found : ReviewFinding) : Prop where
  rest : found = { raw with
    file := (normalizeFindingPath raw.file).getD raw.file
    ownerChunkIndex := found.ownerChunkIndex
    scopeStatus := found.scopeStatus
    postingEligible := found.postingEligible }
  eligible : found.postingEligible = true ↔ ∃ c ∈ chunks, Owns c raw
  owned : ∀ c ∈ chunks, Owns c raw → found.ownerChunkIndex = some c.index ∧ found.scopeStatus =
    some (if raw.sourceChunkIndex = some c.index then .owned else .reassigned)
  unowned : Unowned chunks raw →
    found.ownerChunkIndex = none ∧ found.scopeStatus = some .wouldReject

theorem classified_scopeFinding {chunks : List PromptChunk} (hd : DisjointOwners chunks)
    (f : ReviewFinding) : Classified chunks f (scopeFinding chunks observe f).finding := by
  rcases scopeFinding_cases hd observe f with ⟨hu, he⟩ | ⟨c, hc, ho, he⟩
  · rw [he]
    refine ⟨rfl, ?_, fun c hc ho => absurd ho (hu c hc), fun _ => ⟨rfl, rfl⟩⟩
    exact iff_of_false Bool.false_ne_true fun ⟨c, hc, ho⟩ => hu c hc ho
  · have hsame : ∀ c' ∈ chunks, Owns c' f → c'.index = c.index := by
      intro c' hc' ho'
      have hc'i := ownerOf_owns hd hc' ho'
      rw [ownerOf_owns hd hc ho] at hc'i
      exact (Option.some.inj hc'i).symm
    rw [he]
    refine ⟨rfl, iff_of_true rfl ⟨c, hc, ho⟩, fun c' hc' ho' => ?_, fun hu => absurd ho (hu c hc)⟩
    rw [hsame c' hc' ho']
    exact ⟨rfl, rfl⟩

/-- A finding is kept in `enforce` mode if it is eligible in `observe` mode, and is then the same
in both. -/
theorem scopeFinding_modes {chunks : List PromptChunk} (hd : DisjointOwners chunks)
    (f : ReviewFinding) :
    (scopeFinding chunks observe f).kept = true ∧
      (scopeFinding chunks enforce f).kept =
        (scopeFinding chunks observe f).finding.postingEligible ∧
      ((scopeFinding chunks enforce f).kept = true →
        (scopeFinding chunks enforce f).finding = (scopeFinding chunks observe f).finding) := by
  rcases scopeFinding_cases hd observe f with ⟨hu, he⟩ | ⟨c, hc, ho, he⟩
  · rcases scopeFinding_cases hd enforce f with ⟨-, he'⟩ | ⟨c, hc, ho, -⟩
    · rw [he, he']
      have hobserve : (observe != enforce) = true := by decide
      have henforce : (enforce != enforce) = false := by decide
      exact ⟨hobserve, henforce, fun h => absurd (henforce.symm.trans h) Bool.false_ne_true⟩
    · exact absurd ho (hu c hc)
  · rcases scopeFinding_cases hd enforce f with ⟨hu, -⟩ | ⟨c', hc', ho', he'⟩
    · exact absurd ho (hu c hc)
    · have hindex : c'.index = c.index := by
        have hc'i := ownerOf_owns hd hc' ho'
        rw [ownerOf_owns hd hc ho] at hc'i
        exact (Option.some.inj hc'i).symm
      rw [he, he', hindex]
      exact ⟨rfl, rfl, fun _ => rfl⟩

theorem kept_observe {chunks : List PromptChunk} (hd : DisjointOwners chunks)
    (fs : List ReviewFinding) :
    ((fs.map (scopeFinding chunks observe)).filter Scoped.kept).map Scoped.finding =
      fs.map fun f => (scopeFinding chunks observe f).finding := by
  rw [List.filter_eq_self.mpr]
  · rw [List.map_map]
    rfl
  · intro s hs
    obtain ⟨f, -, rfl⟩ := List.mem_map.mp hs
    exact (scopeFinding_modes hd f).1

theorem kept_enforce {chunks : List PromptChunk} (hd : DisjointOwners chunks)
    (fs : List ReviewFinding) :
    ((fs.map (scopeFinding chunks enforce)).filter Scoped.kept).map Scoped.finding =
      (fs.map fun f => (scopeFinding chunks observe f).finding).filter (·.postingEligible) := by
  induction fs with
  | nil => rfl
  | cons f fs ih =>
    obtain ⟨-, hkept, hsame⟩ := scopeFinding_modes hd f
    simp only [List.map_cons, List.filter_cons, hkept] at ih ⊢
    split
    · rename_i h
      rw [List.map_cons, ih, hsame (hkept.trans h)]
    · exact ih

/-! ## Counters -/

/-- The counters of a chunk after findings were scoped. -/
def countedChunk (chunks : List PromptChunk) (fs : List ReviewFinding) (c : ExecutionChunk) :
    ExecutionChunk :=
  { c with
    scopeRejected := c.scopeRejected +
      fs.countP fun f => f.sourceChunkIndex = some c.index ∧ Unowned chunks f
    scopeReassigned := c.scopeReassigned +
      fs.countP fun f => f.sourceChunkIndex = some c.index ∧ Reassigned chunks f }

/-- The chunk at `i` is the one that its index stands for. -/
def Names (cs : List ExecutionChunk) (i : Nat) (c : ExecutionChunk) : Prop :=
  cs[i]? = some c ∧ ∀ j, i < j → (cs.map (·.index))[j]? ≠ some c.index

/-- Each chunk that an index stands for counts the findings from it that nobody owns, and those
that another chunk owns. -/
def Counted (chunks : List PromptChunk) (raw out : VendorRunResult) : Prop :=
  ∀ i c, Names raw.chunks i c → out.chunks[i]? = some (countedChunk chunks raw.findings c)

theorem index_changeChunk {g : ExecutionChunk → ExecutionChunk} (hg : ∀ c, (g c).index = c.index)
    (index : Option Nat) (cs : List ExecutionChunk) :
    (changeChunk index g cs).map (·.index) = cs.map (·.index) := by
  induction cs with
  | nil => rfl
  | cons c cs ih =>
    unfold changeChunk
    split
    · rw [List.map_cons, List.map_cons, hg]
    · rw [List.map_cons, List.map_cons, ih]

theorem names_changeChunk {g : ExecutionChunk → ExecutionChunk} (hg : ∀ c, (g c).index = c.index)
    (index : Option Nat) {cs : List ExecutionChunk} {i : Nat} {c : ExecutionChunk}
    (h : Names cs i c) :
    Names (changeChunk index g cs) i (if some c.index = index then g c else c) := by
  have hindex : (if some c.index = index then g c else c).index = c.index := by
    split
    · exact hg c
    · rfl
  refine ⟨?_, fun j hj => ?_⟩
  · obtain ⟨hc, hlast⟩ := h
    induction cs generalizing i with
    | nil => cases hc
    | cons c₀ cs ih =>
      unfold changeChunk
      cases i with
      | zero =>
        obtain rfl : c₀ = c := Option.some.inj hc
        have hno : ∀ c' ∈ cs, c'.index ≠ c₀.index := by
          intro c' hc' he
          obtain ⟨j, hj⟩ := List.mem_iff_getElem?.mp hc'
          refine hlast (j + 1) (Nat.succ_pos j) ?_
          rw [List.map_cons, List.getElem?_cons_succ, List.getElem?_map, hj, Option.map_some, he]
        by_cases he : some c₀.index = index
        · rw [if_pos ⟨he, hno⟩, if_pos he]
          rfl
        · rw [if_neg fun h => he h.1, if_neg he]
          rfl
      | succ i =>
        have htail : cs[i]? = some c := hc
        have hlast' : ∀ j, i < j → (cs.map (·.index))[j]? ≠ some c.index := fun j hj =>
          hlast (j + 1) (Nat.succ_lt_succ hj)
        by_cases he : some c₀.index = index ∧ ∀ c' ∈ cs, c'.index ≠ c₀.index
        · have hne : some c.index ≠ index := by
            rw [← he.1]
            exact fun h => he.2 c (List.mem_of_getElem? htail) (Option.some.inj h)
          rw [if_pos he, if_neg hne]
          exact htail
        · rw [if_neg he]
          exact ih htail hlast'
  · rw [index_changeChunk hg, hindex]
    exact h.2 j hj

theorem index_scopeFinding_counts (chunks : List PromptChunk) (mode : Text) (f : ReviewFinding)
    (c : ExecutionChunk) : ((scopeFinding chunks mode f).counts c).index = c.index := by
  simp only [scopeFinding]
  split
  · rfl
  · split <;> rfl

theorem sourceChunkIndex_scopeFinding (chunks : List PromptChunk) (mode : Text)
    (f : ReviewFinding) :
    (scopeFinding chunks mode f).finding.sourceChunkIndex = f.sourceChunkIndex := by
  simp only [scopeFinding]
  split
  · rfl
  · split <;> rfl

/-- One finding is counted as what it is. -/
theorem countedChunk_cons {chunks : List PromptChunk} (hd : DisjointOwners chunks) (mode : Text)
    (f : ReviewFinding) (fs : List ReviewFinding) (c : ExecutionChunk) :
    countedChunk chunks fs
        (if some c.index = f.sourceChunkIndex then (scopeFinding chunks mode f).counts c else c) =
      countedChunk chunks (f :: fs) c := by
  by_cases hs : some c.index = f.sourceChunkIndex
  · rw [if_pos hs]
    rcases scopeFinding_cases hd mode f with ⟨hu, he⟩ | ⟨o, ho, how, he⟩
    · have hre : ¬Reassigned chunks f := fun ⟨o, ho, how, _⟩ => hu o ho how
      rw [he]
      simp only [countedChunk, List.countP_cons, hs.symm, hu, hre, and_true, and_false,
        decide_true, decide_false, if_true, Bool.false_eq_true, if_false]
      congr 1
      omega
    · have hun : ¬Unowned chunks f := fun hu => hu o ho how
      by_cases hso : f.sourceChunkIndex = some o.index
      · have hre : ¬Reassigned chunks f := by
          rintro ⟨o', ho', how', hne⟩
          refine hne (hso.trans ?_)
          rw [← ownerOf_owns hd ho how, ownerOf_owns hd ho' how']
        have hcounts : (scopeFinding chunks mode f).counts c = c := by
          rw [he]
          simp only [if_pos hso, id_eq]
        simp only [hcounts, countedChunk, List.countP_cons, hun, hre, and_false, decide_false,
          Bool.false_eq_true, if_false, Nat.add_zero]
      · have hre : Reassigned chunks f := ⟨o, ho, how, hso⟩
        have hcounts : (scopeFinding chunks mode f).counts c =
            { c with scopeReassigned := c.scopeReassigned + 1 } := by
          rw [he]
          simp only [if_neg hso]
        rw [hcounts]
        simp only [countedChunk, List.countP_cons, hs.symm, hun, hre, and_true, and_false,
          decide_true, decide_false, if_true, Bool.false_eq_true, if_false, Nat.add_zero]
        congr 1
        omega
  · rw [if_neg hs]
    simp only [countedChunk, List.countP_cons, Ne.symm hs, false_and, decide_false,
      Bool.false_eq_true, if_false, Nat.add_zero]

/-- **The counters** of both modes. -/
theorem counted_scopeResult {chunks : List PromptChunk} (hd : DisjointOwners chunks) (mode : Text)
    (r : VendorRunResult) : Counted chunks r (scopeResult chunks mode r) := by
  intro i c hn
  show ((r.findings.map (scopeFinding chunks mode)).foldl
    (fun cs s => changeChunk s.finding.sourceChunkIndex s.counts cs) r.chunks)[i]? = _
  rw [List.foldl_map]
  generalize r.chunks = cs at hn
  generalize r.findings = fs
  induction fs generalizing cs c with
  | nil =>
    rw [List.foldl_nil, hn.1]
    simp [countedChunk]
  | cons f fs ih =>
    rw [List.foldl_cons]
    have hstep := names_changeChunk (index_scopeFinding_counts chunks mode f)
      (scopeFinding chunks mode f).finding.sourceChunkIndex hn
    rw [ih _ _ hstep, sourceChunkIndex_scopeFinding, countedChunk_cons hd]

/-! ## Both modes -/

/-- What `observe` and `enforce` make of the result of a vendor. -/
structure ScopeAgrees (chunks : List PromptChunk) (raw observed enforced : VendorRunResult) :
    Prop where
  classified : List.Forall₂ (Classified chunks) raw.findings observed.findings
  kept : enforced.findings = observed.findings.filter (·.postingEligible)
  observedCounts : Counted chunks raw observed
  enforcedCounts : Counted chunks raw enforced

/-- **Enforcing is observing and filtering**, when no line has two owners. -/
theorem scope_agrees {chunks : List PromptChunk} (hd : DisjointOwners chunks)
    (results : List VendorRunResult) :
    ∃ observed enforced : List VendorRunResult,
      applyFindingScope chunks observe results = .ok observed ∧
      applyFindingScope chunks enforce results = .ok enforced ∧
      observed.length = results.length ∧ enforced.length = results.length ∧
      ∀ (i : Nat) (r o e : VendorRunResult), results[i]? = some r → observed[i]? = some o →
        enforced[i]? = some e → ScopeAgrees chunks r o e := by
  have hok : ∀ mode, applyFindingScope chunks mode results =
      .ok (results.map (scopeResult chunks mode)) := fun mode =>
    if_pos (ownersDistinct_of_disjoint hd)
  refine ⟨_, _, hok observe, hok enforce, List.length_map _, List.length_map _, ?_⟩
  intro i r o e hr ho he
  rw [List.getElem?_map, hr] at ho he
  obtain rfl := Option.some.inj ho
  obtain rfl := Option.some.inj he
  have hobserved : (scopeResult chunks observe r).findings =
      r.findings.map fun f => (scopeFinding chunks observe f).finding :=
    kept_observe hd r.findings
  refine ⟨?_, ?_, counted_scopeResult hd _ r, counted_scopeResult hd _ r⟩
  · rw [hobserved]
    exact List.forall₂_map_right_iff.mpr
      (List.forall₂_same.mpr fun f _ => classified_scopeFinding hd f)
  · rw [hobserved]
    exact kept_enforce hd r.findings

/-- A chunk that owns one line. -/
def lineChunk (index : Nat) (path : Text) (line : Nat) : PromptChunk where
  index := index
  prompt := []
  diffText := []
  diffHash := []
  contextHash := []
  promptNonce := []
  ownedChangedLines := SetDict.empty.add path {line}
  chunkerVersion := []

/-- A finding at `./b.py` that came from the first of two chunks. -/
def strayFinding : ReviewFinding :=
  ⟨"codex".toList, "./b.py".toList, 2, .medium, "correctness".toList, "c".toList, [], 1, none, none,
    none, none, none, some 0, none, none, true, none, false⟩

/-- The owner of its line is the other chunk. -/
theorem scope_agrees_stray :
    ∃ o e : VendorRunResult, ScopeAgrees [lineChunk 0 ['a'] 1, lineChunk 1 "b.py".toList 2]
      ⟨"codex".toList, .done, [strayFinding], 0, [], []⟩ o e := by
  have hd : DisjointOwners [lineChunk 0 ['a'] 1, lineChunk 1 "b.py".toList 2] := by
    unfold DisjointOwners
    decide +kernel
  obtain ⟨observed, enforced, -, -, ho, he, h⟩ := scope_agrees hd
    [⟨"codex".toList, .done, [strayFinding], 0, [], []⟩]
  obtain ⟨o, rfl⟩ := List.length_eq_one_iff.mp ho
  obtain ⟨e, rfl⟩ := List.length_eq_one_iff.mp he
  exact ⟨o, e, h 0 _ o e rfl rfl rfl⟩

end FindingPolicy
