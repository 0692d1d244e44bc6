import AlmightyReview.Lib.Earlier
import AlmightyReview.Review.Op

/-!
# Findings of one batch

What the policies and the merge make of the findings of a batch, on their way from the vendors into
the database.

* `InScope`: a finding whose scope was decided; it may be posted when some chunk owns its line.
* `Leads`: of the findings with one key that a chunk owns the first one may be posted, unless the
  run has one already, and no other.
* `Grouped G`: every finding is in the group that `G` gives its key.
* Grouping establishes both for a list (`leads_group`, `grouped_group`, and for a retry
  `leads_groupNew`, `grouped_groupNew`); the ids of rows, a verification and the merge keep them.
-/

namespace FindingPolicy

/-! ## Paths -/

/-- A normalized path is its own. -/
theorem normalizeFindingPath_normal {value path : Text}
    (h : normalizeFindingPath value = some path) : normalizeFindingPath path = some path := by
  simp only [normalizeFindingPath] at h
  split at h
  · cases h
  · rename_i hvalue
    obtain ⟨-, hnul, -, hdots, hparts⟩ := by simpa only [not_or] using hvalue
    obtain rfl := Option.some.inj h
    generalize hp : (value.splitOn '/').filter (fun p => p != [] && p != ['.']) = parts at *
    have hpart : ∀ p ∈ parts, '/' ∉ p ∧ p ⊆ value ∧ (p != [] && p != ['.']) = true := by
      intro p hm
      rw [← hp, List.mem_filter] at hm
      exact ⟨(Text.mem_splitOn hm.1).1, (Text.mem_splitOn hm.1).2, hm.2⟩
    have hsplit : ((parts.intersperse ['/']).flatten).splitOn '/' = parts :=
      List.splitOn_intercalate '/' (fun p hm => (hpart p hm).1) hparts
    have hfilter : parts.filter (fun p => p != [] && p != ['.']) = parts :=
      List.filter_eq_self.mpr fun p hm => (hpart p hm).2.2
    obtain ⟨part, rest, rfl⟩ := List.exists_cons_of_ne_nil hparts
    obtain ⟨hslash, hsub, hne⟩ := hpart part List.mem_cons_self
    obtain ⟨c, cs, rfl⟩ := List.exists_cons_of_ne_nil (l := part) (by
      rintro rfl
      simp at hne)
    have hhead : ∃ tail, (((c :: cs) :: rest).intersperse ['/']).flatten = c :: tail := by
      cases rest with
      | nil => exact ⟨cs, by simp⟩
      | cons r rs => exact ⟨_, by rw [List.intersperse_cons_cons]; rfl⟩
    have hnul' : '\x00' ∉ (((c :: cs) :: rest).intersperse ['/']).flatten := by
      intro hm
      rcases Text.mem_join hm with hm | ⟨p, hpm, hm⟩
      · simp at hm
      · exact hnul ((hpart p hpm).2.1 hm)
    obtain ⟨tail, htail⟩ := hhead
    have hc : c ≠ '/' := fun hc => hslash (hc ▸ List.mem_cons_self)
    simp only [normalizeFindingPath, hsplit, hfilter]
    rw [if_neg]
    rw [htail] at hnul' ⊢
    simp only [not_or]
    exact ⟨List.cons_ne_nil _ _, hnul', by simpa using hc, hdots, hparts⟩

/-! ## Scope -/

/-- Some chunk owns the line of the key. -/
def keyOwned (chunks : List PromptChunk) (k : DuplicateKey) : Bool :=
  (ownerOf chunks k.path k.line).isSome

section Findings

variable (canonicalClaim : Text → Text) (chunks : List PromptChunk)

/-- The scope of the finding was decided, and it is in no group yet. -/
structure InScope (f : ReviewFinding) : Prop where
  eligible : f.postingEligible = keyOwned chunks (duplicateKey canonicalClaim f)
  file : ∀ path, normalizeFindingPath f.file = some path → f.file = path
  group : f.duplicateGroupId = none

variable {canonicalClaim chunks}

theorem normalizeFindingPath_getD (value : Text) :
    normalizeFindingPath ((normalizeFindingPath value).getD value) =
      normalizeFindingPath value := by
  cases h : normalizeFindingPath value with
  | none => exact h
  | some path => exact normalizeFindingPath_normal h

theorem inScope_scopeFinding (mode : Text) {f : ReviewFinding} (hf : f.duplicateGroupId = none) :
    InScope canonicalClaim chunks (scopeFinding chunks mode f).finding := by
  have hpath := normalizeFindingPath_getD f.file
  have hfile : ∀ path,
      normalizeFindingPath ((normalizeFindingPath f.file).getD f.file) = some path →
      (normalizeFindingPath f.file).getD f.file = path := by
    intro path h
    rw [hpath] at h
    rw [h]
    rfl
  unfold scopeFinding
  dsimp only
  by_cases ho : ownerOf chunks (normalizeFindingPath f.file) f.line = none
  · rw [if_pos ho]
    refine ⟨?_, hfile, hf⟩
    simp only [keyOwned, duplicateKey, hpath, ho]
    rfl
  · rw [if_neg ho]
    have hsome : (ownerOf chunks (normalizeFindingPath f.file) f.line).isSome = true :=
      Option.isSome_iff_ne_none.mpr ho
    split
    · refine ⟨?_, hfile, hf⟩
      simp only [keyOwned, duplicateKey, hpath, hsome]
    · refine ⟨?_, hfile, hf⟩
      simp only [keyOwned, duplicateKey, hpath, hsome]

end Findings

/-- The findings of several results, one after the other. -/
def findingsOf (results : List VendorRunResult) : List ReviewFinding :=
  results.flatMap VendorRunResult.findings

/-- A vendor that did not succeed has no findings. -/
def Honest (r : VendorRunResult) : Prop := r.succeeded = true ∨ r.findings = []

theorem applyFindingScope_inScope {canonicalClaim : Text → Text} {chunks : List PromptChunk}
    {mode : Text} {raw results : List VendorRunResult}
    (h : applyFindingScope chunks mode raw = .ok results)
    (hraw : ∀ f ∈ findingsOf raw, f.duplicateGroupId = none) :
    ∀ f ∈ findingsOf results, InScope canonicalClaim chunks f := by
  unfold applyFindingScope at h
  split at h
  · obtain rfl := Except.ok.inj h
    intro f hf
    obtain ⟨r', hr', hf⟩ := List.mem_flatMap.mp hf
    obtain ⟨r, hr, rfl⟩ := List.mem_map.mp hr'
    obtain ⟨s, hs, rfl⟩ := List.mem_map.mp hf
    obtain ⟨f₀, hf₀, rfl⟩ := List.mem_map.mp (List.mem_of_mem_filter hs)
    exact inScope_scopeFinding mode (hraw f₀ (List.mem_flatMap.mpr ⟨r, hr, hf₀⟩))
  · cases h

theorem applyFindingScope_honest {chunks : List PromptChunk} {mode : Text}
    {raw results : List VendorRunResult} (h : applyFindingScope chunks mode raw = .ok results)
    (hraw : ∀ r ∈ raw, Honest r) : ∀ r ∈ results, Honest r := by
  unfold applyFindingScope at h
  split at h
  · obtain rfl := Except.ok.inj h
    intro r' hr'
    obtain ⟨r, hr, rfl⟩ := List.mem_map.mp hr'
    refine (hraw r hr).imp id fun hnil => ?_
    show ((r.findings.map (scopeFinding chunks mode)).filter Scoped.kept).map Scoped.finding = []
    rw [hnil]
    rfl
  · cases h

/-! ## What is asked of a list -/

section Lists

variable (canonicalClaim : Text → Text) (chunks : List PromptChunk)

/-- Of the findings with a key that a chunk owns the first one may be posted, unless the key is
taken, and no other. -/
def Leads (taken : DuplicateKey → Prop) (fs : List ReviewFinding) : Prop :=
  ∀ pre f, After fs pre f → (f.postingEligible = true ↔
    keyOwned chunks (duplicateKey canonicalClaim f) = true ∧
      ¬taken (duplicateKey canonicalClaim f) ∧
      duplicateKey canonicalClaim f ∉ pre.map (duplicateKey canonicalClaim))

/-- Every finding is in the group of its key. -/
def Grouped (G : DuplicateKey → Option Nat) (fs : List ReviewFinding) : Prop :=
  ∀ f ∈ fs, f.duplicateGroupId = G (duplicateKey canonicalClaim f)

end Lists

/-- The same finding, as far as keys, groups and the posting are concerned. -/
structure Alike (f g : ReviewFinding) : Prop where
  vendor : g.vendor = f.vendor
  file : g.file = f.file
  line : g.line = f.line
  category : g.category = f.category
  claim : g.claim = f.claim
  eligible : g.postingEligible = f.postingEligible
  group : g.duplicateGroupId = f.duplicateGroupId

theorem Alike.refl (f : ReviewFinding) : Alike f f := ⟨rfl, rfl, rfl, rfl, rfl, rfl, rfl⟩

instance : IsTrans ReviewFinding Alike where
  trans _ _ _ h h' := ⟨h'.vendor.trans h.vendor, h'.file.trans h.file, h'.line.trans h.line,
    h'.category.trans h.category, h'.claim.trans h.claim, h'.eligible.trans h.eligible,
    h'.group.trans h.group⟩

section Alike

variable {canonicalClaim : Text → Text} {chunks : List PromptChunk} {fs gs : List ReviewFinding}
  {taken : DuplicateKey → Prop} {G : DuplicateKey → Option Nat}

theorem Alike.key {f g : ReviewFinding} (h : Alike f g) :
    duplicateKey canonicalClaim g = duplicateKey canonicalClaim f := by
  simp only [duplicateKey, h.vendor, h.file, h.line, h.category, h.claim]

theorem keys_alike (h : List.Forall₂ Alike fs gs) :
    gs.map (duplicateKey canonicalClaim) = fs.map (duplicateKey canonicalClaim) := by
  induction h with
  | nil => rfl
  | cons hfg _ ih => rw [List.map_cons, List.map_cons, hfg.key, ih]

theorem Leads.alike (hl : Leads canonicalClaim chunks taken fs) (h : List.Forall₂ Alike fs gs) :
    Leads canonicalClaim chunks taken gs := by
  intro pre g hg
  obtain ⟨pre₀, f, hf, hfg, hpre⟩ := hg.forall₂ h
  rw [hfg.eligible, hfg.key, keys_alike hpre]
  exact hl pre₀ f hf

theorem Grouped.alike (hG : Grouped canonicalClaim G fs) (h : List.Forall₂ Alike fs gs) :
    Grouped canonicalClaim G gs := by
  intro g hg
  obtain ⟨pre, hpre⟩ := exists_after hg
  obtain ⟨_, f, hf, hfg, -⟩ := hpre.forall₂ h
  rw [hfg.group, hfg.key]
  exact hG f hf.mem

end Alike

/-! ## The groups of a first batch -/

section Group

variable {canonicalClaim : Text → Text} {chunks : List PromptChunk} {mode : Text}
  {fs : List ReviewFinding}

/-- A key that came before comes twice. -/
theorem two_le_count_of_after {pre : List ReviewFinding} {f : ReviewFinding} (h : After fs pre f)
    (hk : duplicateKey canonicalClaim f ∈ pre.map (duplicateKey canonicalClaim)) :
    2 ≤ (fs.map (duplicateKey canonicalClaim)).count (duplicateKey canonicalClaim f) := by
  obtain ⟨post, rfl⟩ := after_iff.mp h
  have hpre := List.count_pos_iff.mpr hk
  rw [List.map_append, List.map_cons, List.count_append, List.count_cons_self]
  omega

theorem mem_repeated {keys : List DuplicateKey} {k : DuplicateKey} :
    k ∈ repeated keys ↔ 2 ≤ keys.count k := by
  unfold repeated
  simp only [List.mem_filter, List.mem_reverse, List.mem_dedup, decide_eq_true_eq,
    and_iff_right_iff_imp]
  intro h
  exact List.count_pos_iff.mp (by omega)

theorem duplicateKey_groupFinding (keys earlier : List DuplicateKey) (f : ReviewFinding) :
    duplicateKey canonicalClaim (groupFinding canonicalClaim keys mode earlier f) =
      duplicateKey canonicalClaim f := by
  unfold groupFinding
  dsimp only
  split <;> rfl

theorem groupFindings_eq (keys earlier : List DuplicateKey) :
    groupFindings canonicalClaim keys mode earlier fs =
      withEarlier (duplicateKey canonicalClaim) (groupFinding canonicalClaim keys mode) earlier
        fs := by
  induction fs generalizing earlier with
  | nil => rfl
  | cons f fs ih => rw [groupFindings, withEarlier, ih]

theorem findingsOf_groupResults (keys earlier : List DuplicateKey)
    (results : List VendorRunResult) :
    findingsOf (groupResults canonicalClaim keys mode earlier results) =
      withEarlier (duplicateKey canonicalClaim) (groupFinding canonicalClaim keys mode) earlier
        (findingsOf results) := by
  induction results generalizing earlier with
  | nil => rfl
  | cons r rs ih =>
    unfold findingsOf at ih ⊢
    rw [groupResults, List.flatMap_cons, List.flatMap_cons, withEarlier_append, ih,
      groupFindings_eq]

theorem findingsOf_groupDuplicateCandidates (results : List VendorRunResult) :
    findingsOf (groupDuplicateCandidates canonicalClaim mode results) =
      withEarlier (duplicateKey canonicalClaim)
        (groupFinding canonicalClaim ((findingsOf results).map (duplicateKey canonicalClaim)) mode)
        [] (findingsOf results) := by
  rw [← findingsOf_groupResults]
  exact List.flatMap_map ..

theorem groupResults_honest {keys earlier : List DuplicateKey} {results : List VendorRunResult}
    (h : ∀ r ∈ results, Honest r) :
    ∀ r ∈ groupResults canonicalClaim keys mode earlier results, Honest r := by
  induction results generalizing earlier with
  | nil => exact h
  | cons r rs ih =>
    intro r' hr'
    rcases List.mem_cons.mp hr' with rfl | hr'
    · refine (h r List.mem_cons_self).imp id fun hnil => ?_
      show groupFindings canonicalClaim keys mode earlier r.findings = []
      rw [hnil]
      rfl
    · exact ih (fun q hq => h q (List.mem_cons_of_mem _ hq)) r' hr'

theorem groupDuplicateCandidates_honest {results : List VendorRunResult}
    (h : ∀ r ∈ results, Honest r) :
    ∀ r ∈ groupDuplicateCandidates canonicalClaim mode results, Honest r := by
  intro r' hr'
  obtain ⟨r, hr, rfl⟩ := List.mem_map.mp hr'
  exact groupResults_honest h r hr

/-- **The first of a group leads it**, where duplicates are not posted. -/
theorem leads_group (h : ∀ f ∈ fs, InScope canonicalClaim chunks f) :
    Leads canonicalClaim chunks (fun _ => False)
      (withEarlier (duplicateKey canonicalClaim)
        (groupFinding canonicalClaim (fs.map (duplicateKey canonicalClaim)) enforce) [] fs) := by
  intro pre g hg
  obtain ⟨pre₀, f, hf, rfl, rfl⟩ := after_withEarlier hg
  have heligible := (h f hf.mem).eligible
  rw [duplicateKey_groupFinding, map_withEarlier (duplicateKey_groupFinding _)]
  simp only [List.nil_append, groupFinding, not_false_eq_true, true_and]
  by_cases hrep : duplicateKey canonicalClaim f ∈
      repeated (fs.map (duplicateKey canonicalClaim))
  · rw [if_pos hrep]
    simp [heligible]
  · rw [if_neg hrep, heligible]
    have hfirst : duplicateKey canonicalClaim f ∉ pre₀.map (duplicateKey canonicalClaim) :=
      fun hk => hrep (mem_repeated.mpr (two_le_count_of_after hf hk))
    exact (and_iff_left hfirst).symm

/-- The group of a key of a first batch. -/
def firstGroup (keys : List DuplicateKey) (k : DuplicateKey) : Option Nat :=
  if k ∈ repeated keys then some ((repeated keys).idxOf k + 1) else none

theorem grouped_group (h : ∀ f ∈ fs, InScope canonicalClaim chunks f) :
    Grouped canonicalClaim (firstGroup (fs.map (duplicateKey canonicalClaim)))
      (withEarlier (duplicateKey canonicalClaim)
        (groupFinding canonicalClaim (fs.map (duplicateKey canonicalClaim)) mode) [] fs) := by
  intro g hg
  obtain ⟨pre, hpre⟩ := exists_after hg
  obtain ⟨pre₀, f, hf, rfl, -⟩ := after_withEarlier hpre
  rw [duplicateKey_groupFinding]
  simp only [groupFinding, firstGroup]
  split
  · rfl
  · exact (h f hf.mem).group

/-- A key has a group when it comes twice, and no two keys have one group. -/
theorem isSome_firstGroup {keys : List DuplicateKey} {k : DuplicateKey} :
    (firstGroup keys k).isSome ↔ 2 ≤ keys.count k := by
  rw [← mem_repeated]
  unfold firstGroup
  split <;> simp_all

theorem firstGroup_inj {keys : List DuplicateKey} {k k' : DuplicateKey} {n : Nat}
    (h : firstGroup keys k = some n) (h' : firstGroup keys k' = some n) : k = k' := by
  unfold firstGroup at h h'
  split at h
  · rename_i hk
    split at h'
    · have hidx : (repeated keys).idxOf k = (repeated keys).idxOf k' := by
        have := Option.some.inj h
        have := Option.some.inj h'
        omega
      exact (List.idxOf_inj hk).mp hidx
    · cases h'
  · cases h

end Group

end FindingPolicy

namespace Pipeline

open FindingPolicy

/-! ## The groups of a retry -/

section Retry

variable {canonicalClaim : Text → Text} {chunks : List PromptChunk} {mode : Text} {runId : Nat}
  {db : Db} {groups : List (DuplicateKey × Option Nat)} {fs : List ReviewFinding}

/-- A new finding, as `groupNewFindings` treats it. -/
def groupNext (canonicalClaim : Text → Text) (runId : Nat) (mode : Text)
    (groups : List (DuplicateKey × Option Nat)) (db : Db) (earlier : List DuplicateKey)
    (f : ReviewFinding) : ReviewFinding :=
  let key := duplicateKey canonicalClaim f
  groupNew mode ((groups.lookup key).getD none)
    ((keyed canonicalClaim runId key db).length + earlier.count key) f

theorem groupNewFindings_eq (earlier : List DuplicateKey) :
    groupNewFindings canonicalClaim runId mode groups db earlier fs =
      withEarlier (duplicateKey canonicalClaim) (groupNext canonicalClaim runId mode groups db)
        earlier fs := by
  induction fs generalizing earlier with
  | nil => rfl
  | cons f fs ih =>
    rw [groupNewFindings, withEarlier, ih]
    rfl

theorem findingsOf_groupNewResults (earlier : List DuplicateKey)
    (results : List VendorRunResult) :
    findingsOf (groupNewResults canonicalClaim runId mode groups db earlier results) =
      withEarlier (duplicateKey canonicalClaim) (groupNext canonicalClaim runId mode groups db)
        earlier (findingsOf results) := by
  induction results generalizing earlier with
  | nil => rfl
  | cons r rs ih =>
    unfold findingsOf at ih ⊢
    rw [groupNewResults, List.flatMap_cons, List.flatMap_cons, withEarlier_append, ih,
      groupNewFindings_eq]

theorem groupNewResults_honest {earlier : List DuplicateKey} {results : List VendorRunResult}
    (h : ∀ r ∈ results, Honest r) :
    ∀ r ∈ groupNewResults canonicalClaim runId mode groups db earlier results, Honest r := by
  induction results generalizing earlier with
  | nil => exact h
  | cons r rs ih =>
    intro r' hr'
    rcases List.mem_cons.mp hr' with rfl | hr'
    · refine (h r List.mem_cons_self).imp id fun hnil => ?_
      show groupNewFindings canonicalClaim runId mode groups db earlier r.findings = []
      rw [hnil]
      rfl
    · exact ih (fun q hq => h q (List.mem_cons_of_mem _ hq)) r' hr'

theorem duplicateKey_groupNext (earlier : List DuplicateKey) (f : ReviewFinding) :
    duplicateKey canonicalClaim (groupNext canonicalClaim runId mode groups db earlier f) =
      duplicateKey canonicalClaim f := by
  unfold groupNext groupNew
  dsimp only
  split <;> rfl

/-- **The first of a group leads it**, unless the run has it already. -/
theorem leads_groupNext (h : ∀ f ∈ fs, InScope canonicalClaim chunks f)
    (hgroups : ∀ f ∈ fs, (groups.lookup (duplicateKey canonicalClaim f)).getD none = none →
      (keyed canonicalClaim runId (duplicateKey canonicalClaim f) db).length +
        (fs.map (duplicateKey canonicalClaim)).count (duplicateKey canonicalClaim f) < 2) :
    Leads canonicalClaim chunks (fun k => 0 < (keyed canonicalClaim runId k db).length)
      (withEarlier (duplicateKey canonicalClaim)
        (groupNext canonicalClaim runId enforce groups db) [] fs) := by
  intro pre g hg
  obtain ⟨pre₀, f, hf, rfl, rfl⟩ := after_withEarlier hg
  have heligible := (h f hf.mem).eligible
  rw [duplicateKey_groupNext, map_withEarlier duplicateKey_groupNext]
  simp only [List.nil_append, groupNext]
  rw [← List.count_pos_iff]
  cases hlook : (groups.lookup (duplicateKey canonicalClaim f)).getD none with
  | none =>
    have htwo := hgroups f hf.mem hlook
    have hself : 0 < (fs.map (duplicateKey canonicalClaim)).count
        (duplicateKey canonicalClaim f) :=
      List.count_pos_iff.mpr (List.mem_map_of_mem hf.mem)
    have hfirst : ¬0 < (pre₀.map (duplicateKey canonicalClaim)).count
        (duplicateKey canonicalClaim f) := by
      intro hk
      have := two_le_count_of_after hf (List.count_pos_iff.mp hk)
      omega
    have hfree : ¬0 < (keyed canonicalClaim runId (duplicateKey canonicalClaim f) db).length := by
      omega
    show f.postingEligible = true ↔ _
    rw [heligible]
    exact (and_iff_left ⟨hfree, hfirst⟩).symm
  | some n =>
    show (f.postingEligible && !(enforce == enforce && decide (0 < _))) = true ↔ _
    rw [heligible]
    simp only [beq_self_eq_true, Bool.true_and, Bool.and_eq_true, Bool.not_eq_true',
      decide_eq_false_iff_not, and_congr_right_iff]
    intro _
    omega

theorem grouped_groupNext :
    Grouped canonicalClaim (fun k => (groups.lookup k).getD none)
      (withEarlier (duplicateKey canonicalClaim)
        (groupNext canonicalClaim runId mode groups db) [] fs) := by
  intro g hg
  obtain ⟨pre, hpre⟩ := exists_after hg
  obtain ⟨pre₀, f, hf, rfl, -⟩ := after_withEarlier hpre
  rw [duplicateKey_groupNext]
  simp only [groupNext, groupNew]
  split
  · rename_i hlook
    exact hlook.symm
  · rename_i hlook
    exact hlook.symm

end Retry

/-! ## Ids of rows, and the verification -/

theorem alike_withRow (vrId : Nat) (r : VendorRunResult) :
    List.Forall₂ Alike r.findings (withRow vrId r) :=
  List.forall₂_map_right_iff.mpr (List.forall₂_same.mpr fun _ _ =>
    ⟨rfl, rfl, rfl, rfl, rfl, rfl, rfl⟩)

/-- Nothing is lost of vendors without findings. -/
theorem preparedFindings_alike {rows : List VendorRow} {results : List VendorRunResult}
    {findings : List ReviewFinding} (h : preparedFindings rows results = .ok findings)
    (hr : ∀ r ∈ results, Honest r) : List.Forall₂ Alike (findingsOf results) findings := by
  induction results generalizing findings with
  | nil =>
    obtain rfl := Except.ok.inj h
    exact .nil
  | cons r rs ih =>
    unfold preparedFindings at h
    cases hrow : rowFor rows r.vendor with
    | error e =>
      rw [hrow] at h
      cases h
    | ok row =>
      cases hrest : preparedFindings rows rs with
      | error e =>
        rw [hrow, hrest] at h
        cases h
      | ok rest =>
        rw [hrow, hrest] at h
        obtain rfl := Except.ok.inj h
        have hrs := ih hrest fun q hq => hr q (List.mem_cons_of_mem _ hq)
        show List.Forall₂ Alike (r.findings ++ findingsOf rs) _
        split
        · exact List.rel_append (alike_withRow row.vrId r) hrs
        · rename_i hfail
          have hnil : r.findings = [] := (hr r List.mem_cons_self).resolve_left hfail
          rw [hnil]
          exact hrs

theorem alike_of_sameButVerified {f g : ReviewFinding} (h : SameButVerified f g) : Alike f g := by
  unfold SameButVerified at h
  rw [← h]
  exact ⟨rfl, rfl, rfl, rfl, rfl, rfl, rfl⟩

end Pipeline

/-! ## The merge -/

namespace FindingPolicy

/-- Where a finding is, as the merge sees it. -/
def placeOfFinding (f : ReviewFinding) : Text × Int × Text := (f.file, f.line, f.category)

theorem joins_self (f : ReviewFinding) : joins f f = true := by
  simp [joins]

theorem joins_congr (h : ReviewFinding) {f g : ReviewFinding}
    (hfg : placeOfFinding f = placeOfFinding g) : joins h f = joins h g := by
  simp only [placeOfFinding, Prod.mk.injEq] at hfg
  simp only [joins, hfg.1, hfg.2.1, hfg.2.2]

/-- Every finding is in the first group that it joins. -/
def Homed : List (List ReviewFinding) → Prop
  | [] => True
  | [] :: _ => False
  | (h :: fs) :: gs => (∀ f ∈ gs.flatten, joins h f = false) ∧ Homed gs

/-- A finding that is placed comes after all the others of its place. -/
theorem homed_place (a : ReviewFinding) {gs : List (List ReviewFinding)} (hgs : Homed gs) :
    Homed (place id a gs) ∧ (∀ f, f ∈ (place id a gs).flatten ↔ f ∈ gs.flatten ∨ f = a) ∧
      Classwise placeOfFinding (gs.flatten ++ [a]) (place id a gs).flatten := by
  induction gs with
  | nil =>
    refine ⟨⟨fun f hf => ?_, trivial⟩, fun f => ?_, fun k => rfl⟩
    · cases hf
    · simp [place]
  | cons g gs ih =>
    cases g with
    | nil => exact absurd hgs id
    | cons h fs =>
      obtain ⟨hnone, hrest⟩ := hgs
      show Homed (if joins h a then _ else _) ∧ _ ∧ _
      by_cases hj : joins h a = true
      · have hplace : place id a ((h :: fs) :: gs) = (h :: fs ++ [a]) :: gs := if_pos hj
        rw [if_pos hj, hplace]
        refine ⟨⟨hnone, hrest⟩, fun f => ?_, fun k => ?_⟩
        · simp only [List.flatten_cons, List.mem_append, List.mem_singleton]
          tauto
        · -- no finding of the place of `a` is in a later group
          simp only [List.flatten_cons, List.append_assoc, List.filter_append]
          by_cases hk : placeOfFinding a = k
          · have hlater : gs.flatten.filter (fun f => placeOfFinding f = k) = [] := by
              refine List.filter_eq_nil_iff.mpr fun f hf hfk => ?_
              have hsame : placeOfFinding f = placeOfFinding a := by
                rw [hk]
                simpa using hfk
              have := hnone f hf
              rw [joins_congr h hsame, hj] at this
              cases this
            rw [hlater, List.nil_append, List.append_nil]
          · have hone : [a].filter (fun f => placeOfFinding f = k) = [] := by simp [hk]
            rw [hone, List.append_nil, List.nil_append]
      · obtain ⟨hhomed, hmem, hclass⟩ := ih hrest
        have hplace : place id a ((h :: fs) :: gs) = (h :: fs) :: place id a gs := if_neg hj
        rw [if_neg hj, hplace]
        refine ⟨⟨fun f hf => ?_, hhomed⟩, fun f => ?_, fun k => ?_⟩
        · rcases (hmem f).mp hf with hf | rfl
          · exact hnone f hf
          · simpa using hj
        · simp only [List.flatten_cons, List.mem_append, hmem]
          tauto
        · have := hclass k
          simp only [List.flatten_cons, List.append_assoc, List.filter_append] at this ⊢
          rw [← this]

theorem homed_foldl (fs : List ReviewFinding) {gs : List (List ReviewFinding)} (hgs : Homed gs) :
    Homed (fs.foldl (fun gs a => place id a gs) gs) ∧
      Classwise placeOfFinding (gs.flatten ++ fs)
        (fs.foldl (fun gs a => place id a gs) gs).flatten := by
  induction fs generalizing gs with
  | nil => exact ⟨hgs, fun k => by rw [List.append_nil]; rfl⟩
  | cons a fs ih =>
    obtain ⟨hhomed, -, hclass⟩ := homed_place a hgs
    obtain ⟨hend, hclass'⟩ := ih hhomed
    refine ⟨hend, fun k => ?_⟩
    have h₁ := hclass k
    have h₂ := hclass' k
    simp only [List.filter_append] at h₁ h₂
    rw [List.foldl_cons, ← h₂, ← h₁, ← List.singleton_append, List.filter_append,
      List.filter_append, List.append_assoc]

theorem map_deterministicMerge (fs : List ReviewFinding) :
    (deterministicMerge id fs).map (·.finding) =
      (fs.foldl (fun gs a => place id a gs) []).flatten := by
  unfold deterministicMerge
  generalize fs.foldl (fun gs a => place id a gs) [] = groups
  suffices h : ∀ n, ((groups.zipIdx n).flatMap fun g => mergedGroup id g.1 g.2).map (·.finding) =
      groups.flatten from h 0
  induction groups with
  | nil => exact fun _ => rfl
  | cons g gs ih =>
    intro n
    rw [List.zipIdx_cons, List.flatMap_cons, List.map_append, ih, List.flatten_cons]
    congr 1
    simp only [mergedGroup, List.map_map]
    exact List.map_id g

/-- **The merge keeps the order at each place.** -/
theorem classwise_merge (fs : List ReviewFinding) :
    Classwise placeOfFinding fs ((deterministicMerge id fs).map (·.finding)) := by
  rw [map_deterministicMerge]
  have hnil : Homed [] := trivial
  exact (homed_foldl fs hnil).2

section Merge

variable {canonicalClaim : Text → Text} {chunks : List PromptChunk} {fs gs : List ReviewFinding}
  {taken : DuplicateKey → Prop} {G : DuplicateKey → Option Nat}

/-- A finding with a normalized path, where its path can be normalized. -/
def Normal (f : ReviewFinding) : Prop :=
  ∀ path, normalizeFindingPath f.file = some path → f.file = path

/-- Where a chunk owns the line, one key is one place. -/
theorem place_of_key {f g : ReviewFinding} (hf : Normal f) (hg : Normal g)
    (hown : keyOwned chunks (duplicateKey canonicalClaim f) = true)
    (hk : duplicateKey canonicalClaim g = duplicateKey canonicalClaim f) :
    placeOfFinding g = placeOfFinding f := by
  simp only [duplicateKey, DuplicateKey.mk.injEq] at hk
  obtain ⟨-, hpath, hline, hcat, -⟩ := hk
  cases hp : normalizeFindingPath f.file with
  | none =>
    simp only [keyOwned, duplicateKey, hp, ownerOf] at hown
    cases hown
  | some path =>
    simp only [placeOfFinding, hf path hp, hg path (hpath.trans hp), hline, hcat]

theorem Leads.classwise (hl : Leads canonicalClaim chunks taken fs)
    (h : Classwise placeOfFinding fs gs) (hn : ∀ f ∈ fs, Normal f) :
    Leads canonicalClaim chunks taken gs := by
  intro pre g hg
  obtain ⟨pre', hg', hpre⟩ := h.after hg
  rw [hl pre' g hg']
  refine and_congr_right fun hown => and_congr_right fun _ => not_congr ?_
  have hgn : Normal g := hn g hg'.mem
  -- findings with the key of `g` are at its place
  have hsub : ∀ l : List ReviewFinding, (∀ f ∈ l, Normal f) →
      (duplicateKey canonicalClaim g ∈ l.map (duplicateKey canonicalClaim) ↔
        duplicateKey canonicalClaim g ∈ (l.filter fun f => placeOfFinding f = placeOfFinding g).map
          (duplicateKey canonicalClaim)) := by
    intro l hl
    constructor
    · intro hm
      obtain ⟨f, hf, hk⟩ := List.mem_map.mp hm
      refine List.mem_map.mpr ⟨f, List.mem_filter.mpr ⟨hf, ?_⟩, hk⟩
      exact decide_eq_true (place_of_key hgn (hl f hf) hown hk)
    · intro hm
      obtain ⟨f, hf, hk⟩ := List.mem_map.mp hm
      exact List.mem_map.mpr ⟨f, List.mem_of_mem_filter hf, hk⟩
  have hpre₁ : ∀ f ∈ pre', Normal f := fun f hf =>
    hn f (((List.prefix_append pre' [g]).trans hg').subset hf)
  have hpre₂ : ∀ f ∈ pre, Normal f := fun f hf =>
    hn f (h.mem_iff.mpr (((List.prefix_append pre [g]).trans hg).subset hf))
  rw [hsub pre' hpre₁, hsub pre hpre₂, hpre]

theorem Grouped.classwise (hG : Grouped canonicalClaim G fs)
    (h : Classwise placeOfFinding fs gs) : Grouped canonicalClaim G gs :=
  fun g hg => hG g (h.mem_iff.mpr hg)

end Merge

end FindingPolicy
