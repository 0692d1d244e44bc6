import AlmightyReview.Lib.Cluster
import AlmightyReview.Review.Findings
import Mathlib.Data.List.Dedup

/-!
# Consensus

What `deterministic_merge` makes of a list of findings. It groups greedily: a finding joins the
first group whose first finding is near, and a group of several vendors is a consensus.

* `Merges`: what holds for every list. No finding is lost, a group is near its first finding, and
  a finding is a consensus exactly when its group has another vendor.
* `Agreed`: another vendor reported a finding near. This is what the tag says as long as nearness
  is transitive on the findings (`Chainless`, `deterministicMerge_merges`); with a chain of
  findings it is not (`chained_not_consensus`).
-/

namespace FindingPolicy

section Merge

variable {α : Type} (view : α → ReviewFinding)

/-- The findings are at the same place. -/
def near (a b : α) : Bool := joins (view a) (view b)

theorem near_refl (a : α) : near view a a = true := by
  simp [near, joins]

theorem near_symm (a b : α) (h : near view a b = true) : near view b a = true := by
  simp only [near, joins, Bool.and_eq_true, beq_iff_eq, decide_eq_true_eq] at h ⊢
  exact ⟨⟨h.1.1.symm, h.1.2.symm⟩, by omega⟩

theorem near_iff {a b : α} : near view a b = true ↔ (view a).file = (view b).file ∧
    (view a).category = (view b).category ∧ ((view a).line - (view b).line).natAbs ≤ 5 := by
  simp only [near, joins, Bool.and_eq_true, beq_iff_eq, decide_eq_true_eq, and_assoc]
  rfl

/-- No chain of findings leads from one to another that is not near. -/
def Chainless (fs : List α) : Prop :=
  ∀ a ∈ fs, ∀ b ∈ fs, ∀ c ∈ fs, near view a b = true → near view b c = true →
    near view a c = true

theorem Chainless.equivalent {fs : List α} (h : Chainless view fs) :
    Cluster.Equivalent (near view) fs :=
  ⟨near_refl view, near_symm view, h⟩

theorem Chainless.perm {fs fs' : List α} (h : Chainless view fs) (hp : fs'.Perm fs) :
    Chainless view fs' := fun a ha b hb c hc =>
  h a (hp.mem_iff.mp ha) b (hp.mem_iff.mp hb) c (hp.mem_iff.mp hc)

/-! ## Groups -/

theorem place_eq (a : α) (gs : List (List α)) :
    place view a gs = Cluster.place (near view) a gs := by
  induction gs with
  | nil => rfl
  | cons g gs ih =>
    match g with
    | [] => rw [place, Cluster.place, ih]
    | h :: t =>
      rw [place, Cluster.place, ih]
      rfl

/-- The groups of `deterministic_merge`. -/
def mergeGroups (fs : List α) : List (List α) := Cluster.groups (near view) fs

theorem deterministicMerge_eq (fs : List α) : deterministicMerge view fs =
    (mergeGroups view fs).zipIdx.flatMap fun g => mergedGroup view g.1 g.2 := by
  unfold deterministicMerge mergeGroups Cluster.groups
  simp only [place_eq]

/-- A finding of a group of several vendors is near one of another vendor. -/
theorem mergedGroup_consensus {g : List α} {gid : Nat} {m : Merged α}
    (hm : m ∈ mergedGroup view g gid) :
    m.finding ∈ g ∧ m.consensusGroupId = gid ∧ (m.consensus = .consensus ↔
      ∃ b ∈ g, (view b).vendor ≠ (view m.finding).vendor) := by
  obtain ⟨a, ha, rfl⟩ := List.mem_map.mp hm
  refine ⟨ha, rfl, ?_⟩
  set vendors := (g.map fun a => (view a).vendor).dedup with hv
  have hmem : ∀ {v}, v ∈ vendors ↔ ∃ b ∈ g, (view b).vendor = v := by
    intro v
    rw [hv, List.mem_dedup, List.mem_map]
  have hlen : 1 < vendors.length ↔ ∃ b ∈ g, (view b).vendor ≠ (view a).vendor := by
    constructor
    · intro hlt
      by_contra hall
      push Not at hall
      have hsub : vendors ⊆ [(view a).vendor] := by
        intro v hvm
        obtain ⟨b, hb, rfl⟩ := hmem.mp hvm
        exact List.mem_singleton.mpr (hall b hb)
      have hle := ((List.nodup_dedup _).subperm hsub).length_le
      exact absurd hlt (Nat.not_lt.mpr hle)
    · rintro ⟨b, hb, hne⟩
      have hsub : [(view b).vendor, (view a).vendor] ⊆ vendors := by
        intro v hvm
        rcases List.mem_cons.mp hvm with rfl | hvm
        · exact hmem.mpr ⟨b, hb, rfl⟩
        · rw [List.mem_singleton.mp hvm]
          exact hmem.mpr ⟨a, ha, rfl⟩
      have hnodup : [(view b).vendor, (view a).vendor].Nodup := by simpa using hne
      exact (hnodup.subperm hsub).length_le
  rw [← hlen]
  show (if 1 < vendors.length then Consensus.consensus else .single) = .consensus ↔ _
  split
  · exact iff_of_true rfl ‹_›
  · exact iff_of_false (by decide) ‹_›

/-- A merged finding stands in the group with its number. -/
theorem mem_deterministicMerge {fs : List α} {m : Merged α}
    (hm : m ∈ deterministicMerge view fs) :
    ∃ g, (mergeGroups view fs)[m.consensusGroupId]? = some g ∧ m.finding ∈ g ∧
      (m.consensus = .consensus ↔ ∃ b ∈ g, (view b).vendor ≠ (view m.finding).vendor) := by
  rw [deterministicMerge_eq] at hm
  obtain ⟨⟨g, gid⟩, hg, hm⟩ := List.mem_flatMap.mp hm
  obtain ⟨hin, rfl, htag⟩ := mergedGroup_consensus view hm
  exact ⟨g, List.mem_zipIdx_iff_getElem?.mp hg, hin, htag⟩

/-- The merged findings of a group are its findings. -/
theorem exists_merged {fs : List α} {i : Nat} {g : List α}
    (hg : (mergeGroups view fs)[i]? = some g) {a : α} (ha : a ∈ g) :
    ∃ m ∈ deterministicMerge view fs, m.finding = a ∧ m.consensusGroupId = i := by
  rw [deterministicMerge_eq]
  refine ⟨_, List.mem_flatMap.mpr ⟨(g, i), List.mem_zipIdx_iff_getElem?.mpr hg,
    List.mem_map.mpr ⟨a, ha, rfl⟩⟩, rfl, rfl⟩

theorem perm_deterministicMerge (fs : List α) :
    ((deterministicMerge view fs).map Merged.finding).Perm fs := by
  have hflat : (deterministicMerge view fs).map Merged.finding =
      (mergeGroups view fs).flatten := by
    rw [deterministicMerge_eq, List.map_flatMap]
    have hgroup : ∀ g : List α × Nat, (mergedGroup view g.1 g.2).map Merged.finding = g.1 := by
      intro g
      rw [mergedGroup, List.map_map]
      exact List.map_id g.1
    simp only [hgroup]
    rw [List.flatMap_def, List.zipIdx_map_fst]
  rw [hflat]
  exact (Cluster.grouped_groups fs).perm

/-! ## What the tags say -/

/-- Another vendor reported a finding at the same place. -/
def Agreed (fs : List α) (a : α) : Prop :=
  ∃ b ∈ fs, near view a b = true ∧ (view b).vendor ≠ (view a).vendor

/-- What holds of the merged findings, for any list. -/
structure Merges (fs : List α) (ms : List (Merged α)) : Prop where
  once : (ms.map Merged.finding).Perm fs
  grouped : ∃ groups, Cluster.Grouped (near view) fs groups ∧ ∀ m ∈ ms, ∃ g,
    groups[m.consensusGroupId]? = some g ∧ m.finding ∈ g ∧
      (m.consensus = .consensus ↔ ∃ b ∈ g, (view b).vendor ≠ (view m.finding).vendor)
  close : ∀ m ∈ ms, m.consensus = .consensus → ∃ b ∈ fs, (view b).file = (view m.finding).file ∧
    (view b).category = (view m.finding).category ∧
    ((view b).line - (view m.finding).line).natAbs ≤ 10 ∧
    (view b).vendor ≠ (view m.finding).vendor

theorem merges_deterministicMerge (fs : List α) : Merges view fs (deterministicMerge view fs) := by
  have hgrouped : Cluster.Grouped (near view) fs (mergeGroups view fs) :=
    Cluster.grouped_groups fs
  refine ⟨perm_deterministicMerge view fs,
    ⟨_, hgrouped, fun m hm => mem_deterministicMerge view hm⟩, fun m hm hc => ?_⟩
  obtain ⟨g, hg, hin, htag⟩ := mem_deterministicMerge view hm
  obtain ⟨b, hb, hne⟩ := htag.mp hc
  have hgm := List.mem_of_getElem? hg
  obtain ⟨h, t, rfl, ht⟩ := hgrouped.head g hgm
  have hnear : ∀ a ∈ h :: t, near view h a = true :=
    List.forall_mem_cons.mpr ⟨near_refl view h, ht⟩
  obtain ⟨hf, hcat, hl⟩ := (near_iff view).mp (hnear b hb)
  obtain ⟨hf', hcat', hl'⟩ := (near_iff view).mp (hnear m.finding hin)
  exact ⟨b, hgrouped.mem hgm hb, hf.symm.trans hf', hcat.symm.trans hcat', by omega, hne⟩

/-- Without chains a finding is a consensus exactly when another vendor agrees. -/
theorem consensus_iff_agreed {fs : List α} (h : Chainless view fs) {m : Merged α}
    (hm : m ∈ deterministicMerge view fs) :
    m.consensus = .consensus ↔ Agreed view fs m.finding := by
  have hgrouped : Cluster.Grouped (near view) fs (mergeGroups view fs) :=
    Cluster.grouped_groups fs
  obtain ⟨g, hg, hin, htag⟩ := mem_deterministicMerge view hm
  rw [htag]
  constructor
  · rintro ⟨b, hb, hne⟩
    have hnear := (hgrouped.near_iff (h.equivalent view) hg hg hin hb).mpr rfl
    exact ⟨b, hgrouped.mem (List.mem_of_getElem? hg) hb, hnear, hne⟩
  · rintro ⟨b, hb, hnear, hne⟩
    obtain ⟨g', hg', hb'⟩ := List.mem_flatten.mp (hgrouped.perm.mem_iff.mpr hb)
    obtain ⟨j, hj⟩ := List.mem_iff_getElem?.mp hg'
    obtain rfl := (hgrouped.near_iff (h.equivalent view) hg hj hin hb').mp hnear
    obtain rfl : g = g' := Option.some.inj (hg.symm.trans hj)
    exact ⟨b, hb', hne⟩

/-- **Consensus.** Every finding is returned once, and is a consensus exactly when another vendor
is in its group. As long as no chain of findings leads away from a place, that is when another
vendor agrees, and the order of the findings does not matter. -/
theorem deterministicMerge_merges (fs : List α) :
    Merges view fs (deterministicMerge view fs) ∧
    (Chainless view fs → ∀ m ∈ deterministicMerge view fs,
      m.consensus = .consensus ↔ Agreed view fs m.finding) ∧
    (Chainless view fs → ∀ fs', fs'.Perm fs → ∀ m ∈ deterministicMerge view fs,
      ∀ m' ∈ deterministicMerge view fs', m'.finding = m.finding → m'.consensus = m.consensus) := by
  refine ⟨merges_deterministicMerge view fs, fun h m hm => consensus_iff_agreed view h hm,
    fun h fs' hp m hm m' hm' he => ?_⟩
  have hsame : m'.consensus = .consensus ↔ m.consensus = .consensus := by
    rw [consensus_iff_agreed view h hm, consensus_iff_agreed view (h.perm view hp) hm', he]
    simp only [Agreed, hp.mem_iff]
  revert hsame
  cases m.consensus <;> cases m'.consensus <;> simp

end Merge

/-! ## A chain of findings -/

/-- A finding of a vendor at a line. -/
def findingAt (vendor : Text) (line : Int) : ReviewFinding :=
  ⟨vendor, "a.py".toList, line, .high, "bug".toList, "c".toList, "r".toList, 1, none, none, none,
    none, none, none, none, none, true, none, false⟩

/-- The finding in line 7 is near the one in line 6, which has joined the group of line 1. -/
def chained : List ReviewFinding :=
  [findingAt "claude".toList 1, findingAt "codex".toList 7, findingAt "claude".toList 6]

theorem chained_not_consensus : ¬∀ fs : List ReviewFinding,
    ((deterministicMerge id fs).map Merged.finding).Perm fs ∧ ∀ m ∈ deterministicMerge id fs,
      m.consensus = .consensus ↔ Agreed id fs m.finding := by
  intro h
  obtain ⟨hperm, htag⟩ := h chained
  have hmem : findingAt "codex".toList 7 ∈ chained := by decide +kernel
  obtain ⟨m, hm, he⟩ := List.mem_map.mp (hperm.mem_iff.mpr hmem)
  have hagreed : Agreed id chained m.finding := by
    rw [he]
    exact ⟨findingAt "claude".toList 6, by decide +kernel, by decide +kernel, by decide +kernel⟩
  have hsingle : ∀ m ∈ deterministicMerge id chained, m.consensus = .single := by decide +kernel
  have hc := (htag m hm).mpr hagreed
  rw [hsingle m hm] at hc
  cases hc

end FindingPolicy
