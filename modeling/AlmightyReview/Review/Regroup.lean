import AlmightyReview.Review.Duplicates

/-!
# The groups of a retry

The new findings of a retry join the groups of the stored ones with their keys, and a stored finding
that was alone is put into a new group when another one comes.

* `groupOf`: the group that a retry gives a key. It has one when the key will have several findings
  (`isSome_groupOf`), the one that it had (`groupOf_old`), or a new one (`groupOf_fresh`,
  `groupOf_inj`).
* `leader_regrouped`: what may be posted stays as it is.
* `groupedBy_retry`: the groups after the new findings are stored.
-/

namespace Duplicates

open Pipeline FindingPolicy

/-- The group that a list of a retry gives the key. -/
def groupOf (groups : List (DuplicateKey × Option Nat)) (k : DuplicateKey) : Option Nat :=
  (groups.lookup k).getD none

section RetryGroups

variable {b : Basis} {db : Db} {new keys : List DuplicateKey} {k k' : DuplicateKey} {last n : Nat}
  {G : DuplicateKey → Option Nat}

theorem groupOf_cons (key : DuplicateKey) (g : Option Nat)
    (groups : List (DuplicateKey × Option Nat)) :
    groupOf ((key, g) :: groups) k = if k = key then g else groupOf groups k := by
  unfold groupOf
  rw [List.lookup_cons]
  by_cases hk : k = key
  · rw [if_pos hk, beq_iff_eq.mpr hk]
    rfl
  · rw [if_neg hk, beq_eq_false_iff_ne.mpr hk]

theorem groupOf_cons_self (g : Option Nat) (groups : List (DuplicateKey × Option Nat)) :
    groupOf ((k, g) :: groups) k = g := by
  rw [groupOf_cons, if_pos rfl]

/-! ## Which keys have groups -/

theorem isSome_retryGroup :
    (retryGroup b.canonicalClaim b.runId db new k last).1.isSome ↔
      2 ≤ b.size k db.findings + new.count k := by
  unfold retryGroup
  dsimp only
  rw [length_keyed]
  split
  · rename_i h
    exact iff_of_false Bool.false_ne_true (by omega)
  · rename_i h
    exact iff_of_true (by split <;> rfl) (by omega)

/-- A key of the retry is in a group when it will have several findings. -/
theorem isSome_groupOf (hk : k ∈ keys) :
    (groupOf (retryGroups b.canonicalClaim b.runId db new keys last) k).isSome ↔
      2 ≤ b.size k db.findings + new.count k := by
  induction keys generalizing last with
  | nil => cases hk
  | cons key keys ih =>
    rw [retryGroups, groupOf_cons]
    by_cases heq : k = key
    · rw [if_pos heq, ← heq]
      exact isSome_retryGroup
    · rw [if_neg heq]
      exact ih (List.mem_of_ne_of_mem heq hk)

theorem groupOf_other (hk : k ∉ keys) :
    groupOf (retryGroups b.canonicalClaim b.runId db new keys last) k = none := by
  induction keys generalizing last with
  | nil => rfl
  | cons key keys ih =>
    rw [List.mem_cons, not_or] at hk
    rw [retryGroups, groupOf_cons, if_neg hk.1]
    exact ih hk.2

/-! ## Which groups they have -/

theorem head?_filterMap_of_forall {α β : Type} {f : α → Option β} {x : Option β} {l : List α}
    (h : ∀ a ∈ l, f a = x) (hl : l ≠ []) : (l.filterMap f).head? = x := by
  cases x with
  | none => rw [List.filterMap_eq_nil_iff.mpr h, List.head?_nil]
  | some y =>
    cases l with
    | nil => exact absurd rfl hl
    | cons a l => rw [List.filterMap_cons_some (h a List.mem_cons_self), List.head?_cons]

/-- The group that a retry finds for a key is the one of its findings. -/
theorem storedGroup_eq (h : GroupedBy b G db.findings) :
    ((keyed b.canonicalClaim b.runId k db).filterMap (·.duplicateGroupId)).head? = G k := by
  by_cases hnil : keyed b.canonicalClaim b.runId k db = []
  · have hsize : b.size k db.findings = 0 := by rw [← length_keyed, hnil, List.length_nil]
    have hG : ¬(G k).isSome := fun hs => by
      have := (h.several k).mp hs
      omega
    rw [hnil, Option.not_isSome_iff_eq_none.mp hG]
    rfl
  · refine head?_filterMap_of_forall (fun f hf => ?_) hnil
    obtain ⟨hf, hr, hk⟩ := mem_keyed.mp hf
    rw [h.group f hf hr, hk]

/-- The group of a key is its old one, or the next number. -/
theorem retryGroup_cases (h : GroupedBy b G db.findings) (new : List DuplicateKey)
    (k : DuplicateKey) (last : Nat) :
    (∃ m, G k = some m ∧ retryGroup b.canonicalClaim b.runId db new k last = (some m, last)) ∨
    G k = none ∧ (retryGroup b.canonicalClaim b.runId db new k last = (none, last) ∨
      retryGroup b.canonicalClaim b.runId db new k last = (some (last + 1), last + 1)) := by
  unfold retryGroup
  dsimp only
  rw [storedGroup_eq h, length_keyed]
  cases hG : G k with
  | some m =>
    have htwo : 2 ≤ b.size k db.findings := (h.several k).mp (by rw [hG]; rfl)
    exact .inl ⟨m, rfl, if_neg (by omega)⟩
  | none =>
    refine .inr ⟨rfl, ?_⟩
    split
    · exact .inl rfl
    · exact .inr rfl

theorem le_retryGroup (h : GroupedBy b G db.findings) :
    last ≤ (retryGroup b.canonicalClaim b.runId db new k last).2 := by
  obtain ⟨m, -, hg⟩ | ⟨-, hg | hg⟩ := retryGroup_cases h new k last
  all_goals rw [hg]
  exact Nat.le_succ last

/-- A key with a group keeps it. -/
theorem groupOf_old (h : GroupedBy b G db.findings) (hk : k ∈ keys) (hG : G k = some n) :
    groupOf (retryGroups b.canonicalClaim b.runId db new keys last) k = some n := by
  induction keys generalizing last with
  | nil => cases hk
  | cons key keys ih =>
    rw [retryGroups, groupOf_cons]
    by_cases heq : k = key
    · rw [if_pos heq, ← heq]
      obtain ⟨m, hm, hg⟩ | ⟨hnone, -⟩ :=
        retryGroup_cases h new k last
      · rw [hg, ← hm, hG]
      · rw [hG] at hnone
        cases hnone
    · rw [if_neg heq]
      exact ih (List.mem_of_ne_of_mem heq hk)

/-- A new group has a new number. -/
theorem groupOf_fresh (h : GroupedBy b G db.findings) (hG : G k = none)
    (hn : groupOf (retryGroups b.canonicalClaim b.runId db new keys last) k = some n) :
    last < n := by
  induction keys generalizing last with
  | nil => cases hn
  | cons key keys ih =>
    rw [retryGroups, groupOf_cons] at hn
    by_cases heq : k = key
    · rw [if_pos heq, ← heq] at hn
      obtain ⟨m, hm, -⟩ | ⟨-, hg | hg⟩ :=
        retryGroup_cases h new k last
      · rw [hG] at hm
        cases hm
      · rw [hg] at hn
        cases hn
      · rw [hg] at hn
        have : last + 1 = n := Option.some.inj hn
        omega
    · rw [if_neg heq] at hn
      exact (le_retryGroup h).trans_lt (ih hn)

/-- Two new groups have two numbers. -/
theorem groupOf_inj (h : GroupedBy b G db.findings) (hG : G k = none) (hG' : G k' = none)
    (hn : groupOf (retryGroups b.canonicalClaim b.runId db new keys last) k = some n)
    (hn' : groupOf (retryGroups b.canonicalClaim b.runId db new keys last) k' = some n) :
    k = k' := by
  induction keys generalizing last with
  | nil => cases hn
  | cons key keys ih =>
    rw [retryGroups, groupOf_cons] at hn hn'
    -- a number that is given to the first key is not given to a later one
    have hlater : ∀ {j j'}, G j = none → G j' = none → j = key → j' ≠ key →
        (retryGroup b.canonicalClaim b.runId db new key last).1 = some n →
        groupOf (retryGroups b.canonicalClaim b.runId db new keys
          (retryGroup b.canonicalClaim b.runId db new key last).2) j' = some n → False := by
      rintro j j' hj hj' rfl - hfirst hrest
      obtain ⟨m, hm, -⟩ | ⟨-, hg | hg⟩ :=
        retryGroup_cases h new j last
      · rw [hj] at hm
        cases hm
      · rw [hg] at hfirst
        cases hfirst
      · rw [hg] at hfirst hrest
        have hlt := groupOf_fresh h hj' hrest
        have : last + 1 = n := Option.some.inj hfirst
        omega
    by_cases heq : k = key
    · by_cases heq' : k' = key
      · rw [heq, heq']
      · rw [if_pos heq] at hn
        rw [if_neg heq'] at hn'
        exact (hlater hG hG' heq heq' hn hn').elim
    · rw [if_neg heq] at hn
      by_cases heq' : k' = key
      · rw [if_pos heq'] at hn'
        exact (hlater hG' hG heq' heq hn' hn).elim
      · rw [if_neg heq'] at hn'
        exact ih hn hn'

theorem le_foldl_max {l : List Nat} {x a : Nat} (h : x ∈ l ∨ x ≤ a) : x ≤ l.foldl max a := by
  induction l generalizing a with
  | nil => exact h.resolve_left List.not_mem_nil
  | cons y l ih =>
    refine ih ?_
    rcases h with hx | hx
    · rcases List.mem_cons.mp hx with rfl | hx
      · exact .inr (le_max_right a x)
      · exact .inl hx
    · exact .inr (le_max_of_le_left hx)

/-- The groups of the stored findings are numbered up to the last one. -/
theorem le_lastGroup (h : GroupedBy b G db.findings) (hG : G k = some n) :
    n ≤ lastGroup b.runId db := by
  have htwo : 2 ≤ b.size k db.findings := (h.several k).mp (by rw [hG]; rfl)
  obtain ⟨f, hf, hr, hk⟩ := exists_of_size (show 0 < b.size k db.findings by omega)
  have hgroup : f.duplicateGroupId = some n := by rw [h.group f hf hr, hk, hG]
  refine le_foldl_max (.inl (List.mem_map.mpr ⟨f, List.mem_filter.mpr ⟨hf, ?_⟩, ?_⟩))
  · exact beq_iff_eq.mpr hr
  · rw [hgroup]
    rfl

end RetryGroups

/-! ## The stored findings -/

section Stored

variable {b : Basis} {db : Db} {groups : List (DuplicateKey × Option Nat)} {mode : Text}
  {f : Finding} {t : Table Finding} {R : Finding → Finding → Prop}

/-- An update that relates the findings of the run to what they become. -/
theorem corresponds_update {g : Finding → Finding} {hg : ∀ f, (g f).id = f.id}
    (hrefl : ∀ f, R f f) (h : ∀ f ∈ t, f.runId = b.runId → R f (g f)) :
    Corresponds R b.runId t (t.update (·.runId == b.runId) g hg) where
  kept f hf hr := by
    refine ⟨g f, Table.mem_update.mpr ⟨f, hf, ?_⟩, h f hf hr⟩
    rw [if_pos (beq_iff_eq.mpr hr)]
  old f' hf' hr' := by
    obtain ⟨f, hf, rfl⟩ := Table.mem_update.mp hf'
    refine ⟨f, hf, ?_⟩
    split
    · rename_i hr
      exact h f hf (beq_iff_eq.mp hr)
    · exact hrefl f

theorem SameFinding.refl (f : Finding) : SameFinding f f :=
  ⟨rfl, rfl, rfl, rfl, rfl, rfl, rfl, rfl, rfl⟩

theorem SameKey.refl (f : Finding) : SameKey b f f := ⟨rfl, rfl, rfl⟩

theorem SameLeader.refl (f : Finding) : SameLeader b f f := ⟨.refl f, rfl⟩

theorem sameFinding_retag (merged : List (Merged Finding)) (f : Finding) :
    SameFinding f (retag merged f) := by
  unfold retag
  split
  · exact ⟨rfl, rfl, rfl, rfl, rfl, rfl, rfl, rfl, rfl⟩
  · exact .refl f

theorem key_groupStored : b.key (groupStored b.canonicalClaim mode groups db f) = b.key f := by
  unfold groupStored
  split <;> rfl

theorem runId_groupStored : (groupStored b.canonicalClaim mode groups db f).runId = f.runId := by
  unfold groupStored
  split <;> rfl

theorem group_groupStored : (groupStored b.canonicalClaim mode groups db f).duplicateGroupId =
    (groupOf groups (b.key f)).or f.duplicateGroupId := by
  unfold groupStored groupOf Basis.key
  split
  · rename_i group hlook
    rw [hlook]
    rfl
  · rename_i hlook
    cases hl : groups.lookup (storedKey b.canonicalClaim f) with
    | none => rfl
    | some x =>
      cases x with
      | none => rfl
      | some group => exact absurd hl (hlook group)

/-- The first finding with a key is the oldest. -/
theorem oldest_of_keyed {k : DuplicateKey} {l : List Finding}
    (hl : keyed b.canonicalClaim b.runId k db = f :: l) {g : Finding} (hg : g ∈ db.findings)
    (hr : g.runId = b.runId) (hk : b.key g = k) : f.id ≤ g.id := by
  have hsorted : (keyed b.canonicalClaim b.runId k db).Pairwise fun f g => f.id ≤ g.id := by
    unfold keyed
    exact List.pairwise_insertionSort _ _
  have hmem : g ∈ keyed b.canonicalClaim b.runId k db := mem_keyed.mpr ⟨hg, hr, hk⟩
  rw [hl] at hsorted hmem
  rcases List.mem_cons.mp hmem with rfl | hmem
  · exact le_rfl
  · exact (List.pairwise_cons.mp hsorted).1 g hmem

/-- The oldest finding with a key has the first place. -/
theorem placeOf_eq_zero (hf : f ∈ db.findings) (hr : f.runId = b.runId)
    (hmin : ∀ g ∈ db.findings, g.runId = b.runId → b.key g = b.key f → f.id ≤ g.id) :
    placeOf b.canonicalClaim db f = 0 := by
  have hmem : f ∈ keyed b.canonicalClaim b.runId (b.key f) db := mem_keyed.mpr ⟨hf, hr, rfl⟩
  unfold placeOf
  rw [hr]
  show (keyed b.canonicalClaim b.runId (b.key f) db).findIdx _ = 0
  cases hl : keyed b.canonicalClaim b.runId (b.key f) db with
  | nil =>
    rw [hl] at hmem
    cases hmem
  | cons g l =>
    have hg : g ∈ keyed b.canonicalClaim b.runId (b.key f) db := hl ▸ List.mem_cons_self
    obtain ⟨hg, hgr, hk⟩ := mem_keyed.mp hg
    have hid : g.id = f.id :=
      Nat.le_antisymm (oldest_of_keyed hl hf hr rfl) (hmin g hg hgr hk)
    rw [List.findIdx_cons, beq_iff_eq.mpr hid]
    rfl

/-- **A leader stays one**: only the oldest finding with a key could be posted before. -/
theorem eligible_groupStored (h : Leading b db.findings) (hf : f ∈ db.findings)
    (hr : f.runId = b.runId) :
    (groupStored b.canonicalClaim mode groups db f).postingEligible = f.postingEligible := by
  unfold groupStored
  split
  · show (if mode = enforce ∧ 0 < placeOf b.canonicalClaim db f then false else _) = _
    split
    · rename_i hplace
      by_contra hne
      have heligible : f.postingEligible = true := by
        cases hp : f.postingEligible with
        | true => rfl
        | false => exact absurd hp.symm hne
      have hzero := placeOf_eq_zero hf hr ((h f hf hr).mp heligible).2
      omega
    · rfl
  · rfl

theorem sameKey_groupStored : SameKey b f (groupStored b.canonicalClaim mode groups db f) :=
  ⟨groupStored_id .., runId_groupStored, key_groupStored⟩

end Stored

/-! ## A retry -/

section Retry

variable {b : Basis} {db : Db} {e : RetryEnding} {G : DuplicateKey → Option Nat}
  {findings : List ReviewFinding} {now : Time}

theorem corresponds_regrouped (hrun : e.runId = b.runId) :
    Corresponds (SameKey b) b.runId db.findings (regrouped b.canonicalClaim e db) := by
  unfold regrouped
  rw [hrun]
  exact corresponds_update SameKey.refl fun f _ _ => sameKey_groupStored

theorem leader_regrouped (hrun : e.runId = b.runId) (h : Leading b db.findings) :
    Corresponds (SameLeader b) b.runId db.findings (regrouped b.canonicalClaim e db) := by
  unfold regrouped
  rw [hrun]
  exact corresponds_update SameLeader.refl fun f hf hr =>
    ⟨sameKey_groupStored, eligible_groupStored h hf hr⟩

theorem mem_newKeys {k : DuplicateKey} : k ∈ newKeys b.canonicalClaim e ↔
    k ∈ (newKeys b.canonicalClaim e).reverse.dedup.reverse := by
  rw [List.mem_reverse, List.mem_dedup, List.mem_reverse]

theorem newGroups_eq (hrun : e.runId = b.runId) :
    newGroups b.canonicalClaim e db = retryGroups b.canonicalClaim b.runId db
      (newKeys b.canonicalClaim e) (newKeys b.canonicalClaim e).reverse.dedup.reverse
      (lastGroup b.runId db) := by
  unfold newGroups
  rw [hrun]

/-- The keys that the items of a retry have. -/
theorem keys_retryItems
    (h : List.Forall₂ Alike (newInGroups b.canonicalClaim e db) findings) :
    ((retryItems findings).map fun i => duplicateKey b.canonicalClaim i.finding) =
      newKeys b.canonicalClaim e := by
  unfold retryItems
  rw [List.map_map]
  refine (keys_alike h).trans ?_
  exact map_withEarlier duplicateKey_groupNext

/-- The group of a key after a retry. -/
def joined (b : Basis) (e : RetryEnding) (db : Db) (G : DuplicateKey → Option Nat)
    (k : DuplicateKey) : Option Nat :=
  (groupOf (newGroups b.canonicalClaim e db) k).or (G k)

/-- The groups of a retry are those of the keys that it brings. -/
theorem joined_of_mem (hrun : e.runId = b.runId) (h : GroupedBy b G db.findings)
    {k : DuplicateKey} (hk : k ∈ newKeys b.canonicalClaim e) :
    joined b e db G k = groupOf (newGroups b.canonicalClaim e db) k := by
  unfold joined
  cases hg : groupOf (newGroups b.canonicalClaim e db) k with
  | some n => rfl
  | none =>
    rw [newGroups_eq hrun] at hg
    have hsome : (none : Option Nat).isSome ↔
        2 ≤ b.size k db.findings + (newKeys b.canonicalClaim e).count k := by
      rw [← hg]
      exact isSome_groupOf (mem_newKeys.mp hk)
    cases hG : G k with
    | none => rfl
    | some n =>
      have htwo : 2 ≤ b.size k db.findings := (h.several k).mp (by rw [hG]; rfl)
      exact absurd (hsome.mpr (by omega)) Bool.false_ne_true

/-- A group is an old one, or a new one with a new number. -/
theorem joined_cases (hrun : e.runId = b.runId) (h : GroupedBy b G db.findings) {k : DuplicateKey}
    {n : Nat} (hn : joined b e db G k = some n) : G k = some n ∨
      G k = none ∧ lastGroup b.runId db < n ∧
        groupOf (retryGroups b.canonicalClaim b.runId db (newKeys b.canonicalClaim e)
          (newKeys b.canonicalClaim e).reverse.dedup.reverse (lastGroup b.runId db)) k =
            some n := by
  unfold joined at hn
  rw [newGroups_eq hrun] at hn
  cases hG : G k with
  | none =>
    rw [hG, Option.or_none] at hn
    exact .inr ⟨rfl, groupOf_fresh h hG hn, hn⟩
  | some m =>
    left
    by_cases hk : k ∈ newKeys b.canonicalClaim e
    · rw [groupOf_old h (mem_newKeys.mp hk) hG] at hn
      exact hn
    · rw [groupOf_other (mt mem_newKeys.mpr hk), hG] at hn
      exact hn

/-- **The groups after a retry** are those of the keys. -/
theorem groupedBy_retry (hrun : e.runId = b.runId) (h : GroupedBy b G db.findings)
    (hfindings : List.Forall₂ Alike (newInGroups b.canonicalClaim e db) findings) :
    GroupedBy b (joined b e db G)
      (persisted b.runId now (retryItems findings) (regrouped b.canonicalClaim e db)) := by
  have hkeys := keys_retryItems hfindings
  have hsize : ∀ k, b.size k (regrouped b.canonicalClaim e db) = b.size k db.findings :=
    size_corresponds (corresponds_regrouped hrun)
  refine groupedBy_persisted (fun f' hf' hr' => ?_) (fun g hg => ?_) (fun k => ?_)
    fun k k' n hn hn' => ?_
  · -- a stored finding joins its group
    obtain ⟨f, hf, rfl⟩ := Table.mem_update.mp hf'
    by_cases hr : (f.runId == e.runId) = true
    · have hr : f.runId = b.runId := (beq_iff_eq.mp hr).trans hrun
      rw [if_pos (beq_iff_eq.mpr (hr.trans hrun.symm)), group_groupStored, key_groupStored,
        h.group f hf hr]
      rfl
    · rw [if_neg hr] at hr'
      exact absurd (beq_iff_eq.mpr (hr'.trans hrun.symm)) hr
  · -- a new finding joins the group of its key
    have hmem : g ∈ findings := by
      unfold retryItems at hg
      rw [List.map_map] at hg
      obtain ⟨g', hg', rfl⟩ := List.mem_map.mp hg
      exact hg'
    have hk : duplicateKey b.canonicalClaim g ∈ newKeys b.canonicalClaim e := by
      rw [← hkeys]
      unfold retryItems
      rw [List.map_map]
      exact List.mem_map.mpr ⟨g, hmem, rfl⟩
    rw [joined_of_mem hrun h hk]
    exact grouped_groupNext.alike hfindings g hmem
  · rw [hsize, hkeys]
    by_cases hk : k ∈ newKeys b.canonicalClaim e
    · rw [joined_of_mem hrun h hk, newGroups_eq hrun]
      exact isSome_groupOf (mem_newKeys.mp hk)
    · unfold joined
      rw [newGroups_eq hrun, groupOf_other (mt mem_newKeys.mpr hk), List.count_eq_zero.mpr hk]
      exact h.several k
  · -- old groups and new ones have different numbers
    rcases joined_cases hrun h hn with hG | ⟨hG, hlt, hg⟩
    · rcases joined_cases hrun h hn' with hG' | ⟨-, hlt, -⟩
      · exact h.distinct k k' n hG hG'
      · exact absurd (le_lastGroup h hG) (by omega)
    · rcases joined_cases hrun h hn' with hG' | ⟨hG', -, hg'⟩
      · exact absurd (le_lastGroup h hG') (by omega)
      · exact groupOf_inj h hG hG' hg hg'

end Retry

end Duplicates
