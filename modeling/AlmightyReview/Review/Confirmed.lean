import AlmightyReview.Review.Verify

/-!
# What a verification confirms

The result of `_verify_singles`, for any verifier that raises no cleanup failure.

* `ownVerdict`: the verdict at the position of a finding in the list that its group got. There is
  none when the verifier raised, or gave too few.
* `SettledAs`: a target after its verdict. Its status follows from its own verdict, and only a
  verdict that does not refute, is not contested and is independent confirms it.
* `verifySingles_settled`: every target is settled as its own verdict says, and nothing else
  changes. With `make_verifier` a confirmation comes from another vendor than the author.
-/

namespace Verify

open FindingPolicy Pipeline

/-! ## Positions -/

/-- Where an element stands among those with `p`. -/
theorem getElem?_filter_countP {α : Type} {p : α → Bool} {l : List α} {i : Nat} {a : α}
    (h : l[i]? = some a) (ha : p a = true) :
    (l.filter p)[(l.take i).countP p]? = some a := by
  induction l generalizing i with
  | nil => cases h
  | cons b l ih =>
    cases i with
    | zero =>
      obtain rfl : b = a := Option.some.inj h
      rw [List.filter_cons_of_pos ha]
      rfl
    | succ i =>
      have htail : l[i]? = some a := h
      rw [List.take_succ_cons]
      by_cases hb : p b = true
      · rw [List.filter_cons_of_pos hb, List.countP_cons_of_pos hb, List.getElem?_cons_succ]
        exact ih htail
      · rw [List.filter_cons_of_neg hb, List.countP_cons_of_neg hb]
        exact ih htail

theorem lookup_of_mem {β : Type} {d : List (Nat × β)} (hd : (d.map Prod.fst).Nodup) {k : Nat}
    {v : β} (h : (k, v) ∈ d) : d.lookup k = some v := by
  induction d with
  | nil => cases h
  | cons e d ih =>
    obtain ⟨k', v'⟩ := e
    rw [List.map_cons, List.nodup_cons] at hd
    rcases List.mem_cons.mp h with he | hin
    · obtain ⟨rfl, rfl⟩ := Prod.mk.inj he
      rw [List.lookup_cons_self]
    · have hne : (k == k') = false := by
        rw [beq_eq_false_iff_ne]
        rintro rfl
        exact hd.1 (List.mem_map.mpr ⟨_, hin, rfl⟩)
      rw [List.lookup_cons, hne]
      exact ih hd.2 hin

theorem map_fst_zip {α β : Type} (as : List α) (bs : List β) :
    (as.zip bs).map Prod.fst = as.take bs.length := by
  induction as generalizing bs with
  | nil => simp
  | cons a as ih =>
    cases bs with
    | nil => rfl
    | cons b bs => rw [List.zip_cons_cons, List.map_cons, ih, List.length_cons, List.take_succ_cons]

/-! ## Groups -/

/-- The finding is a target of the chunk. -/
def ofChunk (owner : Option Nat) (m : Merged ReviewFinding) : Bool :=
  isTarget m && m.finding.ownerChunkIndex == owner

/-- The group of a chunk, as the verifier gets it. -/
def groupOf (merged : List (Merged ReviewFinding)) (owner : Option Nat) :
    List (Merged ReviewFinding) := merged.filter (ofChunk owner)

/-- The verdict at the position of the finding in the list for its group. -/
def ownVerdict (x : VerifyArgs) (verify : Verifier) (merged : List (Merged ReviewFinding)) (i : Nat)
    (m : Merged ReviewFinding) : Option Verdict :=
  let owner := m.finding.ownerChunkIndex
  match verify (groupOf merged owner) (x.context owner) with
  | .ok verdicts => verdicts[(merged.take i).countP (ofChunk owner)]?
  | .error _ => none

theorem nodup_targets (merged : List (Merged ReviewFinding)) :
    ((targetsOf merged).map Prod.snd).Nodup := by
  have hall : (merged.zipIdx.map Prod.snd).Nodup := by
    rw [List.zipIdx_map_snd]
    exact List.nodup_range'
  exact hall.sublist (List.filter_sublist.map _)

theorem sameOwner_equivalent (targets : List Target) :
    Cluster.Equivalent (fun a b : Target => a.owner == b.owner) targets where
  refl a := beq_self_eq_true _
  symm a b h := by
    rw [beq_iff_eq] at h ⊢
    exact h.symm
  trans a _ b _ c _ h h' := by
    rw [beq_iff_eq] at h h' ⊢
    exact h.trans h'

theorem grouped_groupTargets (targets : List Target) :
    Cluster.Grouped (fun a b : Target => a.owner == b.owner) targets (groupTargets targets) :=
  Cluster.grouped_groups targets

/-- The group of a target, and the position of the target there. -/
theorem exists_group {merged : List (Merged ReviewFinding)} {i : Nat} {m : Merged ReviewFinding}
    (hm : merged[i]? = some m) (ht : isTarget m = true) :
    ∃ g ∈ groupTargets (targetsOf merged), g.head?.bind Target.owner = m.finding.ownerChunkIndex ∧
      g.map Prod.fst = groupOf merged m.finding.ownerChunkIndex ∧
      g[(merged.take i).countP (ofChunk m.finding.ownerChunkIndex)]? = some (m, i) := by
  set owner := m.finding.ownerChunkIndex with howner
  have hzip : merged.zipIdx[i]? = some (m, i) := by
    rw [List.getElem?_zipIdx, hm]
    simp
  have hmem : (m, i) ∈ targetsOf merged :=
    List.mem_filter.mpr ⟨List.mem_of_getElem? hzip, ht⟩
  have hgrouped := grouped_groupTargets (targetsOf merged)
  obtain ⟨g, hg, hin⟩ := List.mem_flatten.mp (hgrouped.perm.mem_iff.mpr hmem)
  obtain ⟨j, hj⟩ := List.mem_iff_getElem?.mp hg
  have hfilter : g = merged.zipIdx.filter fun t => ofChunk owner t.1 := by
    rw [hgrouped.eq_filter (sameOwner_equivalent _) hj hin, targetsOf, List.filter_filter]
    refine List.filter_congr fun t _ => ?_
    rw [ofChunk, Bool.and_comm]
    congr 1
    exact Bool.beq_comm
  refine ⟨g, hg, ?_, ?_, ?_⟩
  · obtain ⟨h, t, rfl, -⟩ := hgrouped.head g hg
    have hh : h ∈ merged.zipIdx.filter fun t => ofChunk owner t.1 := by
      rw [← hfilter]
      exact List.mem_cons_self
    have hof := (List.mem_filter.mp hh).2
    rw [ofChunk, Bool.and_eq_true, beq_iff_eq] at hof
    exact hof.2
  · rw [hfilter, groupOf]
    conv_rhs => rw [← List.zipIdx_map_fst 0 merged]
    rw [List.filter_map]
    rfl
  · have hpos := getElem?_filter_countP (p := fun t : Target => ofChunk owner t.1) hzip
      (by simp [ofChunk, ht, howner])
    have htake : (merged.zipIdx.take i).countP (fun t => ofChunk owner t.1) =
        (merged.take i).countP (ofChunk owner) := by
      conv_rhs => rw [← List.zipIdx_map_fst 0 merged, ← List.map_take]
      rw [List.countP_map]
      rfl
    rw [hfilter, ← htake]
    exact hpos

/-! ## Verdicts -/

/-- The verdicts on a group, when the run is not aborted. -/
def verdictsOn (x : VerifyArgs) (verify : Verifier) (group : List Target) : List Verdict :=
  match verify (group.map Prod.fst) (x.context (group.head?.bind Target.owner)) with
  | .ok verdicts => verdicts
  | .error _ => group.map fun _ => degradedVerdict

/-- The verifier raises no cleanup failure. -/
def NoCleanupFailure (verify : Verifier) : Prop :=
  ∀ group ctx e, verify group ctx = .error e → abortError e = none

theorem verifyGroup_ok {x : VerifyArgs} {verify : Verifier} (h : NoCleanupFailure verify)
    (group : List Target) :
    verifyGroup x verify group = .ok (matchVerdicts group (verdictsOn x verify group)) := by
  unfold verifyGroup verdictsOn
  cases hv : verify (group.map Prod.fst) (x.context (group.head?.bind Target.owner)) with
  | ok verdicts => rfl
  | error e => simp only [h _ _ _ hv]

theorem keys_matchVerdicts (group : List Target) (verdicts : List Verdict) :
    (matchVerdicts group verdicts).map Prod.fst = group.map Prod.snd := by
  have hzip : (group.zip verdicts).map (fun p => p.1.2) =
      (group.take verdicts.length).map Prod.snd := by
    rw [← map_fst_zip, List.map_map]
    rfl
  rw [matchVerdicts, List.map_append, List.map_map, List.map_map]
  calc _ = (group.take verdicts.length).map Prod.snd ++
        (group.drop verdicts.length).map Prod.snd := by
        rw [← hzip]
        rfl
    _ = group.map Prod.snd := by rw [← List.map_append, List.take_append_drop]

theorem mem_matchVerdicts {group : List Target} {verdicts : List Verdict} {p : Nat} {t : Target}
    (h : group[p]? = some t) :
    (t.2, verdicts[p]?.getD degradedVerdict) ∈ matchVerdicts group verdicts := by
  unfold matchVerdicts
  cases hv : verdicts[p]? with
  | some v =>
    refine List.mem_append_left _ (List.mem_map.mpr ⟨(t, v), ?_, rfl⟩)
    refine List.mem_of_getElem? (i := p) ?_
    rw [List.getElem?_zip_eq_some]
    exact ⟨h, hv⟩
  | none =>
    have hle : verdicts.length ≤ p := List.getElem?_eq_none_iff.mp hv
    refine List.mem_append_right _ (List.mem_map.mpr ⟨t, ?_, rfl⟩)
    refine List.mem_of_getElem? (i := p - verdicts.length) ?_
    rw [List.getElem?_drop, Nat.add_sub_cancel' hle, h]

theorem mapM_ok {α β : Type} {f : α → Except VerifyError β} {g : α → β}
    (h : ∀ a, f a = .ok (g a)) (as : List α) : as.mapM f = .ok (as.map g) := by
  induction as with
  | nil => rfl
  | cons a as ih =>
    rw [List.mapM_cons, h, ih]
    rfl

theorem verdictByTarget_ok {x : VerifyArgs} {verify : Verifier} (h : NoCleanupFailure verify)
    (targets : List Target) :
    verdictByTarget x verify targets = .ok ((groupTargets targets).map fun g =>
      matchVerdicts g (verdictsOn x verify g)).flatten := by
  rw [verdictByTarget, mapM_ok (verifyGroup_ok h)]
  rfl

/-- **The verdict on a target** is that at its own position in the list of its group. -/
theorem verdictOf_eq {x : VerifyArgs} {verify : Verifier} {merged : List (Merged ReviewFinding)}
    {i : Nat} {m : Merged ReviewFinding} (hm : merged[i]? = some m) (ht : isTarget m = true) :
    verdictOf ((groupTargets (targetsOf merged)).map fun g =>
      matchVerdicts g (verdictsOn x verify g)).flatten i =
      (ownVerdict x verify merged i m).getD degradedVerdict := by
  obtain ⟨g, hg, hhead, hgroup, hpos⟩ := exists_group hm ht
  have hkeys : (((groupTargets (targetsOf merged)).map fun g =>
      matchVerdicts g (verdictsOn x verify g)).flatten.map Prod.fst).Nodup := by
    rw [List.map_flatten, List.map_map]
    have hcongr : (List.map Prod.fst ∘ fun g => matchVerdicts g (verdictsOn x verify g)) =
        List.map Prod.snd := funext fun g => keys_matchVerdicts g _
    rw [hcongr, ← List.map_flatten]
    exact ((grouped_groupTargets _).perm.map _).nodup_iff.mpr (nodup_targets merged)
  have hown : (verdictsOn x verify g)[(merged.take i).countP
      (ofChunk m.finding.ownerChunkIndex)]?.getD degradedVerdict =
        (ownVerdict x verify merged i m).getD degradedVerdict := by
    simp only [verdictsOn, ownVerdict, hgroup, hhead]
    cases verify (groupOf merged m.finding.ownerChunkIndex)
        (x.context m.finding.ownerChunkIndex) with
    | ok verdicts => rfl
    | error e => simp only [List.getElem?_map, hpos, Option.map_some, Option.getD_some,
        Option.getD_none]
  unfold verdictOf
  rw [lookup_of_mem hkeys (List.mem_flatten.mpr ⟨_, List.mem_map.mpr ⟨g, hg, rfl⟩,
    mem_matchVerdicts hpos⟩), Option.getD_some, hown]

/-! ## Findings -/

def confirmed : Text := "confirmed".toList
def refutedStatus : Text := "refuted".toList

def statuses : List Text :=
  ["degraded", "refuted", "contested", "confirmed", "supported_self"].map String.toList

/-- `m'` is the target `m` after the verdict `v`, if there is one. -/
structure SettledAs (v : Option Verdict) (m m' : Merged ReviewFinding) : Prop where
  tag : m'.consensus = m.consensus ∧ m'.consensusGroupId = m.consensusGroupId
  rest : SameButVerified m.finding m'.finding
  status : ∃ s ∈ statuses, m'.finding.verifyStatus = some s
  confirmed : m'.finding.verifyStatus = some Verify.confirmed → ∃ w, v = some w ∧
    w.degraded = false ∧ w.refuted = false ∧ w.contested = false ∧ w.independent = true
  refuted : m'.finding.verifyStatus = some refutedStatus ↔
    ∃ w, v = some w ∧ w.degraded = false ∧ w.refuted = true
  confidence : m'.finding.confidence =
    if m'.finding.verifyStatus = some refutedStatus then round3 (m.finding.confidence / 2)
    else m.finding.confidence

/-- The cases of a verdict. -/
theorem settleFinding_cases (v : Verdict) (f : ReviewFinding) :
    (v.degraded = true ∧ (settleFinding v f).verifyStatus = some "degraded".toList ∧
      (settleFinding v f).confidence = f.confidence) ∨
    (v.degraded = false ∧ v.refuted = true ∧
      (settleFinding v f).verifyStatus = some refutedStatus ∧
      (settleFinding v f).confidence = round3 (f.confidence / 2)) ∨
    (v.degraded = false ∧ v.refuted = false ∧ (settleFinding v f).confidence = f.confidence ∧
      ∃ s ∈ statuses, (settleFinding v f).verifyStatus = some s ∧ s ≠ refutedStatus ∧
        (s = Verify.confirmed → v.contested = false ∧ v.independent = true)) := by
  unfold settleFinding
  cases hd : v.degraded with
  | true => exact .inl ⟨rfl, rfl, rfl⟩
  | false =>
    cases hr : v.refuted with
    | true => exact .inr (.inl ⟨rfl, rfl, rfl, rfl⟩)
    | false =>
      refine .inr (.inr ⟨rfl, rfl, rfl, _, ?_, rfl, ?_⟩)
      all_goals cases hc : v.contested
      · cases hi : v.independent
        · exact show "supported_self".toList ∈ statuses by decide
        · exact show Verify.confirmed ∈ statuses by decide
      · exact show "contested".toList ∈ statuses by decide
      · cases hi : v.independent
        · exact show "supported_self".toList ≠ refutedStatus ∧
            ("supported_self".toList = Verify.confirmed → _) from
            ⟨by decide, fun h => absurd h (by decide)⟩
        · exact show Verify.confirmed ≠ refutedStatus ∧ _ from ⟨by decide, fun _ => ⟨rfl, rfl⟩⟩
      · exact show "contested".toList ≠ refutedStatus ∧
          ("contested".toList = Verify.confirmed → _) from
          ⟨by decide, fun h => absurd h (by decide)⟩

theorem settledAs_settle (v : Option Verdict) (m : Merged ReviewFinding) :
    SettledAs v m (settle (v.getD degradedVerdict) m) := by
  have hsome : ∀ w, v.getD degradedVerdict = w → w.degraded = false → v = some w := by
    intro w hw hd
    cases v with
    | some w' => exact congrArg some hw
    | none =>
      obtain rfl : degradedVerdict = w := hw
      cases hd
  have hrest : SameButVerified m.finding (settleFinding (v.getD degradedVerdict) m.finding) := by
    unfold settleFinding SameButVerified
    cases (v.getD degradedVerdict).degraded
    · cases (v.getD degradedVerdict).refuted <;> rfl
    · rfl
  -- a verdict that refutes is not degraded, and is there
  have hno : (v.getD degradedVerdict).degraded = true ∨ (v.getD degradedVerdict).refuted = false →
      ¬∃ w, v = some w ∧ w.degraded = false ∧ w.refuted = true := by
    rintro h ⟨w, rfl, hd, hr⟩
    rcases h with h | h
    · exact Bool.false_ne_true (hd.symm.trans h)
    · exact Bool.false_ne_true (h.symm.trans hr)
  rcases settleFinding_cases (v.getD degradedVerdict) m.finding with
    ⟨hd, hs, hc⟩ | ⟨hd, hr, hs, hc⟩ | ⟨hd, hr, hc, s, hmem, hs, hne, hconf⟩
  · have hne : (settleFinding (v.getD degradedVerdict) m.finding).verifyStatus ≠
        some refutedStatus := fun he => absurd (hs.symm.trans he) (by decide)
    exact ⟨⟨rfl, rfl⟩, hrest, ⟨_, by decide, hs⟩,
      fun he => absurd (hs.symm.trans he) (by decide), iff_of_false hne (hno (.inl hd)),
      hc.trans (if_neg hne).symm⟩
  · exact ⟨⟨rfl, rfl⟩, hrest, ⟨_, by decide, hs⟩,
      fun he => absurd (hs.symm.trans he) (by decide), iff_of_true hs ⟨_, hsome _ rfl hd, hd, hr⟩,
      hc.trans (if_pos hs).symm⟩
  · have hne' : (settleFinding (v.getD degradedVerdict) m.finding).verifyStatus ≠
        some refutedStatus := fun he => hne (Option.some.inj (hs.symm.trans he))
    refine ⟨⟨rfl, rfl⟩, hrest, ⟨s, hmem, hs⟩, fun he => ?_, iff_of_false hne' (hno (.inr hr)),
      hc.trans (if_neg hne').symm⟩
    obtain ⟨hcon, hi⟩ := hconf (Option.some.inj (hs.symm.trans he))
    exact ⟨_, hsome _ rfl hd, hd, hr, hcon, hi⟩

/-! ## The verifier of the server -/

/-- A debate that confirms: another vendor than the author answered, and did not refute. -/
theorem debate_confirms {ask : Text → Text → Except VerifyError Answer} {f : ReviewFinding}
    {refuter author : Option Text} {diff : Text} {v : Verdict}
    (h : debate ask f refuter author diff = .ok v) (hd : v.degraded = false)
    (hr : v.refuted = false) (hc : v.contested = false) (hi : v.independent = true) :
    ∃ r a, refuter = some r ∧ author = some a ∧ a ≠ r ∧
      ∃ answer, ask r (buildVerifyPrompt f diff) = .ok answer ∧ answer.refuted = false := by
  have hround : ∀ {w : Verdict} {vendor : Text} {e : VerifyError},
      handleRound w vendor e = .ok v → v.degraded = w.degraded ∧ v.refuted = w.refuted := by
    intro w vendor e he
    unfold handleRound at he
    split at he
    · split at he
      · cases he
      · obtain rfl := Except.ok.inj he
        exact ⟨rfl, rfl⟩
    · split at he
      · cases he
      · obtain rfl := Except.ok.inj he
        exact ⟨rfl, rfl⟩
  cases refuter with
  | none =>
    obtain rfl := Except.ok.inj h
    cases hd
  | some r =>
    unfold debate at h
    cases ha : ask r (buildVerifyPrompt f diff) with
    | error e =>
      simp only [ha] at h
      exact absurd (hd.symm.trans (hround h).1) (by decide)
    | ok r₁ =>
      simp only [ha] at h
      cases hr₁ : r₁.refuted with
      | false =>
        simp only [hr₁, Bool.not_false, if_true] at h
        obtain rfl := Except.ok.inj h
        cases author with
        | none => cases hi
        | some a =>
          have hne : a ≠ r := by simpa using hi
          exact ⟨r, a, rfl, rfl, hne, r₁, ha, hr₁⟩
      | true =>
        simp only [hr₁, Bool.not_true, Bool.false_eq_true, if_false] at h
        cases author with
        | none =>
          obtain rfl := Except.ok.inj h
          cases hr
        | some a =>
          simp only at h
          split at h
          · obtain rfl := Except.ok.inj h
            cases hr
          · split at h
            · exact absurd (hr.symm.trans (hround h).2) Bool.false_ne_true
            · split at h
              · obtain rfl := Except.ok.inj h
                cases hr
              · obtain rfl := Except.ok.inj h
                cases hc

theorem getElem?_of_mapM {α β : Type} {f : α → Except VerifyError β} {as : List α} {bs : List β}
    (h : as.mapM f = .ok bs) {p : Nat} {b : β} (hb : bs[p]? = some b) :
    ∃ a, as[p]? = some a ∧ f a = .ok b := by
  induction as generalizing bs p with
  | nil =>
    obtain rfl := Except.ok.inj h
    cases hb
  | cons a as ih =>
    rw [List.mapM_cons] at h
    obtain ⟨b₀, hb₀, h⟩ := Exc.bind_ok h
    obtain ⟨bs₀, hbs₀, h⟩ := Exc.bind_ok h
    obtain rfl := Except.ok.inj h
    cases p with
    | zero =>
      obtain rfl : b₀ = b := Option.some.inj hb
      exact ⟨a, rfl, hb₀⟩
    | succ p => exact ih hbs₀ hb

theorem makeVerifier_ok {vendors : List Text} {session : Session}
    {targets : List (Merged ReviewFinding)} {ctx : VerifyContext} {verdicts : List Verdict}
    (h : makeVerifier vendors session targets ctx = .ok verdicts) {p : Nat} {v : Verdict}
    (hv : verdicts[p]? = some v) :
    ∃ m, targets[p]? = some m ∧
      debate (session.ask p) m.finding (pickVerifier vendors.eraseDups m.finding.vendor)
        (vendors.eraseDups.find? (· == m.finding.vendor)) ctx.diff = .ok v := by
  unfold makeVerifier at h
  obtain ⟨-, -, h⟩ := Exc.bind_ok h
  obtain ⟨-, -, h⟩ := Exc.bind_ok h
  obtain ⟨⟨m, q⟩, hm, hd⟩ := getElem?_of_mapM h hv
  rw [List.getElem?_zipIdx, Option.map_eq_some_iff] at hm
  obtain ⟨m', hm', he⟩ := hm
  obtain ⟨rfl, rfl⟩ := Prod.mk.inj he
  rw [Nat.zero_add] at hd
  exact ⟨m', hm', hd⟩

/-- The finding was put to another vendor, which did not refute it. -/
def SupportedByOther (vendors : List Text) (session : Session) (p : Nat) (f : ReviewFinding)
    (diff : Text) : Prop :=
  ∃ vendor ∈ vendors, vendor ≠ f.vendor ∧ ∃ answer,
    session.ask p vendor (buildVerifyPrompt f diff) = .ok answer ∧ answer.refuted = false

theorem supportedByOther_of_debate {vendors : List Text} {session : Session} {p : Nat}
    {f : ReviewFinding} {diff : Text} {v : Verdict}
    (h : debate (session.ask p) f (pickVerifier vendors.eraseDups f.vendor)
      (vendors.eraseDups.find? (· == f.vendor)) diff = .ok v)
    (hd : v.degraded = false) (hr : v.refuted = false) (hc : v.contested = false)
    (hi : v.independent = true) : SupportedByOther vendors session p f diff := by
  obtain ⟨r, a, hpick, hauthor, hne, answer, ha, href⟩ := debate_confirms h hd hr hc hi
  obtain rfl : a = f.vendor := by simpa using List.find?_some hauthor
  have hr : r ∈ vendors := by
    rw [← List.mem_eraseDups]
    unfold pickVerifier at hpick
    split at hpick
    · rename_i vendor hfind
      obtain rfl := Option.some.inj hpick
      exact List.mem_of_find?_eq_some hfind
    · split at hpick
      · obtain rfl := Option.some.inj hpick
        assumption
      · cases hpick
  exact ⟨r, hr, Ne.symm hne, answer, ha, href⟩

/-! ## All findings -/

/-- **Verification.** Every target is settled as the verdict at its own position says, and no other
finding changes. With the verifier of the server, a confirmed finding was supported by another
vendor than its author. -/
theorem verifySingles_settled {verify : Verifier} (h : NoCleanupFailure verify) (x : VerifyArgs)
    (merged : List (Merged ReviewFinding)) :
    ∃ out chunks, verifySingles x verify merged = .ok (out, chunks) ∧
      out.length = merged.length ∧ ∀ i m, merged[i]? = some m → ∃ m', out[i]? = some m' ∧
        (isTarget m = false → m' = m) ∧
        (isTarget m = true → SettledAs (ownVerdict x verify merged i m) m m' ∧
          ∀ (vendors : List Text) (sessions : List (Merged ReviewFinding) → Session),
            verify = (fun targets ctx => makeVerifier vendors (sessions targets) targets ctx) →
            m'.finding.verifyStatus = some confirmed →
            SupportedByOther vendors (sessions (groupOf merged m.finding.ownerChunkIndex))
              ((merged.take i).countP (ofChunk m.finding.ownerChunkIndex)) m.finding
              (x.context m.finding.ownerChunkIndex).diff) := by
  set verdicts := ((groupTargets (targetsOf merged)).map fun g =>
    matchVerdicts g (verdictsOn x verify g)).flatten with hverdicts
  refine ⟨merged.zipIdx.map fun t =>
      if isTarget t.1 then settle (verdictOf verdicts t.2) t.1 else t.1,
    verifyChunks x verdicts (targetsOf merged), ?_, by simp, fun i m hm => ?_⟩
  · rw [verifySingles, verdictByTarget_ok h]
    rfl
  refine ⟨if isTarget m then settle (verdictOf verdicts i) m else m, ?_, fun ht => ?_,
    fun ht => ?_⟩
  · rw [List.getElem?_map, List.getElem?_zipIdx, hm, Option.map_some, Option.map_some,
      Nat.zero_add]
  · exact if_neg (Bool.eq_false_iff.mp ht)
  · rw [if_pos ht, hverdicts, verdictOf_eq hm ht]
    have hsettled := settledAs_settle (ownVerdict x verify merged i m) m
    refine ⟨hsettled, fun vendors sessions hverify hconf => ?_⟩
    obtain ⟨v, hv, hd, hr, hc, hi⟩ := hsettled.confirmed hconf
    unfold ownVerdict at hv
    rw [hverify] at hv
    simp only at hv
    split at hv
    · rename_i verdicts hok
      obtain ⟨m₀, hm₀, hdebate⟩ := makeVerifier_ok hok hv
      have hown : ofChunk m.finding.ownerChunkIndex m = true := by simp [ofChunk, ht]
      rw [groupOf, getElem?_filter_countP hm hown] at hm₀
      obtain rfl := Option.some.inj hm₀
      exact supportedByOther_of_debate hdebate hd hr hc hi
    · cases hv

/-- What the pipeline relies on: findings are changed in the columns of the verification only. -/
theorem verifySingles_sameButVerified {x : VerifyArgs} {verify : Verifier}
    {merged out : List (Merged ReviewFinding)} {chunks : List (Text × List ExecutionChunk)}
    (h : verifySingles x verify merged = .ok (out, chunks)) :
    List.Forall₂ SameButVerified (merged.map Merged.finding) (out.map Merged.finding) := by
  obtain ⟨verdicts, -, h⟩ := Exc.bind_ok h
  obtain ⟨rfl, -⟩ := Prod.mk.inj (Except.ok.inj h)
  rw [List.map_map, List.forall₂_map_left_iff, List.forall₂_map_right_iff]
  conv => arg 2; rw [← List.zipIdx_map_fst 0 merged]
  rw [List.forall₂_map_left_iff]
  refine List.forall₂_same.mpr fun t _ => ?_
  simp only [Function.comp_apply]
  split
  · exact (settledAs_settle (some _) t.1).rest
  · rfl

/-! ## One finding -/

/-- A finding of Claude in the chunk `0`, with the confidence `0.333`. -/
def claudeFinding : Merged ReviewFinding where
  finding := ⟨"claude".toList, "a.py".toList, 1, .high, "bug".toList, "c".toList, "r".toList,
    (Double.round (333 / 1000)).getD 0, none, none, none, none, none, some 0, some 0, some .owned,
    true, none, false⟩
  consensus := .single
  consensusGroupId := 0

def verifyArgs : VerifyArgs where
  diff := []
  promptChunks := []
  pr := ⟨1, 1, 1, none, none, "A".toList, none, none, .opened, none, none, none, none, false, none,
    none⟩
  repo := ⟨1, "o/r".toList, true, .auto, none, none, none, none, true, true, true, "h".toList, none,
    none, none, none, none⟩
  repoLocalPath := none
  harness := ⟨"h".toList, [], [], [], [], [], [], [], []⟩

/-- Nobody refutes anything. -/
def supporting : Session where
  enter := .ok ()
  exit := .ok ()
  ask _ _ _ := .ok ⟨false, [], []⟩

def serverVerifier : Verifier := fun targets ctx =>
  makeVerifier ["claude".toList, "codex".toList] ((fun _ => supporting) targets) targets ctx

theorem verifySingles_settled_one : ∃ (out : List (Merged ReviewFinding))
    (chunks : List (Text × List ExecutionChunk)) (m' : Merged ReviewFinding),
    verifySingles verifyArgs serverVerifier [claudeFinding] = .ok (out, chunks) ∧
      out[0]? = some m' ∧ SettledAs
        (ownVerdict verifyArgs serverVerifier [claudeFinding] 0 claudeFinding)
          claudeFinding m' := by
  have hok : ∀ (f : ReviewFinding) (p : Nat) (r a : Option Text) (diff : Text),
      ∃ v, debate (supporting.ask p) f r a diff = .ok v := by
    intro f p r a diff
    cases r with
    | none => exact ⟨_, rfl⟩
    | some r => exact ⟨_, rfl⟩
  have h : NoCleanupFailure serverVerifier := by
    intro group ctx e he
    have hall : ∀ (ts : List Target), ∃ vs, ts.mapM (fun t =>
        debate (supporting.ask t.2) t.1.finding
          (pickVerifier ["claude".toList, "codex".toList].eraseDups t.1.finding.vendor)
          (["claude".toList, "codex".toList].eraseDups.find? (· == t.1.finding.vendor))
          ctx.diff) = .ok vs := by
      intro ts
      induction ts with
      | nil => exact ⟨_, rfl⟩
      | cons t ts ih =>
        obtain ⟨v, hv⟩ := hok t.1.finding t.2 _ _ ctx.diff
        obtain ⟨vs, hvs⟩ := ih
        exact ⟨v :: vs, by rw [List.mapM_cons, hv, hvs]; rfl⟩
    obtain ⟨vs, hvs⟩ := hall group.zipIdx
    exact absurd (he.symm.trans hvs) (by simp)
  obtain ⟨out, chunks, hrun, -, hall⟩ := verifySingles_settled h verifyArgs [claudeFinding]
  obtain ⟨m', hm', -, htarget⟩ := hall 0 claudeFinding rfl
  exact ⟨out, chunks, m', hrun, hm', (htarget (by decide)).1⟩

/-- **The half is rounded.** Half of `0.333` has four decimals. -/
theorem refuted_not_halved : ¬∀ (x : VerifyArgs) (verify : Verifier)
    (merged out : List (Merged ReviewFinding)) (chunks : List (Text × List ExecutionChunk)),
    NoCleanupFailure verify → verifySingles x verify merged = .ok (out, chunks) →
    ∀ (i : Nat) (m m' : Merged ReviewFinding), merged[i]? = some m → out[i]? = some m' →
      isTarget m = true → m'.finding.verifyStatus = some refutedStatus →
      m'.finding.confidence = m.finding.confidence / 2 := by
  intro h
  let verify : Verifier := fun group _ => .ok (group.map fun _ => { refuted := true })
  have hhalf := h verifyArgs verify [claudeFinding] [settle { refuted := true } claudeFinding] []
    (fun _ _ _ he => nomatch he) rfl 0 claudeFinding _ rfl rfl (by decide) rfl
  revert hhalf
  decide +kernel

end Verify
