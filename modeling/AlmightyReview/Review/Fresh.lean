import AlmightyReview.Review.Rules

/-!
# Fresh runs under the contract

`review_pr` obeys the contract of an execution, exit by exit.

* `InRun x job g`: the history `g` is one of the run `x`, which is not published. `Working`: the run
  has not ended either, and this is its policy and these are its rows.
* `Ends P`: what a part of the run ends in. After a control exception no run is left running.
* `Over`: the run has ended. `Left`: what `review_pr` leaves to the worker (`reviewPr_obeys`).
-/

namespace Pipeline

open Prog

variable {α β : Type} {x : RunArgs} {job : Option ReviewJob} {g : Execution}
  {policy : Option FindingPolicy.PolicySnapshot} {rows : List (Text × Nat)}

/-! ## Histories of a run -/

/-- The run is not published. -/
structure InRun (x : RunArgs) (job : Option ReviewJob) (g : Execution) : Prop where
  created : g.created = some x.runId
  pr : g.pr = some x.pr
  owner : g.owner = x.ownerProcessId
  job : g.job = job
  released : g.released = false
  published : g.published = false

/-- The run has not ended. -/
structure Working (x : RunArgs) (job : Option ReviewJob)
    (policy : Option FindingPolicy.PolicySnapshot) (rows : List (Text × Nat))
    (g : Execution) : Prop extends InRun x job g where
  ended : g.ended = false
  policy : g.policy = policy
  rows : g.rows = rows

/-- The run has ended. -/
structure Over (x : RunArgs) (job : Option ReviewJob) (g : Execution) : Prop where
  created : g.created = some x.runId
  owner : g.owner = x.ownerProcessId
  job : g.job = job
  released : g.released = false
  ended : g.ended = true

/-- A part of the run ends: it returns what meets `P`, or raises. -/
def Ends (x : RunArgs) (job : Option ReviewJob) (P : Execution → α → Prop) (g : Execution) :
    Except Exc α → Prop
  | .ok a => P g a
  | .error e => InRun x job g ∧ (isControl e = true → Settled g)

theorem Quiet.not_control {e : Exc} (h : Quiet e) : isControl e = false := by
  cases e <;> first | rfl | cases h

theorem InRun.raised (h : InRun x job g) (e : Exc) : InRun x job (g.raised e) := by
  cases e <;> exact ⟨h.created, h.pr, h.owner, h.job, h.released, h.published⟩

/-- An exception that is no signal ends a part of the run. -/
theorem InRun.ends {P : Execution → α → Prop} (h : InRun x job g) {e : Exc} (he : Quiet e) :
    Ends x job P g (.error e) := by
  refine ⟨h, fun hc => ?_⟩
  rw [he.not_control] at hc
  cases hc

theorem Working.told (h : Working x job policy rows g) (t : Told) :
    Working x job policy rows { g with told := t } :=
  ⟨⟨h.created, h.pr, h.owner, h.job, h.released, h.published⟩, h.ended, h.policy, h.rows⟩

theorem Working.afterRead (h : Working x job policy rows g) (q : Read β) (b : β) :
    Working x job policy rows (g.afterRead q b) := by
  cases q with
  | getPr prId =>
    have hc : g.created.isSome = true := by simp [h.created]
    simp only [Execution.afterRead, hc, if_true]
    exact h
  | _ => exact h.told _

theorem Working.prepares (h : Working x job policy [] g) : Prepares g x.runId :=
  ⟨⟨h.created, h.ended⟩, h.rows⟩

/-! ## Parts of a run -/

theorem ends_bind {P : Execution → β → Prop} {R : Execution → α → Prop} {p : Review β}
    {f : β → Review α} (hp : Obeys contract (Ends x job P) g p)
    (hf : ∀ g' b, P g' b → Obeys contract (Ends x job R) g' (f b)) :
    Obeys contract (Ends x job R) g (p >>= f) :=
  obeys_bind hp hf fun _ _ h => h

theorem ends_read (h : Working x job policy rows g) (q : Read β) :
    Obeys contract (Ends x job fun g' _ => Working x job policy rows g') g (read q) :=
  obeys_read (fun db => h.afterRead q (q.query db)) fun m =>
    InRun.ends (h.raised (.operationalError m)) rfl

theorem ends_ext (h : Working x job policy rows g) {q : Ext β} (ha : g.AllowsExt q) :
    Obeys contract (Ends x job fun g' b => Working x job policy rows g' ∧ q.Answers (.ok b)) g
      (ext q) :=
  obeys_ext ha (fun b hb => ⟨h.told (g.told.ext q b), hb⟩) fun _ he => h.toInRun.ends he

theorem ends_lift (h : Working x job policy rows g) {r : Except Exc α}
    (hr : Raise.Only Quiet r) :
    Obeys contract (Ends x job fun g' a => Working x job policy rows g' ∧ r = .ok a) g
      (lift r) := by
  refine obeys_lift ?_
  cases r with
  | ok a => exact ⟨h, rfl⟩
  | error e => exact h.toInRun.ends (hr e rfl)

theorem ends_write (h : InRun x job g) {P : Execution → β → Prop} {q : Write β}
    (hq : q.ofRun = true) (ha : g.AllowsWrite q) (hok : ∀ b, P (g.afterWrite q b) b) :
    Obeys contract (Ends x job P) g (write q) :=
  obeys_write ha (write_quiet hq) hok fun e he => (h.raised e).ends he

theorem ends_throw (h : InRun x job g) {P : Execution → α → Prop} {e : Exc} (he : Quiet e) :
    Obeys contract (Ends x job P) g (throw e) :=
  obeys_throw (h.ends he)

/-- `try: p except Exception: h` around a part that changes nothing of the run. -/
theorem ends_catch {P : Execution → α → Prop} {p : Review α}
    {f : Exc → Review α}
    (hp : Obeys contract (Asked (Working x job policy rows) fun _ => True) g p)
    (hok : ∀ g' a, Working x job policy rows g' → P g' a)
    (hf : ∀ g' e, Working x job policy rows g' → Obeys contract (Ends x job P) g' (f e)) :
    Obeys contract (Ends x job P) g (catchException p f) := by
  refine obeys_tryCatch hp (fun g' a ha => hok g' a ha.1) fun g' e he => ?_
  exact obeys_ite (fun _ => ends_throw he.1.toInRun he.2) fun _ => hf g' e he.1

/-- `with r: p`. -/
theorem ends_within (h : InRun x job g) {P : Execution → α → Prop} {r : Resource}
    {p : Review α} (hP : ∀ g' a, P g' a → InRun x job g')
    (hp : Obeys contract (Ends x job P) g p) : Obeys contract (Ends x job P) g (within r p) := by
  refine obeys_within hp (fun e he => h.ends he) fun g' a e ha he => ?_
  cases a with
  | ok a => exact (hP g' a ha).ends he
  | error e' => exact ha.1.ends he

/-- A loop that changes nothing of the run. -/
theorem ends_forEach {ξ : Type} {f : ξ → Review α} {xs : List ξ} {V : ξ → α → Prop}
    (hstep : ∀ g y, y ∈ xs → Working x job policy rows g →
      Obeys contract (Ends x job fun g' a => Working x job policy rows g' ∧ V y a) g (f y))
    (h : Working x job policy rows g) :
    Obeys contract (Ends x job fun g' as => Working x job policy rows g' ∧ List.Forall₂ V xs as) g
      (forEach f xs) := by
  refine obeys_forEach (fun g done as => Working x job policy rows g ∧ List.Forall₂ V done as)
    (fun g done as y rest hxs hI => ?_) (fun g as hI => hI) ⟨h, .nil⟩
  refine (hstep g y (by simp [hxs]) hI.1).mono fun g' r hr => ?_
  cases r with
  | ok a => exact ⟨hr.1, List.rel_append hI.2 (.cons hr.2 .nil)⟩
  | error e => exact hr

/-- A part that is only told something. -/
theorem ends_of_tells (h : Working x job policy rows g) {V : Told → α → Prop} {p : Review α}
    (hp : Obeys contract (Tells g V) g p) :
    Obeys contract (Ends x job fun g' _ => Working x job policy rows g') g p := by
  refine hp.mono fun g' r hr => ?_
  cases r with
  | ok a =>
    obtain ⟨t, rfl, -⟩ := hr
    exact h.told t
  | error e =>
    obtain ⟨⟨t, rfl⟩, he⟩ := hr
    exact (h.told t).toInRun.ends he

/-! ## Diffs -/

theorem incrementalBase_ends (h : Working x job policy rows g) :
    Obeys contract (Ends x job fun g' _ => Working x job policy rows g') g
      (incrementalBase x) :=
  obeys_ite (fun _ => ends_bind (ends_read h _) fun _ _ h' => obeys_pure h') fun _ => obeys_pure h

theorem resolveDiff_ends (hexact : x.requireExactHead = true)
    (h : Working x job policy [] g) :
    Obeys contract (Ends x job fun g' _ => Working x job policy [] g') g (resolveDiff x) := by
  unfold resolveDiff
  rw [hexact]
  have hfull : ∀ {g}, Working x job policy [] g → Obeys contract
      (Ends x job fun g' _ => Working x job policy [] g') g (fullDiff x.deps x.repo x.pr true) :=
    fun h => ends_of_tells h (fullDiff_tells h.pr _ _)
  refine ends_bind (incrementalBase_ends h) fun g₁ base h₁ => ?_
  cases base with
  | none => exact hfull h₁
  | some base =>
    refine ends_bind (ends_of_tells h₁ (tryCompare_tells h₁.pr _ _)) fun g₂ delta h₂ => ?_
    cases delta with
    | none => exact hfull h₂
    | some delta =>
      refine obeys_ite (fun _ => hfull h₂) fun _ => ?_
      refine ends_bind (P := fun g' _ => Working x job policy [] g')
        (ends_write h₂.toInRun rfl h₂.prepares fun _ => h₂) fun g₃ _ h₃ => ?_
      exact obeys_pure h₃

/-! ## Heads and early ends -/

theorem ensureCurrentHead_ends (h : Working x job policy rows g) :
    Obeys contract (Ends x job fun g' _ => Working x job policy rows g') g
      (ensureCurrentHead x) := by
  refine ends_bind (ends_read h _) fun g₁ current h₁ => ?_
  refine obeys_when (fun _ => ?_) fun _ => h₁
  -- the run is canceled before the exception; no run has the id 0
  refine ends_bind (P := fun g' _ => InRun x job g' ∧ Settled g') ?_ fun g₂ _ h₂ =>
    obeys_throw ⟨h₂.1, fun _ => h₂.2⟩
  refine obeys_when (fun _ => ?_) fun hid => ?_
  · refine ends_write h₁.toInRun rfl ⟨h₁.created, h₁.published, .inr rfl⟩ fun _ =>
      ⟨?_, .inr (.inl rfl)⟩
    exact ⟨h₁.created, h₁.pr, h₁.owner, h₁.job, h₁.released, h₁.published⟩
  · refine ⟨h₁.toInRun, .inl ?_⟩
    rw [h₁.created]
    exact not_ne_iff.mp hid

theorem InRun.over (h : InRun x job g) (he : g.ended = true) : Over x job g :=
  ⟨h.created, h.owner, h.job, h.released, he⟩

/-- A finish ends the run. -/
theorem finish_ends (h : InRun x job g) (error : Option Text) :
    Obeys contract (Ends x job fun g' _ => InRun x job g' ∧ g'.ended = true) g
      (write (.finishRun x.runId .canceled error)) :=
  ends_write h rfl ⟨h.created, h.published, .inr rfl⟩ fun _ =>
    ⟨⟨h.created, h.pr, h.owner, h.job, h.released, h.published⟩, rfl⟩

theorem skipRun_ends (h : Working x job policy rows g) (error : Option Text) :
    Obeys contract (Ends x job fun g' _ => Over x job g') g (skipRun x error) := by
  refine ends_bind (ensureCurrentHead_ends h) fun g₁ _ h₁ => ?_
  refine ends_bind (finish_ends h₁.toInRun error) fun g₂ _ h₂ => ?_
  exact ends_write h₂.1 rfl ⟨h₂.2, x.pr, h₂.1.pr, rfl, rfl⟩ fun _ => h₂.1.over h₂.2

/-! ## Contexts and policies -/

theorem gatherContext_ends (h : Working x job policy [] g) (budget : Nat) :
    Obeys contract (Ends x job fun g' _ => Working x job policy [] g') g
      (gatherContext x.runId budget) := by
  refine ends_bind (P := fun g' _ => Working x job policy [] g') (ends_catch ?_
    (fun _ _ h => h) fun g' e h => obeys_pure h) fun g₁ context h₁ => ?_
  · exact obeys_ext trivial (fun _ _ => ⟨h.told _, trivial⟩) fun e he => ⟨h, he⟩
  · refine ends_bind (P := fun g' _ => Working x job policy [] g')
      (ends_write h₁.toInRun rfl h₁.prepares fun _ => h₁) fun g₂ _ h₂ => obeys_pure h₂

theorem renderAndStoreChunkContexts_ends (h : Working x job policy [] g) (budget : Nat)
    (diff : Text) :
    Obeys contract (Ends x job fun g' _ => Working x job policy [] g') g
      (renderAndStoreChunkContexts x.runId budget diff) := by
  refine ends_bind (ends_lift h (quiet_chunkRecordsByBudget _ _)) fun g₁ chunks h₁ => ?_
  refine ends_bind (ends_forEach (V := fun _ _ => True) (fun g y _ h => ?_) h₁.1)
    fun g₂ rendered h₂ => ?_
  · exact ends_bind (ends_ext h trivial) fun g' _ h' => obeys_pure ⟨h'.1, trivial⟩
  · exact ends_bind (P := fun g' _ => Working x job policy [] g')
      (ends_write h₂.1.toInRun rfl h₂.1.prepares fun _ => h₂.1) fun g₃ _ h₃ => obeys_pure h₃

theorem resolvePolicy_ends (h : Working x job policy rows g) (repo : Repo)
    (identity : Option BenchmarkRuntimeIdentity) :
    Obeys contract (Ends x job fun g' _ => Working x job policy rows g') g
      (resolvePolicy repo identity) :=
  ends_bind (ends_ext h trivial) fun _ _ h' => obeys_pure h'.1

/-- The identity of a vendor, which has prompts. -/
theorem vendorExecutionIdentity_ends (h : Working x job policy rows g) (hp : HarnessProfile)
    (prompts : List PromptChunk) (diff : Text) (snapshot : FindingPolicy.PolicySnapshot)
    (ad : Adapter) :
    Obeys contract (Ends x job fun g' i => Working x job policy rows g' ∧
      i.1 = ad.vendor ∧ requireVendor ad prompts = .ok ()) g
      (vendorExecutionIdentity hp prompts diff snapshot ad) := by
  refine ends_bind (ends_lift h (quiet_requireVendor ad prompts)) fun g₁ _ h₁ => ?_
  have hprobe : Obeys contract (Ends x job fun g' _ => Working x job policy rows g') g₁
      (probe ad) :=
    obeys_ite (fun _ => ends_bind (ends_ext h₁.1 trivial) fun _ _ h' => obeys_pure h'.1)
      fun _ => obeys_pure h₁.1
  refine ends_bind hprobe fun g₂ version h₂ => ?_
  refine ends_bind (ends_lift h₂ (quiet_executionIdentity _ _ _ _ _ _)) fun g₃ i h₃ => ?_
  exact obeys_pure ⟨h₃.1, rfl, h₁.2⟩

/-! ## Vendors -/

theorem prompts_ne_nil {ad : Adapter} {prompts : List PromptChunk}
    (h : requireVendor ad prompts = .ok ()) : prompts ≠ [] := by
  rintro rfl
  have := VendorTelemetry.reject_ok h
  simp at this

theorem rowFor_ok {vrs : List VendorRow} {vendor : Text} {row : VendorRow}
    (h : rowFor vrs vendor = .ok row) : row ∈ vrs ∧ row.vendor = vendor := by
  unfold rowFor at h
  split at h
  · rename_i found hf
    cases h
    exact ⟨List.mem_of_find?_eq_some hf, by simpa using List.find?_some hf⟩
  · cases h

/-- The rows of the first adapters. -/
structure Added (x : RunArgs) (job : Option ReviewJob)
    (policy : Option FindingPolicy.PolicySnapshot) (done : List Adapter) (vrs : List VendorRow)
    (g : Execution) : Prop where
  working : Working x job policy (vrs.map fun row => (row.vendor, row.vrId)) g
  vendors : vrs.map VendorRow.vendor = done.map Adapter.vendor

theorem addRow_ends {done : List Adapter} {vrs : List VendorRow} {ad : Adapter}
    (h : Added x job policy done vrs g) (hpolicy : policy.isSome = true)
    (hnew : ad.vendor ∉ done.map Adapter.vendor) (identities : List (Text × ExecutionIdentity)) :
    Obeys contract (Ends x job fun g' row => Added x job policy (done ++ [ad]) (vrs ++ [row]) g') g
      (addRow x.runId identities ad) := by
  have hw := h.working
  refine ends_bind (P := fun g' _ => g' = g) ?_ fun g₁ identity h₁ => ?_
  · unfold identityFor
    split
    · exact obeys_pure rfl
    · exact ends_throw hw.toInRun rfl
  subst h₁
  refine ends_bind (P := fun g' vrId => Added x job policy (done ++ [ad])
    (vrs ++ [VendorRow.mk ad.vendor vrId identity]) g')
    (ends_write hw.toInRun rfl ?_ fun vrId => ?_) fun g₂ vrId h₂ => obeys_pure h₂
  · refine ⟨⟨hw.created, hw.ended⟩, hw.policy ▸ hpolicy, ?_⟩
    rw [hw.rows, List.map_map]
    exact h.vendors ▸ hnew
  · refine ⟨⟨⟨hw.created, hw.pr, hw.owner, hw.job, hw.released, hw.published⟩, hw.ended,
      hw.policy, ?_⟩, ?_⟩
    · simp [Execution.afterWrite, hw.rows]
    · simp [h.vendors]

theorem addRows_ends {adapters : List Adapter} (h : Working x job policy [] g)
    (hpolicy : policy.isSome = true) (hnodup : (adapters.map Adapter.vendor).Nodup)
    (identities : List (Text × ExecutionIdentity)) :
    Obeys contract (Ends x job fun g' vrs => Added x job policy adapters vrs g') g
      (forEach (addRow x.runId identities) adapters) := by
  refine obeys_forEach (fun g done vrs => Added x job policy done vrs g)
    (fun g done vrs ad rest hxs hI => ?_) (fun g vrs hI => hI) ⟨h, rfl⟩
  refine (addRow_ends hI hpolicy ?_ identities).mono fun g' r hr => ?_
  · rw [hxs, List.map_append, List.map_cons, List.nodup_append] at hnodup
    exact fun hmem => hnodup.2.2 _ hmem _ List.mem_cons_self rfl
  · cases r with
    | ok row => exact hr
    | error e => exact hr

/-- The vendor of a row may be asked about the prompts of the run. -/
theorem runRow_ends {adapters : List Adapter} {vrs : List VendorRow} {ad : Adapter}
    {prompts : List PromptChunk} (h : Added x job policy adapters vrs g)
    (hpolicy : policy.isSome = true) (hp : prompts ≠ []) :
    Obeys contract (Ends x job fun g' r => Working x job policy
      (vrs.map fun row => (row.vendor, row.vrId)) g' ∧ r.vendor = ad.vendor) g
      (runRow (fun _ => prompts) vrs ad) := by
  refine ends_bind (ends_lift h.working (quiet_rowFor vrs ad.vendor)) fun g₁ row h₁ => ?_
  obtain ⟨hmem, hrow⟩ := rowFor_ok h₁.2
  have hasks : Asks (Working x job policy (vrs.map fun row => (row.vendor, row.vrId))) ad
      prompts := by
    refine ⟨fun g h c _ => .inl ⟨h.policy ▸ hpolicy, ?_⟩, fun _ g version h => h.told _⟩
    rw [h.rows, List.map_map]
    exact List.mem_map.mpr ⟨row, hmem, hrow⟩
  refine (runVendor_asked hasks h₁.1 hp _ hrow).mono fun g' r hr => ?_
  cases r with
  | ok result => exact ⟨hr.1, hr.2.vendor.trans hrow⟩
  | error e => exact hr.1.toInRun.ends hr.2

theorem map_eq_map_of_forall₂ {ads : List Adapter} {results : List VendorRunResult}
    (h : List.Forall₂ (fun ad r => r.vendor = Adapter.vendor ad) ads results) :
    results.map VendorRunResult.vendor = ads.map Adapter.vendor := by
  induction h with
  | nil => rfl
  | cons hr _ ih => rw [List.map_cons, List.map_cons, hr, ih]

/-- What the checkout leaves: the policy is stored, and every vendor has a row and a result. -/
structure Answered (x : RunArgs) (job : Option ReviewJob) (v : Reviewed) (g : Execution) :
    Prop where
  working : Working x job (some v.policy) (v.rows.map fun row => (row.vendor, row.vrId)) g
  results : v.results.map VendorRunResult.vendor = v.rows.map VendorRow.vendor

theorem reviewInCheckout_ends (h : Working x job none [] g) (hp : HarnessProfile)
    (diff : Text) {adapters : List Adapter} (hne : adapters ≠ []) (budget : Nat)
    (snapshot : FindingPolicy.PolicySnapshot) :
    Obeys contract (Ends x job fun g' v => Answered x job v g') g
      (reviewInCheckout x hp diff adapters budget snapshot) := by
  refine ends_bind (gatherContext_ends h budget) fun g₁ contextText h₁ => ?_
  refine ends_bind (renderAndStoreChunkContexts_ends h₁ budget diff) fun g₂ contexts h₂ => ?_
  refine ends_bind (ends_lift h₂ (quiet_chunkRecordsByBudget _ _)) fun g₃ chunks h₃ => ?_
  refine ends_bind (ends_ext h₃.1 trivial) fun g₄ nonces h₄ => ?_
  refine ends_bind (ends_lift h₄.1 (quiet_buildPromptChunks _ _ _ _ _)) fun g₅ prompts h₅ => ?_
  refine ends_bind (P := fun g' _ => Working x job none [] g' ∧
    (adapters.map Adapter.vendor).Nodup) ?_ fun g₆ _ h₆ => ?_
  · exact obeys_when (fun _ => ends_throw h₅.1.toInRun rfl) fun hn => ⟨h₅.1, not_not.mp hn⟩
  refine ends_bind (ends_forEach (fun g ad _ h =>
    vendorExecutionIdentity_ends h hp prompts diff snapshot ad) h₆.1) fun g₇ identities h₇ => ?_
  have hprompts : prompts ≠ [] := by
    obtain ⟨ad, rest, rfl⟩ := List.exists_cons_of_ne_nil hne
    cases h₇.2 with
    | cons hi _ => exact prompts_ne_nil hi.2
  refine ends_bind (resolvePolicy_ends h₇.1 _ _) fun g₈ bound h₈ => ?_
  refine ends_bind (P := fun g' _ => Working x job (some bound) [] g')
    (ends_write h₈.toInRun rfl ⟨h₈.prepares, h₈.policy⟩ fun _ => ?_) fun g₉ _ h₉ => ?_
  · exact ⟨⟨h₈.created, h₈.pr, h₈.owner, h₈.job, h₈.released, h₈.published⟩, h₈.ended, rfl,
      h₈.rows⟩
  refine ends_within h₉.toInRun (fun _ _ h => h.working.toInRun) ?_
  refine ends_bind (addRows_ends h₉ rfl h₆.2 _) fun g₁₀ vrs h₁₀ => ?_
  refine ends_bind (ends_forEach (fun g ad _ h => runRow_ends ⟨h, h₁₀.vendors⟩ rfl hprompts)
    h₁₀.working) fun g₁₁ results h₁₁ => ?_
  refine obeys_pure ⟨h₁₁.1, ?_⟩
  rw [h₁₀.vendors]
  exact map_eq_map_of_forall₂ h₁₁.2

/-! ## The end of a run -/

theorem vendors_groupResults (canonicalClaim : Text → Text)
    (keys earlier : List FindingPolicy.DuplicateKey) (mode : Text)
    (results : List VendorRunResult) :
    (FindingPolicy.groupResults canonicalClaim keys mode earlier results).map
      VendorRunResult.vendor = results.map VendorRunResult.vendor := by
  induction results generalizing earlier with
  | nil => rfl
  | cons r rs ih => exact congrArg (r.vendor :: ·) (ih _)

/-- The policies keep the vendors. -/
theorem vendors_policies {canonicalClaim : Text → Text} {chunks : List PromptChunk}
    {scopeMode dedupeMode : Text} {raw results : List VendorRunResult}
    (h : FindingPolicy.applyScopeAndDuplicatePolicy canonicalClaim chunks scopeMode dedupeMode raw =
      .ok results) :
    results.map VendorRunResult.vendor = raw.map VendorRunResult.vendor := by
  obtain ⟨inScope, hs, rfl⟩ := Exc.map_ok h
  have hvendors : inScope.map VendorRunResult.vendor = raw.map VendorRunResult.vendor := by
    unfold FindingPolicy.applyFindingScope at hs
    split at hs
    · cases hs
      rw [List.map_map]
      rfl
    · cases hs
  rw [← hvendors]
  unfold FindingPolicy.groupDuplicateCandidates
  rw [List.map_map]
  exact vendors_groupResults _ _ _ _ _

/-- The end of a run that has answers. -/
theorem Answered.concludes {v : Reviewed} (h : Answered x job v g)
    {results : List VendorRunResult}
    (hr : results.map VendorRunResult.vendor = v.results.map VendorRunResult.vendor)
    (items : List FindingItem) :
    Concludes g ⟨x.runId, x.pr.id, x.pr.headSha, x.ownerProcessId, results, v.rows, items⟩ where
  created := h.working.created
  ended := h.working.ended
  owner := h.working.owner.symm
  pr := ⟨x.pr, h.working.pr, rfl, rfl⟩
  rows := h.working.rows.symm
  vendors := hr.trans h.results
  policy := by
    rw [h.working.policy]
    rfl

/-- A publication ends the run, unless it finds another head. -/
def PublishedOr (x : RunArgs) (job : Option ReviewJob) (g g' : Execution) : Option Sha → Prop
  | none => Over x job g'
  | some _ => g' = g

theorem publishRun_ends {e : Ending} (h : Working x job policy rows g) (he : Publishes g e) :
    Obeys contract (Ends x job fun g' _ => Over x job g') g (publishRun x e) := by
  refine ends_bind (P := fun g' => PublishedOr x job g g') ?_ fun g₁ actual h₁ => ?_
  · refine obeys_write (P := QuietOrLost) he publish_signal (fun actual => ?_) ?_
    · cases actual with
      | none => exact ⟨h.created, h.owner, h.job, h.released, rfl⟩
      | some _ => exact rfl
    · rintro e' (hq | ⟨runId, message, rfl⟩)
      · exact (h.raised e').ends hq
      · exact ⟨h.raised _, fun _ => .inr (.inr (.inr (.inl rfl)))⟩
  · cases actual with
    | none => exact obeys_pure h₁
    | some actual =>
      cases h₁
      refine ends_bind (P := fun g' _ => InRun x job g' ∧ Settled g')
        (ends_write h.toInRun rfl he.toConcludes fun _ => ⟨?_, .inr (.inl rfl)⟩) fun g₂ _ h₂ =>
          obeys_throw ⟨h₂.1, fun _ => h₂.2⟩
      exact ⟨h.created, h.pr, h.owner, h.job, h.released, h.published⟩

theorem SameButVerified.refl (f : ReviewFinding) : SameButVerified f f := rfl

/-- A verification changes nothing else. -/
theorem verifyFindings_ends (h : Working x job policy rows g) (prompts : List PromptChunk)
    (findings : List ReviewFinding) :
    Obeys contract (Ends x job fun g' v => Working x job policy rows g' ∧
      List.Forall₂ SameButVerified findings v.findings) g (verifyFindings x prompts findings) :=
  obeys_ite (fun _ => ends_ext (q := .verifySingles findings prompts) h trivial)
    fun _ => obeys_pure ⟨h, List.forall₂_same.mpr fun f _ => .refl f⟩

theorem concludeRun_ends {v : Reviewed} (h : Answered x job v g) :
    Obeys contract (Ends x job fun g' _ => Over x job g') g (concludeRun x v) := by
  refine ends_bind (ends_lift h.working (quiet_applyScopeAndDuplicatePolicy _ _ _ _ _))
    fun g₁ results h₁ => ?_
  have hvendors := vendors_policies h₁.2
  refine ends_bind (ends_lift h₁.1 (quiet_preparedFindings _ _)) fun g₂ findings h₂ => ?_
  obtain ⟨h₂, prepared⟩ := h₂
  have h₂ : Answered x job v g₂ := ⟨h₂, h.results⟩
  refine obeys_ite (fun hany => ?_) fun _ => ?_
  · refine ends_bind (verifyFindings_ends h₂.working _ _) fun g₃ verified h₃ => ?_
    have h₃' : Answered x job v g₃ := ⟨h₃.1, h.results⟩
    refine publishRun_ends h₃.1 ⟨h₃'.concludes ?_ _, ?_, v.policy, results, verified.chunks,
      findings, verified.findings, x.repo.mergeEnabled, h₃.1.policy, ⟨_, _, _, h₁.2⟩, rfl,
      prepared, h₃.2, rfl⟩
    · rw [← hvendors, List.map_map]
      rfl
    · rw [List.any_map]
      exact hany
  · refine ends_bind (P := fun g' _ => InRun x job g' ∧ Settled g')
      (ends_write h₂.working.toInRun rfl (h₂.concludes hvendors _) fun _ => ⟨?_, .inr (.inl rfl)⟩)
      fun g₃ _ h₃ => ends_throw h₃.1 rfl
    have hw := h₂.working
    exact ⟨hw.created, hw.pr, hw.owner, hw.job, hw.released, hw.published⟩

/-- **A run** obeys the contract to each of its exits. -/
theorem executeRun_ends (hexact : x.requireExactHead = true) (h : Working x job none [] g)
    (snapshot : FindingPolicy.PolicySnapshot) :
    Obeys contract (Ends x job fun g' _ => Over x job g') g (executeRun x snapshot) := by
  refine ends_bind (ends_ext h trivial) fun g₁ hp h₁ => ?_
  refine ends_bind (resolveDiff_ends hexact h₁.1) fun g₂ resolved h₂ => ?_
  refine ends_bind (ends_lift h₂ (quiet_filterReviewable _)) fun g₃ diff h₃ => ?_
  refine obeys_ite (fun _ => skipRun_ends h₃.1 _) fun _ => ?_
  refine ends_bind (ends_ext h₃.1 trivial) fun g₄ skips h₄ => ?_
  refine obeys_ite (fun _ => skipRun_ends h₄.1 _) fun _ => ?_
  refine obeys_ite (fun _ => ?_) fun hne => ?_
  · refine (finish_ends h₄.1.toInRun _).mono fun g' r hr => ?_
    cases r with
    | ok _ => exact hr.1.over hr.2
    | error e => exact hr
  · have hne : enabledAdapters x.deps.adapters x.repo ≠ [] := fun h₀ => hne (by simp [h₀])
    refine ends_bind (ends_lift h₄.1 (quiet_chunkByBudget _ _)) fun g₅ texts h₅ => ?_
    refine ends_bind (ends_within h₅.1.toInRun (fun _ _ h => h.working.toInRun)
      (reviewInCheckout_ends h₅.1 _ _ hne _ _)) fun g₆ v h₆ => concludeRun_ends h₆

/-! ## `review_pr` -/

/-- The execution has no run. It read `pr` last, if anything. -/
structure Idle (owner : Option ProcessId) (job : Option ReviewJob) (pr : Option PullRequest)
    (g : Execution) : Prop where
  owner : g.owner = owner
  job : g.job = job
  pr : g.pr = pr
  created : g.created = none
  policy : g.policy = none
  rows : g.rows = []
  ended : g.ended = false
  published : g.published = false
  released : g.released = false
  cleared : g.cleared = false

/-- The execution has its job. -/
structure Holding (owner : Option ProcessId) (job : Option ReviewJob) (g : Execution) : Prop where
  owner : g.owner = owner
  job : g.job = job
  released : g.released = false

/-- A part of the pipeline ends: it returns what meets `P`, or raises. Only a job that is canceled
may leave its run running. -/
def Left (owner : Option ProcessId) (job : Option ReviewJob) (P : Execution → α → Prop)
    (g : Execution) : Except Exc α → Prop
  | .ok a => P g a
  | .error e => Holding owner job g ∧ (e = .cancelledError ∨ Settled g)

section Idle

variable {owner : Option ProcessId} {pr : Option PullRequest}

theorem Idle.holding (h : Idle owner job pr g) : Holding owner job g :=
  ⟨h.owner, h.job, h.released⟩

theorem Idle.settled (h : Idle owner job pr g) : Settled g := .inl (by rw [h.created]; rfl)

theorem Idle.raised (h : Idle owner job pr g) (e : Exc) : Idle owner job pr (g.raised e) := by
  cases e <;> exact ⟨h.owner, h.job, h.pr, h.created, h.policy, h.rows, h.ended, h.published,
    h.released, h.cleared⟩

theorem Idle.told (h : Idle owner job pr g) (t : Told) :
    Idle owner job pr { g with told := t } :=
  ⟨h.owner, h.job, h.pr, h.created, h.policy, h.rows, h.ended, h.published, h.released, h.cleared⟩

theorem Idle.getPr (h : Idle owner job pr g) (prId : Nat) (row : Option PullRequest) :
    Idle owner job row (g.afterRead (.getPr prId) row) := by
  have hc : g.created.isSome = false := by simp [h.created]
  simp only [Execution.afterRead, hc, Bool.false_eq_true, if_false]
  exact ⟨h.owner, h.job, rfl, h.created, h.policy, h.rows, h.ended, h.published, h.released,
    h.cleared⟩

theorem Idle.left (h : Idle owner job pr g) {P : Execution → α → Prop} (e : Exc) :
    Left owner job P g (.error e) :=
  ⟨h.holding, .inr h.settled⟩

theorem left_bind {P : Execution → β → Prop} {R : Execution → α → Prop} {p : Review β}
    {f : β → Review α} (hp : Obeys contract (Left owner job P) g p)
    (hf : ∀ g' b, P g' b → Obeys contract (Left owner job R) g' (f b)) :
    Obeys contract (Left owner job R) g (p >>= f) :=
  obeys_bind hp hf fun _ _ h => h

/-- The look at a pull request. -/
theorem left_getPr (h : Idle owner job pr g) (prId : Nat) :
    Obeys contract (Left owner job fun g' row => Idle owner job row g' ∧
      ∀ r, row = some r → r.id = prId) g (read (.getPr prId)) := by
  refine obeys_read (fun db => ⟨h.getPr prId _, fun r hr => ?_⟩)
    fun m => (h.raised (.operationalError m)).left _
  exact (Table.get?_eq_some.mp hr).2

/-- Another look at the database. -/
theorem left_read (h : Idle owner job pr g) {q : Read β}
    (hq : ∀ b, g.afterRead q b = { g with told := g.told.read q b }) :
    Obeys contract (Left owner job fun g' b => g' = { g with told := g.told.read q b } ∧
      Idle owner job pr g') g (read q) := by
  refine obeys_read (fun db => ?_) fun m => (h.raised (.operationalError m)).left _
  rw [hq]
  exact ⟨rfl, h.told _⟩

theorem left_ext (h : Idle owner job pr g) {q : Ext β} (ha : g.AllowsExt q) :
    Obeys contract (Left owner job fun g' b => g' = { g with told := g.told.ext q b } ∧
      Idle owner job pr g') g (ext q) :=
  obeys_ext ha (fun _ _ => ⟨rfl, h.told _⟩) fun _ _ => h.left _

theorem left_subscript (h : Idle owner job pr g) {ρ : Type} (row : Option ρ) :
    Obeys contract (Left owner job fun g' r => g' = g ∧ row = some r) g (subscript row) := by
  cases row with
  | none => exact obeys_throw (h.left _)
  | some r => exact obeys_pure ⟨rfl, rfl⟩

theorem left_when (h : Idle owner job pr g) {c : Prop} [Decidable c] {e : Exc} :
    Obeys contract (Left owner job fun g' _ => g' = g ∧ ¬c) g (when c (throw e)) :=
  obeys_when (fun _ => obeys_throw (h.left _)) fun hc => ⟨rfl, hc⟩

/-- The handler of `review_pr` closes the run. -/
theorem closeRun_left (h : InRun x job g) (e : Exc) {P : Execution → Unit → Prop} :
    Obeys contract (Left x.ownerProcessId job P) g (do
      write (.finishRun x.runId .failed (some e.str))
      throw (.pipelineError x.runId e.str)) := by
  have hwrite : Obeys contract (Left x.ownerProcessId job fun g' _ => InRun x job g' ∧
      g'.ended = true) g (write (.finishRun x.runId .failed (some e.str))) := by
    refine obeys_perform ⟨h.created, h.published, .inl rfl⟩ ?_
    rintro r ⟨db, db', hexec⟩
    cases r with
    | ok _ => exact ⟨⟨h.created, h.pr, h.owner, h.job, h.released, h.published⟩, rfl⟩
    | error e' =>
      obtain h' | ⟨-, m, h'⟩ := hexec
      · cases h'
      · cases h'
        exact ⟨⟨h.owner, h.job, h.released⟩, .inr (.inr (.inr (.inr (.inr rfl))))⟩
  refine left_bind hwrite fun g' _ h' => obeys_throw ?_
  exact ⟨⟨h'.1.owner, h'.1.job, h'.1.released⟩, .inr (.inr (.inl h'.2))⟩

/-- A new run begins to work. -/
theorem createRun_left {run : NewRun} {row : PullRequest} (h : Idle owner job (some row) g)
    (hpr : run.prId = row.id) (hsha : run.headSha = row.headSha)
    (howner : run.ownerProcessId = owner)
    (hjob : ∀ j, job = some j → owner.isSome → run.ownerJobId = some j.id) :
    Obeys contract (Left owner job fun g' runId => ∀ repo settings deps trigger exact,
      Working ⟨runId, row, repo, settings, deps, trigger, exact, owner⟩ job none [] g') g
      (write (.createRun run)) := by
  refine obeys_write (P := Quiet) ?_ (write_quiet rfl)
    (fun runId repo settings deps trigger exact =>
      ⟨⟨rfl, h.pr, h.owner, h.job, h.released, h.published⟩, h.ended, h.policy, h.rows⟩)
    fun e _ => (h.raised e).left e
  exact ⟨h.created, h.rows, h.ended, h.published, h.policy, ⟨row, h.pr, hpr, hsha⟩,
    howner.trans h.owner.symm, h.released, h.cleared, fun j hj ho =>
      hjob j (h.job.symm.trans hj) (h.owner ▸ ho)⟩

/-- **A fresh run.** `review_pr` obeys the contract, and leaves no running run unless its job was
canceled. -/
theorem reviewPr_obeys {a : ReviewArgs} (h : Idle a.ownerProcessId job pr g)
    (hexact : a.expectedHeadSha.isSome = true)
    (hjob : ∀ j, job = some j → a.ownerProcessId.isSome → a.ownerJobId = some j.id) :
    Obeys contract (Left a.ownerProcessId job fun g' _ => Holding a.ownerProcessId job g' ∧
      Settled g') g (reviewPr a) := by
  refine left_bind (left_getPr h a.prId) fun g₁ row h₁ => ?_
  refine left_bind (left_subscript h₁.1 row) fun g₂ pr h₂ => ?_
  obtain ⟨rfl, rfl⟩ := h₂
  refine left_bind (left_when h₁.1) fun g₃ _ h₃ => ?_
  obtain ⟨rfl, -⟩ := h₃
  refine left_bind (left_read h₁.1 fun _ => rfl) fun g₄ found h₄ => ?_
  refine left_bind (left_ext h₄.2 trivial) fun g₅ settings h₅ => ?_
  refine left_bind (left_subscript h₅.2 found) fun g₆ repo h₆ => ?_
  obtain ⟨rfl, rfl⟩ := h₆
  refine left_bind (P := fun g' _ => Idle a.ownerProcessId job (some pr) g')
    (left_bind (left_ext h₅.2 trivial) fun g' _ h' => obeys_pure h'.2) fun g₇ snapshot h₇ => ?_
  refine left_bind (createRun_left h₇ (h₁.2 pr rfl).symm rfl rfl hjob) fun g₈ runId h₈ => ?_
  have hrun := h₈ repo settings a.deps a.trigger a.expectedHeadSha.isSome
  refine left_bind (P := fun g' _ => Holding a.ownerProcessId job g' ∧ Settled g')
    (obeys_tryCatch (executeRun_ends hexact hrun snapshot) (fun g' _ h' =>
      ⟨⟨h'.owner, h'.job, h'.released⟩, .inr (.inl h'.ended)⟩) fun g' e h' => ?_)
    fun g₉ _ h₉ => obeys_pure h₉
  have hholding : Holding a.ownerProcessId job g' := ⟨h'.1.owner, h'.1.job, h'.1.released⟩
  refine obeys_ite (fun he => obeys_throw ⟨hholding, .inl he⟩) fun _ => ?_
  refine left_bind (P := fun g'' _ => g'' = g') ?_ fun g'' _ hg => ?_
  · exact obeys_when (fun hc => obeys_throw ⟨hholding, .inr (h'.2 hc)⟩) fun _ => rfl
  · subst hg
    exact closeRun_left h'.1 e

end Idle

end Pipeline
