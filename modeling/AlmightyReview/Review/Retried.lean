import AlmightyReview.Lib.Lists
import AlmightyReview.Review.Fresh

/-!
# Retries under the contract

`retry_pr` obeys the contract of an execution: a vendor is asked about a chunk only after everything
that the retry rebuilt was compared with what the run recorded, and only about a chunk that its last
review left unresolved.

* `At owner job pr t g`: the execution has no run, and was told `t`.
* `planRetry_left`: a plan that is not refused comes from a `Rebuilt` that matches (`Planned`).
* `retryPr_obeys`.
-/

namespace Pipeline

open Prog

variable {α β : Type} {g : Execution} {owner : Option ProcessId} {job : Option ReviewJob}
  {pr : Option PullRequest} {t : Told}

/-! ## What a retry was told -/

/-- An execution without a run, that was told `t`. -/
structure At (owner : Option ProcessId) (job : Option ReviewJob) (pr : Option PullRequest)
    (t : Told) (g : Execution) : Prop extends Idle owner job pr g where
  told : g.told = t

theorem at_read (h : At owner job pr t g) {q : Read β}
    (hq : ∀ b, g.afterRead q b = { g with told := g.told.read q b }) :
    Obeys contract (Left owner job fun g' b => At owner job pr (t.read q b) g') g (read q) := by
  refine (left_read h.toIdle hq).mono fun g' r hr => ?_
  cases r with
  | ok b =>
    obtain ⟨rfl, hi⟩ := hr
    exact ⟨hi, congrArg (Told.read · q b) h.told⟩
  | error e => exact hr

theorem at_ext (h : At owner job pr t g) {q : Ext β} (ha : g.AllowsExt q) :
    Obeys contract (Left owner job fun g' b => At owner job pr (t.ext q b) g') g (ext q) := by
  refine (left_ext h.toIdle ha).mono fun g' r hr => ?_
  cases r with
  | ok b =>
    obtain ⟨rfl, hi⟩ := hr
    exact ⟨hi, congrArg (Told.ext · q b) h.told⟩
  | error e => exact hr

theorem at_lift (h : At owner job pr t g) (r : Except Exc α) :
    Obeys contract (Left owner job fun g' a => At owner job pr t g' ∧ r = .ok a) g (lift r) := by
  refine obeys_lift ?_
  cases r with
  | ok a => exact ⟨h, rfl⟩
  | error e => exact h.toIdle.left e

theorem at_when (h : At owner job pr t g) {c : Prop} [Decidable c] {e : Exc} :
    Obeys contract (Left owner job fun g' _ => At owner job pr t g' ∧ ¬c) g
      (when c (throw e)) :=
  obeys_when (fun _ => obeys_throw (h.toIdle.left e)) fun hc => ⟨h, hc⟩

theorem at_subscript (h : At owner job pr t g) {ρ : Type} (row : Option ρ) :
    Obeys contract (Left owner job fun g' r => At owner job pr t g' ∧ row = some r) g
      (subscript row) := by
  cases row with
  | none => exact obeys_throw (h.toIdle.left _)
  | some r => exact obeys_pure ⟨h, rfl⟩

theorem at_tells (h : At owner job pr t g) {V : Told → α → Prop} {p : Review α}
    (hp : Obeys contract (Tells g V) g p) :
    Obeys contract (Left owner job fun g' a => ∃ t', At owner job pr t' g' ∧ V t' a) g p := by
  refine hp.mono fun g' r hr => ?_
  cases r with
  | ok a =>
    obtain ⟨t', rfl, hV⟩ := hr
    exact ⟨t', ⟨h.toIdle.told t', rfl⟩, hV⟩
  | error e =>
    obtain ⟨⟨t', rfl⟩, -⟩ := hr
    exact (h.toIdle.told t').left e

/-- A loop in which each turn tells something. -/
theorem at_forEach {ξ : Type} {f : ξ → Review α} {xs : List ξ} (T : List ξ → List α → Told → Prop)
    (hstep : ∀ g t done as y rest, xs = done ++ y :: rest → At owner job pr t g → T done as t →
      Obeys contract (Left owner job fun g' a =>
        ∃ t', At owner job pr t' g' ∧ T (done ++ [y]) (as ++ [a]) t') g (f y))
    (h : At owner job pr t g) (h₀ : T [] [] t) :
    Obeys contract (Left owner job fun g' as => ∃ t', At owner job pr t' g' ∧ T xs as t') g
      (forEach f xs) := by
  refine obeys_forEach (fun g done as => ∃ t', At owner job pr t' g ∧ T done as t')
    (fun g done as y rest hxs hI => ?_) (fun g as hI => hI) ⟨t, h, h₀⟩
  obtain ⟨t', ht', hT⟩ := hI
  refine (hstep g t' done as y rest hxs ht' hT).mono fun g' r hr => ?_
  cases r with
  | ok a => exact hr
  | error e => exact hr

/-! ## The target -/

theorem findRun_left (h : At owner job pr t g) (runId : Option Nat) :
    Obeys contract (Left owner job fun g' run => match run with
      | some run => At owner job pr { t with target := some run } g'
      | none => ∃ t', At owner job pr t' g') g (findRun runId) := by
  unfold findRun
  split
  · exact obeys_pure ⟨t, h⟩
  · exact obeys_pure ⟨t, h⟩
  · refine (at_read h fun _ => rfl).mono fun g' r hr => ?_
    cases r with
    | ok run =>
      cases run with
      | some run => exact hr
      | none => exact ⟨_, hr⟩
    | error e => exact hr

/-- The run and the pull request that a retry is for. -/
structure Target (owner : Option ProcessId) (job : Option ReviewJob) (t : Told) (run : ReviewRun)
    (pr : PullRequest) (g : Execution) : Prop where
  at_ : At owner job (some pr) { t with target := some run, latest := (pr.id, some run.id) } g
  done : run.status = .done
  head : run.headSha = pr.headSha

theorem retryTarget_left {a : RetryArgs} (h : At owner job pr t g) :
    Obeys contract (Left owner job fun g' p => Target owner job t p.1 p.2 g') g
      (retryTarget a) := by
  refine left_bind (findRun_left h a.runId) fun g₁ run h₁ => ?_
  have hidle : ∃ t', At owner job pr t' g₁ ∧
      ∀ r, run = some r → t' = { t with target := some r } := by
    cases run with
    | some run => exact ⟨_, h₁, fun r hr => by cases hr; rfl⟩
    | none =>
      obtain ⟨t', ht'⟩ := h₁
      exact ⟨t', ht', fun r hr => by cases hr⟩
  obtain ⟨t', ht', htarget⟩ := hidle
  have hpr : Obeys contract (Left owner job fun g' row => At owner job row t' g' ∧
      ∀ r, row = some r → r.id = a.prId) g₁ (read (.getPr a.prId)) := by
    refine obeys_read (fun db => ⟨⟨ht'.toIdle.getPr a.prId _, ?_⟩, fun r hr => ?_⟩)
      fun m => (ht'.toIdle.raised (.operationalError m)).left _
    · have hc : g₁.created.isSome = false := by simp [ht'.created]
      simp only [Execution.afterRead, hc, Bool.false_eq_true, if_false]
      exact ht'.told
    · exact (Table.get?_eq_some.mp hr).2
  refine left_bind hpr fun g₂ row h₂ => ?_
  obtain ⟨h₂, hid⟩ := h₂
  split
  · rename_i run row
    have htt := htarget run rfl
    subst htt
    refine left_bind (at_when h₂) fun g₃ _ h₃ => ?_
    refine left_bind (at_read h₃.1 fun _ => rfl) fun g₄ latest h₄ => ?_
    refine left_bind (at_when h₄) fun g₅ _ h₅ => ?_
    refine left_bind (at_when h₅.1) fun g₆ _ h₆ => ?_
    obtain rfl := not_not.mp h₅.2
    refine obeys_pure ⟨?_, not_not.mp h₆.2, not_not.mp (not_or.mp h₃.2).1⟩
    rw [hid row rfl]
    exact h₆.1
  · exact obeys_throw (h₂.toIdle.left _)

/-! ## The plan -/

theorem resolveRetryDiff_tells {row : PullRequest} (hpr : g.pr = some row) (deps : PipelineDeps)
    (repo : Repo) (run : ReviewRun) :
    Obeys contract (Tells g fun t diff => t = g.told.withText (some diff)) g
      (resolveRetryDiff deps repo row run true) := by
  have hdelta : Obeys contract (Tells g fun t r => t = g.told.withText r) g
      (if run.baseSha.getD [] != [] && deps.compares then
        tryCompare repo.fullName (run.baseSha.getD []) row.headSha else pure none) :=
    obeys_ite (fun _ => tryCompare_tells hpr _ _) fun _ => tells_pure rfl
  refine tells_bind hdelta fun t' delta ht => ?_
  cases delta with
  | some delta => exact tells_pure ht
  | none =>
    subst ht
    exact fullDiff_tells hpr _ _

/-- The prompts of a retry are made of the contexts that the run kept. -/
theorem retryPrompts_left {x : RetryOf} (h : At owner job pr t g) (diff : Text)
    (nonces : List (Nat × Text)) :
    Obeys contract (Left owner job fun g' prompts => At owner job pr t g' ∧
      buildPromptChunks x.pr diff (x.run.contextText.getD []) (keptContexts x.run)
        (nonces.lookup ·) = .ok prompts) g (retryPrompts x diff nonces) := by
  have hstored : Obeys contract (Left owner job fun g' contexts => At owner job pr t g' ∧
      contexts = keptContexts x.run) g (storedContexts x.run) := by
    unfold storedContexts keptContexts
    refine left_bind (at_when h) fun g₁ _ h₁ => ?_
    cases ReviewRepo.getContextChunks x.run with
    | none => exact obeys_pure ⟨h₁.1, rfl⟩
    | some chunks =>
      cases chunks with
      | nil => exact obeys_pure ⟨h₁.1, rfl⟩
      | cons c cs => exact left_bind (at_when h₁.1) fun g₂ _ h₂ => obeys_pure ⟨h₂.1, rfl⟩
  refine left_bind hstored fun g₁ contexts h₁ => ?_
  obtain ⟨h₁, rfl⟩ := h₁
  refine left_bind (at_lift h₁ _) fun g₂ prompts h₂ => ?_
  exact left_bind (at_when h₂.1) fun g₃ _ h₃ => obeys_pure ⟨h₃.1, h₂.2⟩

/-- The envelopes of the vendors, in their order. -/
theorem envelopes_left {adapters : List Adapter} (h : At owner job pr t g)
    (ht : t.envelopes = []) (runId : Nat) :
    Obeys contract (Left owner job fun g' stored => ∃ envelopes,
      At owner job pr { t with envelopes } g' ∧
        envelopes.map Prod.fst = adapters.map (fun ad => (runId, ad.vendor)) ∧
        envelopes.map Prod.snd = stored) g
      (forEach (fun ad => read (.vendorExecutionMeta runId ad.vendor)) adapters) := by
  refine (at_forEach (fun done stored t' => ∃ envelopes, t' = { t with envelopes } ∧
    envelopes.map Prod.fst = done.map (fun ad => (runId, Adapter.vendor ad)) ∧
    envelopes.map Prod.snd = stored) (fun g t' done stored ad rest _ h hT => ?_) h
      ⟨[], by rw [← ht], rfl, rfl⟩).mono fun g' r hr => ?_
  · obtain ⟨envelopes, rfl, hkeys, hstored⟩ := hT
    refine (at_read h fun _ => rfl).mono fun g' r hr => ?_
    cases r with
    | ok e =>
      refine ⟨_, hr, envelopes ++ [((runId, ad.vendor), e)], rfl, ?_, ?_⟩
      · simp [hkeys]
      · simp [hstored]
    | error e => exact hr
  · cases r with
    | ok stored =>
      obtain ⟨t', ht', envelopes, rfl, hkeys, hstored⟩ := hr
      exact ⟨envelopes, ht', hkeys, hstored⟩
    | error e => exact hr

/-- The rows of the vendors, in their order. -/
theorem ids_left {adapters : List Adapter} (h : At owner job pr t g) (ht : t.ids = [])
    (runId : Nat) :
    Obeys contract (Left owner job fun g' ids =>
      At owner job pr { t with ids := ids.map fun i => ((runId, i.1), i.2) } g' ∧
      ids.map Prod.fst = adapters.map Adapter.vendor) g
      (forEach (vendorRow runId) adapters) := by
  refine (at_forEach (fun done ids t' =>
    t' = { t with ids := ids.map fun i => ((runId, i.1), i.2) } ∧
      ids.map Prod.fst = done.map Adapter.vendor) (fun g t' done ids ad rest _ h hT => ?_) h
      ⟨by rw [List.map_nil, ← ht], rfl⟩).mono fun g' r hr => ?_
  · obtain ⟨rfl, hvendors⟩ := hT
    refine left_bind (at_read h fun _ => rfl) fun g₁ found h₁ => ?_
    refine left_bind (at_subscript h₁ found) fun g₂ id h₂ => ?_
    obtain ⟨h₂, rfl⟩ := h₂
    refine obeys_pure ⟨_, h₂, ?_, by simp [hvendors]⟩
    simp [Told.read]
  · cases r with
    | ok ids =>
      obtain ⟨t', ht', rfl, hvendors⟩ := hr
      exact ⟨ht', hvendors⟩
    | error e => exact hr

/-- The identity of a vendor, with the version of its CLI that was told. -/
structure Probed (versions : List (Text × Text)) (hp : HarnessProfile)
    (prompts : List PromptChunk) (diff : Text) (policy : FindingPolicy.PolicySnapshot)
    (ad : Adapter) (i : Text × ExecutionIdentity) : Prop where
  vendor : i.1 = ad.vendor
  required : requireVendor ad prompts = .ok ()
  told : ad.probes = true → (versions.lookup ad.vendor).isSome = true
  identity : executionIdentity ad hp (if ad.probes then versions.lookup ad.vendor else none)
    prompts diff policy = .ok i.2

section Probed

variable {hp : HarnessProfile} {prompts : List PromptChunk} {diff : Text}
  {policy : FindingPolicy.PolicySnapshot} {ad : Adapter} {i : Text × ExecutionIdentity}
  {versions : List (Text × Text)}

/-- Versions that are told later change nothing. -/
theorem Probed.append (h : Probed versions hp prompts diff policy ad i)
    (more : List (Text × Text)) : Probed (versions ++ more) hp prompts diff policy ad i := by
  by_cases hprobes : ad.probes = true
  · have hlookup : (versions ++ more).lookup ad.vendor = versions.lookup ad.vendor := by
      rw [List.lookup_append]
      exact Option.or_of_isSome (h.told hprobes)
    refine ⟨h.vendor, h.required, fun _ => hlookup ▸ h.told hprobes, ?_⟩
    rw [hlookup]
    exact h.identity
  · refine ⟨h.vendor, h.required, fun hn => absurd hn hprobes, ?_⟩
    have := h.identity
    rw [if_neg hprobes] at this ⊢
    exact this

/-- The question for the version of a CLI, the first of this vendor. -/
theorem probe_left (h : At owner job pr { t with versions } g)
    (hnew : versions.lookup ad.vendor = none) :
    Obeys contract (Left owner job fun g' version => ∃ more : List (Text × Text),
      At owner job pr { t with versions := versions ++ more } g' ∧
        (∀ v ∈ more.map Prod.fst, v = ad.vendor) ∧
        (ad.probes = true → ((versions ++ more).lookup ad.vendor).isSome = true) ∧
        version = if ad.probes then (versions ++ more).lookup ad.vendor else none) g
      (probe ad) := by
  refine obeys_ite (fun hprobes => ?_) fun hprobes => ?_
  · refine left_bind (at_ext h trivial) fun g₁ version h₁ => ?_
    have hlookup : (versions ++ [(ad.vendor, version)]).lookup ad.vendor = some version := by
      simp [List.lookup_append, hnew]
    refine obeys_pure ⟨[(ad.vendor, version)], ?_, by simp, fun _ => by simp [hlookup], ?_⟩
    · have htold : ({ t with versions } : Told).ext (.probeVersion ad.vendor) version =
          { t with versions := versions ++ [(ad.vendor, version)] } := by
        simp [Told.ext, Told.tellVersion, hnew]
      rw [htold] at h₁
      exact h₁
    · rw [if_pos hprobes, hlookup]
  · refine obeys_pure ⟨[], ?_, by simp, fun hn => absurd hn hprobes, by rw [if_neg hprobes]⟩
    rw [List.append_nil]
    exact h

end Probed

/-- The identities of the vendors, in their order. -/
theorem identities_left {adapters : List Adapter} (h : At owner job pr t g)
    (ht : t.versions = []) (hnodup : (adapters.map Adapter.vendor).Nodup) (hp : HarnessProfile)
    (prompts : List PromptChunk) (diff : Text) (policy : FindingPolicy.PolicySnapshot) :
    Obeys contract (Left owner job fun g' identities => ∃ versions,
      At owner job pr { t with versions } g' ∧
        List.Forall₂ (Probed versions hp prompts diff policy) adapters identities) g
      (forEach (vendorExecutionIdentity hp prompts diff policy) adapters) := by
  refine (at_forEach (fun done identities t' => ∃ versions, t' = { t with versions } ∧
    (∀ v ∈ versions.map Prod.fst, v ∈ done.map Adapter.vendor) ∧
    List.Forall₂ (Probed versions hp prompts diff policy) done identities)
    (fun g t' done identities ad rest hxs h hT => ?_) h
      ⟨[], by rw [← ht], by simp, .nil⟩).mono fun g' r hr => ?_
  · obtain ⟨versions, rfl, hkeys, hall⟩ := hT
    have hnew : versions.lookup ad.vendor = none := by
      rw [List.lookup_eq_none_iff]
      intro p hmem
      rw [hxs, List.map_append, List.map_cons, List.nodup_append] at hnodup
      have hne := hnodup.2.2 p.1 (hkeys _ (List.mem_map_of_mem hmem)) ad.vendor List.mem_cons_self
      simpa using fun he => hne he.symm
    refine left_bind (at_lift h _) fun g₁ _ h₁ => ?_
    refine left_bind (probe_left h₁.1 hnew) fun g₂ version h₂ => ?_
    obtain ⟨more, h₂, hmore, htold, rfl⟩ := h₂
    refine left_bind (at_lift h₂ _) fun g₃ identity h₃ => ?_
    refine obeys_pure ⟨_, h₃.1, versions ++ more, rfl, fun v hv => ?_, ?_⟩
    · rw [List.map_append, List.mem_append] at hv ⊢
      rcases hv with hv | hv
      · exact .inl (hkeys v hv)
      · exact .inr (by simp [hmore v hv])
    · exact List.rel_append (hall.imp fun _ _ hi => hi.append more)
        (.cons ⟨rfl, h₁.2, htold, h₃.2⟩ .nil)
  · cases r with
    | ok identities =>
      obtain ⟨t', ht', versions, rfl, -, hall⟩ := hr
      exact ⟨versions, ht', hall⟩
    | error e => exact hr

/-- The rows of a retry, when the rows of the database and the identities are those of the same
vendors. -/
theorem rowsOf_identified {versions : List (Text × Text)} {hp : HarnessProfile}
    {prompts : List PromptChunk} {diff : Text} {policy : FindingPolicy.PolicySnapshot}
    {adapters : List Adapter} {ids : List (Text × Nat)}
    {identities : List (Text × ExecutionIdentity)} (ht : t.versions = versions)
    (hids : ids.map Prod.fst = adapters.map Adapter.vendor)
    (hall : List.Forall₂ (Probed versions hp prompts diff policy) adapters identities) :
    List.Forall₂ (Identified t hp prompts diff policy) adapters (rowsOf ids identities) ∧
      (rowsOf ids identities).map (fun row => (row.vendor, row.vrId)) = ids ∧
      identitiesOf (rowsOf ids identities) = identities := by
  induction hall generalizing ids with
  | nil =>
    obtain rfl := List.map_eq_nil_iff.mp hids
    exact ⟨.nil, rfl, rfl⟩
  | @cons ad i rest identities hi _ ih =>
    cases ids with
    | nil => cases hids
    | cons id ids =>
      obtain ⟨hid, hids⟩ := List.cons.inj hids
      obtain ⟨h₁, h₂, h₃⟩ := ih hids
      refine ⟨.cons ⟨hid, hi.required, ?_⟩ h₁, congrArg (id :: ·) h₂, ?_⟩
      · unfold Told.versionOf
        rw [ht]
        exact hi.identity
      · refine congrArg₂ List.cons ?_ h₃
        exact Prod.ext (hid.trans hi.vendor.symm) rfl

/-- What was told when the plan of a retry begins. -/
structure Begun (x : RetryOf) (storedPolicy : FindingPolicy.PolicySnapshot) (failed : List Text)
    (adapters : List Adapter) (t : Told) : Prop where
  target : t.target = some x.run
  latest : t.latest = (x.pr.id, some x.run.id)
  repo : t.repo = some x.repo
  settings : t.settings = some x.settings
  deps : t.deps = some x.deps
  versions : t.versions = []
  envelopes : t.envelopes = []
  ids : t.ids = []
  done : x.run.status = .done
  head : x.run.headSha = x.pr.headSha
  exact : x.requireExactHead = true
  policy : FindingPolicy.policySnapshotFromRow x.run.policy = some storedPolicy
  told : t.failed = (x.run.id, failed)
  failing : adapters = (enabledAdapters x.deps.adapters x.repo).filter fun ad =>
    failed.contains ad.vendor
  nodup : (adapters.map Adapter.vendor).Nodup
  available : ∀ v ∈ failed, v ∈ adapters.map Adapter.vendor

/-- The plan comes from what was rebuilt, which matches. -/
structure Planned (x : RetryOf) (adapters : List Adapter) (b : Rebuilt)
    (chunks : List (List PromptChunk)) (plan : RetryPlan) (t : Told) : Prop where
  of : b.Of t
  matched : b.Matches t chunks
  run : b.run = x.run
  pr : b.pr = x.pr
  storedPolicy : FindingPolicy.policySnapshotFromRow x.run.policy = some b.storedPolicy
  prompts : plan.prompts = b.prompts
  rows : plan.rows = b.rows
  vendors : b.rows.map VendorRow.vendor = adapters.map Adapter.vendor
  retryPrompts : plan.retryPrompts = adapters.zip chunks
  told : ∀ ad ∈ adapters, ad.probes = true → (t.versions.lookup ad.vendor).isSome = true

theorem vendors_of_identified {hp : HarnessProfile} {prompts : List PromptChunk} {diff : Text}
    {policy : FindingPolicy.PolicySnapshot} {adapters : List Adapter} {rows : List VendorRow}
    (h : List.Forall₂ (Identified t hp prompts diff policy) adapters rows) :
    rows.map VendorRow.vendor = adapters.map Adapter.vendor := by
  induction h with
  | nil => rfl
  | cons hi _ ih => rw [List.map_cons, List.map_cons, hi.vendor, ih]

/-- The identities that were compared, vendor by vendor. -/
theorem identities_matched {envelopes : List ((Nat × Text) × Option ExecutionEnvelope)}
    {rows : List VendorRow} (hlength : envelopes.length = rows.length)
    (h : ∀ p ∈ (envelopes.map Prod.snd).zip (identitiesOf rows),
      requireRetryIdentity p.1 p.2.2 = .ok ()) :
    List.Forall₂ (fun e row => requireRetryIdentity (Prod.snd e) (VendorRow.identity row) = .ok ())
      envelopes rows := by
  induction envelopes generalizing rows with
  | nil =>
    obtain rfl := List.length_eq_zero_iff.mp hlength.symm
    exact .nil
  | cons e es ih =>
    cases rows with
    | nil => cases hlength
    | cons row rows =>
      refine .cons (h (e.2, _, row.identity) List.mem_cons_self) (ih (Nat.succ.inj hlength) ?_)
      exact fun p hp => h p (List.mem_cons_of_mem _ hp)

/-- **The plan of a retry.** When it is not refused, what was rebuilt matches what was recorded. -/
theorem planRetry_left {x : RetryOf} {storedPolicy : FindingPolicy.PolicySnapshot}
    {failed : List Text} {adapters : List Adapter} (h : At owner job (some x.pr) t g)
    (hx : Begun x storedPolicy failed adapters t) :
    Obeys contract (Left owner job fun g' plan => ∃ t' b chunks,
      At owner job (some x.pr) t' g' ∧ Planned x adapters b chunks plan t') g
      (planRetry x storedPolicy adapters) := by
  unfold planRetry
  rw [hx.exact]
  refine left_bind (at_ext h trivial) fun g₁ hp h₁ => ?_
  refine left_bind (envelopes_left h₁ hx.envelopes x.run.id) fun g₂ stored h₂ => ?_
  obtain ⟨envelopes, h₂, henvelopes, rfl⟩ := h₂
  refine left_bind (at_lift h₂ _) fun g₃ nonces h₃ => ?_
  refine left_bind (at_tells h₃.1 (resolveRetryDiff_tells h₃.1.pr _ _ _)) fun g₄ resolved h₄ => ?_
  obtain ⟨t₄, h₄, rfl⟩ := h₄
  rw [h₃.1.told] at h₄
  refine left_bind (at_lift h₄ _) fun g₅ diff h₅ => ?_
  refine left_bind (at_when h₅.1) fun g₆ _ h₆ => ?_
  refine left_bind (retryPrompts_left h₆.1 diff nonces) fun g₇ prompts h₇ => ?_
  refine left_bind (ids_left h₇.1 hx.ids x.run.id) fun g₈ ids h₈ => ?_
  refine left_bind (identities_left h₈.1 hx.versions hx.nodup _ prompts diff storedPolicy)
    fun g₉ identities h₉ => ?_
  obtain ⟨versions, h₉, hall⟩ := h₉
  have hconfig : Obeys contract (Left owner job fun g' current => ∃ config : _ × _,
      At owner job (some x.pr) (Told.ext _ .policyConfig config) g' ∧
        current = FindingPolicy.resolvePolicySnapshot config.1 config.2 x.repo
          (benchmarkRuntimeIdentity identities)) g₉
      (resolvePolicy x.repo (benchmarkRuntimeIdentity identities)) :=
    left_bind (at_ext h₉ trivial) fun g' config h' => obeys_pure ⟨config, h', rfl⟩
  refine left_bind hconfig fun g₁₀ current h₁₀ => ?_
  obtain ⟨config, h₁₀, rfl⟩ := h₁₀
  refine left_bind (at_when h₁₀) fun g₁₁ _ h₁₁ => ?_
  refine left_bind (at_lift h₁₁.1 _) fun g₁₂ _ h₁₂ => ?_
  refine left_bind (at_lift h₁₂.1 _) fun g₁₃ chunks h₁₃ => ?_
  -- all that was told
  let t' : Told := { t with
    harness := some hp
    envelopes
    text := some resolved
    ids := ids.map fun i => ((x.run.id, i.1), i.2)
    versions
    config := some config }
  obtain ⟨hidentified, hids, hidentities⟩ := rowsOf_identified (t := t') rfl h₈.2 hall
  have hvendors := vendors_of_identified hidentified
  refine obeys_pure ⟨t', ⟨x.run, x.pr, x.repo, x.settings, hp, x.deps, config, failed, storedPolicy,
    nonces, resolved, diff, prompts, rowsOf ids identities⟩, chunks, h₁₃.1, ?_⟩
  have hfailing : ((enabledAdapters x.deps.adapters x.repo).filter fun ad =>
      failed.contains ad.vendor) = adapters := hx.failing.symm
  have hsame : samePolicy (FindingPolicy.resolvePolicySnapshot config.1 config.2 x.repo
      (benchmarkRuntimeIdentity identities)) storedPolicy = true := by
    simpa using h₁₁.2
  have hstored : envelopes.length = (rowsOf ids identities).length := by
    have hl := congrArg List.length henvelopes
    have hr := congrArg List.length hvendors
    simp only [List.length_map] at hl hr
    exact hl.trans hr.symm
  exact {
    of := {
      target := hx.target
      latest := hx.latest
      done := hx.done
      head := hx.head
      repo := hx.repo
      settings := hx.settings
      harness := rfl
      deps := hx.deps
      config := rfl
      storedPolicy := hx.policy
      failed := hx.told
      vendors := by
        simp only [Rebuilt.adapters, hfailing]
        exact hx.nodup
      available := by
        simp only [Rebuilt.adapters, hfailing]
        exact hx.available
      envelopes := by
        simp only [Rebuilt.adapters, hfailing]
        exact henvelopes
      nonces := h₃.2
      text := rfl
      diff := h₅.2
      prompts := h₇.2
      identified := by
        simp only [Rebuilt.adapters, hfailing]
        exact hidentified
      ids := by
        have h := congrArg (List.map fun i : Text × Nat => ((x.run.id, i.1), i.2)) hids
        rw [List.map_map] at h
        exact h.symm }
    matched := {
      policy := by
        simp only [Rebuilt.policy, hidentities]
        exact hsame
      identities := by
        refine identities_matched hstored fun p hp => ?_
        have hp : p ∈ (envelopes.map Prod.snd).zip (identitiesOf (rowsOf ids identities)) := hp
        rw [hidentities] at hp
        exact Raise.forall_of_forM h₁₂.2 p hp
      chunks := List.forall₂_map_left_iff.mp (forall₂_of_mapM h₁₃.2) }
    run := rfl
    pr := rfl
    storedPolicy := hx.policy
    prompts := rfl
    rows := rfl
    vendors := hvendors
    retryPrompts := rfl
    told := by
      intro ad had hprobes
      obtain ⟨i, -, hi⟩ := forall₂_mem_left hall ad had
      exact hi.told hprobes }

/-! ## The vendors of a retry -/

/-- A row and its chunks beside the adapter and its chunks. -/
theorem active_zip {adapters : List Adapter} {rows : List VendorRow}
    {chunks : List (List PromptChunk)}
    (h : rows.map VendorRow.vendor = adapters.map Adapter.vendor) :
    List.Forall₂ (fun p q => Prod.fst q = Adapter.vendor (Prod.fst p) ∧ Prod.snd q = Prod.snd p)
      ((adapters.zip chunks).filter fun p => !p.2.isEmpty)
      (((rows.zip chunks).filter fun p => !p.2.isEmpty).map fun q => (q.1.vendor, q.2)) := by
  induction adapters generalizing rows chunks with
  | nil =>
    obtain rfl := List.map_eq_nil_iff.mp h
    exact .nil
  | cons ad adapters ih =>
    cases rows with
    | nil => cases h
    | cons row rows =>
      obtain ⟨hv, h⟩ := List.cons.inj h
      cases chunks with
      | nil => exact .nil
      | cons c cs =>
        have hrest := @ih _ cs h
        rw [List.zip_cons_cons, List.zip_cons_cons]
        by_cases hc : c.isEmpty = true
        · simpa [List.filter_cons, hc] using hrest
        · simp only [List.filter_cons, hc]
          exact .cons ⟨hv, rfl⟩ hrest

/-- The result of a vendor on its chunks, whatever its row. -/
def RanFor (p : Adapter × List PromptChunk) (r : VendorRunResult) : Prop :=
  ∀ row : VendorRow, row.vendor = p.1.vendor → Ran row p.2 r

/-- The results of the adapters are those of their rows. -/
theorem ran_rows {ps : List (Adapter × List PromptChunk)} {qs : List (VendorRow × List PromptChunk)}
    {results : List VendorRunResult} (hr : List.Forall₂ RanFor ps results)
    (hq : List.Forall₂ (fun p q => Prod.fst q = Adapter.vendor (Prod.fst p) ∧
      Prod.snd q = Prod.snd p) ps (qs.map fun q => (q.1.vendor, q.2))) :
    List.Forall₂ (fun q r => Ran (Prod.fst q) (Prod.snd q) r) qs results := by
  induction hr generalizing qs with
  | nil =>
    obtain rfl := List.map_eq_nil_iff.mp (List.forall₂_nil_left_iff.mp hq)
    exact .nil
  | cons hran _ ih =>
    cases qs with
    | nil => cases hq
    | cons q qs =>
      obtain ⟨⟨hv, hc⟩, hq⟩ := List.forall₂_cons.mp hq
      refine .cons ?_ (ih hq)
      rw [show q.2 = _ from hc]
      exact hran q.1 hv

/-- The execution that a plan was made by. -/
structure Planning (x : RetryOf) (job : Option ReviewJob) (adapters : List Adapter) (b : Rebuilt)
    (chunks : List (List PromptChunk)) (plan : RetryPlan) (t : Told) (g : Execution) :
    Prop extends Planned x adapters b chunks plan t where
  at_ : At x.ownerProcessId job (some x.pr) t g

section Planning

variable {x : RetryOf} {adapters : List Adapter} {b : Rebuilt} {chunks : List (List PromptChunk)}
  {plan : RetryPlan}

theorem Planning.rebuilds (h : Planning x job adapters b chunks plan t g) : Rebuilds g b where
  created := h.at_.created
  pr := h.pr ▸ h.at_.pr
  of := h.at_.told ▸ h.of

/-- A vendor of the plan is asked about its chunks only. -/
theorem Planning.asks {p : Adapter × List PromptChunk}
    (hp : p ∈ plan.retryPrompts.filter fun p => !p.2.isEmpty) :
    Asks (Planning x job adapters b chunks plan t) p.1 p.2 where
  may g h c hc := by
    rw [h.retryPrompts] at hp
    obtain ⟨q, hq, hv, hcs⟩ := forall₂_mem_left (active_zip h.vendors) p hp
    obtain ⟨row, hrow, rfl⟩ := List.mem_map.mp hq
    refine .inr ⟨b, chunks, h.rebuilds, h.at_.told ▸ h.matched, row, hrow, hv, ?_⟩
    rw [show row.2 = p.2 from hcs]
    exact hc
  told hprobes g version h := by
    have hmem : p.1 ∈ adapters := by
      have hmem := (List.mem_filter.mp hp).1
      rw [h.retryPrompts] at hmem
      exact (List.of_mem_zip hmem).1
    have htold : g.told.tellVersion p.1.vendor version = g.told := by
      rw [h.at_.told]
      exact if_pos (h.told p.1 hmem hprobes)
    rw [htold]
    exact h

/-- The vendors of a plan, each on its chunks. -/
theorem runActive_asked (h : Planning x job adapters b chunks plan t g)
    {ps : List (Adapter × List PromptChunk)}
    (hps : ∀ p ∈ ps, p ∈ plan.retryPrompts.filter fun p => !p.2.isEmpty) :
    Obeys contract (Asked (Planning x job adapters b chunks plan t) (List.Forall₂ RanFor ps)) g
      (forEach (fun p => do
        let row ← lift (rowFor plan.rows p.1.vendor)
        runVendor p.1 row.identity.cliVersion p.2) ps) := by
  refine obeys_forEach (fun g done results => Planning x job adapters b chunks plan t g ∧
    List.Forall₂ RanFor done results) (fun g done results p rest hxs hI => ?_)
    (fun g results hI => hI) ⟨h, .nil⟩
  have hp := hps p (by simp [hxs])
  have hne : p.2 ≠ [] := by
    have := (List.mem_filter.mp hp).2
    simpa using this
  refine obeys_lift_bind (fun row hrow => ?_) fun e he => ⟨hI.1, quiet_rowFor _ _ e he⟩
  refine (runVendor_asked (Planning.asks hp) hI.1 hne _ (rowFor_ok hrow).2).mono
    fun g' r hr => ?_
  cases r with
  | ok result =>
    refine ⟨hr.1, List.rel_append hI.2 (.cons (fun row' hrow' => ?_) .nil)⟩
    exact ⟨hr.2.vendor.trans ((rowFor_ok hrow).2.trans hrow'.symm), hr.2.chunks, hr.2.status⟩
  | error e => exact hr

/-- The end of a retry fits what was rebuilt. -/
theorem Planning.retries (h : Planning x job adapters b chunks plan t g)
    {raw results : List VendorRunResult}
    (hraw : List.Forall₂ RanFor (plan.retryPrompts.filter fun p => !p.2.isEmpty) raw)
    (hscope : FindingPolicy.applyFindingScope plan.prompts b.storedPolicy.scope.effectiveMode raw =
      .ok results) :
    Retries g b ⟨x.run.id, x.pr.id, x.pr.headSha, x.ownerProcessId,
      b.storedPolicy.dedupe.effectiveMode, x.repo.mergeEnabled, results, plan.rows⟩ where
  toRebuilds := h.rebuilds
  ended := h.at_.ended
  runId := by rw [h.run]
  prId := by rw [h.pr]
  headSha := by rw [h.pr]
  owner := h.at_.owner.symm
  rows := h.rows
  mode := rfl
  results := by
    rw [h.retryPrompts] at hraw
    exact ⟨chunks, raw, h.at_.told ▸ h.matched, ran_rows hraw (active_zip h.vendors),
      h.prompts ▸ hscope⟩

theorem runRetry_left (h : Planning x job adapters b chunks plan t g) :
    Obeys contract (Left x.ownerProcessId job fun g' _ => Holding x.ownerProcessId job g' ∧
      Settled g') g (runRetry x b.storedPolicy plan) := by
  refine obeys_ite (fun _ => obeys_pure ⟨h.at_.holding, h.at_.settled⟩) fun _ => ?_
  have hexit : ∀ {V : List VendorRunResult → Prop} g' r e,
      Asked (Planning x job adapters b chunks plan t) V g' r → Quiet e →
        Asked (Planning x job adapters b chunks plan t) V g' (.error e) := by
    intro V g' r e hr he
    cases r with
    | ok results => exact ⟨hr.1, he⟩
    | error e' => exact ⟨hr.1, he⟩
  refine obeys_bind (obeys_within (obeys_within (runActive_asked h fun p hp => hp)
    (fun e he => ⟨h, he⟩) hexit) (fun e he => ⟨h, he⟩) hexit) (fun g₁ raw h₁ => ?_)
      fun g₁ e h₁ => h₁.1.at_.toIdle.left e
  refine obeys_lift_bind (fun results hscope => ?_) fun e _ => h₁.1.at_.toIdle.left e
  have hidle := h₁.1.at_.toIdle
  refine obeys_perform ⟨b, h₁.1.retries h₁.2 hscope⟩ fun r _ => ?_
  cases r with
  | ok _ => exact ⟨⟨hidle.owner, hidle.job, hidle.released⟩, .inr (.inl rfl)⟩
  | error e => exact (hidle.raised e).left e

end Planning

/-! ## `retry_pr` -/

/-- What `retry_pr` was told before. -/
structure Untold (deps : PipelineDeps) (t : Told) : Prop where
  deps : t.deps = some deps
  versions : t.versions = []
  envelopes : t.envelopes = []
  ids : t.ids = []

theorem retryFailedVendors_left {x : RetryOf} (h : At x.ownerProcessId job (some x.pr) t g)
    (htarget : t.target = some x.run) (hlatest : t.latest = (x.pr.id, some x.run.id))
    (hrepo : t.repo = some x.repo) (hsettings : t.settings = some x.settings)
    (hun : Untold x.deps t) (hdone : x.run.status = .done) (hhead : x.run.headSha = x.pr.headSha)
    (hexact : x.requireExactHead = true) :
    Obeys contract (Left x.ownerProcessId job fun g' _ => Holding x.ownerProcessId job g' ∧
      Settled g') g (retryFailedVendors x) := by
  unfold retryFailedVendors
  split
  · exact obeys_throw (h.toIdle.left _)
  · rename_i storedPolicy hpolicy
    refine left_bind (at_read h fun _ => rfl) fun g₁ failed h₁ => ?_
    refine left_bind (at_when h₁) fun g₂ _ h₂ => ?_
    refine left_bind (at_when h₂.1) fun g₃ _ h₃ => ?_
    refine obeys_ite (fun _ => obeys_pure ⟨h₃.1.holding, h₃.1.settled⟩) fun _ => ?_
    have hbegun : Begun x storedPolicy failed ((enabledAdapters x.deps.adapters x.repo).filter
        fun ad => failed.contains ad.vendor) (t.read (.failedVendors x.run.id) failed) := by
      refine ⟨htarget, hlatest, hrepo, hsettings, hun.deps, hun.versions, hun.envelopes, hun.ids,
        hdone, hhead, hexact, hpolicy, rfl, rfl, not_not.mp (not_or.mp h₂.2).1, fun v hv => ?_⟩
      by_contra hn
      exact h₃.2 (List.any_eq_true.mpr ⟨v, hv, by simpa using hn⟩)
    refine left_bind (planRetry_left h₃.1 hbegun) fun g₄ plan h₄ => ?_
    obtain ⟨t', b, chunks, h₄, hplan⟩ := h₄
    obtain rfl : b.storedPolicy = storedPolicy :=
      Option.some.inj (hplan.storedPolicy.symm.trans hpolicy)
    exact runRetry_left ⟨hplan, h₄⟩

/-- **A retry.** `retry_pr` obeys the contract. -/
theorem retryPr_obeys {a : RetryArgs} (h : At a.ownerProcessId job pr t g)
    (hun : Untold a.deps t) (hexact : a.expectedHeadSha.isSome = true) :
    Obeys contract (Left a.ownerProcessId job fun g' _ => Holding a.ownerProcessId job g' ∧
      Settled g') g (retryPr a) := by
  refine left_bind (retryTarget_left h) fun g₁ p h₁ => ?_
  obtain ⟨run, row⟩ := p
  refine left_bind (at_read h₁.at_ fun _ => rfl) fun g₂ found h₂ => ?_
  refine left_bind (at_ext h₂ trivial) fun g₃ settings h₃ => ?_
  refine left_bind (P := fun g' _ => Holding a.ownerProcessId job g' ∧ Settled g')
    (obeys_tryCatch ?_ (fun _ _ h' => h') fun g' e h' => ?_) fun g₄ _ h₄ => obeys_pure h₄
  · refine left_bind (R := fun g' _ => Holding a.ownerProcessId job g' ∧ Settled g')
      (at_subscript h₃ found) fun g₄ repo h₄ => ?_
    obtain ⟨h₄, rfl⟩ := h₄
    exact retryFailedVendors_left (x := ⟨run, row, repo, settings, a.deps,
      a.expectedHeadSha.isSome, a.ownerProcessId⟩) h₄ rfl rfl rfl rfl
      ⟨hun.deps, hun.versions, hun.envelopes, hun.ids⟩ h₁.done h₁.head hexact
  · refine obeys_ite (fun _ => obeys_throw h') fun hne => ?_
    have hs : Holding a.ownerProcessId job g' ∧ Settled g' :=
      ⟨h'.1, h'.2.resolve_left hne⟩
    refine left_bind (P := fun g'' _ => g'' = g') ?_ fun g'' _ hg => ?_
    · exact obeys_when (fun _ => obeys_throw h') fun _ => rfl
    · subst hg
      exact obeys_throw ⟨hs.1, .inr hs.2⟩

end Pipeline
