import AlmightyReview.Review.Server
import AlmightyReview.Review.Stored

/-!
# What the executions know of the database

The invariant of the reviews: what each execution knows holds of the database, whatever the others
do, and every run, result and finding has the execution that stored it.

* `Coherent`: a history by itself. `Knows`: a run as its execution knows it. `Fits`: the rows of an
  execution. `Heard`: what it was told. `Finder`: the execution that published a run.
* `Inv`: all of it. `Moves`, `Alike`: what no step changes; `Fits.moves`, `Heard.moves` follow.
* `Steps`: what a step of one execution does. `Inv.step`: such a step keeps the invariant.
-/

namespace Pipeline

open FindingPolicy (policySnapshotRecord)

variable {g g' : Execution} {db db' : Db} {r r' : ReviewRun}

/-! ## Histories -/

/-- A history by itself. -/
structure Coherent (g : Execution) : Prop where
  published : g.published = true → g.ended = true ∧ g.policy.isSome = true ∧ g.created.isSome = true
  policy : g.policy.isSome = true → g.created.isSome = true
  rows : (g.rows.map Prod.fst).Nodup
  released : g.released = true → Settled g

/-- What does not change any more in a history. -/
structure Continues (g g' : Execution) : Prop where
  owner : g'.owner = g.owner
  created : ∀ id, g.created = some id → g'.created = some id
  pr : g.created.isSome = true → g'.pr = g.pr
  job : g.created.isSome = true → g'.job = g.job
  policy : ∀ policy, g.policy = some policy → g'.policy = some policy
  rows : ∀ p ∈ g.rows, p ∈ g'.rows
  published : g.published = true → g'.published = true

/-- What an execution knows of its run is the same. -/
structure SameRows (g g' : Execution) : Prop where
  owner : g'.owner = g.owner
  created : g'.created = g.created
  pr : g.created.isSome = true → g'.pr = g.pr
  job : g.created.isSome = true → g'.job = g.job
  policy : g'.policy = g.policy
  rows : g'.rows = g.rows
  ended : g'.ended = g.ended
  published : g'.published = g.published
  cleared : g'.cleared = g.cleared

/-- The same, and what it knows of its job. -/
structure SameRun (g g' : Execution) : Prop extends SameRows g g' where
  released : g'.released = g.released
  settled : Settled g → Settled g'

theorem SameRows.continues (h : SameRows g g') : Continues g g' :=
  ⟨h.owner, fun _ hc => h.created.trans hc, h.pr, h.job, fun _ hp => h.policy.trans hp,
    fun _ hp => h.rows ▸ hp, fun hp => h.published.trans hp⟩

theorem SameRun.raised (g : Execution) (e : Exc) : SameRun g (g.raised e) := by
  have hs := fun h : Settled g => h.raised e
  cases e <;> exact ⟨⟨rfl, rfl, fun _ => rfl, fun _ => rfl, rfl, rfl, rfl, rfl, rfl⟩, rfl, hs⟩

theorem SameRun.told (g : Execution) (t : Told) : SameRun g { g with told := t } :=
  ⟨⟨rfl, rfl, fun _ => rfl, fun _ => rfl, rfl, rfl, rfl, rfl, rfl⟩, rfl, fun h => h⟩

theorem SameRun.refl (g : Execution) : SameRun g g := .told g g.told

theorem SameRun.read (g : Execution) {β : Type} (q : Read β) (b : β) :
    SameRun g (g.afterRead q b) := by
  cases q with
  | getPr prId =>
    show SameRun g (if g.created.isSome then g else { g with pr := b })
    split
    · exact .refl g
    · rename_i hc
      exact ⟨⟨rfl, rfl, fun hs => absurd hs hc, fun _ => rfl, rfl, rfl, rfl, rfl, rfl⟩, rfl,
        fun h => h⟩
  | _ => exact .told g _

theorem SameRun.error (g : Execution) {β : Type} (o : Op β) (e : Exc) :
    SameRun g (g.after o (.error e)) := by
  cases o with
  | ext q => exact .refl g
  | _ => exact .raised g e

theorem SameRun.claimNext (hn : g.created = none) (job : Option ReviewJob) :
    SameRun g { g with job } := by
  refine ⟨⟨rfl, rfl, fun _ => rfl, fun hs => ?_, rfl, rfl, rfl, rfl, rfl⟩, rfl, fun h => h⟩
  rw [hn] at hs
  cases hs

/-- **What an execution has done** stays done. -/
theorem after_continues {β : Type} {o : Op β} {a : Except Exc β} (h : g.Allows o) :
    Continues g (g.after o a) := by
  cases a with
  | error e => exact (SameRun.error g o e).continues
  | ok b =>
    cases o with
    | read q => exact (SameRun.read g q b).continues
    | ext q => exact (SameRun.told g _).continues
    | write q =>
      cases q with
      | createRun run =>
        have hn : g.created = none := (show MayCreate g run from h).created
        refine ⟨rfl, fun id hid => ?_, fun _ => rfl, fun _ => rfl, fun _ h => h, fun _ h => h,
          fun h => h⟩
        rw [hn] at hid
        cases hid
      | setPolicySnapshot runId policy =>
        have hn : g.policy = none := (show Prepares g runId ∧ g.policy = none from h).2
        refine ⟨rfl, fun _ h => h, fun _ => rfl, fun _ => rfl, fun p hp => ?_, fun _ h => h,
          fun h => h⟩
        rw [hn] at hp
        cases hp
      | addVendorResult runId vendor =>
        exact ⟨rfl, fun _ h => h, fun _ => rfl, fun _ => rfl, fun _ h => h,
          fun p hp => List.mem_append_left _ hp, fun h => h⟩
      | publish e =>
        cases b with
        | none =>
          exact ⟨rfl, fun _ h => h, fun _ => rfl, fun _ => rfl, fun _ h => h, fun _ h => h,
            fun _ => rfl⟩
        | some actual =>
          exact ⟨rfl, fun _ h => h, fun _ => rfl, fun _ => rfl, fun _ h => h, fun _ h => h,
            fun h => h⟩
      | claimNext workerId owner => exact (SameRun.claimNext h.2.1 b).continues
      | _ =>
        exact ⟨rfl, fun _ h => h, fun _ => rfl, fun _ => rfl, fun _ h => h, fun _ h => h,
          fun h => h⟩

theorem Coherent.sameRun (h : Coherent g) (hs : SameRun g g') : Coherent g' where
  published hp := by
    rw [hs.ended, hs.policy, hs.created]
    exact h.published (hs.published ▸ hp)
  policy := by
    rw [hs.policy, hs.created]
    exact h.policy
  rows := by
    rw [hs.rows]
    exact h.rows
  released hrel := hs.settled (h.released (hs.released ▸ hrel))

/-- A job is released when its run is settled. -/
theorem Coherent.release (h : Coherent g) (hs : Settled g) : Coherent { g with released := true } :=
  ⟨h.published, h.policy, h.rows, fun _ => hs⟩

/-- A run ends. -/
theorem Coherent.end_ (h : Coherent g) : Coherent { g with ended := true } :=
  ⟨fun hp => ⟨rfl, (h.published hp).2⟩, h.policy, h.rows, fun _ => .inr (.inl rfl)⟩

/-- A history stays coherent. -/
theorem after_coherent {β : Type} {o : Op β} {a : Except Exc β} (hc : Coherent g)
    (h : g.Allows o) : Coherent (g.after o a) := by
  cases a with
  | error e => exact hc.sameRun (.error g o e)
  | ok b =>
    cases o with
    | read q => exact hc.sameRun (.read g q b)
    | ext q => exact hc.sameRun (.told g _)
    | write q =>
      cases q with
      | createRun run =>
        have hm : MayCreate g run := h
        refine ⟨fun hp => ?_, fun _ => rfl, hc.rows, fun hr => ?_⟩
        · exact absurd (hm.published.symm.trans hp) (by simp)
        · exact absurd (hm.released.symm.trans hr) (by simp)
      | setPolicySnapshot runId policy =>
        have hp : Prepares g runId := h.1
        exact ⟨fun hp => ⟨(hc.published hp).1, rfl, (hc.published hp).2.2⟩,
          fun _ => Option.isSome_of_eq_some hp.created, hc.rows, hc.released⟩
      | addVendorResult runId vendor =>
        refine ⟨hc.published, hc.policy, ?_, hc.released⟩
        show ((g.rows ++ [(vendor, b)]).map Prod.fst).Nodup
        rw [List.map_append, List.nodup_append]
        refine ⟨hc.rows, List.nodup_singleton _, fun v hv w hw hvw => ?_⟩
        obtain rfl : w = vendor := by simpa using hw
        exact h.2.2 (hvw ▸ hv)
      | finishRun runId status error => exact hc.end_
      | storeFailed e => exact hc.end_
      | publish e =>
        have hp : Publishes g e := h
        cases b with
        | none =>
          refine ⟨fun _ => ⟨rfl, hp.policy, ?_⟩, hc.policy, hc.rows, fun _ => .inr (.inl rfl)⟩
          exact Option.isSome_of_eq_some hp.created
        | some actual => exact hc.sameRun (.refl g)
      | cancelStale e => exact hc.end_
      | retryPublish canonicalClaim e => exact hc.end_
      | claimNext workerId owner => exact hc.sameRun (.claimNext h.2.1 b)
      | markDone jobId runId owner => exact hc.release h.settled
      | markCanceled jobId error owner => exact hc.release h.settled
      | markFailed jobId error retry runId owner => exact hc.release h.1.settled
      | cancelStaleAndEnqueueLatest jobId owner => exact hc.release h.settled
      | failJobRuns jobId error =>
        exact ⟨hc.published, hc.policy, hc.rows, fun _ => .inr (.inr (.inl rfl))⟩
      | _ => exact hc.sameRun (.refl g)

/-! ## What an execution knows -/

/-- A run as its execution knows it. -/
structure Knows (g : Execution) (r : ReviewRun) : Prop where
  pr : ∃ pr, g.pr = some pr ∧ r.prId = pr.id ∧ r.headSha = pr.headSha
  owner : r.ownerProcessId = g.owner
  job : g.owner.isSome = true → ∀ job, g.job = some job → r.ownerJobId = some job.id
  policy : r.policy = g.policy.map policySnapshotRecord
  done : r.status = .done ↔ g.published = true
  ended : g.ended = true → r.status ≠ .running
  cleared : g.cleared = true → g.owner.isSome = true → r.status ≠ .running

/-- The rows of an execution are what it knows. -/
structure Fits (db : Db) (g : Execution) : Prop where
  created : ∀ id, g.created = some id → 0 < id ∧ id < db.reviewRuns.nextId
  knows : ∀ r ∈ db.reviewRuns, g.created = some r.id → Knows g r
  rows : ∀ p ∈ g.rows, p.2 < db.vendorResults.nextId ∧
    ∀ v ∈ db.vendorResults, v.id = p.2 → g.created = some v.runId ∧ v.vendor = p.1
  reported : g.published = true → ∀ v ∈ db.vendorResults, g.created = some v.runId →
    v.status ≠ .running

/-- What was told of the database holds of what is still there. -/
structure Heard (db : Db) (t : Told) : Prop where
  ids : ∀ p ∈ t.ids, p.2 < db.vendorResults.nextId ∧
    ∀ v ∈ db.vendorResults, v.id = p.2 → v.runId = p.1.1 ∧ v.vendor = p.1.2
  latest : ∀ id, t.latest.2 = some id → id < db.reviewRuns.nextId ∧
    ∀ r ∈ db.reviewRuns, r.id = id → r.prId = t.latest.1

/-- The execution that published a run. -/
structure Finder (g : Execution) (r : ReviewRun) : Prop where
  created : g.created = some r.id
  published : g.published = true
  pr : ∃ pr, g.pr = some pr ∧ r.prId = pr.id ∧ r.headSha = pr.headSha
  policy : ∃ policy, g.policy = some policy ∧ r.policy = some (policySnapshotRecord policy)

/-- **The invariant.** -/
structure Inv (db : Db) (hs : Nat → Option Execution) : Prop where
  positive : 0 < db.reviewRuns.nextId
  coherent : ∀ n g, hs n = some g → Coherent g
  fits : ∀ n g, hs n = some g → Fits db g
  heard : ∀ n g, hs n = some g → Heard db g.told
  unique : ∀ m n g g' id, hs m = some g → hs n = some g' → g.created = some id →
    g'.created = some id → m = n
  creator : ∀ r ∈ db.reviewRuns, ∃ n g, hs n = some g ∧ g.created = some r.id
  results : ∀ v ∈ db.vendorResults, ∃ n g, hs n = some g ∧ g.created = some v.runId ∧
    (v.vendor, v.id) ∈ g.rows
  findings : ∀ f ∈ db.findings, ∃ n g, hs n = some g ∧ g.created = some f.runId ∧
    g.published = true
  target : ∀ n g r, hs n = some g → g.told.target = some r → r.status = .done →
    ∃ m g', hs m = some g' ∧ Finder g' r

theorem Finder.continues (h : Finder g r) (hc : Continues g g') : Finder g' r where
  created := hc.created _ h.created
  published := hc.published h.published
  pr := by
    rw [hc.pr (Option.isSome_of_eq_some h.created)]
    exact h.pr
  policy := by
    obtain ⟨policy, hp, hr⟩ := h.policy
    exact ⟨policy, hc.policy policy hp, hr⟩

theorem Knows.sameRows (h : Knows g r) (hs : SameRows g g') (hc : g.created.isSome = true) :
    Knows g' r where
  pr := by
    rw [hs.pr hc]
    exact h.pr
  owner := h.owner.trans hs.owner.symm
  job := by
    rw [hs.owner, hs.job hc]
    exact h.job
  policy := by
    rw [hs.policy]
    exact h.policy
  done := by
    rw [hs.published]
    exact h.done
  ended he := h.ended (hs.ended ▸ he)
  cleared hcl ho := h.cleared (hs.cleared ▸ hcl) (hs.owner ▸ ho)

theorem Fits.sameRows (h : Fits db g) (hs : SameRows g g') : Fits db g' where
  created := by
    rw [hs.created]
    exact h.created
  knows r hr hc := by
    rw [hs.created] at hc
    exact (h.knows r hr hc).sameRows hs (Option.isSome_of_eq_some hc)
  rows := by
    rw [hs.rows, hs.created]
    exact h.rows
  reported := by
    rw [hs.published, hs.created]
    exact h.reported

/-! ## What no step changes -/

/-- The run is the same; if it was not done, it may have been closed without being published. -/
structure Alike (r r' : ReviewRun) : Prop where
  prId : r'.prId = r.prId
  headSha : r'.headSha = r.headSha
  owner : r'.ownerProcessId = r.ownerProcessId
  job : r'.ownerJobId = r.ownerJobId
  policy : r'.policy = r.policy
  status : r'.status = r.status ∨ r'.status ≠ .running ∧ r'.status ≠ .done ∧ r.status ≠ .done

theorem Alike.refl (r : ReviewRun) : Alike r r := ⟨rfl, rfl, rfl, rfl, rfl, .inl rfl⟩

theorem Knows.alike (h : Knows g r) (ha : Alike r r') : Knows g r' where
  pr := by
    rw [ha.prId, ha.headSha]
    exact h.pr
  owner := ha.owner.trans h.owner
  job ho job hj := ha.job.trans (h.job ho job hj)
  policy := ha.policy.trans h.policy
  done := by
    obtain hs | ⟨-, hs', hs⟩ := ha.status
    · rw [hs]
      exact h.done
    · exact ⟨fun hd => absurd hd hs', fun hp => absurd (h.done.mpr hp) hs⟩
  ended he := by
    obtain hs | ⟨hs, -⟩ := ha.status
    · exact hs ▸ h.ended he
    · exact hs
  cleared hc ho := by
    obtain hs | ⟨hs, -⟩ := ha.status
    · exact hs ▸ h.cleared hc ho
    · exact hs

theorem Elapses.alike (h : Elapses r r') : Alike r r' := by
  have hs := h.same
  have hpr := congrArg ReviewRun.prId hs
  have hhead := congrArg ReviewRun.headSha hs
  have howner := congrArg ReviewRun.ownerProcessId hs
  have hjob := congrArg ReviewRun.ownerJobId hs
  have hpolicy := congrArg ReviewRun.policy hs
  refine ⟨hpr, hhead, howner, hjob, hpolicy, ?_⟩
  obtain ⟨hst, -⟩ | ⟨hrun, hst⟩ := h.closed
  · exact .inl hst
  · exact .inr ⟨by simp [hst], by simp [hst], by simp [hrun]⟩

/-- What every step does to the results, and to the pull requests of runs. -/
structure Moves (db db' : Db) : Prop where
  runId : db.reviewRuns.nextId ≤ db'.reviewRuns.nextId
  resultId : db.vendorResults.nextId ≤ db'.vendorResults.nextId
  runs : ∀ r' ∈ db'.reviewRuns, r'.id < db.reviewRuns.nextId →
    ∃ r ∈ db.reviewRuns, r.id = r'.id ∧ r'.prId = r.prId
  results : ∀ v' ∈ db'.vendorResults, v'.id < db.vendorResults.nextId →
    ∃ v ∈ db.vendorResults, v.id = v'.id ∧ v'.runId = v.runId ∧ v'.vendor = v.vendor ∧
      (v'.status = v.status ∨ v'.status ≠ .running)

theorem Heard.moves {t : Told} (h : Heard db t) (hm : Moves db db') : Heard db' t where
  ids p hp := by
    obtain ⟨hlt, hall⟩ := h.ids p hp
    refine ⟨Nat.lt_of_lt_of_le hlt hm.resultId, fun v' hv' hid => ?_⟩
    obtain ⟨v, hv, hvid, hrun, hvendor, -⟩ := hm.results v' hv' (hid ▸ hlt)
    rw [hrun, hvendor]
    exact hall v hv (hvid.trans hid)
  latest id hid := by
    obtain ⟨hlt, hall⟩ := h.latest id hid
    refine ⟨Nat.lt_of_lt_of_le hlt hm.runId, fun r' hr' he => ?_⟩
    obtain ⟨r, hr, hrid, hpr⟩ := hm.runs r' hr' (he ▸ hlt)
    rw [hpr]
    exact hall r hr (hrid.trans he)

/-- The results of an execution stay its own. -/
theorem Fits.rows_moves (h : Fits db g) (hm : Moves db db') (p : Text × Nat) (hp : p ∈ g.rows) :
    p.2 < db'.vendorResults.nextId ∧
      ∀ v ∈ db'.vendorResults, v.id = p.2 → g.created = some v.runId ∧ v.vendor = p.1 := by
  obtain ⟨hlt, hall⟩ := h.rows p hp
  refine ⟨Nat.lt_of_lt_of_le hlt hm.resultId, fun v' hv' hid => ?_⟩
  obtain ⟨v, hv, hvid, hrun, hvendor, -⟩ := hm.results v' hv' (hid ▸ hlt)
  rw [hrun, hvendor]
  exact hall v hv (hvid.trans hid)

/-- The run of an execution stays its own. -/
theorem Fits.created_moves (h : Fits db g) (hm : Moves db db') (id : Nat)
    (hid : g.created = some id) : 0 < id ∧ id < db'.reviewRuns.nextId :=
  ⟨(h.created id hid).1, Nat.lt_of_lt_of_le (h.created id hid).2 hm.runId⟩

/-- What an execution knows holds after a step of another one. -/
theorem Fits.moves (h : Fits db g) (hm : Moves db db')
    (hruns : ∀ r' ∈ db'.reviewRuns, g.created = some r'.id →
      ∃ r ∈ db.reviewRuns, r.id = r'.id ∧ Alike r r')
    (hnew : g.published = true → ∀ v' ∈ db'.vendorResults, g.created = some v'.runId →
      v'.id < db.vendorResults.nextId) : Fits db' g where
  created := h.created_moves hm
  knows r' hr' hc := by
    obtain ⟨r, hr, hid, ha⟩ := hruns r' hr' hc
    exact (h.knows r hr (hid ▸ hc)).alike ha
  rows := h.rows_moves hm
  reported hp v' hv' hc := by
    obtain ⟨v, hv, hvid, hrun, -, hs⟩ := hm.results v' hv' (hnew hp v' hv' hc)
    obtain hs | hs := hs
    · rw [hs]
      exact h.reported hp v hv (hrun ▸ hc)
    · exact hs

/-! ## Steps -/

section Steps

variable {hs : Nat → Option Execution} {n : Nat}

/-- What is known of an execution is known of it after its step. -/
theorem exists_update {P : Execution → Prop} (hP : ∀ g g', Continues g g' → P g → P g')
    (hn : hs n = some g) (hc : Continues g g') (h : ∃ m k, hs m = some k ∧ P k) :
    ∃ m k, Function.update hs n (some g') m = some k ∧ P k := by
  obtain ⟨m, k, hk, hp⟩ := h
  by_cases hm : m = n
  · subst hm
    obtain rfl := Option.some.inj (hn.symm.trans hk)
    exact ⟨m, g', Function.update_self .., hP _ _ hc hp⟩
  · exact ⟨m, k, by rw [Function.update_of_ne hm]; exact hk, hp⟩

/-- A step of one execution, from `g` to `g'`, and of the database. -/
structure Steps (hs : Nat → Option Execution) (n : Nat) (g g' : Execution) (db db' : Db) :
    Prop where
  moves : Moves db db'
  continues : Continues g g'
  coherent : Coherent g'
  fits : Fits db' g'
  others : ∀ m k, m ≠ n → hs m = some k → Fits db' k
  heard : Heard db' g'.told
  created : ∀ id, g'.created = some id → g.created = some id ∨ db.reviewRuns.nextId ≤ id
  runs : ∀ r' ∈ db'.reviewRuns, (∃ r ∈ db.reviewRuns, r.id = r'.id) ∨ g'.created = some r'.id
  results : ∀ v' ∈ db'.vendorResults, (∃ v ∈ db.vendorResults, v.id = v'.id ∧ v'.runId = v.runId ∧
    v'.vendor = v.vendor) ∨ g'.created = some v'.runId ∧ (v'.vendor, v'.id) ∈ g'.rows
  findings : ∀ f' ∈ db'.findings, (∃ f ∈ db.findings, f'.runId = f.runId) ∨
    (g'.created = some f'.runId ∧ g'.published = true) ∨
      ∃ m k, hs m = some k ∧ k.created = some f'.runId ∧ k.published = true
  target : ∀ r, g'.told.target = some r → g.told.target = some r ∨ r ∈ db.reviewRuns

/-- The execution that published a run that is done. -/
theorem Inv.finder (h : Inv db hs) (hr : r ∈ db.reviewRuns) (hd : r.status = .done) :
    ∃ n g, hs n = some g ∧ Finder g r := by
  obtain ⟨n, g, hn, hc⟩ := h.creator r hr
  have hk := (h.fits n g hn).knows r hr hc
  have hp := hk.done.mp hd
  obtain ⟨policy, hpolicy⟩ := Option.isSome_iff_exists.mp ((h.coherent n g hn).published hp).2.1
  exact ⟨n, g, hn, hc, hp, hk.pr, policy, hpolicy, by rw [hk.policy, hpolicy]; rfl⟩

/-- **The step lemma.** -/
theorem Inv.step (h : Inv db hs) (hn : hs n = some g) (hst : Steps hs n g g' db db') :
    Inv db' (Function.update hs n (some g')) where
  positive := Nat.lt_of_lt_of_le h.positive hst.moves.runId
  coherent m k hk := by
    by_cases hm : m = n
    · subst hm
      rw [Function.update_self] at hk
      exact Option.some.inj hk ▸ hst.coherent
    · rw [Function.update_of_ne hm] at hk
      exact h.coherent m k hk
  fits m k hk := by
    by_cases hm : m = n
    · subst hm
      rw [Function.update_self] at hk
      exact Option.some.inj hk ▸ hst.fits
    · rw [Function.update_of_ne hm] at hk
      exact hst.others m k hm hk
  heard m k hk := by
    by_cases hm : m = n
    · subst hm
      rw [Function.update_self] at hk
      exact Option.some.inj hk ▸ hst.heard
    · rw [Function.update_of_ne hm] at hk
      exact (h.heard m k hk).moves hst.moves
  unique := by
    -- the run of another execution is not the new one
    have hother : ∀ m k id, m ≠ n → hs m = some k → k.created = some id → g'.created ≠ some id := by
      intro m k id hm hk hc hc'
      obtain hg | hle := hst.created id hc'
      · exact hm (h.unique m n k g id hk hn hc hg)
      · exact absurd hle (Nat.not_le.mpr ((h.fits m k hk).created id hc).2)
    intro m₁ m₂ k₁ k₂ id hk₁ hk₂ hc₁ hc₂
    by_cases hm₁ : m₁ = n <;> by_cases hm₂ : m₂ = n
    · exact hm₁.trans hm₂.symm
    · rw [hm₁, Function.update_self] at hk₁
      rw [Function.update_of_ne hm₂] at hk₂
      obtain rfl := Option.some.inj hk₁
      exact absurd hc₁ (hother m₂ k₂ id hm₂ hk₂ hc₂)
    · rw [hm₂, Function.update_self] at hk₂
      rw [Function.update_of_ne hm₁] at hk₁
      obtain rfl := Option.some.inj hk₂
      exact absurd hc₂ (hother m₁ k₁ id hm₁ hk₁ hc₁)
    · rw [Function.update_of_ne hm₁] at hk₁
      rw [Function.update_of_ne hm₂] at hk₂
      exact h.unique m₁ m₂ k₁ k₂ id hk₁ hk₂ hc₁ hc₂
  creator r' hr' := by
    obtain ⟨r, hr, hid⟩ | hc := hst.runs r' hr'
    · exact exists_update (P := fun k => k.created = some r'.id) (fun _ _ hc hp => hc.created _ hp)
        hn hst.continues (hid ▸ h.creator r hr)
    · exact ⟨n, g', Function.update_self .., hc⟩
  results v' hv' := by
    obtain ⟨v, hv, hid, hrun, hvendor⟩ | ⟨hc, hm⟩ := hst.results v' hv'
    · refine exists_update (P := fun k => k.created = some v'.runId ∧ (v'.vendor, v'.id) ∈ k.rows)
        (fun _ _ hc hp => ⟨hc.created _ hp.1, hc.rows _ hp.2⟩) hn hst.continues ?_
      rw [hrun, hvendor, ← hid]
      exact h.results v hv
    · exact ⟨n, g', Function.update_self .., hc, hm⟩
  findings f' hf' := by
    have htransfer := exists_update (P := fun k => k.created = some f'.runId ∧ k.published = true)
      (fun _ _ hc hp => ⟨hc.created _ hp.1, hc.published hp.2⟩) hn hst.continues
    obtain ⟨f, hf, hrun⟩ | ⟨hc, hp⟩ | hother := hst.findings f' hf'
    · exact htransfer (hrun ▸ h.findings f hf)
    · exact ⟨n, g', Function.update_self .., hc, hp⟩
    · exact htransfer hother
  target m k r hk ht hd := by
    refine exists_update (P := fun k => Finder k r) (fun _ _ hc hp => hp.continues hc) hn
      hst.continues ?_
    by_cases hm : m = n
    · subst hm
      rw [Function.update_self] at hk
      obtain rfl := Option.some.inj hk
      obtain ht | hr := hst.target r ht
      · exact h.target m g r hn ht hd
      · exact h.finder hr hd
    · rw [Function.update_of_ne hm] at hk
      exact h.target m k r hk ht hd

end Steps

end Pipeline
