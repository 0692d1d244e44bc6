import AlmightyReview.Review.Converge
import AlmightyReview.Review.Recorded
import AlmightyReview.Review.Step

/-!
# What the reviews never do

The properties of every run of the server, in which the lanes of all its processes, the expiry of
leases, the posting of findings and deletions go on in any order.

* `findings_current`, `done_current`: what is published, and when.
* `done_kept`, `reviews_consistent`: what is done stays, and its rows go together.
* `rows_confined`: what an execution may change at all, also one that has lost its lease.
* `released_settled`: a job that ends leaves no running run.
* `vendors_asked`, `diffs_pinned`, `policy_kept`, `policy_applied`: what was reviewed, and under
  which policy.
-/

namespace Pipeline

open FindingPolicy (policySnapshotRecord applyFindingScope)

variable {β : Type} {g g' : Execution} {db db' : Db} {hs : Nat → Option Execution} {n : Nat}

/-- The database and the lanes. -/
abbrev World := Pool Op Exc Db Execution Bool

/-! ## The step of an operation -/

theorem exec_touches {q : Write β} {a : Except Exc β} (h : Op.Exec (.write q) db a db') :
    Touches q db db' := by
  obtain hrun | ⟨rfl, -⟩ := h
  · obtain rfl : db' = (q.program.run db).2 := congrArg Prod.snd hrun
    exact Sql.preserves_run (write_touches q db) (Touches.refl q db)
  · exact .refl q db'

/-- A step that changes the database is a transaction. -/
theorem exec_cases {o : Op β} {a : Except Exc β} (h : Op.Exec o db a db') :
    db' = db ∨ ∃ q, o = .write q := by
  cases o with
  | read q => exact .inl h.1
  | write q => exact .inr ⟨q, rfl⟩
  | ext q => exact .inl h.1

/-- A step that changes the rows of a review is a transaction that returned. -/
theorem exec_write_cases {q : Write β} {a : Except Exc β} (h : Op.Exec (.write q) db a db') :
    Same db db' ∨ ∃ b, a = .ok b ∧ (q.program.run db).1 = .ok b ∧ db' = (q.program.run db).2 := by
  obtain hrun | ⟨rfl, -⟩ := h
  · obtain rfl : db' = (q.program.run db).2 := congrArg Prod.snd hrun
    have ha : a = (q.program.run db).1 := congrArg Prod.fst hrun
    cases a with
    | error e => exact .inl (write_same ha.symm)
    | ok b => exact .inr ⟨b, rfl, ha.symm, rfl⟩
  · exact .inl (.refl db')

/-- What holds of a step when it holds where nothing changes, of what happens elsewhere, and of each
operation that an execution may issue. -/
theorem reviews_steps {P : World → Pool.Event Unit → World → Prop}
    (hstart : ∀ w n w', w'.state = w.state → P w (.start n) w')
    (houtside : ∀ w a w', Inv w.state w.histories → Elsewhere w.state w'.state →
      P w (.outside a) w')
    (hcall : ∀ (w : World) (n : Nat) (g : Execution) {β : Type} (o : Op β) (a : Except Exc β)
      (w' : World), Inv w.state w.histories → w.histories n = some g → g.Allows o →
      Op.Exec o w.state a w'.state → Steps w.histories n g (g.after o a) w.state w'.state →
      P w (.call n) w') : reviews.StepInvariant Sys.anyStep P := by
  refine inv_holds.stepInvariant starts_obeys fun {w e w'} hs _ hst => ?_
  cases hst with
  | start hn hst => exact hstart w _ _ rfl
  | @call n g β o next a s hn hex =>
    have hg : w.histories n = some g := Pool.histories_eq_some hn
    have ha : g.Allows o := (hs.obeys n g _ hn).1
    have hex : Op.Exec o w.state a s := hex
    exact hcall w n g o a _ hs.holds hg ha hex (exec_steps hs.holds hg ha hex)
  | outside he => exact houtside w _ _ hs.holds he

/-! ## What is published -/

/-- The run that a retry rebuilt, as it is now. -/
theorem Rebuilt.Of.row {b : Rebuilt} {t : Told} {k : Execution} {r : ReviewRun} (ho : b.Of t)
    (hheard : Heard db t) (hf : Finder k b.run) (hk : Knows k r) (hmem : r ∈ db.reviewRuns)
    (hid : r.id = b.run.id) :
    r.status = .done ∧ r.prId = b.pr.id ∧ r.headSha = b.pr.headSha ∧ r.policy = b.run.policy := by
  obtain ⟨pr, hpr, hprId, hhead⟩ := hk.pr
  obtain ⟨pr', hpr', hprId', hhead'⟩ := hf.pr
  obtain rfl := Option.some.inj (hpr.symm.trans hpr')
  obtain ⟨policy, hpolicy, hrecord⟩ := hf.policy
  have hlatest := hheard.latest b.run.id (by rw [ho.latest])
  refine ⟨hk.done.mpr hf.published, ?_, ?_, ?_⟩
  · rw [hlatest.2 r hmem hid, ho.latest]
  · rw [← ho.head, hhead, hhead']
  · rw [hk.policy, hpolicy, hrecord]
    rfl

/-- The run of an execution, as it is when its transaction returned. -/
theorem ended_run {e : Ending} {r : ReviewRun} (hc : Concludes g e)
    (hcont : Continues g g') (hf : Fits db' g') (hmem : r ∈ db'.reviewRuns) (hid : r.id = e.runId) :
    r.prId = e.prId ∧ r.headSha = e.headSha ∧ r.ownerProcessId = e.ownerProcessId ∧
      r.policy.isSome = true := by
  have hcreated : g'.created = some r.id := hcont.created _ (hid ▸ hc.created)
  have hk := hf.knows r hmem hcreated
  obtain ⟨pr, hpr, hprId, hhead⟩ := hk.pr
  obtain ⟨pr', hpr', hprId', hhead'⟩ := hc.pr
  rw [hcont.pr (Option.isSome_of_eq_some hc.created)] at hpr
  obtain rfl := Option.some.inj (hpr.symm.trans hpr')
  obtain ⟨policy, hpolicy⟩ := Option.isSome_iff_exists.mp hc.policy
  refine ⟨hprId.trans hprId'.symm, hhead.trans hhead'.symm, ?_, ?_⟩
  · rw [hk.owner, hcont.owner, hc.owner]
  · rw [hk.policy, hcont.policy policy hpolicy]
    rfl

/-- A run becomes done by its own execution, whose process is alive, when its head is the one of its
pull request, which is then marked as reviewed at this head. Its policy is recorded, and none of its
results is running. -/
def CompletesCurrent (w : World) (e : Pool.Event Unit) (w' : World) : Prop :=
  ∀ r' ∈ w'.state.reviewRuns, r'.status = .done →
    (∀ r ∈ w.state.reviewRuns, r.id = r'.id → r.status ≠ .done) →
    (∃ n g, e = .call n ∧ w.histories n = some g ∧ g.created = some r'.id) ∧
    (∀ p, r'.ownerProcessId = some p → ProcessRepo.alive w.state p = true) ∧
    actualHead r'.prId w.state = r'.headSha ∧ r'.policy.isSome = true ∧
    (∀ pr ∈ w'.state.pullRequests, pr.id = r'.prId →
      pr.headSha = r'.headSha ∧ pr.lastReviewedSha = some r'.headSha) ∧
    ∀ v ∈ w'.state.vendorResults, v.runId = r'.id → v.status ≠ .running

theorem newRun_running {q : Write β} {r : ReviewRun} (h : q.NewRun r) : r.status = .running := by
  cases q with
  | createRun run =>
    obtain ⟨repoId, now, hr⟩ := h
    rw [hr]
    rfl
  | _ => exact h.elim

/-- Only its execution makes a run done. -/
theorem onRun_completes {q : Write β} {r r' : ReviewRun} (hc : Coherent g)
    (hk : g.created = some r.id → Knows g r) (ha : g.AllowsWrite q) (h : q.OnRun r r')
    (hr : r.status ≠ .done) (hd : r'.status = .done) :
    q.records = true ∧ g.created = some r.id := by
  refine (onRun_alike hc hk ha h).resolve_left fun hal => ?_
  obtain hs | ⟨-, hs, -⟩ := hal.status
  · exact hr (hs ▸ hd)
  · exact hs hd

/-- **Only what is current** is done. -/
theorem done_current : reviews.StepInvariant Sys.anyStep CompletesCurrent := by
  apply reviews_steps
  · intro w n w' h r' hr' hd hnot
    exact absurd hd (hnot r' (h ▸ hr') rfl)
  · intro w a w' _ he r' hr' hd hnot
    obtain ⟨r, hr, hid, ho⟩ := he.runs.rows r' hr'
    obtain ⟨hs, -⟩ | ⟨-, hs⟩ := ho.closed
    · exact absurd (hs ▸ hd) (hnot r hr hid)
    · rw [hs] at hd
      cases hd
  intro w n g β o a w' h hn ha hex hst r' hr' hd hnot
  obtain hdb | ⟨q, rfl⟩ := exec_cases hex
  · exact absurd hd (hnot r' (hdb ▸ hr') rfl)
  have ha : g.AllowsWrite q := ha
  obtain hsame | ⟨b, rfl, hok, hdb⟩ := exec_write_cases hex
  · exact absurd hd (hnot r' (hsame.runs ▸ hr') rfl)
  obtain ⟨-, hnew⟩ | ⟨r, hr, hid, ho⟩ := (exec_touches hex).runs.rows r' hr'
  · rw [newRun_running hnew] at hd
    cases hd
  have hid : r.id = r'.id := hid
  have hnd : r.status ≠ .done := hnot r hr hid
  obtain ⟨hq, hcreated⟩ :=
    onRun_completes (h.coherent n g hn) ((h.fits n g hn).knows r hr) ha ho hnd hd
  refine ⟨⟨n, g, rfl, hn, hid ▸ hcreated⟩, ?_⟩
  cases q with
  | setPolicySnapshot runId policy =>
    obtain rfl | ⟨-, -, -, rfl⟩ := ho
    · exact absurd hd hnd
    · exact absurd hd hnd
  | publish e =>
    have hp : Publishes g e := ha
    obtain rfl : b = none := by
      cases b with
      | none => rfl
      | some actual => exact absurd hd (hnot r' ((hdb.trans (publish_moved hok)) ▸ hr') rfl)
    have hpub : Published e w.state w'.state := hdb ▸ publish_ok hok
    have hrun : r'.id = e.runId := hid.symm.trans (Option.some.inj (hcreated.symm.trans hp.created))
    obtain ⟨hprId, hhead, howner, hpolicy⟩ :=
      ended_run hp.toConcludes hst.continues hst.fits hr' hrun
    refine ⟨fun p hpo => hpub.alive p (howner ▸ hpo), ?_, hpolicy, fun pr hpr hprid => ?_,
      fun v hv hvrun => ?_⟩
    · rw [hprId, hhead]
      exact hpub.head
    · rw [hhead]
      exact hpub.reviewed pr hpr (hprid.trans hprId)
    · refine hst.fits.reported rfl v hv ?_
      rw [hvrun, hrun]
      exact hp.created
  | _ => cases hq

/-! ## What stays -/

/-- No execution changes a run that is done, and what happens elsewhere changes its contexts only,
if it does not delete it. -/
def KeepsDone (w : World) (e : Pool.Event Unit) (w' : World) : Prop :=
  ∀ r ∈ w.state.reviewRuns, r.status = .done →
    ((∀ a, e ≠ .outside a) → r ∈ w'.state.reviewRuns) ∧
    ∀ r' ∈ w'.state.reviewRuns, r'.id = r.id →
      { r' with
        contextText := r.contextText
        contextChunks := r.contextChunks } = r

/-- **What is done** is done. -/
theorem done_kept : reviews.StepInvariant Sys.anyStep KeepsDone := by
  apply reviews_steps
  · intro w n w' h r hr hd
    rw [h]
    refine ⟨fun _ => hr, fun r' hr' hid => ?_⟩
    rw [Table.eq_of_id hr' hr hid]
  · intro w a w' _ he r hr hd
    refine ⟨fun ha => absurd rfl (ha a), fun r' hr' hid => ?_⟩
    obtain ⟨r₀, hr₀, hid₀, ho⟩ := he.runs.rows r' hr'
    obtain rfl := Table.eq_of_id hr₀ hr (hid₀.trans hid)
    obtain ⟨hs, herror, hfinished⟩ | ⟨hs, -⟩ := ho.closed
    · have hsame := ho.same
      rw [← hs, ← herror, ← hfinished] at hsame
      exact hsame
    · rw [hs] at hd
      cases hd
  intro w n g β o a w' h hn ha hex hst r hr hd
  have hmem : r ∈ w'.state.reviewRuns := by
    obtain hdb | ⟨q, rfl⟩ := exec_cases hex
    · exact hdb ▸ hr
    · exact (exec_touches hex).runs.mem_of hr fun r' ho =>
        onRun_done (h.coherent n g hn) ((h.fits n g hn).knows r hr) ha ho hd
  refine ⟨fun _ => hmem, fun r' hr' hid => ?_⟩
  rw [Table.eq_of_id hr' hmem hid]

/-- What belongs together: only runs that are done have findings, none of whose results is running,
and a run has one result of a vendor at most. -/
structure Consistent (db : Db) : Prop where
  findings : ∀ f ∈ db.findings, ∀ r ∈ db.reviewRuns, r.id = f.runId → r.status = .done
  results : ∀ v ∈ db.vendorResults, ∀ r ∈ db.reviewRuns, r.id = v.runId → r.status = .done →
    v.status ≠ .running
  policies : ∀ r ∈ db.reviewRuns, r.status = .done → r.policy.isSome = true
  vendors : ∀ v ∈ db.vendorResults, ∀ v' ∈ db.vendorResults, v'.runId = v.runId →
    v'.vendor = v.vendor → v' = v

theorem Inv.consistent (h : Inv db hs) : Consistent db where
  findings f hf r hr hid := by
    obtain ⟨n, g, hn, hc, hp⟩ := h.findings f hf
    exact ((h.fits n g hn).knows r hr (hid ▸ hc)).done.mpr hp
  results v hv r hr hid hd := by
    obtain ⟨n, g, hn, hc⟩ := h.creator r hr
    have hk := (h.fits n g hn).knows r hr hc
    exact (h.fits n g hn).reported (hk.done.mp hd) v hv (hid ▸ hc)
  policies r hr hd := by
    obtain ⟨n, g, hn, hfinder⟩ := h.finder hr hd
    obtain ⟨policy, -, hr⟩ := hfinder.policy
    exact Option.isSome_of_eq_some hr
  vendors v hv v' hv' hrun hvendor := by
    obtain ⟨m, k, hm, hc, hrow⟩ := h.results v hv
    obtain ⟨n, g, hn, hc', hrow'⟩ := h.results v' hv'
    obtain rfl := h.unique m n k g v.runId hm hn hc (hrun ▸ hc')
    obtain rfl := Option.some.inj (hm.symm.trans hn)
    have hpair := List.inj_on_of_nodup_map (h.coherent m k hm).rows hrow' hrow hvendor
    exact Table.eq_of_id hv' hv (congrArg Prod.snd hpair)

/-- **The reviews are consistent** in every state of every run. -/
theorem reviews_consistent : reviews.Always Sys.anyStep fun w => Consistent w.state :=
  reviews_inductive.always fun hs => hs.holds.consistent

/-! ## What an execution may change -/

/-- The runs of which an execution may change rows: its own one, the one that it retries, and the
running ones of its job. -/
def Execution.Reaches (g : Execution) (db : Db) (runId : Nat) : Prop :=
  g.created = some runId ∨
  (g.created = none ∧ ∃ r, g.told.target = some r ∧ r.id = runId ∧ r.status = .done) ∨
  ∃ r ∈ db.reviewRuns, r.id = runId ∧ r.status = .running ∧
    ∃ job, g.job = some job ∧ r.ownerJobId = some job.id

/-- Every other row is as it was, nothing is deleted, and what is new is a run of an execution that
had none, or a row of a run that it may change. -/
structure Confined (g : Execution) (db db' : Db) : Prop where
  runs : ∀ r ∈ db.reviewRuns, r ∈ db'.reviewRuns ∨
    g.Reaches db r.id ∧ ∃ r' ∈ db'.reviewRuns, r'.id = r.id
  results : ∀ v ∈ db.vendorResults, v ∈ db'.vendorResults ∨
    g.Reaches db v.runId ∧ ∃ v' ∈ db'.vendorResults, v'.id = v.id ∧ v'.runId = v.runId
  findings : ∀ f ∈ db.findings, f ∈ db'.findings ∨
    g.Reaches db f.runId ∧ ∃ f' ∈ db'.findings, f'.id = f.id ∧ f'.runId = f.runId
  newRuns : ∀ r' ∈ db'.reviewRuns, (∀ r ∈ db.reviewRuns, r.id ≠ r'.id) → g.created = none
  newResults : ∀ v' ∈ db'.vendorResults, (∀ v ∈ db.vendorResults, v.id ≠ v'.id) →
    g.created = some v'.runId
  newFindings : ∀ f' ∈ db'.findings, (∀ f ∈ db.findings, f.id ≠ f'.id) → g.Reaches db f'.runId

theorem Confined.refl (g : Execution) (db : Db) : Confined g db db where
  runs _ hr := .inl hr
  results _ hv := .inl hv
  findings _ hf := .inl hf
  newRuns r hr h := absurd rfl (h r hr)
  newResults v hv h := absurd rfl (h v hv)
  newFindings f hf h := absurd rfl (h f hf)

/-- The results at the end of a run are its own. -/
theorem concludes_reaches {e : Ending} {v : VendorResult} (hf : Fits db g) (hc : Concludes g e)
    (hv : v ∈ db.vendorResults) (hmem : v.id ∈ e.rows.map VendorRow.vrId) :
    g.Reaches db v.runId := by
  obtain ⟨row, hrow, hid⟩ := List.mem_map.mp hmem
  have hrows : (row.vendor, row.vrId) ∈ g.rows := hc.rows ▸ List.mem_map_of_mem hrow
  exact .inl ((hf.rows _ hrows).2 v hv hid.symm).1

/-- The results at the end of a retry are those of the run that it retries. -/
theorem retries_reaches {b : Rebuilt} {e : RetryEnding} (hr : Retries g b e) :
    g.Reaches db e.runId :=
  .inr (.inl ⟨hr.created, b.run, hr.of.target, hr.runId.symm, hr.of.done⟩)

theorem onRun_reaches {q : Write β} {r r' : ReviewRun} (ha : g.AllowsWrite q)
    (hr : r ∈ db.reviewRuns) (h : q.OnRun r r') : r' = r ∨ g.Reaches db r.id := by
  refine h.imp_right fun h => ?_
  cases q with
  | setBaseSha runId sha => exact .inl (h.1 ▸ (show Prepares g runId from ha).created)
  | finishRun runId status error =>
    exact .inl (h.1 ▸ (show MayFinish g runId status from ha).created)
  | setContext runId text => exact .inl (h.1 ▸ (show Prepares g runId from ha).created)
  | setContextChunks runId chunks => exact .inl (h.1 ▸ (show Prepares g runId from ha).created)
  | setPolicySnapshot runId policy =>
    exact .inl (h.1 ▸ (show Prepares g runId ∧ _ from ha).1.created)
  | storeFailed e => exact .inl (h.1 ▸ (show Concludes g e from ha).created)
  | publish e => exact .inl (h.1 ▸ (show Publishes g e from ha).created)
  | cancelStale e => exact .inl (h.1 ▸ (show Concludes g e from ha).created)
  | failJobRuns jobId error =>
    obtain ⟨job, hj, rfl⟩ : ∃ job, g.job = some job ∧ job.id = jobId := ha
    exact .inr (.inr ⟨r, hr, rfl, h.2.1, job, hj, h.1⟩)
  | _ => exact h.elim

theorem onResult_reaches {q : Write β} {v v' : VendorResult} (hf : Fits db g)
    (hheard : Heard db g.told) (ha : g.AllowsWrite q) (hv : v ∈ db.vendorResults)
    (h : q.OnResult db.reviewRuns v v') : v' = v ∨ g.Reaches db v.runId := by
  refine h.imp_right fun h => ?_
  cases q with
  | storeFailed e => exact concludes_reaches hf ha hv h.1
  | publish e => exact concludes_reaches hf (show Publishes g e from ha).toConcludes hv h.1
  | cancelStale e => exact concludes_reaches hf ha hv h.1
  | retryPublish canonicalClaim e =>
    obtain ⟨b, hr⟩ : ∃ b, Retries g b e := ha
    obtain ⟨row, hrow, hid⟩ := List.mem_map.mp h.1
    have hids : ((b.run.id, row.vendor), row.vrId) ∈ g.told.ids := by
      rw [hr.of.ids]
      exact List.mem_map_of_mem (f := fun row => ((b.run.id, row.vendor), row.vrId))
        (hr.rows ▸ hrow)
    have hrun : v.runId = b.run.id := ((hheard.ids _ hids).2 v hv hid.symm).1
    rw [hrun, ← hr.runId]
    exact retries_reaches hr
  | failJobRuns jobId error =>
    obtain ⟨job, hj, rfl⟩ : ∃ job, g.job = some job ∧ job.id = jobId := ha
    obtain ⟨-, -, r, hr, hrun, hjob, hs⟩ := h
    exact .inr (.inr ⟨r, hr, hrun, hs, job, hj, hjob⟩)
  | _ => exact h.elim

theorem onFinding_reaches {q : Write β} {f f' : Finding} (ha : g.AllowsWrite q)
    (h : q.OnFinding f f') : f' = f ∨ g.Reaches db f.runId := by
  refine h.imp_right fun h => ?_
  cases q with
  | retryPublish canonicalClaim e =>
    obtain ⟨b, hr⟩ : ∃ b, Retries g b e := ha
    exact h.1 ▸ retries_reaches hr
  | _ => exact h.elim

theorem newFinding_reaches {q : Write β} {f : Finding} (ha : g.AllowsWrite q)
    (h : q.NewFinding f) : g.Reaches db f.runId := by
  cases q with
  | publish e =>
    have hrun : f.runId = e.runId := h
    exact hrun ▸ .inl (show Publishes g e from ha).created
  | retryPublish canonicalClaim e =>
    obtain ⟨b, hr⟩ : ∃ b, Retries g b e := ha
    have hrun : f.runId = e.runId := h
    exact hrun ▸ retries_reaches hr
  | _ => exact h.elim

/-- **A transaction changes only what the execution may.** -/
theorem touches_confined {q : Write β} (h : Inv db hs) (hn : hs n = some g) (ha : g.AllowsWrite q)
    (ht : Touches q db db') : Confined g db db' where
  runs r hr := by
    obtain ⟨r', hr', hid, ho⟩ := ht.runs.row hr
    obtain rfl | hreach := onRun_reaches ha hr ho
    · exact .inl hr'
    · exact .inr ⟨hreach, r', hr', hid⟩
  results v hv := by
    obtain ⟨v', hv', hid, ho⟩ := ht.results.row hv
    obtain rfl | hreach := onResult_reaches (h.fits n g hn) (h.heard n g hn) ha hv ho
    · exact .inl hv'
    · exact .inr ⟨hreach, v', hv', hid, (onResult_same ho).1⟩
  findings f hf := by
    obtain ⟨f', hf', hid, ho⟩ := ht.findings.row hf
    obtain rfl | hreach : f' = f ∨ g.Reaches db f.runId := onFinding_reaches ha ho
    · exact .inl hf'
    · exact .inr ⟨hreach, f', hf', hid, onFinding_runId ho⟩
  newRuns r' hr' hnew := by
    obtain ⟨-, hn⟩ | ⟨r, hr, hid, -⟩ := ht.runs.rows r' hr'
    · cases q with
      | createRun run => exact (show MayCreate g run from ha).created
      | _ => exact hn.elim
    · exact absurd hid (hnew r hr)
  newResults v' hv' hnew := by
    obtain ⟨-, hn⟩ | ⟨v, hv, hid, -⟩ := ht.results.rows v' hv'
    · exact (newResult_owns ha hn).created
    · exact absurd hid (hnew v hv)
  newFindings f' hf' hnew := by
    obtain ⟨-, hn⟩ | ⟨f, hf, hid, -⟩ := ht.findings.rows f' hf'
    · exact newFinding_reaches ha hn
    · exact absurd hid (hnew f hf)

/-- The step of an execution changes only what it may. -/
def KeepsOthers (w : World) (e : Pool.Event Unit) (w' : World) : Prop :=
  ∀ n g, e = .call n → w.histories n = some g → Confined g w.state w'.state

/-- **Zombies are confined.** Also an execution that has lost its lease, and goes on, changes rows
of its own run, of the run that it retries and of running runs of its job only. -/
theorem rows_confined : reviews.StepInvariant Sys.anyStep KeepsOthers := by
  apply reviews_steps
  · intro w n w' _ m g he
    cases he
  · intro w a w' _ _ m g he
    cases he
  intro w n g β o a w' h hn ha hex hst m k he hk
  cases he
  obtain rfl := Option.some.inj (hn.symm.trans hk)
  obtain hdb | ⟨q, rfl⟩ := exec_cases hex
  · rw [hdb]
    exact .refl g w.state
  · exact touches_confined h hn ha (exec_touches hex)

/-! ## The end of a job -/

/-- An execution of a process that has ended its job, and has neither lost its lease nor met an
error of the database, has left no running run. -/
def LeavesNoneRunning (w : World) : Prop :=
  ∀ n g, w.histories n = some g → g.owner.isSome = true → g.released = true → g.lost = false →
    g.dbFailed = false → ∀ r ∈ w.state.reviewRuns, g.created = some r.id → r.status ≠ .running

/-- **A job that ends** leaves no running run. -/
theorem released_settled : reviews.Always Sys.anyStep LeavesNoneRunning := by
  refine reviews_inductive.always fun {w} hs n g hn howner hreleased hlost hfailed r hr hc => ?_
  have h := hs.holds
  have hk := (h.fits n g hn).knows r hr hc
  obtain hid | hend | hcl | hl | hf := (h.coherent n g hn).released hreleased
  · have hpos := ((h.fits n g hn).created r.id hc).1
    rw [hc] at hid
    exact absurd hid (Nat.ne_of_gt hpos)
  · exact hk.ended hend
  · exact hk.cleared hcl howner
  · rw [hlost] at hl
    cases hl
  · rw [hfailed] at hf
    cases hf

/-! ## What is reviewed -/

/-- The next operation of an execution. -/
def World.Next (w : World) (n : Nat) (g : Execution) {β : Type} (o : Op β) : Prop :=
  ∃ next, w.threads n = some (g, .call o next)

/-- An execution issues what its contract allows. -/
theorem next_allowed {w : World} (hs : Pool.Sound contract (fun _ _ => True) Inv w) {o : Op β}
    (h : w.Next n g o) : w.histories n = some g ∧ g.Allows o := by
  obtain ⟨next, hn⟩ := h
  exact ⟨Pool.histories_eq_some hn, (hs.obeys n g _ hn).1⟩

/-- A run whose policy is recorded, and the row of a vendor in it. -/
structure Ready (db : Db) (g : Execution) (vendor : Text) : Prop where
  run : ∃ runId policy, g.created = some runId ∧ g.policy = some policy ∧
    ∀ r ∈ db.reviewRuns, r.id = runId → r.policy = some (policySnapshotRecord policy)
  row : ∃ vrId, vrId < db.vendorResults.nextId ∧
    ∀ v ∈ db.vendorResults, v.id = vrId → g.created = some v.runId ∧ v.vendor = vendor

theorem Inv.ready {vendor : Text} (h : Inv db hs) (hn : hs n = some g)
    (hpolicy : g.policy.isSome = true) (hrow : vendor ∈ g.rows.map Prod.fst) :
    Ready db g vendor where
  run := by
    obtain ⟨policy, hp⟩ := Option.isSome_iff_exists.mp hpolicy
    obtain ⟨runId, hc⟩ := Option.isSome_iff_exists.mp ((h.coherent n g hn).policy hpolicy)
    refine ⟨runId, policy, hc, hp, fun r hr hid => ?_⟩
    have hk := (h.fits n g hn).knows r hr (hid ▸ hc)
    rw [hk.policy, hp]
    rfl
  row := by
    obtain ⟨p, hp, rfl⟩ := List.mem_map.mp hrow
    exact ⟨p.2, (h.fits n g hn).rows p hp⟩

/-- The chunks that a vendor gets in a retry are those of its own envelope. -/
theorem Rebuilt.Matches.envelope {b : Rebuilt} {t : Told} {chunks : List (List PromptChunk)}
    {p : VendorRow × List PromptChunk} (hm : b.Matches t chunks) (ho : b.Of t)
    (hp : p ∈ b.active chunks) :
    ∃ envelope, ((b.run.id, p.1.vendor), envelope) ∈ t.envelopes ∧
      requireRetryIdentity envelope p.1.identity = .ok () ∧
      retryPromptChunks envelope b.prompts = .ok p.2 := by
  obtain ⟨i, hi, rfl⟩ := List.mem_iff_getElem.mp (List.mem_of_mem_filter hp)
  obtain ⟨hrow, hchunk⟩ : i < b.rows.length ∧ i < chunks.length := by
    simpa [List.length_zip] using hi
  have henv : i < t.envelopes.length := hm.identities.length_eq ▸ hrow
  have had : i < b.adapters.length := ho.identified.length_eq ▸ hrow
  have hvendor : b.rows[i].vendor = b.adapters[i].vendor :=
    ((List.forall₂_iff_get.mp ho.identified).2 i had hrow).vendor
  have hkey : t.envelopes[i].1 = (b.run.id, b.adapters[i].vendor) := by
    have := List.getElem_of_eq ho.envelopes (i := i) (by simpa using henv)
    simpa using this
  refine ⟨t.envelopes[i].2, ?_, ?_, ?_⟩
  · rw [List.getElem_zip]
    have hmem : t.envelopes[i] ∈ t.envelopes := List.getElem_mem henv
    have hpair : ((b.run.id, b.rows[i].vendor), t.envelopes[i].2) = t.envelopes[i] := by
      rw [hvendor, ← hkey]
    exact hpair ▸ hmem
  · rw [List.getElem_zip]
    exact (List.forall₂_iff_get.mp hm.identities).2 i henv hrow
  · rw [List.getElem_zip]
    exact (List.forall₂_iff_get.mp hm.chunks).2 i henv hchunk

/-- Diffs are compared at the head of the pull request that was read, which is the head of the run
of the execution, and no diff is fetched that is not pinned to a head. -/
def PinsDiffs (w : World) : Prop :=
  (∀ n g fullName base head, w.Next n g (.ext (.compareDiff fullName base head)) →
    ∃ pr, g.pr = some pr ∧ head = pr.headSha ∧
      ∀ r ∈ w.state.reviewRuns, g.created = some r.id → r.prId = pr.id ∧ r.headSha = head) ∧
  ∀ n g fullName number, ¬w.Next n g (.ext (.ghDiff fullName number))

/-- **Diffs are pinned** to the head of their run. -/
theorem diffs_pinned : reviews.Always Sys.anyStep PinsDiffs := by
  refine reviews_inductive.always fun {w} hs => ⟨fun n g fullName base head hnext => ?_, ?_⟩
  · obtain ⟨hn, ha⟩ := next_allowed hs hnext
    obtain ⟨pr, hpr, rfl⟩ : ∃ pr, g.pr = some pr ∧ head = pr.headSha := ha
    refine ⟨pr, hpr, rfl, fun r hr hc => ?_⟩
    obtain ⟨pr', hpr', hprId, hhead⟩ := ((hs.holds.fits n g hn).knows r hr hc).pr
    obtain rfl := Option.some.inj (hpr.symm.trans hpr')
    exact ⟨hprId, hhead⟩
  · intro n g fullName number hnext
    exact (next_allowed hs hnext).2

/-! ## Policies -/

/-- A step changes of a run what its execution computes, and its end; a policy is recorded once. -/
def PinsRuns (w : World) (_ : Pool.Event Unit) (w' : World) : Prop :=
  ∀ r ∈ w.state.reviewRuns, ∀ r' ∈ w'.state.reviewRuns, r'.id = r.id →
    r' = { r with
      baseSha := r'.baseSha
      status := r'.status
      error := r'.error
      finishedAt := r'.finishedAt
      contextText := r'.contextText
      contextChunks := r'.contextChunks
      policy := r'.policy } ∧
    ∀ policy, r.policy = some policy → r'.policy = some policy

theorem onRun_pinned {q : Write β} {r r' : ReviewRun} (h : q.OnRun r r') :
    r' = { r with
      baseSha := r'.baseSha
      status := r'.status
      error := r'.error
      finishedAt := r'.finishedAt
      contextText := r'.contextText
      contextChunks := r'.contextChunks
      policy := r'.policy } ∧
    ∀ policy, r.policy = some policy → r'.policy = some policy := by
  obtain rfl | h := h
  · exact ⟨rfl, fun _ hp => hp⟩
  cases q with
  | setBaseSha runId sha =>
    obtain ⟨-, rfl⟩ := h
    exact ⟨rfl, fun _ hp => hp⟩
  | finishRun runId status error =>
    obtain ⟨-, now, rfl⟩ := h
    exact ⟨rfl, fun _ hp => hp⟩
  | setContext runId text =>
    obtain ⟨-, rfl⟩ := h
    exact ⟨rfl, fun _ hp => hp⟩
  | setContextChunks runId chunks =>
    obtain ⟨-, rfl⟩ := h
    exact ⟨rfl, fun _ hp => hp⟩
  | setPolicySnapshot runId policy =>
    obtain ⟨-, -, hnone, rfl⟩ := h
    refine ⟨rfl, fun p hp => ?_⟩
    rw [hnone] at hp
    cases hp
  | storeFailed e =>
    obtain ⟨-, now, rfl⟩ := h
    exact ⟨rfl, fun _ hp => hp⟩
  | publish e =>
    obtain ⟨-, now, rfl⟩ := h
    exact ⟨rfl, fun _ hp => hp⟩
  | cancelStale e =>
    obtain ⟨-, now, rfl⟩ := h
    exact ⟨rfl, fun _ hp => hp⟩
  | failJobRuns jobId error =>
    obtain ⟨-, -, now, rfl⟩ := h
    exact ⟨rfl, fun _ hp => hp⟩
  | _ => exact h.elim

/-- **What identifies a run** never changes, and its policy is recorded once. -/
theorem run_pinned : reviews.StepInvariant Sys.anyStep PinsRuns := by
  apply reviews_steps
  · intro w n w' h r hr r' hr' hid
    obtain rfl := Table.eq_of_id (h ▸ hr') hr hid
    exact ⟨rfl, fun _ hp => hp⟩
  · intro w a w' _ he r hr r' hr' hid
    obtain ⟨r₀, hr₀, hid₀, ho⟩ := he.runs.rows r' hr'
    obtain rfl := Table.eq_of_id hr₀ hr (hid₀.trans hid)
    have hal := ho.alike
    refine ⟨?_, fun policy hp => hal.policy.trans hp⟩
    have hsame := ho.same
    cases r₀
    cases r'
    simp only [ReviewRun.mk.injEq] at hsame ⊢
    grind
  intro w n g β o a w' h hn ha hex hst r hr r' hr' hid
  obtain hdb | ⟨q, rfl⟩ := exec_cases hex
  · obtain rfl := Table.eq_of_id (hdb ▸ hr') hr hid
    exact ⟨rfl, fun _ hp => hp⟩
  · have hid : Row.id r' = Row.id r := hid
    obtain ⟨r₀, hr₀, hid₀, ho⟩ := (exec_touches hex).runs.old hr' (hid ▸ Table.lt_nextId hr)
    obtain rfl := Table.eq_of_id hr₀ hr (hid₀.trans hid)
    exact onRun_pinned ho

/-- A retry stores of a vendor the outcomes of exactly the chunks that the last attempt in its
envelope had left unresolved, as the envelope was told for the run that is retried. -/
def StoresUnresolved (w : World) : Prop :=
  ∀ n g canonicalClaim e, w.Next n g (.write (.retryPublish canonicalClaim e)) → ∀ r ∈ e.results,
    ∃ run envelope attempt, g.told.target = some run ∧ e.runId = run.id ∧
      ((run.id, r.vendor), some envelope) ∈ g.told.envelopes ∧
      latestReview envelope = some attempt ∧ r.chunks ≠ [] ∧
      r.chunks.map ExecutionChunk.index = unresolvedOf attempt.chunks ∧
      r.status = runStatus r.chunks

/-- **A retry stores** what was unresolved, and nothing else. -/
theorem retry_stores : reviews.Always Sys.anyStep StoresUnresolved := by
  refine reviews_inductive.always fun {w} hs n g canonicalClaim e hnext r hr => ?_
  obtain ⟨hn, ha⟩ := next_allowed hs hnext
  obtain ⟨b, hretry⟩ : ∃ b, Retries g b e := ha
  obtain ⟨chunks, hm, hall⟩ := hretry.ran
  obtain ⟨p, hp, hran⟩ := forall₂_mem_right hall r hr
  obtain ⟨envelope, hmem, -, hchunks⟩ := hm.envelope hretry.of hp
  cases envelope with
  | none => cases hchunks
  | some envelope =>
    cases hlatest : latestReview envelope with
    | none =>
      unfold retryPromptChunks at hchunks
      rw [Option.bind_some, hlatest] at hchunks
      cases hchunks
    | some attempt =>
      have hindex := (records_index hran.chunks).trans (retryPromptChunks_index hlatest hchunks)
      refine ⟨b.run, envelope, attempt, hretry.of.target, hretry.runId, ?_, hlatest, ?_, hindex,
        hran.status⟩
      · rw [hran.vendor]
        exact hmem
      · rintro hnil
        have hempty : p.2 = [] := by
          have hlength := hran.chunks.length_eq
          rw [hnil] at hlength
          exact List.length_eq_zero_iff.mp hlength
        have hactive := (List.mem_filter.mp hp).2
        simp [hempty] at hactive

end Pipeline
