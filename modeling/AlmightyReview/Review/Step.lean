import AlmightyReview.Review.Invariant

/-!
# Every step keeps the invariant

* `moves_touches`, `onRun_alike`, `others_touches`: a transaction leaves the rows of the other
  executions alone, as far as they know them.
* `steps_same`: a step that stores nothing of a review. `steps_write`: a transaction.
* `write_steps`: each transaction, from what it stores when it returns.
* `inv_holds`: the invariant holds in every run of the server.
-/

namespace Pipeline

open FindingPolicy (policySnapshotRecord)

variable {β : Type} {g g' : Execution} {db db' : Db} {hs : Nat → Option Execution} {n : Nat}
  {q : Write β}

/-! ## Transactions and the other executions -/

theorem onRun_prId {r r' : ReviewRun} (h : q.OnRun r r') : r'.prId = r.prId := by
  obtain rfl | h := h
  · rfl
  cases q with
  | setBaseSha runId sha => rw [h.2]
  | finishRun runId status error =>
    obtain ⟨-, now, rfl⟩ := h
    rfl
  | setContext runId text => rw [h.2]
  | setContextChunks runId chunks => rw [h.2]
  | setPolicySnapshot runId policy => rw [h.2.2.2]
  | storeFailed e =>
    obtain ⟨-, now, rfl⟩ := h
    rfl
  | publish e =>
    obtain ⟨-, now, rfl⟩ := h
    rfl
  | cancelStale e =>
    obtain ⟨-, now, rfl⟩ := h
    rfl
  | failJobRuns jobId error =>
    obtain ⟨-, -, now, rfl⟩ := h
    rfl
  | _ => exact h.elim

theorem onResult_same {runs : Table ReviewRun} {v v' : VendorResult} (h : q.OnResult runs v v') :
    v'.runId = v.runId ∧ v'.vendor = v.vendor ∧
      (v'.status = v.status ∨ v'.status ≠ .running) := by
  have of : Finished v v' → v'.runId = v.runId ∧ v'.vendor = v.vendor ∧
      (v'.status = v.status ∨ v'.status ≠ .running) := fun h => ⟨h.runId, h.vendor, .inr h.status⟩
  obtain rfl | h := h
  · exact ⟨rfl, rfl, .inl rfl⟩
  cases q with
  | storeFailed e => exact of h.2
  | publish e => exact of h.2
  | cancelStale e => exact of h.2
  | retryPublish canonicalClaim e => exact of h.2
  | failJobRuns jobId error => exact of h.2.1
  | _ => exact h.elim

theorem moves_touches (h : Touches q db db') : Moves db db' where
  runId := h.runs.nextId
  resultId := h.results.nextId
  runs r' hr' hlt := by
    obtain ⟨r, hr, hid, ho⟩ := h.runs.old hr' hlt
    exact ⟨r, hr, hid, onRun_prId ho⟩
  results v' hv' hlt := by
    obtain ⟨v, hv, hid, ho⟩ := h.results.old hv' hlt
    exact ⟨v, hv, hid, onResult_same ho⟩

theorem Closed.alike {status : RunStatus} {error : Option Text} {r r' : ReviewRun}
    (h : Closed status error r r') (hs : status = .failed ∨ status = .canceled)
    (hd : r.status ≠ .done) : Alike r r' := by
  obtain ⟨now, rfl⟩ := h
  refine ⟨rfl, rfl, rfl, rfl, rfl, .inr ?_⟩
  obtain rfl | rfl := hs
  · exact ⟨by simp, by simp, hd⟩
  · exact ⟨by simp, by simp, hd⟩

/-- **A run that is done** stays as it is. -/
theorem onRun_done {r r' : ReviewRun} (hc : Coherent g) (hk : g.created = some r.id → Knows g r)
    (ha : g.AllowsWrite q) (h : q.OnRun r r') (hd : r.status = .done) : r' = r := by
  -- the execution of the run has published it, and the run has ended
  have hpublished : ∀ {runId}, r.id = runId → g.created = some runId → g.published ≠ false := by
    rintro _ rfl hg
    simp [(hk hg).done.mp hd]
  have hended : ∀ {runId}, r.id = runId → g.created = some runId → g.ended ≠ false := by
    rintro _ rfl hg
    simp [(hc.published ((hk hg).done.mp hd)).1]
  obtain h | h := h
  · exact h
  have hprepares : ∀ {runId}, r.id = runId → ¬Prepares g runId := fun hid hp =>
    hended hid hp.created hp.ended
  have hconcludes : ∀ {e : Ending}, r.id = e.runId → ¬Concludes g e := fun hid hp =>
    hended hid hp.created hp.ended
  cases q with
  | setBaseSha runId sha => exact absurd ha (hprepares h.1)
  | finishRun runId status error =>
    have hm : MayFinish g runId status := ha
    exact absurd hm.published (hpublished h.1 hm.created)
  | setContext runId text => exact absurd ha (hprepares h.1)
  | setContextChunks runId chunks => exact absurd ha (hprepares h.1)
  | setPolicySnapshot runId policy => exact absurd ha.1 (hprepares h.1)
  | storeFailed e => exact absurd ha (hconcludes h.1)
  | publish e => exact absurd (show Publishes g e from ha).toConcludes (hconcludes h.1)
  | cancelStale e => exact absurd ha (hconcludes h.1)
  | failJobRuns jobId error => simp [hd] at h
  | _ => exact h.elim

/-- The transactions that record the policy of a run, or make it done. -/
def Write.records {β : Type} : Write β → Bool
  | .setPolicySnapshot .. => true
  | .publish _ => true
  | _ => false

/-- Only its execution records the policy of a run, or makes it done. -/
theorem onRun_alike {r r' : ReviewRun} (hc : Coherent g) (hk : g.created = some r.id → Knows g r)
    (ha : g.AllowsWrite q) (h : q.OnRun r r') :
    Alike r r' ∨ q.records = true ∧ g.created = some r.id := by
  by_cases hd : r.status = .done
  · exact .inl (onRun_done hc hk ha h hd ▸ .refl _)
  obtain rfl | h := h
  · exact .inl (.refl _)
  cases q with
  | setBaseSha runId sha =>
    obtain ⟨-, rfl⟩ := h
    exact .inl ⟨rfl, rfl, rfl, rfl, rfl, .inl rfl⟩
  | finishRun runId status error =>
    exact .inl (h.2.alike (show MayFinish g runId status from ha).status hd)
  | setContext runId text =>
    obtain ⟨-, rfl⟩ := h
    exact .inl ⟨rfl, rfl, rfl, rfl, rfl, .inl rfl⟩
  | setContextChunks runId chunks =>
    obtain ⟨-, rfl⟩ := h
    exact .inl ⟨rfl, rfl, rfl, rfl, rfl, .inl rfl⟩
  | setPolicySnapshot runId policy =>
    exact .inr ⟨rfl, h.1 ▸ (show Prepares g runId ∧ _ from ha).1.created⟩
  | storeFailed e => exact .inl (h.2.alike (.inl rfl) hd)
  | publish e => exact .inr ⟨rfl, h.1 ▸ (show Publishes g e from ha).created⟩
  | cancelStale e => exact .inl (h.2.alike (.inr rfl) hd)
  | failJobRuns jobId error => exact .inl (h.2.2.alike (.inl rfl) hd)
  | _ => exact h.elim

/-- Only the execution of a run that has not ended adds results to it. -/
theorem newResult_owns {v : VendorResult} (ha : g.AllowsWrite q) (h : q.NewResult v) :
    Owns g v.runId := by
  cases q with
  | addVendorResult runId vendor =>
    obtain ⟨rfl, -⟩ := h
    exact (show Owns g v.runId ∧ _ from ha).1
  | _ => exact h.elim

/-- **The rows of another execution** are what it knows, after a transaction. -/
theorem others_touches (h : Inv db hs) (hn : hs n = some g) (ha : g.AllowsWrite q)
    (ht : Touches q db db') {m : Nat} {k : Execution} (hm : m ≠ n) (hk : hs m = some k) :
    Fits db' k := by
  have hf := h.fits m k hk
  refine hf.moves (moves_touches ht) (fun r' hr' hc => ?_) fun _ v' hv' hc => ?_
  · obtain ⟨r, hr, hid, ho⟩ := ht.runs.old hr' (hf.created _ hc).2
    have hid : r.id = r'.id := hid
    have hg := onRun_alike (h.coherent n g hn) ((h.fits n g hn).knows r hr) ha ho
    refine ⟨r, hr, hid, hg.resolve_right fun hg => hm ?_⟩
    exact h.unique m n k g r'.id hk hn hc (hid ▸ hg.2)
  · by_contra hge
    obtain ⟨-, hnew⟩ | ⟨v, hv, hid, -⟩ := ht.results.rows v' hv'
    · exact hm (h.unique m n k g v'.runId hk hn hc (newResult_owns ha hnew).created)
    · have hid : v.id = v'.id := hid
      exact hge (hid ▸ Table.lt_nextId hv)

/-! ## Steps -/

theorem Same.moves (h : Same db db') : Moves db db' where
  runId := Nat.le_of_eq (congrArg Table.nextId h.runs.symm)
  resultId := Nat.le_of_eq (congrArg Table.nextId h.results.symm)
  runs r' hr' _ := ⟨r', h.runs ▸ hr', rfl, rfl⟩
  results v' hv' _ := ⟨v', h.results ▸ hv', rfl, rfl, rfl, .inl rfl⟩

theorem Fits.same (h : Fits db g) (hs : Same db db') : Fits db' g :=
  h.moves hs.moves (fun r' hr' _ => ⟨r', hs.runs ▸ hr', rfl, .refl r'⟩)
    fun _ _ hv' _ => Table.lt_nextId (hs.results ▸ hv')

/-- A step that stores nothing of a review. -/
theorem steps_same (h : Inv db hs) (hn : hs n = some g) (hsame : Same db db')
    (hrows : SameRows g g') (hc : Coherent g') (hheard : Heard db g'.told)
    (ht : ∀ r, g'.told.target = some r → g.told.target = some r ∨ r ∈ db.reviewRuns) :
    Steps hs n g g' db db' where
  moves := hsame.moves
  continues := hrows.continues
  coherent := hc
  fits := ((h.fits n g hn).sameRows hrows).same hsame
  others m k _ hk := (h.fits m k hk).same hsame
  heard := hheard.moves hsame.moves
  created _ hid := .inl (hrows.created ▸ hid)
  runs r' hr' := .inl ⟨r', hsame.runs ▸ hr', rfl⟩
  results v' hv' := .inl ⟨v', hsame.results ▸ hv', rfl, rfl, rfl⟩
  findings f' hf' := .inl ⟨f', hsame.findings ▸ hf', rfl⟩
  target := ht

theorem onFinding_runId {f f' : Finding} (h : q.OnFinding f f') : f'.runId = f.runId := by
  obtain rfl | h := h
  · rfl
  cases q with
  | retryPublish canonicalClaim e => exact h.2.trans h.1.symm
  | _ => exact h.elim

theorem afterWrite_told (g : Execution) (q : Write β) (b : β) :
    (g.afterWrite q b).told = g.told := by
  cases q with
  | publish e => cases b <;> rfl
  | _ => rfl

/-- A transaction that returned. -/
theorem steps_write {b : β} (h : Inv db hs) (hn : hs n = some g) (ha : g.AllowsWrite q)
    (ht : Touches q db db') (hfits : Fits db' (g.afterWrite q b))
    (hcreated : ∀ id, (g.afterWrite q b).created = some id →
      g.created = some id ∨ db.reviewRuns.nextId ≤ id)
    (hrun : ∀ r' ∈ db'.reviewRuns, db.reviewRuns.nextId ≤ r'.id → q.NewRun r' →
      (g.afterWrite q b).created = some r'.id)
    (hresult : ∀ v' ∈ db'.vendorResults, db.vendorResults.nextId ≤ v'.id → q.NewResult v' →
      (g.afterWrite q b).created = some v'.runId ∧ (v'.vendor, v'.id) ∈ (g.afterWrite q b).rows)
    (hfinding : ∀ f', q.NewFinding f' → ((g.afterWrite q b).created = some f'.runId ∧
      (g.afterWrite q b).published = true) ∨
        ∃ m k, hs m = some k ∧ k.created = some f'.runId ∧ k.published = true) :
    Steps hs n g (g.afterWrite q b) db db' where
  moves := moves_touches ht
  continues := after_continues (o := .write q) (a := .ok b) ha
  coherent := after_coherent (o := .write q) (a := .ok b) (h.coherent n g hn) ha
  fits := hfits
  others m k hm hk := others_touches h hn ha ht hm hk
  heard := by
    rw [afterWrite_told]
    exact (h.heard n g hn).moves (moves_touches ht)
  created := hcreated
  runs r' hr' := by
    obtain ⟨hle, hnew⟩ | ⟨r, hr, hid, -⟩ := ht.runs.rows r' hr'
    · exact .inr (hrun r' hr' hle hnew)
    · exact .inl ⟨r, hr, hid⟩
  results v' hv' := by
    obtain ⟨hle, hnew⟩ | ⟨v, hv, hid, ho⟩ := ht.results.rows v' hv'
    · exact .inr (hresult v' hv' hle hnew)
    · exact .inl ⟨v, hv, hid, (onResult_same ho).1, (onResult_same ho).2.1⟩
  findings f' hf' := by
    obtain ⟨-, hnew⟩ | ⟨f, hf, -, ho⟩ := ht.findings.rows f' hf'
    · exact .inr (hfinding f' hnew)
    · exact .inl ⟨f, hf, onFinding_runId ho⟩
  target r hr := by
    rw [afterWrite_told] at hr
    exact .inl hr

/-! ## Each transaction -/

/-- The execution's own rows, when the transaction neither records a policy nor publishes. -/
theorem own_alike (h : Inv db hs) (hn : hs n = some g) (ha : g.AllowsWrite q)
    (ht : Touches q db db') (hq : q.records = false) : Fits db' g := by
  have hf := h.fits n g hn
  refine hf.moves (moves_touches ht) (fun r' hr' hc => ?_) fun hp v' hv' _ => ?_
  · obtain ⟨r, hr, hid, ho⟩ := ht.runs.old hr' (hf.created _ hc).2
    have hg := onRun_alike (h.coherent n g hn) (hf.knows r hr) ha ho
    exact ⟨r, hr, hid, hg.resolve_right fun h => by rw [hq] at h; cases h.1⟩
  · obtain ⟨-, hnew⟩ | ⟨v, hv, hid, -⟩ := ht.results.rows v' hv'
    · have he := ((h.coherent n g hn).published hp).1
      rw [(newResult_owns ha hnew).ended] at he
      cases he
    · have hid : v.id = v'.id := hid
      exact hid ▸ Table.lt_nextId hv

/-- A run ends. -/
theorem Fits.end_ (h : Fits db g)
    (hrun : ∀ r ∈ db.reviewRuns, g.created = some r.id → r.status ≠ .running) :
    Fits db { g with ended := true } where
  created := h.created
  knows r hr hc :=
    let hk := h.knows r hr hc
    ⟨hk.pr, hk.owner, hk.job, hk.policy, hk.done, fun _ => hrun r hr hc, hk.cleared⟩
  rows := h.rows
  reported := h.reported

/-- The running runs of a job are closed. -/
theorem Fits.clear (h : Fits db g) {jobId : Nat} (hjob : ∃ job, g.job = some job ∧ job.id = jobId)
    (hrun : ∀ r ∈ db.reviewRuns, r.ownerJobId = some jobId → r.status ≠ .running) :
    Fits db { g with cleared := true } where
  created := h.created
  knows r hr hc := by
    obtain ⟨job, hj, rfl⟩ := hjob
    have hk := h.knows r hr hc
    exact ⟨hk.pr, hk.owner, hk.job, hk.policy, hk.done, hk.ended,
      fun _ ho => hrun r hr (hk.job ho job hj)⟩
  rows := h.rows
  reported := h.reported

/-- The row of a new run is the one that its execution asked for. -/
theorem fits_createRun {run : NewRun} {id : Nat} (h : Inv db hs) (hm : MayCreate g run)
    (ht : Touches (.createRun run) db db') (hid : id = db.reviewRuns.nextId)
    (hnext : db'.reviewRuns.nextId = id + 1) : Fits db' { g with created := some id } where
  created i hi := by
    obtain rfl := Option.some.inj hi
    exact ⟨hid ▸ h.positive, hnext ▸ Nat.lt_succ_self _⟩
  knows r hr hc := by
    have hc : id = r.id := Option.some.inj hc
    obtain ⟨-, repoId, now, hnew⟩ | ⟨r₀, hr₀, hrid, -⟩ := ht.runs.rows r hr
    · rw [hnew]
      refine ⟨hm.pr, hm.owner, fun ho job hj => hm.job job hj ho, ?_,
        ⟨fun hd => ?_, fun hp => ?_⟩, fun he => ?_, fun hc => ?_⟩
      · show none = g.policy.map _
        rw [hm.policy]
        rfl
      · cases hd
      · exact absurd (hm.published.symm.trans hp) (by simp)
      · exact absurd (hm.ended.symm.trans he) (by simp)
      · exact absurd (hm.cleared.symm.trans hc) (by simp)
    · have hlt : r₀.id < db.reviewRuns.nextId := Table.lt_nextId hr₀
      have hrid : r₀.id = r.id := hrid
      omega
  rows p hp := by
    have hp : p ∈ g.rows := hp
    rw [hm.rows] at hp
    cases hp
  reported hp := absurd (hm.published.symm.trans hp) (by simp)

/-- The policy is recorded. -/
theorem fits_setPolicySnapshot {runId : Nat} {policy : FindingPolicy.PolicySnapshot}
    (h : Inv db hs) (hn : hs n = some g) (hp : Prepares g runId)
    (ht : Touches (.setPolicySnapshot runId policy) db db')
    (hrec : ∀ r ∈ db'.reviewRuns, r.id = runId → r.policy = some (policySnapshotRecord policy)) :
    Fits db' { g with policy := some policy } := by
  have hf := h.fits n g hn
  have hm := moves_touches ht
  refine ⟨hf.created_moves hm, fun r' hr' hc => ?_, hf.rows_moves hm, fun hpub => ?_⟩
  · obtain ⟨r, hr, hid, ho⟩ := ht.runs.old hr' (hf.created _ hc).2
    have hid : r.id = r'.id := hid
    have hk := hf.knows r hr (show g.created = some r.id by rw [hid]; exact hc)
    have hpolicy := hrec r' hr' (Option.some.inj (hc.symm.trans hp.created))
    obtain rfl | ⟨-, -, -, rfl⟩ := ho
    · exact ⟨hk.pr, hk.owner, hk.job, hpolicy, hk.done, hk.ended, hk.cleared⟩
    · exact ⟨hk.pr, hk.owner, hk.job, hpolicy, hk.done, hk.ended, hk.cleared⟩
  · have he := ((h.coherent n g hn).published hpub).1
    rw [hp.ended] at he
    cases he

/-- The result of a vendor begins. -/
theorem fits_addVendorResult {runId id : Nat} {vendor : Text} (h : Inv db hs) (hn : hs n = some g)
    (ha : g.AllowsWrite (.addVendorResult runId vendor))
    (ht : Touches (.addVendorResult runId vendor) db db') (hid : id = db.vendorResults.nextId)
    (hnext : db'.vendorResults.nextId = id + 1) :
    Fits db' { g with rows := g.rows ++ [(vendor, id)] } := by
  have hf := own_alike h hn ha ht rfl
  refine ⟨hf.created, fun r hr hc => ?_, fun p hp => ?_, hf.reported⟩
  · have hk := hf.knows r hr hc
    exact ⟨hk.pr, hk.owner, hk.job, hk.policy, hk.done, hk.ended, hk.cleared⟩
  · rcases List.mem_append.mp hp with hp | hp
    · exact hf.rows p hp
    · obtain rfl := List.mem_singleton.mp hp
      refine ⟨hnext ▸ Nat.lt_succ_self _, fun v hv hvid => ?_⟩
      obtain ⟨-, rfl, rfl⟩ | ⟨v₀, hv₀, hvid₀, -⟩ := ht.results.rows v hv
      · exact ⟨ha.1.created, rfl⟩
      · have hlt : v₀.id < db.vendorResults.nextId := Table.lt_nextId hv₀
        have hvid₀ : v₀.id = v.id := hvid₀
        have hvid : v.id = id := hvid
        omega

theorem rowFor_of_nodup {rows : List VendorRow} (hnodup : (rows.map VendorRow.vendor).Nodup)
    {row : VendorRow} (hrow : row ∈ rows) : rowFor rows row.vendor = .ok row := by
  unfold rowFor
  cases hf : rows.find? (·.vendor == row.vendor) with
  | none => exact absurd (List.find?_eq_none.mp hf row hrow) (by simp)
  | some row' =>
    have hv : row'.vendor = row.vendor := by simpa using List.find?_some hf
    rw [List.inj_on_of_nodup_map hnodup (List.mem_of_find?_eq_some hf) hrow hv]
    rfl

/-- The run is published. -/
theorem fits_publish {e : Ending} (h : Inv db hs) (hn : hs n = some g) (hp : Publishes g e)
    (ht : Touches (.publish e) db db') (hpub : Published e db db') :
    Fits db' { g with
      ended := true
      published := true } := by
  have hf := h.fits n g hn
  have hm := moves_touches ht
  refine ⟨hf.created_moves hm, fun r' hr' hc => ?_, hf.rows_moves hm, fun _ v' hv' hc => ?_⟩
  · obtain ⟨r, hr, hid, ho⟩ := ht.runs.old hr' (hf.created _ hc).2
    have hid : r.id = r'.id := hid
    have hk := hf.knows r hr (show g.created = some r.id by rw [hid]; exact hc)
    have hdone : r'.status = .done := by
      refine hpub.run r' hr' (Option.some.inj ?_)
      exact hc.symm.trans hp.created
    have hne : r'.status ≠ .running := by simp [hdone]
    obtain rfl | ⟨-, now, rfl⟩ := ho
    · exact ⟨hk.pr, hk.owner, hk.job, hk.policy, ⟨fun _ => rfl, fun _ => hdone⟩, fun _ => hne,
        fun _ _ => hne⟩
    · exact ⟨hk.pr, hk.owner, hk.job, hk.policy, ⟨fun _ => rfl, fun _ => hdone⟩, fun _ => hne,
        fun _ _ => hne⟩
  · have hc : g.created = some v'.runId := hc
    obtain ⟨-, hnew⟩ | ⟨v, hv, hvid, ho⟩ := ht.results.rows v' hv'
    · exact hnew.elim
    have hvid : v.id = v'.id := hvid
    have hrun : v'.runId = v.runId := (onResult_same ho).1
    obtain ⟨m, k, hk, hkc, hkr⟩ := h.results v hv
    -- the result is one of the rows of this execution
    obtain rfl := h.unique m n k g v.runId hk hn hkc (hrun ▸ hc)
    obtain rfl := Option.some.inj (hn.symm.trans hk)
    rw [← hp.rows] at hkr
    obtain ⟨row, hrow, hpair⟩ := List.mem_map.mp hkr
    obtain ⟨hvendor, hid⟩ := Prod.mk.inj hpair
    have hnodup : (e.rows.map VendorRow.vendor).Nodup := by
      have := (h.coherent m g hn).rows
      rw [← hp.rows, List.map_map] at this
      exact this
    have hresult : row.vendor ∈ e.results.map VendorRunResult.vendor :=
      hp.vendors ▸ List.mem_map_of_mem hrow
    obtain ⟨r, hr, hrv⟩ := List.mem_map.mp hresult
    exact hpub.reported r hr row (hrv ▸ rowFor_of_nodup hnodup hrow) v' hv'
      (hvid.symm.trans hid.symm)

/-- A transaction that adds nothing and after which the execution has the run that it had. -/
theorem steps_write_old {b : β} (h : Inv db hs) (hn : hs n = some g) (ha : g.AllowsWrite q)
    (ht : Touches q db db') (hfits : Fits db' (g.afterWrite q b))
    (hcreated : (g.afterWrite q b).created = g.created) (hrun : ∀ r, ¬q.NewRun r)
    (hresult : ∀ v, ¬q.NewResult v) (hfinding : ∀ f, ¬q.NewFinding f) :
    Steps hs n g (g.afterWrite q b) db db' :=
  steps_write h hn ha ht hfits (fun _ hid => .inl (hcreated ▸ hid))
    (fun r _ _ hn => (hrun r hn).elim)
    (fun v _ _ hn => (hresult v hn).elim) fun f hn => (hfinding f hn).elim

/-- A run that has this status, which is not `running`. -/
theorem HasStatus.closed {runId : Nat} {status : RunStatus} (h : HasStatus runId status db)
    (hs : status ≠ .running) (hc : g.created = some runId) :
    ∀ r ∈ db.reviewRuns, g.created = some r.id → r.status ≠ .running := by
  intro r hr hid
  rw [h r hr (Option.some.inj (hid.symm.trans hc))]
  exact hs

/-- **Each transaction that returns** is a step. -/
theorem write_steps {b : β} (h : Inv db hs) (hn : hs n = some g) (ha : g.AllowsWrite q)
    (hok : (q.program.run db).1 = .ok b) :
    Steps hs n g (g.afterWrite q b) db (q.program.run db).2 := by
  have ht : Touches q db (q.program.run db).2 :=
    Sql.preserves_run (write_touches q db) (Touches.refl q db)
  have hown := own_alike h hn ha ht
  cases q with
  | createRun run =>
    obtain ⟨hid, hnext⟩ := createRun_ok hok
    refine steps_write h hn ha ht (fits_createRun h ha ht hid hnext) (fun id hi => ?_)
      (fun r hr hle _ => ?_) (fun _ _ _ hn => hn.elim) fun _ hn => hn.elim
    · exact .inr (Nat.le_of_eq (hid.symm.trans (Option.some.inj hi)))
    · have hlt : r.id < _ := Table.lt_nextId hr
      rw [hnext] at hlt
      have hrid : r.id = b := by omega
      rw [hrid]
      rfl
  | setPolicySnapshot runId policy =>
    exact steps_write_old h hn ha ht
      (fits_setPolicySnapshot h hn ha.1 ht (setPolicySnapshot_ok hok)) rfl (fun _ hn => hn)
      (fun _ hn => hn) fun _ hn => hn
  | addVendorResult runId vendor =>
    obtain ⟨hid, hnext⟩ := addVendorResult_ok hok
    refine steps_write h hn ha ht (fits_addVendorResult h hn ha ht hid hnext) (fun _ hi => .inl hi)
      (fun _ _ _ hn => hn.elim) (fun v hv hle hnew => ?_) fun _ hn => hn.elim
    have hlt : v.id < _ := Table.lt_nextId hv
    rw [hnext] at hlt
    have hvid : v.id = b := by omega
    obtain ⟨rfl, rfl⟩ := hnew
    exact ⟨ha.1.created, List.mem_append_right _ (hvid ▸ List.mem_singleton_self _)⟩
  | finishRun runId status error =>
    have hm : MayFinish g runId status := ha
    have hne : status ≠ .running := by
      obtain hs | hs := hm.status
      all_goals simp [hs]
    exact steps_write_old h hn ha ht
      ((hown rfl).end_ ((finishRun_ok runId status error db).closed hne hm.created)) rfl
      (fun _ hn => hn) (fun _ hn => hn) fun _ hn => hn
  | storeFailed e =>
    have hc : Concludes g e := ha
    exact steps_write_old h hn ha ht
      ((hown rfl).end_ ((storeFailed_ok hok).closed (by simp) hc.created)) rfl
      (fun _ hn => hn) (fun _ hn => hn) fun _ hn => hn
  | cancelStale e =>
    have hc : Concludes g e := ha
    exact steps_write_old h hn ha ht
      ((hown rfl).end_ ((cancelStale_ok hok).closed (by simp) hc.created)) rfl
      (fun _ hn => hn) (fun _ hn => hn) fun _ hn => hn
  | publish e =>
    have hp : Publishes g e := ha
    cases b with
    | none =>
      refine steps_write h hn ha ht (fits_publish h hn hp ht (publish_ok hok)) (fun _ hi => .inl hi)
        (fun _ _ _ hn => hn.elim) (fun _ _ _ hn => hn.elim) fun f hf => .inl ⟨?_, rfl⟩
      exact hf ▸ hp.created
    | some actual =>
      have hdb : ((publish e).run db).2 = db := publish_moved hok
      have hsame : Same db ((publish e).run db).2 := by
        rw [hdb]
        exact .refl db
      exact steps_same h hn hsame (SameRun.refl g).toSameRows (h.coherent n g hn) (h.heard n g hn)
        fun _ ht => .inl ht
  | retryPublish canonicalClaim e =>
    have hretry : ∃ b, Retries g b e := ha
    obtain ⟨r, hr⟩ := hretry
    have hend := (hown rfl).end_ fun run _ hc => by
      rw [hr.created] at hc
      cases hc
    refine steps_write h hn ha ht hend (fun _ hi => .inl hi) (fun _ _ _ hn => hn.elim)
      (fun _ _ _ hn => hn.elim) fun f hf => .inr ?_
    obtain ⟨m, k, hk, hfinder⟩ := h.target n g r.run hn hr.of.target hr.of.done
    refine ⟨m, k, hk, ?_, hfinder.published⟩
    rw [show f.runId = e.runId from hf, hr.runId]
    exact hfinder.created
  | failJobRuns jobId error =>
    exact steps_write_old h hn ha ht ((hown rfl).clear ha (failJobRuns_ok jobId error db)) rfl
      (fun _ hn => hn) (fun _ hn => hn) fun _ hn => hn
  | claimNext workerId owner =>
    exact steps_write_old h hn ha ht ((hown rfl).sameRows (SameRun.claimNext ha.2.1 b).toSameRows)
      rfl (fun _ hn => hn) (fun _ hn => hn) fun _ hn => hn
  | _ =>
    refine steps_write_old h hn ha ht ((hown rfl).sameRows
      ⟨rfl, rfl, fun _ => rfl, fun _ => rfl, rfl, rfl, rfl, rfl, rfl⟩) rfl
      (fun _ hn => hn) (fun _ hn => hn) fun _ hn => hn

/-! ## Every operation -/

theorem mem_latest {p : ReviewRun → Bool} {r : ReviewRun} (h : ReviewRepo.latest p db = some r) :
    r ∈ db.reviewRuns ∧ p r = true := by
  have hmem := List.mem_of_mem_head? (Option.mem_def.mpr h)
  exact List.mem_filter.mp ((List.mem_insertionSort _).mp hmem)

/-- What a query tells holds of the database. -/
theorem heard_read {t : Told} (h : Heard db t) (q : Read β) : Heard db (t.read q (q.query db)) := by
  cases q with
  | latestRunId prId =>
    refine ⟨h.ids, fun id hid => ?_⟩
    obtain ⟨r, hr, rfl⟩ := Option.map_eq_some_iff.mp hid
    obtain ⟨hmem, hp⟩ := mem_latest hr
    refine ⟨Table.lt_nextId hmem, fun r' hr' hid' => ?_⟩
    rw [Table.eq_of_id hr' hmem hid']
    have hpr : r.prId = prId := by simpa using hp
    exact hpr
  | vendorResultId runId vendor =>
    show Heard db (t.read (.vendorResultId runId vendor)
      (ReviewRepo.vendorResultId runId vendor db))
    cases hv : ReviewRepo.vendorResultId runId vendor db with
    | none => exact h
    | some id =>
      obtain ⟨v, hfind, rfl⟩ := Option.map_eq_some_iff.mp hv
      refine ⟨fun p hp => ?_, h.latest⟩
      rcases List.mem_append.mp hp with hp | hp
      · exact h.ids p hp
      · obtain rfl := List.mem_singleton.mp hp
        have hmem := Table.mem_of_find? hfind
        refine ⟨Table.lt_nextId hmem, fun v' hv' hid' => ?_⟩
        rw [Table.eq_of_id hv' hmem hid']
        simpa [ReviewRepo.resultFor] using Table.of_find? hfind
  | _ => exact ⟨h.ids, h.latest⟩

theorem target_read {t : Told} (q : Read β) {r : ReviewRun}
    (h : (t.read q (q.query db)).target = some r) : t.target = some r ∨ r ∈ db.reviewRuns := by
  cases q with
  | getRun runId => exact .inr (Table.get?_eq_some.mp h).1
  | vendorResultId runId vendor =>
    revert h
    show (t.read (.vendorResultId runId vendor)
      (ReviewRepo.vendorResultId runId vendor db)).target = some r → _
    cases ReviewRepo.vendorResultId runId vendor db with
    | none => exact .inl
    | some id => exact .inl
  | _ => exact .inl h

theorem afterRead_told (g : Execution) (q : Read β) (b : β) :
    (g.afterRead q b).told = g.told.read q b := by
  cases q with
  | getPr prId =>
    show (if g.created.isSome then g else { g with pr := b }).told = g.told
    split <;> rfl
  | _ => rfl

theorem ext_told (t : Told) (q : Ext β) (b : β) :
    (t.ext q b).ids = t.ids ∧ (t.ext q b).latest = t.latest ∧ (t.ext q b).target = t.target := by
  cases q with
  | probeVersion vendor =>
    show (t.tellVersion vendor b).ids = t.ids ∧ (t.tellVersion vendor b).latest = t.latest ∧
      (t.tellVersion vendor b).target = t.target
    unfold Told.tellVersion
    split <;> exact ⟨rfl, rfl, rfl⟩
  | _ => exact ⟨rfl, rfl, rfl⟩

/-- **Each operation** is a step. -/
theorem exec_steps {o : Op β} {a : Except Exc β} (h : Inv db hs) (hn : hs n = some g)
    (ha : g.Allows o) (hex : Op.Exec o db a db') : Steps hs n g (g.after o a) db db' := by
  have hcoherent : Coherent (g.after o a) := after_coherent (h.coherent n g hn) ha
  have hheard := h.heard n g hn
  -- an exception, after which nothing of a review is stored
  have herror : ∀ e, a = .error e → Same db db' → Steps hs n g (g.after o a) db db' := by
    rintro e rfl hsame
    have htold : (g.after o (.error e)).told = g.told := by
      cases o with
      | ext q => rfl
      | _ => cases e <;> rfl
    refine steps_same h hn hsame (SameRun.error g o e).toSameRows hcoherent (htold ▸ hheard) ?_
    rw [htold]
    exact fun _ => .inl
  cases o with
  | read q =>
    obtain ⟨rfl, rfl | ⟨m, rfl⟩⟩ := hex
    · refine steps_same h hn (.refl db') (SameRun.read g q _).toSameRows hcoherent ?_ fun r hr => ?_
      · show Heard db' (g.afterRead q (q.query db')).told
        rw [afterRead_told]
        exact heard_read hheard q
      · have hr : (g.afterRead q (q.query db')).told.target = some r := hr
        rw [afterRead_told] at hr
        exact target_read q hr
    · exact herror _ rfl (.refl db')
  | write q =>
    obtain hrun | ⟨rfl, m, rfl⟩ := hex
    · have hanswer : a = (q.program.run db).1 := congrArg Prod.fst hrun
      have hdb : db' = (q.program.run db).2 := congrArg Prod.snd hrun
      cases a with
      | error e => exact herror e rfl (hdb ▸ write_same hanswer.symm)
      | ok b => exact hdb ▸ write_steps h hn ha hanswer.symm
    · exact herror _ rfl (.refl db')
  | ext q =>
    obtain ⟨rfl, -⟩ := hex
    cases a with
    | error e => exact herror e rfl (.refl db')
    | ok b =>
      obtain ⟨hids, hlatest, htarget⟩ := ext_told g.told q b
      refine steps_same h hn (.refl db') (SameRun.told g _).toSameRows hcoherent ⟨?_, ?_⟩
        fun r hr => ?_
      · show ∀ p ∈ (g.told.ext q b).ids, _
        rw [hids]
        exact hheard.ids
      · show ∀ id, (g.told.ext q b).latest.2 = some id → _ ∧ ∀ r ∈ _, _ → _ =
          (g.told.ext q b).latest.1
        rw [hlatest]
        exact hheard.latest
      · exact .inl (htarget ▸ hr)

/-! ## Every run of the server -/

/-- What happens elsewhere leaves what every execution knows. -/
theorem elsewhere_moves (h : Elsewhere db db') : Moves db db' where
  runId := h.runs.nextId
  resultId := h.results.nextId
  runs r' hr' _ := by
    obtain ⟨r, hr, hid, ho⟩ := h.runs.rows r' hr'
    exact ⟨r, hr, hid, ho.alike.prId⟩
  results v' hv' _ := by
    obtain ⟨v, hv, hid, ho⟩ := h.results.rows v' hv'
    refine ⟨v, hv, hid, ho.runId, ho.vendor, ho.status.imp_right fun hf => ?_⟩
    simp [hf.2]

theorem inv_elsewhere (h : Inv db hs) (he : Elsewhere db db') : Inv db' hs where
  positive := Nat.lt_of_lt_of_le h.positive he.runs.nextId
  coherent := h.coherent
  fits m k hk := by
    refine (h.fits m k hk).moves (elsewhere_moves he) (fun r' hr' _ => ?_) fun _ v' hv' _ => ?_
    · obtain ⟨r, hr, hid, ho⟩ := he.runs.rows r' hr'
      exact ⟨r, hr, hid, ho.alike⟩
    · obtain ⟨v, hv, hid, -⟩ := he.results.rows v' hv'
      have hid : v.id = v'.id := hid
      exact hid ▸ Table.lt_nextId hv
  heard m k hk := (h.heard m k hk).moves (elsewhere_moves he)
  unique := h.unique
  creator r' hr' := by
    obtain ⟨r, hr, hid, -⟩ := he.runs.rows r' hr'
    have hid : r.id = r'.id := hid
    exact hid ▸ h.creator r hr
  results v' hv' := by
    obtain ⟨v, hv, hid, ho⟩ := he.results.rows v' hv'
    have hid : v.id = v'.id := hid
    rw [ho.runId, ho.vendor, ← hid]
    exact h.results v hv
  findings f' hf' := by
    obtain ⟨f, hf, -, hrun⟩ := he.findings.rows f' hf'
    exact hrun ▸ h.findings f hf
  target := h.target

/-- An execution that begins knows nothing. -/
theorem inv_start (h : Inv db hs) (hn : hs n = none) (owner : Option ProcessId) :
    Inv db (Function.update hs n (some { owner })) := by
  -- what is known of an execution is known of it still
  have hold : ∀ {P : Execution → Prop}, (∃ m k, hs m = some k ∧ P k) →
      ∃ m k, Function.update hs n (some { owner }) m = some k ∧ P k := by
    rintro P ⟨m, k, hk, hp⟩
    refine ⟨m, k, ?_, hp⟩
    rw [Function.update_of_ne, hk]
    rintro rfl
    rw [hn] at hk
    cases hk
  have hcases : ∀ {m k}, Function.update hs n (some { owner }) m = some k →
      hs m = some k ∨ k = { owner } := by
    intro m k hk
    by_cases hm : m = n
    · subst hm
      rw [Function.update_self] at hk
      exact .inr (Option.some.inj hk).symm
    · rw [Function.update_of_ne hm] at hk
      exact .inl hk
  refine ⟨h.positive, fun m k hk => ?_, fun m k hk => ?_, fun m k hk => ?_,
    fun m₁ m₂ k₁ k₂ id hk₁ hk₂ hc₁ hc₂ => ?_, fun r hr => hold (h.creator r hr),
    fun v hv => hold (h.results v hv), fun f hf => hold (h.findings f hf),
    fun m k r hk ht hd => ?_⟩
  · obtain hk | rfl := hcases hk
    · exact h.coherent m k hk
    · exact ⟨fun hp => (by cases hp), fun hp => (by cases hp), List.nodup_nil,
        fun hr => by cases hr⟩
  · obtain hk | rfl := hcases hk
    · exact h.fits m k hk
    · exact ⟨fun id hc => (by cases hc), fun r _ hc => (by cases hc), fun p hp => (by cases hp),
        fun hp => by cases hp⟩
  · obtain hk | rfl := hcases hk
    · exact h.heard m k hk
    · exact ⟨fun p hp => (by cases hp), fun id hid => by cases hid⟩
  · obtain hk₁ | rfl := hcases hk₁
    · obtain hk₂ | rfl := hcases hk₂
      · exact h.unique m₁ m₂ k₁ k₂ id hk₁ hk₂ hc₁ hc₂
      · cases hc₂
    · cases hc₁
  · obtain hk | rfl := hcases hk
    · exact hold (h.target m k r hk ht hd)
    · cases ht

theorem inv_empty (now : Time) : Inv (Db.empty now) fun _ => none where
  positive := Nat.one_pos
  coherent _ _ h := by cases h
  fits _ _ h := by cases h
  heard _ _ h := by cases h
  unique _ _ _ _ _ h := by cases h
  creator r hr := absurd hr Table.mem_empty
  results v hv := absurd hv Table.mem_empty
  findings f hf := absurd hf Table.mem_empty
  target _ _ _ h := by cases h

/-- **Every step of the server** keeps the invariant. -/
theorem inv_holds : Pool.Holds machine contract Starts (fun db => ∃ now, db = Db.empty now)
    Sys.anyStep Inv where
  init h := by
    obtain ⟨now, rfl⟩ := h
    exact inv_empty now
  start h _ hn hst := by
    obtain ⟨lane, rfl, rfl⟩ := hst
    exact inv_start h (by rw [Pool.histories, hn]; rfl) _
  call h _ hn ha hex := h.step (Pool.histories_eq_some hn)
    (exec_steps h (Pool.histories_eq_some hn) ha hex)
  outside h _ he := inv_elsewhere h he
  possible h := ⟨_, _, h⟩

/-- **Every run of the server** meets the invariant. -/
theorem reviews_inductive :
    reviews.Inductive Sys.anyStep (Pool.Sound contract (fun _ _ => True) Inv) :=
  inv_holds.inductive starts_obeys

end Pipeline
