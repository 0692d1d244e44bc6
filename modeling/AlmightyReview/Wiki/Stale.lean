import AlmightyReview.Job.Process
import AlmightyReview.Lib.Sys
import AlmightyReview.Wiki.Repo

/-!
# Wiki requests that nobody takes

`recoverStaleGenerations` judges from `updated_at` how long a request has been waiting. Every
function that puts a request back sets it, but for `recover_expired` of `process_repo`.

* `QueueState`: the database with its past, the requests that were registered, and those that
  `recover_expired` put back.
* `UnclaimedSince`: from some time on the request was there and not claimed.
* `Comes`: where a waiting request comes from in a step.
* `Dated`: the invariant. A waiting request has been waiting since its `updated_at`, or since
  `recover_expired` put it back.
* `failed_unclaimed`: only requests fail that nobody claimed for the period, when none of them was
  put back by `recover_expired` within it (`PutBackLongAgo`).
* `failed_just_claimed`: without that, a request fails that was being worked on until now.
-/

namespace WikiRepo

open Sql

/-! ## The system -/

/-- The request waits for a worker. -/
def waits (w : WikiPage) : Bool := w.status == .generating && w.lockedAt.isNone

/-- A worker has the request. -/
def isClaimed (w : WikiPage) : Bool := w.status == .generating && w.lockedAt.isSome

structure QueueState where
  db : Db
  /-- The databases before, the newest first. -/
  past : List Db
  /-- The requests that were registered: the repository and the time. -/
  requested : List (Nat × Time)
  /-- The claimed requests that `recover_expired` put back. -/
  putBack : List (Nat × Time)

/-- From time `t` on, in databases from the newest to the oldest, the request was there and nobody
had claimed it. -/
def UnclaimedSince (repoId : Nat) (t : Time) : List Db → Prop
  | [] => False
  | db :: older => (∃ w ∈ db.wikiPages, w.repoId = repoId ∧ waits w = true) ∧
    (db.now ≤ t ∨ UnclaimedSince repoId t older)

/-- The request was registered, and has been waiting without a claim, for the period. -/
def Abandoned (period : Nat) (s : QueueState) (repoId : Nat) : Prop :=
  ∃ t, t + period ≤ s.db.now ∧ UnclaimedSince repoId t (s.db :: s.past) ∧
    ∀ u, (repoId, u) ∈ s.requested → u ≤ t

/-- `GENERATION_STALE_MINUTES` in seconds. -/
def stalePeriod : Nat := generationStaleMinutes * 60

inductive QueueStep where
  /-- Time passes. -/
  | wait (seconds : Nat)
  | markGenerating (repoId : Nat)
  | claimNext (workerId : Text) (ownerProcessId : Option ProcessId) (locked : Bool)
  | scheduleRetry (repoId : Nat) (error : Text) (baseSeconds : Nat)
      (ownerProcessId : Option ProcessId)
  | save (repoId : Nat) (ownerProcessId : Option ProcessId)
  | markFailed (repoId : Nat) (error : Text) (ownerProcessId : Option ProcessId)
  | recoverRunning
  | recoverExpired (legacyStaleMinutes : Nat)
  | recoverStaleGenerations
  /-- The rest of the server works: leases, jobs, repositories that are deleted. -/
  | server

def QueueStep.Run (db : Db) : QueueStep → Db → Prop
  | .wait seconds, db' => db' = { db with now := db.now + seconds }
  | .markGenerating repoId, db' => db' = ((WikiRepo.markGenerating repoId).run db).2
  | .claimNext workerId owner locked, db' =>
    db' = ((WikiRepo.claimNext workerId owner locked).run db).2
  | .scheduleRetry repoId error baseSeconds owner, db' =>
    db' = ((WikiRepo.scheduleRetry repoId error baseSeconds owner).run db).2
  | .save repoId owner, db' => db' = ((WikiRepo.save repoId owner).run db).2
  | .markFailed repoId error owner, db' => db' = ((WikiRepo.markFailed repoId error owner).run db).2
  | .recoverRunning, db' => db' = (WikiRepo.recoverRunning.run db).2
  | .recoverExpired minutes, db' => db' = ((ProcessRepo.recoverExpired minutes).run db).2
  | .recoverStaleGenerations, db' => db' = (WikiRepo.recoverStaleGenerations.run db).2
  | .server, db' => db'.now = db.now ∧ ∀ w ∈ db'.wikiPages, w ∈ db.wikiPages

/-- The requests that the step registers. -/
def QueueStep.requests (db : Db) : QueueStep → List Nat
  | .markGenerating repoId =>
    if ((WikiRepo.markGenerating repoId).run db).1 = .ok true then [repoId] else []
  | _ => []

/-- The claimed requests that `recover_expired` puts back. -/
def QueueStep.putsBack (db db' : Db) : QueueStep → List Nat
  | .recoverExpired _ => (db.wikiPages.rows.filter fun w => isClaimed w &&
      (db'.wikiPages.get? w.repoId).any waits).map (·.repoId)
  | _ => []

def QueueState.moved (s : QueueState) (a : QueueStep) (db' : Db) : QueueState where
  db := db'
  past := s.db :: s.past
  requested := (a.requests s.db).map (·, db'.now) ++ s.requested
  putBack := (a.putsBack s.db db').map (·, db'.now) ++ s.putBack

/-- **The queue of wiki requests**, from an empty table on. -/
def queue : Sys QueueState QueueStep where
  init s := s.db.wikiPages = .empty ∧ s.past = [] ∧ s.requested = [] ∧ s.putBack = []
  step s a s' := ∃ db', a.Run s.db db' ∧ s' = s.moved a db'

/-! ## Where a waiting request comes from -/

/-- A waiting request is as old as its time, waited before the step, or was put back in it. -/
inductive Comes (a : QueueStep) (db db' : Db) (w' : WikiPage) : Prop
  | refreshed : w'.updatedAt = db'.now → Comes a db db' w'
  | kept {w : WikiPage} : w ∈ db.wikiPages → w.repoId = w'.repoId → waits w = true →
    w'.updatedAt = w.updatedAt → w'.repoId ∉ a.requests db → Comes a db db' w'
  | putBack : w'.repoId ∈ a.putsBack db db' → Comes a db db' w'

/-- A waiting request in `db` is new since `db₀`, or comes from one there with its time. -/
def Follows (db₀ db : Db) : Prop :=
  db.now = db₀.now ∧ ∀ w' ∈ db.wikiPages, waits w' = true → w'.updatedAt = db₀.now ∨
    ∃ w ∈ db₀.wikiPages, w.repoId = w'.repoId ∧ waits w = true ∧ w'.updatedAt = w.updatedAt

theorem Follows.refl (db : Db) : Follows db db :=
  ⟨rfl, fun w hw hwait => .inr ⟨w, hw, rfl, hwait, rfl⟩⟩

/-- An update of rows that end the work, take it, or refresh the time. -/
theorem Follows.update {db₀ db : Db} (h : Follows db₀ db) {p : WikiPage → Bool}
    {f : WikiPage → WikiPage} {hf : ∀ w, (f w).repoId = w.repoId}
    (hw : ∀ w, waits (f w) = true → (f w).updatedAt = db.now) :
    Follows db₀ { db with wikiPages := db.wikiPages.update p f hf } := by
  refine ⟨h.1, Table.forall_update h.2 (fun w _ _ hwait => ?_) hf⟩
  exact .inl ((hw w hwait).trans h.1)

theorem follows_written {db₀ db : Db} (h : Follows db₀ db) {new : WikiPage}
    {f : WikiPage → WikiPage} {hf : ∀ w, (f w).repoId = w.repoId} {owner : Option ProcessId}
    (hnew : waits new = false) (hw : ∀ w, waits (f w) = false) :
    Follows db₀ (written new f hf owner db).1 := by
  unfold written
  split
  · refine ⟨h.1, fun w hw hwait => ?_⟩
    rcases Table.mem_put.mp hw with hw | ⟨rfl, -⟩
    · exact h.2 w hw hwait
    · rw [hnew] at hwait
      cases hwait
  split
  · refine h.update fun w hwait => ?_
    rw [hw w] at hwait
    cases hwait
  · exact h

theorem store_follows {db₀ : Db} (repoId : Nat) {status : WikiStatus} (hs : status ≠ .generating)
    (error : Option Text) (owner : Option ProcessId) :
    Preserves (Follows db₀) (store repoId status error owner) := by
  have hended : ∀ now w, waits (ended status error now w) = false := by
    intro now w
    simp [waits, ended, hs]
  refine preserves_bind (preserves_select _) fun _ => preserves_bind (preserves_when fun _ =>
    preserves_throw _) fun _ => preserves_execute fun db h => ?_
  exact follows_written h (hended _ _) (hended _)

theorem scheduleRetry_follows {db₀ : Db} (repoId : Nat) (error : Text) (baseSeconds : Nat)
    (owner : Option ProcessId) :
    Preserves (Follows db₀) (scheduleRetry repoId error baseSeconds owner) := by
  refine preserves_bind (preserves_select _) fun row => ?_
  cases row with
  | none => exact preserves_pure _
  | some row =>
    refine preserves_ite (fun _ => preserves_pure _) fun _ => ?_
    refine preserves_bind (preserves_execute fun db h => h.update fun w _ => rfl) fun _ => ?_
    exact preserves_bind preserves_commit fun _ => preserves_pure _

theorem recoverStaleGenerations_follows {db₀ : Db} :
    Preserves (Follows db₀) recoverStaleGenerations := by
  refine preserves_bind (preserves_execute fun db h => h.update fun w _ => rfl) fun _ => ?_
  exact preserves_bind (preserves_when fun _ => preserves_commit) fun _ => preserves_pure _

theorem recoverRunning_follows {db₀ : Db} : Preserves (Follows db₀) recoverRunning := by
  refine preserves_bind (preserves_execute fun db h => h.update fun w _ => rfl) fun _ => ?_
  exact preserves_bind (preserves_when fun _ => preserves_commit) fun _ => preserves_pure _

theorem claimNext_follows (workerId : Text) (owner : Option ProcessId) (locked : Bool) (db : Db) :
    Follows db ((claimNext workerId owner locked).run db).2 := by
  obtain ⟨p, hp⟩ := run_claimNext workerId owner locked db
  rw [hp]
  refine (Follows.refl db).update fun w hwait => ?_
  simp [waits, claimed] at hwait

/-- `recover_expired` keeps what a request is and its time. -/
def Recovers (db₀ db : Db) : Prop :=
  db.now = db₀.now ∧ ∀ w' ∈ db.wikiPages, ∃ w ∈ db₀.wikiPages, w.repoId = w'.repoId ∧
    (w'.status = w.status) ∧ w'.updatedAt = w.updatedAt

theorem Recovers.update {db₀ db : Db} (h : Recovers db₀ db) {p : WikiPage → Bool}
    {f : WikiPage → WikiPage} {hf : ∀ w, (f w).repoId = w.repoId}
    (hw : ∀ w, p w = true → (f w).status = w.status ∧ (f w).updatedAt = w.updatedAt) :
    Recovers db₀ { db with wikiPages := db.wikiPages.update p f hf } := by
  refine ⟨h.1, Table.forall_update h.2 (fun w hmem hp => ?_) hf⟩
  obtain ⟨w₀, hw₀, hid, hst, hu⟩ := h.2 w hmem
  exact ⟨w₀, hw₀, hid.trans (hf w).symm, (hw w hp).1.trans hst, (hw w hp).2.trans hu⟩

theorem recoverExpired_recovers {db₀ : Db} (minutes : Nat) :
    Preserves (Recovers db₀) (ProcessRepo.recoverExpired minutes) := by
  have hrows : ∀ {ρ : Type} [Row ρ] (T : TableIn Db ρ) (p : Db → ρ → Bool) (f : Db → ρ → ρ)
      (hf : ∀ db r, Row.id (f db r) = Row.id r), (∀ t db, (T.set t db).now = db.now ∧
        (T.set t db).wikiPages = db.wikiPages) →
      Preserves (Recovers db₀) (updateRows T p f hf : Sql Db Exc Nat) := by
    intro ρ _ T p f hf hT
    refine preserves_execute fun db h => ?_
    obtain ⟨hnow, hpages⟩ := hT ((T.get db).update (p db) (f db) (hf db)) db
    exact ⟨hnow.trans h.1, hpages ▸ h.2⟩
  refine preserves_transaction (preserves_bind (hrows _ _ _ _ fun _ _ => ⟨rfl, rfl⟩) fun jobs => ?_)
  refine preserves_bind (preserves_select _) fun runIds => preserves_bind ?_ fun runs => ?_
  · refine preserves_ite (fun _ => ?_) fun _ => preserves_pure _
    exact preserves_bind (hrows _ _ _ _ fun _ _ => ⟨rfl, rfl⟩) fun _ =>
      hrows _ _ _ _ fun _ _ => ⟨rfl, rfl⟩
  · refine preserves_bind (preserves_execute fun db h => ?_) fun wiki => ?_
    · refine h.update fun w hp => ⟨?_, rfl⟩
      simp only [ProcessRepo.wikiExpired, Bool.and_eq_true, beq_iff_eq] at hp
      exact hp.1.symm
    · exact preserves_bind (preserves_execute fun db h => h) fun _ => preserves_pure _

/-- A request that is registered in the step has its time. -/
theorem markGenerating_comes {repoId : Nat} {db : Db} {w' : WikiPage}
    (hw' : w' ∈ ((markGenerating repoId).run db).2.wikiPages) (hwait : waits w' = true) :
    Comes (.markGenerating repoId) db ((markGenerating repoId).run db).2 w' := by
  rcases run_markGenerating repoId db with ⟨e, h⟩ | h
  · rw [h] at hw' ⊢
    exact .kept hw' rfl hwait rfl (by simp [QueueStep.requests, h])
  · have hreq : (QueueStep.markGenerating repoId).requests db =
        if (registered repoId db).2 = 1 then [repoId] else [] := by
      simp [QueueStep.requests, h]
    rw [h] at hw' ⊢
    unfold registered at hw' hreq ⊢
    cases hget : db.wikiPages.get? repoId with
    | none =>
      simp only [hget] at hw' hreq ⊢
      rcases Table.mem_put.mp hw' with hw' | ⟨rfl, -⟩
      · have hne : w'.repoId ≠ repoId := Table.get?_eq_none.mp hget w' hw'
        exact .kept hw' rfl hwait rfl (by simpa [hreq] using hne)
      · exact .refreshed rfl
    | some w =>
      simp only [hget] at hw' hreq ⊢
      by_cases hr : replaceable db.now w = true
      · rw [if_pos hr] at hw' hreq ⊢
        have hren : ∀ w, Row.id (renewed db.now w) = Row.id w := fun _ => rfl
        obtain ⟨w₀, hw₀, rfl⟩ := (@Table.mem_update _ _ _ _ _ _ hren).mp hw'
        by_cases hid : w₀.repoId = repoId
        · refine .refreshed ?_
          simp [hid, renewed]
        · rw [if_neg (by simpa using hid)] at hwait ⊢
          exact .kept hw₀ rfl hwait rfl (by simpa [hreq] using hid)
      · rw [if_neg hr] at hw' hreq ⊢
        exact .kept hw' rfl hwait rfl (by simp [hreq])

theorem recovers_of_run {minutes : Nat} {db db' : Db}
    (h : (QueueStep.recoverExpired minutes).Run db db') : Recovers db db' := by
  rw [h]
  exact preserves_run (recoverExpired_recovers minutes) ⟨rfl, fun w hw => ⟨w, hw, rfl, rfl, rfl⟩⟩

/-- The other steps refresh what they put back, and register nothing. -/
theorem follows_of_run {a : QueueStep} {db db' : Db} (h : a.Run db db')
    (h₁ : ∀ seconds, a ≠ .wait seconds) (h₂ : ∀ repoId, a ≠ .markGenerating repoId)
    (h₃ : ∀ minutes, a ≠ .recoverExpired minutes) : Follows db db' ∧ a.requests db = [] := by
  cases a with
  | wait seconds => exact absurd rfl (h₁ seconds)
  | markGenerating repoId => exact absurd rfl (h₂ repoId)
  | recoverExpired minutes => exact absurd rfl (h₃ minutes)
  | claimNext workerId owner locked =>
    obtain rfl := h
    exact ⟨claimNext_follows workerId owner locked db, rfl⟩
  | scheduleRetry repoId error baseSeconds owner =>
    obtain rfl := h
    exact ⟨preserves_run (scheduleRetry_follows repoId error baseSeconds owner) (.refl db), rfl⟩
  | save repoId owner =>
    obtain rfl := h
    refine ⟨preserves_run ?_ (.refl db), rfl⟩
    exact preserves_bind (store_follows repoId (by simp) _ _) fun _ =>
      preserves_bind (preserves_when fun _ => preserves_throw _) fun _ => preserves_commit
  | markFailed repoId error owner =>
    obtain rfl := h
    refine ⟨preserves_run ?_ (.refl db), rfl⟩
    exact preserves_bind (store_follows repoId (by simp) _ _) fun _ => preserves_commit
  | recoverRunning =>
    obtain rfl := h
    exact ⟨preserves_run recoverRunning_follows (.refl db), rfl⟩
  | recoverStaleGenerations =>
    obtain rfl := h
    exact ⟨preserves_run recoverStaleGenerations_follows (.refl db), rfl⟩
  | server => exact ⟨⟨h.1, fun w hw hwait => .inr ⟨w, h.2 w hw, rfl, hwait, rfl⟩⟩, rfl⟩

/-- **Where a waiting request comes from**, in every step. -/
theorem comes_of_run {a : QueueStep} {db db' : Db} (h : a.Run db db') {w' : WikiPage}
    (hw' : w' ∈ db'.wikiPages) (hwait : waits w' = true) : Comes a db db' w' := by
  have hother : Follows db db' ∧ a.requests db = [] → Comes a db db' w' := by
    rintro ⟨hf, hreq⟩
    rcases hf.2 w' hw' hwait with hu | ⟨w, hw, hid, hwait₀, hu⟩
    · exact .refreshed (hu.trans hf.1.symm)
    · exact .kept hw hid hwait₀ hu (by rw [hreq]; simp)
  cases a with
  | wait seconds =>
    obtain rfl := h
    exact .kept hw' rfl hwait rfl (by simp [QueueStep.requests])
  | markGenerating repoId =>
    obtain rfl := h
    exact markGenerating_comes hw' hwait
  | recoverExpired minutes =>
    obtain ⟨w, hw, hid, hst, hu⟩ := (recovers_of_run h).2 w' hw'
    have hgen : w.status = .generating := by
      simp only [waits, Bool.and_eq_true, beq_iff_eq] at hwait
      rw [← hst, hwait.1]
    cases hl : w.lockedAt with
    | none => exact .kept hw hid (by simp [waits, hgen, hl]) hu (by simp [QueueStep.requests])
    | some t =>
      refine .putBack (List.mem_map.mpr ⟨w, List.mem_filter.mpr ⟨hw, ?_⟩, hid⟩)
      have hget : db'.wikiPages.get? w.repoId = some w' := Table.get?_eq_some.mpr ⟨hw', hid.symm⟩
      rw [hget, Option.any_some, hwait]
      simp [isClaimed, hgen, hl]
  | _ => exact hother (follows_of_run h (by simp) (by simp) (by simp))

/-! ## The invariant -/

/-- The clock and the waiting requests. -/
structure Dated (s : QueueState) : Prop where
  requested : ∀ r u, (r, u) ∈ s.requested → u ≤ s.db.now
  waiting : ∀ w ∈ s.db.wikiPages, waits w = true →
    ∃ t, UnclaimedSince w.repoId t (s.db :: s.past) ∧
      (∀ u, (w.repoId, u) ∈ s.requested → u ≤ t) ∧
      (t ≤ w.updatedAt ∨ (w.repoId, t) ∈ s.putBack)

theorem dated_init {s : QueueState} (h : queue.init s) : Dated s := by
  refine ⟨fun r u hu => ?_, fun w hw => ?_⟩
  · rw [h.2.2.1] at hu
    cases hu
  · rw [h.1] at hw
    exact absurd hw Table.mem_empty

/-- No step turns the clock back. -/
theorem now_le_of_run {a : QueueStep} {db db' : Db} (h : a.Run db db') : db.now ≤ db'.now := by
  cases a with
  | wait seconds =>
    obtain rfl := h
    exact Nat.le_add_right _ _
  | markGenerating repoId =>
    obtain rfl := h
    rcases run_markGenerating repoId db with ⟨e, h⟩ | h
    · rw [h]
    · rw [h]
      unfold registered
      split
      · exact Nat.le_refl _
      split
      · exact Nat.le_refl _
      · exact Nat.le_refl _
  | recoverExpired minutes => exact Nat.le_of_eq (recovers_of_run h).1.symm
  | _ =>
    exact Nat.le_of_eq (follows_of_run h (by simp) (by simp) (by simp)).1.1.symm

/-- Every step keeps the invariant. -/
theorem dated_moved {s : QueueState} {a : QueueStep} {db' : Db} (h : Dated s)
    (hrun : a.Run s.db db') : Dated (s.moved a db') := by
  have hnow := now_le_of_run hrun
  have hreq : ∀ r u, (r, u) ∈ (s.moved a db').requested → u ≤ db'.now := by
    intro r u hu
    rcases List.mem_append.mp hu with hu | hu
    · obtain ⟨r', -, hr'⟩ := List.mem_map.mp hu
      obtain ⟨-, rfl⟩ := Prod.mk.inj hr'
      exact Nat.le_refl _
    · exact (h.requested r u hu).trans hnow
  refine ⟨hreq, fun w' hw' hwait => ?_⟩
  have hhere : ∃ w ∈ db'.wikiPages, w.repoId = w'.repoId ∧ waits w = true := ⟨w', hw', rfl, hwait⟩
  cases comes_of_run hrun hw' hwait with
  | refreshed hu =>
    exact ⟨db'.now, ⟨hhere, .inl (Nat.le_refl _)⟩, hreq _, .inl (Nat.le_of_eq hu.symm)⟩
  | putBack hb =>
    exact ⟨db'.now, ⟨hhere, .inl (Nat.le_refl _)⟩, hreq _,
      .inr (List.mem_append_left _ (List.mem_map_of_mem (f := (·, db'.now)) hb))⟩
  | @kept w hw hid hwait₀ hu hnew =>
    obtain ⟨t, hsince, hlast, ht⟩ := h.waiting w hw hwait₀
    rw [hid] at hsince hlast ht
    refine ⟨t, ⟨hhere, .inr hsince⟩, fun u hmem => ?_, ?_⟩
    · rcases List.mem_append.mp hmem with hmem | hmem
      · obtain ⟨r', hr', heq⟩ := List.mem_map.mp hmem
        obtain ⟨rfl, -⟩ := Prod.mk.inj heq
        exact absurd hr' hnew
      · exact hlast u hmem
    · exact ht.imp (fun hle => hle.trans (Nat.le_of_eq hu.symm)) (List.mem_append_right _)

theorem dated_inductive {G : QueueState → QueueStep → Prop} : queue.Inductive G Dated where
  init := dated_init
  step := by
    rintro s a s' h - ⟨db', hrun, rfl⟩
    exact dated_moved h hrun

/-! ## The law -/

/-- What is stale was not put back by `recover_expired` within the period. -/
def PutBackLongAgo (s : QueueState) : QueueStep → Prop
  | .recoverStaleGenerations => ∀ w ∈ s.db.wikiPages, stale s.db.now w = true →
    ∀ t, (w.repoId, t) ∈ s.putBack → t + stalePeriod ≤ s.db.now
  | _ => True

/-- The recovery of stale requests fails only those that nobody claimed for the period. -/
def FailsAbandoned (s : QueueState) (a : QueueStep) (s' : QueueState) : Prop :=
  a = .recoverStaleGenerations → ∀ w ∈ s.db.wikiPages, w.status = .generating →
    ∀ w' ∈ s'.db.wikiPages, w'.repoId = w.repoId → w'.status = .failed →
      Abandoned stalePeriod s w.repoId

/-- The recovery fails what is stale and nothing else. -/
theorem stale_of_failed {db : Db} {w w' : WikiPage} (hw : w ∈ db.wikiPages)
    (hgen : w.status = .generating) (hw' : w' ∈ (recoverStaleGenerations.run db).2.wikiPages)
    (hid : w'.repoId = w.repoId) (hst : w'.status = .failed) : stale db.now w = true := by
  -- every row is from before, or stands for one that was stale
  have hkeeps : Preserves (fun d : Db => d.now = db.now ∧ ∀ w' ∈ d.wikiPages, w' ∈ db.wikiPages ∨
      ∃ w ∈ db.wikiPages, w.repoId = w'.repoId ∧ stale db.now w = true)
      recoverStaleGenerations := by
    refine preserves_bind (preserves_execute fun d h => ?_) fun _ =>
      preserves_bind (preserves_when fun _ => preserves_commit) fun _ => preserves_pure _
    refine ⟨h.1, fun w' hw' => ?_⟩
    have hexp : ∀ w, Row.id (expired d.now w) = Row.id w := fun _ => rfl
    obtain ⟨v, hv, rfl⟩ := (@Table.mem_update _ _ _ _ _ _ hexp).mp hw'
    split
    · rename_i hp
      right
      rcases h.2 v hv with hv | ⟨w, hw, hid, hs⟩
      · exact ⟨v, hv, rfl, h.1 ▸ hp⟩
      · exact ⟨w, hw, hid, hs⟩
    · exact h.2 v hv
  rcases (preserves_run hkeeps ⟨rfl, fun w hw => .inl hw⟩).2 w' hw' with hmem | ⟨v, hv, hvid, hs⟩
  · rw [Table.eq_of_id hmem hw hid, hgen] at hst
    cases hst
  · rwa [← Table.eq_of_id hv hw (hvid.trans hid)]

/-- **Only abandoned requests fail**, when none that is stale was put back by `recover_expired`
within the period. -/
theorem failed_unclaimed {s s' : QueueState} {a : QueueStep} (hs : queue.Reach PutBackLongAgo s)
    (ha : PutBackLongAgo s a) (hstep : queue.step s a s') : FailsAbandoned s a s' := by
  refine dated_inductive.stepInvariant ?_ hs ha hstep
  rintro s a s' h hg ⟨db', hrun, rfl⟩ rfl w hw hgen w' hw' hid hst
  have hstale : stale s.db.now w = true := by
    obtain rfl := hrun
    exact stale_of_failed hw hgen hw' hid hst
  have hwait : waits w = true ∧ w.updatedAt + stalePeriod ≤ s.db.now := by
    simpa [stale, waits, stalePeriod] using hstale
  obtain ⟨t, hsince, hlast, ht⟩ := h.waiting w hw hwait.1
  refine ⟨t, ?_, hsince, hlast⟩
  rcases ht with hle | hback
  · exact (Nat.add_le_add_right hle _).trans hwait.2
  · exact hg w hw hstale t hback

/-! ## A request that was being worked on -/

def wikiRepository : Repo where
  id := 1
  fullName := "o/r".toList
  enabled := true
  triggerMode := .manual
  claudeModel := none
  claudeEffort := none
  codexModel := none
  codexEffort := none
  vendorClaudeOn := false
  vendorCodexOn := false
  mergeEnabled := false
  harnessName := "default".toList
  incrementalReviewOn := none
  verifySinglesOn := none
  skipDraftOn := none
  reviewScopeGuardMode := none
  reviewDedupeMode := none

def noRequests : QueueState where
  db := { Db.empty 0 with repos := .ofRows [wikiRepository] 2 (by decide) (by decide) }
  past := []
  requested := []
  putBack := []

def waited (seconds : Nat) (s : QueueState) : QueueState :=
  s.moved (.wait seconds) { s.db with now := s.db.now + seconds }

def requestedAt (seconds : Nat) : QueueState :=
  waited seconds (noRequests.moved (.markGenerating 1) ((markGenerating 1).run noRequests.db).2)

theorem reach_waited {G : QueueState → QueueStep → Prop} {s : QueueState} (h : queue.Reach G s)
    {seconds : Nat} (hg : G s (.wait seconds)) : queue.Reach G (waited seconds s) :=
  h.step hg ⟨_, rfl, rfl⟩

theorem reach_requestedAt {G : QueueState → QueueStep → Prop}
    (hg : ∀ s a, a ≠ .recoverStaleGenerations → G s a) (seconds : Nat) :
    queue.Reach G (requestedAt seconds) :=
  reach_waited (.step (.init ⟨rfl, rfl, rfl, rfl⟩) (hg _ (.markGenerating 1) (by simp))
    ⟨_, rfl, rfl⟩) (hg _ _ (by simp))

/-- The recovery of stale requests. -/
def staleRecovered (s : QueueState) : QueueState :=
  s.moved .recoverStaleGenerations (recoverStaleGenerations.run s.db).2

/-- The request as it was registered. -/
def firstRequest : WikiPage := newRequest 1 0

theorem failed_unclaimed_never : Abandoned stalePeriod (requestedAt 1800) 1 := by
  have hrow : firstRequest ∈ (requestedAt 1800).db.wikiPages.rows := by decide +kernel
  have hfailed : expired 1800 firstRequest ∈
      (staleRecovered (requestedAt 1800)).db.wikiPages.rows := by decide +kernel
  refine failed_unclaimed (reach_requestedAt ?_ 1800) (a := .recoverStaleGenerations) ?_
    ⟨_, rfl, rfl⟩ rfl firstRequest hrow rfl (expired 1800 firstRequest) hfailed rfl rfl
  · intro s a ha
    cases a with
    | recoverStaleGenerations => exact absurd rfl ha
    | _ => trivial
  · intro w _ _ t ht
    have hnone : (requestedAt 1800).putBack = [] := rfl
    rw [hnone] at ht
    cases ht

/-- The request waits for 1700 seconds and is claimed by a process that dies. -/
def processId : ProcessId := "p".toList

def registeredProcess : QueueState :=
  (requestedAt 1700).moved .server ((ProcessRepo.register processId 60).run (requestedAt 1700).db).2

def claimedRequest : QueueState :=
  waited 100 (registeredProcess.moved (.claimNext "w1".toList (some processId) false)
    ((claimNext "w1".toList (some processId) false).run registeredProcess.db).2)

/-- When its lease has expired, the request is put back. -/
def recoveredRequest : QueueState :=
  claimedRequest.moved (.recoverExpired ProcessRepo.legacyStaleMinutes)
    ((ProcessRepo.recoverExpired ProcessRepo.legacyStaleMinutes).run claimedRequest.db).2

theorem reach_recoveredRequest : queue.Reach Sys.anyStep recoveredRequest := by
  have hserver : QueueStep.server.Run (requestedAt 1700).db registeredProcess.db := by
    have hrows : registeredProcess.db.wikiPages.rows = (requestedAt 1700).db.wikiPages.rows := by
      decide +kernel
    refine ⟨by decide +kernel, fun w hw => ?_⟩
    rwa [Table.mem_def, hrows] at hw
  have hregistered : queue.Reach Sys.anyStep registeredProcess :=
    (reach_requestedAt (fun _ _ _ => trivial) 1700).step trivial ⟨_, hserver, rfl⟩
  have hclaimed : queue.Reach Sys.anyStep claimedRequest := reach_waited (hregistered.step
    (a := .claimNext "w1".toList (some processId) false) trivial ⟨_, rfl, rfl⟩) trivial
  exact hclaimed.step (a := .recoverExpired ProcessRepo.legacyStaleMinutes) trivial ⟨_, rfl, rfl⟩

/-- A request fails for its age at the moment when it is put back, after a worker had it. -/
theorem failed_just_claimed : ¬queue.StepInvariant Sys.anyStep FailsAbandoned := by
  intro h
  have hrow : ∀ w ∈ recoveredRequest.db.wikiPages.rows, w.repoId = 1 ∧ w.status = .generating := by
    decide +kernel
  have hfailed : ∀ w ∈ (staleRecovered recoveredRequest).db.wikiPages.rows, w.repoId = 1 ∧
      w.status = .failed := by decide +kernel
  obtain ⟨w, hw⟩ : ∃ w, w ∈ recoveredRequest.db.wikiPages.rows :=
    List.exists_mem_of_length_pos (by decide +kernel)
  obtain ⟨w', hw'⟩ : ∃ w, w ∈ (staleRecovered recoveredRequest).db.wikiPages.rows :=
    List.exists_mem_of_length_pos (by decide +kernel)
  obtain ⟨t, ht, ⟨-, hsince⟩, -⟩ := h reach_recoveredRequest (a := .recoverStaleGenerations) trivial
    ⟨_, rfl, rfl⟩ rfl w hw (hrow w hw).2 w' hw'
    ((hfailed w' hw').1.trans (hrow w hw).1.symm) (hfailed w' hw').2
  have hnow : recoveredRequest.db.now = 1800 := by decide +kernel
  have hperiod : stalePeriod = 1800 := rfl
  rw [hnow, hperiod] at ht
  rw [hnow] at hsince
  rcases hsince with hle | ⟨⟨v, hv, -, hwait⟩, -⟩
  · exact absurd (ht.trans hle) (Nat.not_le.mpr (Nat.lt_add_of_pos_right (by decide)))
  · -- just before, the worker had it
    have hclaimed : ∀ v ∈ claimedRequest.db.wikiPages.rows, waits v = false := by decide +kernel
    rw [hclaimed v hv] at hwait
    cases hwait

end WikiRepo
