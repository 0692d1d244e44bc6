import AlmightyReview.Db

/-!
# Pull requests in the database

The functions of `pr_repo`: `upsert` stores what GitHub says of a pull request, `markClosed` the
absence of some from the list of the open ones, and `markReviewed` the head that was reviewed.

* `PullInfo` is a pull request as GitHub shows it.
* `PullsFrom N O db db'`: every row comes from a row, as `O` allows, or is new, and `N` holds of it.
* `Stores`: the rows after pull requests were stored and others closed. `upsert` and `markClosed`
  keep it, statement by statement.
-/

/-- `PrInfo`: a pull request as GitHub shows it. -/
structure PullInfo where
  number : Nat
  title : Text
  author : Text
  headSha : Sha
  baseRef : Text
  url : Text
  state : PrState
  createdAt : Option Text := none
  headRef : Text := []
  body : Text := []
  isDraft : Bool := false
  baseSha : Sha := []
  deriving DecidableEq, Repr

namespace PrRepo

open Sql

/-- The row of `(repo_id, number)`, which is `UNIQUE`. -/
def pullFor (repoId number : Nat) (r : PullRequest) : Bool :=
  r.repoId == repoId && r.number == number

/-- The `INSERT` of `upsert`. -/
def newPull (repoId : Nat) (pr : PullInfo) (now : Time) (id : Nat) : PullRequest where
  id := id
  repoId := repoId
  number := pr.number
  title := some pr.title
  author := some pr.author
  headSha := pr.headSha
  baseRef := some pr.baseRef
  baseSha := some pr.baseSha
  state := pr.state
  url := some pr.url
  createdAt := pr.createdAt
  headRef := some pr.headRef
  body := some pr.body
  isDraft := pr.isDraft
  lastReviewedSha := none
  updatedAt := some now

/-- The `WHERE` of `DO UPDATE`: some column differs. -/
def differs (pr : PullInfo) (r : PullRequest) : Bool :=
  r.title != some pr.title || r.author != some pr.author || r.headSha != pr.headSha ||
    r.baseRef != some pr.baseRef || r.baseSha != some pr.baseSha || r.state != pr.state ||
    r.url != some pr.url || r.headRef != some pr.headRef || r.body != some pr.body ||
    r.isDraft != pr.isDraft

/-- The `SET` of `DO UPDATE`. -/
def overwrite (pr : PullInfo) (now : Time) (r : PullRequest) : PullRequest :=
  { r with title := some pr.title, author := some pr.author, headSha := pr.headSha,
           baseRef := some pr.baseRef, baseSha := some pr.baseSha, state := pr.state,
           url := some pr.url, createdAt := pr.createdAt.or r.createdAt,
           headRef := some pr.headRef, body := some pr.body, isDraft := pr.isDraft,
           updatedAt := some now }

/-- `INSERT .. ON CONFLICT(repo_id, number) DO UPDATE`. -/
def upserted (repoId : Nat) (pr : PullInfo) (db : Db) : Db :=
  match db.pullRequests.find? (pullFor repoId pr.number) with
  | none => { db with pullRequests := db.pullRequests.insert (newPull repoId pr db.now) }
  | some _ => { db with
    pullRequests := db.pullRequests.update
      (fun r => pullFor repoId pr.number r && differs pr r) (overwrite pr db.now) }

/-- The pull request is stored as GitHub shows it; its id. -/
def upsert (repoId : Nat) (pr : PullInfo) (commit : Bool) : Sql Db Exc Nat := do
  execute fun db => (upserted repoId pr db, ())
  when commit Sql.commit
  match ← select fun db => db.pullRequests.find? (pullFor repoId pr.number) with
  | none => throw (.typeError "'NoneType' object is not subscriptable".toList)
  | some row => pure row.id

def get (pid : Nat) : Sql Db Exc (Option PullRequest) :=
  select fun db => db.pullRequests.get? pid

def markReviewed (pid : Nat) (headSha : Sha) (commit : Bool) : Sql Db Exc Unit := do
  let _ ← updateRows Db.pullRequestTable (fun _ r => r.id == pid)
    (fun _ r => { r with lastReviewedSha := some headSha })
  when commit Sql.commit

/-- The stored head was not reviewed. -/
def needsReview (pid : Nat) : Sql Db Exc Bool := do
  match ← get pid with
  | none => pure false
  | some r => pure (some r.headSha != r.lastReviewedSha)

/-- The rows that `mark_closed` closes. -/
def closes (repoId : Nat) (numbers : List Nat) (r : PullRequest) : Bool :=
  r.repoId == repoId && r.state == .opened && numbers.contains r.number

/-- The given pull requests are closed where they are stored as open. -/
def markClosed (repoId : Nat) (numbers : List Nat) (commit : Bool) : Sql Db Exc Nat := do
  let total ← updateRows Db.pullRequestTable (fun _ r => closes repoId numbers r)
    (fun _ r => { r with state := .closed })
  when (0 < total ∧ commit) Sql.commit
  pure total

/-! ## The rows after an operation -/

/-- The row is the same pull request with the same head and state. -/
structure SameHead (r r' : PullRequest) : Prop where
  repoId : r'.repoId = r.repoId
  number : r'.number = r.number
  headSha : r'.headSha = r.headSha
  state : r'.state = r.state

theorem SameHead.refl (r : PullRequest) : SameHead r r := ⟨rfl, rfl, rfl, rfl⟩

theorem SameHead.trans {r r' r'' : PullRequest} (h : SameHead r r') (h' : SameHead r' r'') :
    SameHead r r'' :=
  ⟨h'.repoId.trans h.repoId, h'.number.trans h.number, h'.headSha.trans h.headSha,
    h'.state.trans h.state⟩

/-- A row after an operation: it is new, and `N` holds of it, or it was there, and `O` relates it
to what it was. -/
inductive From (N : PullRequest → Prop) (O : PullRequest → PullRequest → Prop) (db : Db)
    (r' : PullRequest) : Prop
  | new : db.pullRequests.nextId ≤ r'.id → N r' → From N O db r'
  | old {r : PullRequest} : r ∈ db.pullRequests → r.id = r'.id → O r r' → From N O db r'

/-- Every row of the second database comes from the first. -/
structure PullsFrom (N : PullRequest → Prop) (O : PullRequest → PullRequest → Prop)
    (db db' : Db) : Prop where
  nextId : db.pullRequests.nextId ≤ db'.pullRequests.nextId
  rows : ∀ r' ∈ db'.pullRequests, From N O db r'

section PullsFrom

variable {N : PullRequest → Prop} {O : PullRequest → PullRequest → Prop} {db₀ db db' : Db}

theorem PullsFrom.refl (hO : ∀ r, O r r) (db : Db) : PullsFrom N O db db :=
  ⟨Nat.le_refl _, fun r hr => .old hr rfl (hO r)⟩

theorem PullsFrom.of_eq (h : PullsFrom N O db₀ db) (he : db'.pullRequests = db.pullRequests) :
    PullsFrom N O db₀ db' := by
  constructor
  · rw [he]
    exact h.nextId
  · rw [he]
    exact h.rows

theorem PullsFrom.mono {N' : PullRequest → Prop} {O' : PullRequest → PullRequest → Prop}
    (h : PullsFrom N O db₀ db) (hN : ∀ r, N r → N' r) (hO : ∀ r r', O r r' → O' r r') :
    PullsFrom N' O' db₀ db := by
  refine ⟨h.nextId, fun r' hr' => ?_⟩
  cases h.rows r' hr' with
  | new hid hn => exact .new hid (hN _ hn)
  | old hr hid ho => exact .old hr hid (hO _ _ ho)

/-- An `UPDATE` of the rows that meet `p`. -/
theorem PullsFrom.update {p : PullRequest → Bool} {f : PullRequest → PullRequest}
    (h : PullsFrom N O db₀ db) (hf : ∀ r, Row.id (f r) = Row.id r)
    (he : db'.pullRequests = db.pullRequests.update p f hf)
    (hN : ∀ r, p r = true → N r → N (f r)) (hO : ∀ r r', p r' = true → O r r' → O r (f r')) :
    PullsFrom N O db₀ db' := by
  constructor
  · rw [he]
    exact h.nextId
  · rw [he]
    refine Table.forall_update h.rows (fun r hr hp => ?_) hf
    have hid : (f r).id = r.id := hf r
    cases h.rows r hr with
    | new hle hn => exact .new (hid ▸ hle) (hN r hp hn)
    | old hr₀ he₀ ho => exact .old hr₀ (he₀.trans hid.symm) (hO _ r hp ho)

end PullsFrom

/-- The row has the head and state of a pull request that GitHub shows. -/
def Shown (repoId : Nat) (prs : List PullInfo) (r : PullRequest) : Prop :=
  r.repoId = repoId ∧
    ∃ pr ∈ prs, r.number = pr.number ∧ r.headSha = pr.headSha ∧ r.state = pr.state

/-- What storing `prs` and closing the pull requests `numbers` makes of a row. -/
inductive PullStep (repoId : Nat) (prs : List PullInfo) (numbers : List Nat)
    (r r' : PullRequest) : Prop
  | kept : SameHead r r' → PullStep repoId prs numbers r r'
  | shown : r'.repoId = r.repoId → r'.number = r.number → Shown repoId prs r' →
    PullStep repoId prs numbers r r'
  | closed : closes repoId numbers r = true → r'.repoId = r.repoId → r'.number = r.number →
    r'.headSha = r.headSha → r'.state = .closed → PullStep repoId prs numbers r r'

namespace PullStep

variable {repoId : Nat} {prs : List PullInfo} {numbers : List Nat} {r r' : PullRequest}

theorem same_key (h : PullStep repoId prs numbers r r') :
    r'.repoId = r.repoId ∧ r'.number = r.number := by
  cases h with
  | kept hs => exact ⟨hs.repoId, hs.number⟩
  | shown hr hn => exact ⟨hr, hn⟩
  | closed _ hr hn => exact ⟨hr, hn⟩

end PullStep

/-- The rows after some of `prs` were stored and some of `numbers` closed. -/
def Stores (repoId : Nat) (prs : List PullInfo) (numbers : List Nat) : Db → Db → Prop :=
  PullsFrom (Shown repoId prs) (PullStep repoId prs numbers)

section Stores

variable {repoId : Nat} {prs : List PullInfo} {numbers : List Nat} {db₀ db : Db}

theorem Stores.refl (db : Db) : Stores repoId prs numbers db db :=
  PullsFrom.refl (fun r => .kept (.refl r)) db

/-- `upsert` stores what GitHub shows. -/
theorem Stores.upserted {pr : PullInfo} (hpr : pr ∈ prs) (h : Stores repoId prs numbers db₀ db) :
    Stores repoId prs numbers db₀ (upserted repoId pr db) := by
  unfold PrRepo.upserted
  cases hf : db.pullRequests.find? (pullFor repoId pr.number) with
  | none =>
    refine ⟨?_, Table.forall_insert h.rows ?_⟩
    · show db₀.pullRequests.nextId ≤ db.pullRequests.nextId + 1
      exact Nat.le_succ_of_le h.nextId
    · exact .new h.nextId ⟨rfl, pr, hpr, rfl, rfl, rfl⟩
  | some row =>
    have hshown : ∀ r, (pullFor repoId pr.number r && differs pr r) = true →
        Shown repoId prs (overwrite pr db.now r) := by
      intro r hp
      simp only [pullFor, Bool.and_eq_true, beq_iff_eq] at hp
      exact ⟨hp.1.1, pr, hpr, hp.1.2, rfl, rfl⟩
    refine h.update (f := overwrite pr db.now) (fun _ => rfl) rfl (fun r hp _ => hshown r hp) ?_
    intro r r' hp ho
    exact .shown ho.same_key.1 ho.same_key.2 (hshown r' hp)

/-- `mark_closed` closes pull requests that are not among the listed ones. -/
theorem Stores.closed (hd : ∀ pr ∈ prs, pr.number ∉ numbers)
    (h : Stores repoId prs numbers db₀ db) :
    Stores repoId prs numbers db₀ { db with
      pullRequests := db.pullRequests.update (closes repoId numbers)
        fun r => { r with state := .closed } } := by
  have hshown : ∀ r, closes repoId numbers r = true → ¬Shown repoId prs r := by
    rintro r hc ⟨-, pr, hpr, hn, -⟩
    simp only [closes, Bool.and_eq_true, List.contains_iff_mem] at hc
    exact hd pr hpr (hn ▸ hc.2)
  refine h.update (f := fun r => { r with state := .closed }) (fun _ => rfl) rfl
    (fun r hc hs => absurd hs (hshown r hc)) fun r r' hc ho => ?_
  cases ho with
  | kept hs =>
    refine .closed ?_ hs.repoId hs.number hs.headSha rfl
    simpa only [closes, hs.repoId, hs.number, hs.state] using hc
  | shown _ _ hs => exact absurd hs (hshown r' hc)
  | closed _ _ _ _ hst => simp [closes, hst] at hc

theorem upsert_stores {pr : PullInfo} (hpr : pr ∈ prs) (commit : Bool) :
    Preserves (Stores repoId prs numbers db₀) (upsert repoId pr commit) := by
  refine preserves_bind (preserves_execute fun db h => h.upserted hpr) fun _ => ?_
  refine preserves_bind (preserves_when fun _ => preserves_commit) fun _ => ?_
  refine preserves_bind (preserves_select _) fun row => ?_
  cases row with
  | none => exact preserves_throw _
  | some row => exact preserves_pure _

theorem markClosed_stores (hd : ∀ pr ∈ prs, pr.number ∉ numbers) (commit : Bool) :
    Preserves (Stores repoId prs numbers db₀) (markClosed repoId numbers commit) := by
  refine preserves_bind (preserves_execute fun db h => h.closed hd) fun _ => ?_
  exact preserves_bind (preserves_when fun _ => preserves_commit) fun _ => preserves_pure _

end Stores

end PrRepo
