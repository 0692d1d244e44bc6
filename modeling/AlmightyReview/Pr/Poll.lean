import AlmightyReview.Job.Repo
import AlmightyReview.Lib.Log
import AlmightyReview.Lib.Pool
import AlmightyReview.Pr.Repo

/-!
# Polls and webhooks

A poll lists the open pull requests of a repository and stores them later; a webhook stores the one
pull request that it reports.

* `pollRepo`: `_poll_repo`. With the enqueue of the background loop it writes in one transaction;
  the enqueue of the API commits, so there every pull request is stored on its own.
* `githubWebhook`: the part of `github_webhook` after the payload was parsed.
* `PollState`: the database, GitHub with its past, the deliveries on their way, and which
  observation of GitHub each stored head and state come from. `polling`: the system.
-/

/-- The columns of `app_settings` that a poll reads. -/
structure PollSettings where
  skipDraftOn : Bool

/-- `_effective(repo, settings, key)`. -/
def effective (own : Option Bool) (inherited : Bool) : Bool := own.getD inherited

/-! ## Storing -/

namespace Poller

open Sql

/-- `config.POLL_OPEN_PR_LIMIT`. -/
def pollOpenPrLimit : Nat := 200

/-- The automatic review is on for this pull request. -/
def wanted (repo : Repo) (settings : PollSettings) (isDraft : Bool) : Bool :=
  repo.triggerMode == .auto && (repo.vendorClaudeOn || repo.vendorCodexOn) &&
    !(effective repo.skipDraftOn settings.skipDraftOn && isDraft)

/-- The enqueue of a poll: whether it counts as a new job. The one of the background loop leaves
the commit to the poll and returns nothing, which counts. -/
def enqueue (commit : Bool) (pid : Nat) : Sql Db Exc Bool := do
  match ← PrRepo.get pid with
  | none => throw (.typeError "'NoneType' object is not subscriptable".toList)
  | some pr =>
    let (_, changed) ← JobRepo.enqueueWithResult pid pr.headSha .auto 0 commit
    pure (!commit || changed)

/-- One listed pull request is stored, and enqueued when its head was not reviewed; the number of
jobs. -/
def storePull (repo : Repo) (settings : PollSettings) (commit : Bool) (pr : PullInfo) :
    Sql Db Exc Nat := do
  let pid ← PrRepo.upsert repo.id pr false
  if wanted repo settings pr.isDraft && (← PrRepo.needsReview pid) then
    let counts ← enqueue commit pid
    pure (if counts then 1 else 0)
  else pure 0

def storePulls (repo : Repo) (settings : PollSettings) : List PullInfo → Sql Db Exc Nat
  | [] => pure 0
  | pr :: prs => do
    let n ← storePull repo settings false pr
    let m ← storePulls repo settings prs
    pure (n + m)

/-- `prev_open - set(open_numbers)`; nothing when the listing may have been cut off. -/
def gone (prevOpen : List Nat) (prs : List PullInfo) : List Nat :=
  if prs.length < pollOpenPrLimit then
    prevOpen.filter fun n => !(prs.map (·.number)).contains n
  else []

/-- The end of a poll: what was open before it and is not listed any more is closed. -/
def closeGone (repo : Repo) (prevOpen : List Nat) (prs : List PullInfo) : Sql Db Exc Unit := do
  let _ ← PrRepo.markClosed repo.id (gone prevOpen prs) false
  pure ()

end Poller

/-! ## Operations -/

namespace Poller

/-- An operation of a poll. -/
inductive PollOp : Type → Type
  | openBefore (repoId : Nat) : PollOp (List Nat)
  | listPrs (fullName : Text) : PollOp (List PullInfo)
  /-- The transaction of the background loop. -/
  | storeAll (repo : Repo) (settings : PollSettings) (prevOpen : List Nat) (prs : List PullInfo) :
    PollOp Nat
  /-- One pull request, with the commit of its enqueue. -/
  | storeOne (repo : Repo) (settings : PollSettings) (pr : PullInfo) : PollOp Nat
  | close (repo : Repo) (prevOpen : List Nat) (prs : List PullInfo) : PollOp Unit

/-- `SELECT number FROM pull_request WHERE repo_id=? AND state='open'`. -/
def openNumbers (repoId : Nat) (db : Db) : List Nat :=
  (db.pullRequests.rows.filter fun r => r.repoId == repoId && r.state == .opened).map (·.number)

/-- The statements of an operation on the database; a listing has none. -/
def PollOp.program {β : Type} : PollOp β → Option (Sql Db Exc β)
  | .openBefore repoId => some (Sql.select (openNumbers repoId))
  | .listPrs _ => none
  | .storeAll repo settings prevOpen prs => some <| Sql.transaction do
    let n ← storePulls repo settings prs
    closeGone repo prevOpen prs
    pure n
  | .storeOne repo settings pr => some <| Sql.transaction (storePull repo settings true pr)
  | .close repo prevOpen prs => some <| Sql.transaction (closeGone repo prevOpen prs)

open Prog

/-- What a poll answers: the open pull requests and the new jobs. -/
abbrev Polled := Nat × Nat

def storeEach (repo : Repo) (settings : PollSettings) : List PullInfo → Prog PollOp Exc Nat
  | [] => pure 0
  | pr :: prs => do
    let n ← perform (.storeOne repo settings pr)
    let m ← storeEach repo settings prs
    pure (n + m)

/-- `_poll_repo`. -/
def pollRepo (repo : Repo) (settings : PollSettings) (commit : Bool) : Prog PollOp Exc Polled := do
  let prevOpen ← perform (.openBefore repo.id)
  let openPrs ← perform (.listPrs repo.fullName)
  if commit then
    let enqueued ← storeEach repo settings openPrs
    perform (.close repo prevOpen openPrs)
    pure (openPrs.length, enqueued)
  else
    let enqueued ← perform (.storeAll repo settings prevOpen openPrs)
    pure (openPrs.length, enqueued)

/-! ## Webhooks -/

/-- A pull request event on its way: the change it reports, made at `time`. -/
structure Delivery where
  fullName : Text
  pr : PullInfo
  time : Nat

/-- What a webhook answers. -/
inductive Hooked where
  | ignored | enqueued | skipped
  deriving DecidableEq, Repr

/-- `SELECT * FROM repo WHERE full_name = ? COLLATE NOCASE`. -/
def byFullName (fullName : Text) (db : Db) : Option Repo :=
  db.repos.find? fun r => Text.lower r.fullName == Text.lower fullName

/-- The repository that a webhook stores into. -/
def hooked (fullName : Text) (db : Db) : Option Repo :=
  match byFullName fullName db with
  | none => none
  | some repo => if repo.enabled && repo.triggerMode == .auto then some repo else none

/-- The pull request of an event is stored, and enqueued when its head was not reviewed. The payload
does not say when it was created. -/
def storeHooked (repo : Repo) (settings : PollSettings) (pr : PullInfo) : Sql Db Exc Hooked := do
  let pid ← PrRepo.upsert repo.id { pr with createdAt := none } true
  if wanted repo settings pr.isDraft && (← PrRepo.needsReview pid) then
    let _ ← JobRepo.enqueue pid pr.headSha .auto 0 true
    pure .enqueued
  else pure .skipped

/-- `github_webhook`, after the payload was parsed. -/
def githubWebhook (settings : PollSettings) (fullName : Text) (pr : PullInfo) :
    Sql Db Exc Hooked := do
  match ← Sql.select (hooked fullName) with
  | none => pure .ignored
  | some repo => storeHooked repo settings pr

/-! ## The system -/

/-- GitHub: the pull requests of each repository. -/
abbrev GitHub := Text → List PullInfo

/-- A listing: open pull requests, and all of them unless there are more than the limit. -/
structure Lists (pulls prs : List PullInfo) : Prop where
  nodup : (prs.map (·.number)).Nodup
  length : prs.length ≤ pollOpenPrLimit
  mem : ∀ pr ∈ prs, pr ∈ pulls ∧ pr.state = .opened
  complete : prs.length < pollOpenPrLimit → ∀ pr ∈ pulls, pr.state = .opened → pr ∈ prs

/-- A head and state as an observation of GitHub at `time` was stored, at `clock`. -/
structure Stored where
  prId : Nat
  headSha : Sha
  state : PrState
  time : Nat
  byPoll : Bool
  clock : Nat
  deriving DecidableEq, Repr

structure PollState where
  db : Db
  github : Log GitHub
  /-- The events that were not delivered yet, the oldest first. -/
  inFlight : List Delivery
  /-- The observations that were stored. -/
  stored : List Stored
  /-- The number of operations so far. -/
  clock : Nat
  /-- When each poll listed: the time of GitHub, and the clock. -/
  listed : Nat → Nat × Nat

/-- The row of a pull request with one of the numbers. -/
def among (repoId : Nat) (numbers : List Nat) (r : PullRequest) : Bool :=
  r.repoId == repoId && numbers.contains r.number

namespace PollState

/-- The state after an observation of these pull requests was stored. -/
def observed (s : PollState) (repoId : Nat) (numbers : List Nat) (time : Nat) (byPoll : Bool)
    (db' : Db) : PollState :=
  { s with
    db := db'
    stored := (db'.pullRequests.rows.filter (among repoId numbers)).map
      (fun r => ⟨r.id, r.headSha, r.state, time, byPoll, s.clock⟩) ++ s.stored
    clock := s.clock + 1 }

end PollState

/-- What an operation writes: the pull requests that it stores and those that it closes. -/
structure Write where
  repoId : Nat
  prs : List PullInfo
  closed : List Nat

/-- The pull requests that the operation stores an observation of. -/
def Write.numbers (w : Write) : List Nat := w.prs.map (·.number) ++ w.closed

def PollOp.write {β : Type} : PollOp β → Write
  | .storeAll repo _ prevOpen prs => ⟨repo.id, prs, gone prevOpen prs⟩
  | .storeOne repo _ pr => ⟨repo.id, [pr], []⟩
  | .close repo prevOpen prs => ⟨repo.id, [], gone prevOpen prs⟩
  | .openBefore repoId => ⟨repoId, [], []⟩
  | .listPrs _ => ⟨0, [], []⟩

/-- The state after an operation of poll `n` that left this database. -/
def PollState.moved {β : Type} (s : PollState) (n : Nat) (o : PollOp β) (db' : Db) : PollState :=
  s.observed o.write.repoId o.write.numbers (s.listed n).1 true db'

/-- The state after the first event was delivered. -/
def PollState.delivered (s : PollState) (settings : PollSettings) (d : Delivery)
    (rest : List Delivery) : PollState :=
  match hooked d.fullName s.db with
  | none => { s with
    inFlight := rest }
  | some repo => { s with
    inFlight := rest }.observed repo.id [d.pr.number] d.time false
      ((githubWebhook settings d.fullName d.pr).run s.db).2

/-- The steps beside the polls. -/
inductive HubStep where
  /-- A pull request changes on GitHub, and the change is reported or not. -/
  | change (fullName : Text) (pr : PullInfo) (reported : Bool)
  /-- The oldest event is delivered. -/
  | deliver (settings : PollSettings)
  /-- The oldest event is lost. -/
  | drop
  /-- The rest of the server works. -/
  | server

/-- GitHub with one pull request changed. -/
def GitHub.change (g : GitHub) (fullName : Text) (pr : PullInfo) : GitHub := fun name =>
  if name = Text.lower fullName then pr :: (g name).filter (·.number != pr.number) else g name

/-- The steps of the polls and beside them. -/
def machine : Machine PollOp Exc PollState HubStep where
  exec {β} n o s r s' :=
    match o, r with
    | .listPrs _, .error _ => s' = s
    | .listPrs fullName, .ok prs =>
      Lists (s.github.now (Text.lower fullName)) prs ∧
        s' = { s with
          clock := s.clock + 1
          listed := Function.update s.listed n (s.github.time, s.clock) }
    | o, r => ∃ p, o.program = some p ∧ r = (p.run s.db).1 ∧ s' = s.moved n o (p.run s.db).2
  outside a s s' :=
    match a with
    | .change fullName pr reported =>
      s' = { s with
        github := s.github.push (GitHub.change s.github.now fullName pr)
        inFlight := if reported then s.inFlight ++ [⟨fullName, pr, s.github.time + 1⟩]
          else s.inFlight }
    | .deliver settings => ∃ d rest, s.inFlight = d :: rest ∧ s' = s.delivered settings d rest
    | .drop => ∃ d rest, s.inFlight = d :: rest ∧ s' = { s with
      inFlight := rest }
    | .server => ∃ db', PrRepo.PullsFrom (fun _ => False) PrRepo.SameHead s.db db' ∧
      s' = { s with
        db := db' }

/-- Nothing is stored, nothing on its way, and nobody has listed. -/
def Fresh (s : PollState) : Prop :=
  s.db.pullRequests = .empty ∧ s.inFlight = [] ∧ s.stored = [] ∧ s.clock = 0 ∧
    s.github.time = 0 ∧ s.listed = fun _ => (0, 0)

/-- A poll may do anything: what it does follows from its text. -/
def contract : Contract PollOp Exc Unit where
  allowed _ _ := True
  after _ _ _ := ()

/-- A poll of some repository begins. -/
inductive Begins (s : PollState) : Unit → Prog PollOp Exc Polled → Prop
  | poll (repo : Repo) (settings : PollSettings) (commit : Bool) :
    Begins s () (pollRepo repo settings commit)

/-- **Polls and webhooks.** -/
def polling : Sys (Pool PollOp Exc PollState Unit Polled) (Pool.Event HubStep) :=
  Pool.system machine contract Begins Fresh

end Poller
