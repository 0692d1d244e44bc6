import AlmightyReview.Lib.Paging
import AlmightyReview.Post.World
import AlmightyReview.Review.Events

/-!
# The reviews on GitHub, page by page

`_list_complete_pages` of the GitHub client, and the search for a marker in what it lists.

* `listCompletePages`: pages of 100 rows are asked for until one is short. What `_call` answers to
  a command is arbitrary: it has a state, and may raise.
* `listCompletePages_all_or_nothing`: a list is returned whole or not at all.
* `findRemoteReview`: the search of a posting, on the JSON rows. Where it returns, it is the step
  `find` of the world (`findRemoteReview_step`).
-/

namespace Gh

open Json (Loaded get)
open Paging (Reading Reads)

variable {σ ε : Type}

/-! ## The client -/

/-- What `_call` is called with. -/
structure Command where
  args : List Text
  kind : Text
  timeoutSec : Nat
  deriving DecidableEq

structure GitHubCliError where
  exitCode : Int
  message : Text
  stderr : Text
  commandKind : Text
  httpStatus : Option Nat
  deriving DecidableEq

/-- What is raised: by `_call`, by `json.loads`, by the listing, or for a row of another shape. -/
inductive Raised (ε : Type) where
  | call (e : ε)
  | loads (e : Json.LoadError)
  | cli (e : GitHubCliError)
  | attributeError
  | typeError

/-- `_call`: the output of a command. -/
abbrev Call (σ ε : Type) := Command → σ → Except ε Text × σ

/-- `?` or `&`, before the parameters. -/
def separator (endpoint : Text) : Text := if endpoint.contains ['?'] then ['&'] else ['?']

/-- The command for one page. -/
def pageCommand (endpoint kind : Text) (page : Nat) : Command where
  args := ["gh".toList, "api".toList,
    endpoint ++ separator endpoint ++ "per_page=100&page=".toList ++ Text.ofNat page]
  kind := kind
  timeoutSec := 10

/-- The error of the listing itself. -/
def listingError (kind : Text) (message : String) : Raised ε :=
  .cli ⟨1, message.toList, [], kind, none⟩

/-- One page, which must be a list. -/
def fetchPage (depth : Nat) (call : Call σ ε) (endpoint kind : Text) (page : Nat) (s : σ) :
    Except (Raised ε) (List Loaded) × σ :=
  match call (pageCommand endpoint kind page) s with
  | (.error e, s') => (.error (.call e), s')
  | (.ok out, s') =>
    match Json.loads depth out with
    | .error e => (.error (.loads e), s')
    | .ok (.arr batch) => (.ok batch, s')
    | .ok _ => (.error (listingError kind "invalid paginated GitHub response"), s')

/-- `_list_complete_pages`. -/
def listCompletePages (depth : Nat) (call : Call σ ε) (endpoint kind : Text) (maxPages : Int)
    (s : σ) : Reading σ (Raised ε) Loaded :=
  Paging.readPages 100 (fetchPage depth call endpoint kind)
    (listingError kind "GitHub pagination cap reached") maxPages.toNat 1 [] s

/-- `/repos/{repo}/{of}/{number}/{what}`. -/
def listEndpoint (of what : String) (repo : Text) (number : Nat) : Text :=
  "/repos/".toList ++ repo ++ of.toList ++ Text.ofNat number ++ what.toList

def listPrReviewsComplete (depth : Nat) (call : Call σ ε) (repo : Text) (number : Nat) :
    σ → Reading σ (Raised ε) Loaded :=
  listCompletePages depth call (listEndpoint "/pulls/" "/reviews" repo number)
    "list_pr_reviews_complete".toList 100

def listPrReviewCommentsComplete (depth : Nat) (call : Call σ ε) (repo : Text) (number : Nat) :
    σ → Reading σ (Raised ε) Loaded :=
  listCompletePages depth call (listEndpoint "/pulls/" "/comments" repo number)
    "list_pr_review_comments_complete".toList 100

def listPrConversationCommentsComplete (depth : Nat) (call : Call σ ε) (repo : Text)
    (number : Nat) : σ → Reading σ (Raised ε) Loaded :=
  listCompletePages depth call (listEndpoint "/issues/" "/comments" repo number)
    "list_pr_conversation_comments_complete".toList 100

/-! ## All or nothing -/

/-- Whenever a page of this list is answered, it is the page with its number; what else is answered
is an error, or no list. -/
def Serves (depth : Nat) (call : Call σ ε) (endpoint kind : Text) (rows : List Loaded) : Prop :=
  Paging.Serves 100 (fetchPage depth call endpoint kind) rows

/-- The first pages are answered with lists, whatever was asked for before. -/
def AnswersPages (depth : Nat) (call : Call σ ε) (endpoint kind : Text) (pages : Nat) : Prop :=
  Paging.Answers (fetchPage depth call endpoint kind) 1 pages

/-- Two pages are two commands. -/
theorem pageCommand_injective {endpoint kind : Text} {i j : Nat}
    (h : pageCommand endpoint kind i = pageCommand endpoint kind j) : i = j := by
  have hargs := congrArg Command.args h
  simp only [pageCommand, List.cons.injEq, and_true, true_and] at hargs
  exact Text.ofNat_injective (List.append_cancel_left hargs)

/-- A page is one call, however it is answered. -/
theorem fetchPage_state (depth : Nat) (call : Call σ ε) (endpoint kind : Text) (page : Nat)
    (s : σ) : (fetchPage depth call endpoint kind page s).2 =
      (call (pageCommand endpoint kind page) s).2 := by
  unfold fetchPage
  rcases call (pageCommand endpoint kind page) s with ⟨answer, s'⟩
  cases answer with
  | error e => rfl
  | ok out =>
    dsimp only
    split <;> rfl

/-- A page that is there is what the output says. -/
theorem fetchPage_ok {depth : Nat} {call : Call σ ε} {endpoint kind : Text} {page : Nat}
    {s s' : σ} {batch : List Loaded}
    (h : fetchPage depth call endpoint kind page s = (.ok batch, s')) :
    ∃ out, call (pageCommand endpoint kind page) s = (.ok out, s') ∧
      Json.loads depth out = .ok (.arr batch) := by
  unfold fetchPage at h
  rcases hcall : call (pageCommand endpoint kind page) s with ⟨answer, t⟩
  rw [hcall] at h
  cases answer with
  | error e => cases h
  | ok out =>
    dsimp only at h
    cases hloads : Json.loads depth out with
    | error e =>
      rw [hloads] at h
      cases h
    | ok v =>
      rw [hloads] at h
      cases v
      case arr xs =>
        cases h
        exact ⟨out, rfl, hloads⟩
      all_goals cases h

/-- The commands that the client runs are those of the pages, one after another. -/
theorem requests_listCompletePages (depth : Nat) (call : Call σ ε) (endpoint kind : Text)
    (maxPages : Int) (s : σ) :
    ∃ k ≤ maxPages.toNat,
      (listCompletePages depth call endpoint kind maxPages s).requests = List.range' 1 k ∧
      (listCompletePages depth call endpoint kind maxPages s).state =
        (List.range' 1 k).foldl (fun s i => (call (pageCommand endpoint kind i) s).2) s := by
  obtain ⟨k, hk, hrequests⟩ :
      ∃ k ≤ maxPages.toNat,
        (listCompletePages depth call endpoint kind maxPages s).requests = List.range' 1 k :=
    Paging.requests_readPages maxPages.toNat 1 [] s
  refine ⟨k, hk, hrequests, ?_⟩
  rw [← hrequests]
  refine (Paging.state_readPages _ _ _ _).trans ?_
  simp only [fetchPage_state]
  rfl

/-- **All or nothing.** The pages are asked for in order, at most `max_pages` of them. A list that
is returned holds all rows of the pages, all full but the last; of a server with a list it is the
whole list. Where the server does not fail, the list is returned exactly when its end comes within
`max_pages`. -/
theorem listCompletePages_all_or_nothing {depth : Nat} {call : Call σ ε} {endpoint kind : Text}
    {rows : List Loaded} (hserves : Serves depth call endpoint kind rows) (maxPages : Int)
    (s : σ) :
    (∃ k ≤ maxPages.toNat,
      (listCompletePages depth call endpoint kind maxPages s).requests = List.range' 1 k ∧
      (listCompletePages depth call endpoint kind maxPages s).state =
        (List.range' 1 k).foldl (fun s i => (call (pageCommand endpoint kind i) s).2) s) ∧
    ((listCompletePages depth call endpoint kind maxPages s).result = .ok rows ∨
      ∃ e, (listCompletePages depth call endpoint kind maxPages s).result = .error e) ∧
    (∀ out, (listCompletePages depth call endpoint kind maxPages s).result = .ok out →
      ∃ batches, Reads 100 (fetchPage depth call endpoint kind) 1 s batches
        (listCompletePages depth call endpoint kind maxPages s).state ∧ out = batches.flatten) ∧
    (AnswersPages depth call endpoint kind maxPages.toNat →
      ((listCompletePages depth call endpoint kind maxPages s).result = .ok rows ↔
        rows.length < 100 * maxPages.toNat)) := by
  refine ⟨requests_listCompletePages depth call endpoint kind maxPages s, ?_, ?_, ?_⟩
  · cases hresult : (listCompletePages depth call endpoint kind maxPages s).result with
    | error e => exact .inr ⟨e, rfl⟩
    | ok out => exact .inl (congrArg Except.ok (Paging.readPages_sound hserves hresult))
  · intro out hout
    obtain ⟨batches, hreads, -, rfl⟩ := Paging.readPages_ok_iff.mp ⟨hout, rfl⟩
    exact ⟨batches, hreads, rfl⟩
  · intro hanswers
    exact Paging.readPages_serves hserves hanswers s

/-- A server whose list has one row, which is `null`. -/
def oneRow (endpoint kind : Text) : Call Unit Unit := fun command s =>
  (if command = pageCommand endpoint kind 1 then .ok "[null]".toList else .error (), s)

theorem loads_oneRow : Json.loads 1 "[null]".toList = .ok (.arr [.null]) := by
  decide +kernel

theorem serves_oneRow (endpoint kind : Text) :
    Serves 1 (oneRow endpoint kind) endpoint kind [.null] := by
  intro i s batch s' hi h
  obtain ⟨out, hcall, hloads⟩ := fetchPage_ok h
  unfold oneRow at hcall
  split at hcall
  · next hcommand =>
    obtain rfl := pageCommand_injective hcommand
    cases hcall
    rw [loads_oneRow] at hloads
    cases hloads
    rfl
  · cases hcall

theorem answersPages_oneRow (endpoint kind : Text) :
    AnswersPages 1 (oneRow endpoint kind) endpoint kind 1 := by
  intro i s hi hlt
  obtain rfl : i = 1 := by omega
  refine ⟨[.null], s, ?_⟩
  simp only [fetchPage, oneRow, if_pos, loads_oneRow]

theorem listCompletePages_oneRow :
    (listCompletePages 1 (oneRow [] []) [] [] 1 ()).result = .ok [.null] :=
  ((listCompletePages_all_or_nothing (serves_oneRow [] []) 1 ()).2.2.2
    (answersPages_oneRow [] [])).mpr (by decide)

/-! ## The search for a marker -/

/-- `v or w`. -/
def orElse (v w : Loaded) : Loaded := if VendorTelemetry.truthy v then v else w

/-- `marker in v`. -/
def memberOf (marker : Text) : Loaded → Except (Raised ε) Bool
  | .str t => .ok (t.contains marker)
  | .arr xs => .ok (decide (.str marker ∈ xs))
  | .obj fields => .ok (get fields marker).isSome
  | _ => .error .typeError

/-- `review.get(key)`. -/
def getKey (fields : List (Text × Loaded)) (key : String) : Loaded :=
  (get fields key.toList).getD .null

/-- `review.get("body") or ""`. -/
def bodyOf (fields : List (Text × Loaded)) : Loaded := orElse (getKey fields "body") (.str [])

/-- `review.get("html_url") or review.get("url") or ""`. -/
def urlOf (fields : List (Text × Loaded)) : Loaded :=
  orElse (orElse (getKey fields "html_url") (getKey fields "url")) (.str [])

/-- What `find_remote_review` returns. -/
structure Found where
  id : Loaded
  htmlUrl : Loaded

/-- The loop of `find_remote_review`. -/
def findMarked (marker : Text) : List Loaded → Except (Raised ε) (Option Found)
  | [] => .ok none
  | .obj fields :: rows => do
    if ← memberOf marker (bodyOf fields) then
      pure (some ⟨getKey fields "id", urlOf fields⟩)
    else findMarked marker rows
  | _ :: _ => .error .attributeError

/-- `find_remote_review`, and the state of who answers behind it. -/
def findRemoteReview (depth : Nat) (call : Call σ ε) (repo : Text) (number : Nat) (marker : Text)
    (s : σ) : Except (Raised ε) (Option Found) × σ :=
  let reading := listPrReviewsComplete depth call repo number s
  (reading.result.bind fun rows => findMarked marker rows.reverse, reading.state)

/-- The row is a review, as GitHub writes it. -/
def IsReview (row : Loaded) (v : Post.RemoteReview) : Prop :=
  ∃ fields, row = .obj fields ∧ (∃ h, getKey fields "id" = .int v.id h) ∧
    bodyOf fields = .str v.body ∧ urlOf fields = .str v.url

/-- What is found is this review. -/
def IsFound (found : Found) (v : Post.RemoteReview) : Prop :=
  (∃ h, found.id = .int v.id h) ∧ found.htmlUrl = .str v.url

/-- On rows that are reviews, the loop finds the first one with the marker. -/
theorem findMarked_reviews (marker : Text) {rows : List Loaded} {reviews : List Post.RemoteReview}
    (h : List.Forall₂ IsReview rows reviews) :
    ∃ found, findMarked (ε := ε) marker rows = .ok found ∧
      Option.Rel IsFound found (reviews.find? fun v => v.body.contains marker) := by
  induction h with
  | nil => exact ⟨none, rfl, .none⟩
  | @cons row v rows reviews hrow _ ih =>
    obtain ⟨fields, rfl, hid, hbody, hurl⟩ := hrow
    rw [findMarked, hbody]
    cases hmarked : v.body.contains marker with
    | true =>
      refine ⟨some ⟨getKey fields "id", urlOf fields⟩, ?_, ?_⟩
      · simp [memberOf, hmarked, bind, Except.bind, pure, Except.pure]
      · simp only [List.find?_cons, hmarked]
        exact .some ⟨hid, hurl⟩
    | false =>
      obtain ⟨found, hfound, hrel⟩ := ih
      refine ⟨found, ?_, ?_⟩
      · simpa [memberOf, hmarked, bind, Except.bind] using hfound
      · simpa only [List.find?_cons, hmarked] using hrel

/-- The endpoint lists the reviews of a pull request. -/
def ServesReviews (depth : Nat) (call : Call σ ε) (repo : Text) (number : Nat)
    (reviews : List Post.RemoteReview) : Prop :=
  ∃ rows, Serves depth call (listEndpoint "/pulls/" "/reviews" repo number)
    "list_pr_reviews_complete".toList rows ∧ List.Forall₂ IsReview rows reviews

/-- A search that returns has looked at every review. -/
theorem findRemoteReview_complete {depth : Nat} {call : Call σ ε} {repo : Text} {number : Nat}
    {reviews : List Post.RemoteReview} (hserves : ServesReviews depth call repo number reviews)
    {marker : Text} {s : σ} {found : Option Found}
    (hfound : (findRemoteReview depth call repo number marker s).1 = .ok found) :
    Option.Rel IsFound found (Post.findRemoteReview reviews marker) := by
  obtain ⟨rows, hrows, hreviews⟩ := hserves
  obtain ⟨out, hout, hmarked⟩ := Exc.bind_ok hfound
  obtain rfl := Paging.readPages_sound hrows hout
  obtain ⟨found', hfound', hrel⟩ := findMarked_reviews marker (List.rel_reverse hreviews)
  rw [hfound'] at hmarked
  cases hmarked
  exact hrel

/-- The phase after a search that returns: `str(res["id"])` and `res["html_url"]` of what is found
are kept. -/
inductive AfterSearch (op : PostOperation) : Option Found → Post.Phase → Prop
  | missing : AfterSearch op none (.missing op)
  | found {n : Int} {h : n.natAbs < Json.intLimit} {url : Text} :
    AfterSearch op (some ⟨.int n h, .str url⟩) (.found op (Text.ofInt n) url)

/-- **The search is a step of the world**: where GitHub serves the reviews of the target, a search
that returns takes the attempt where the step `find` does. A listing that was cut short would
not: the attempt would create the review a second time. -/
theorem findRemoteReview_step {depth : Nat} {call : Call σ ε} {w : Post.World} {token : Text}
    {a : Post.Attempt} {op : PostOperation} (ha : w.attempts token = some a)
    (hop : a.phase = .claimed op)
    (hserves : ServesReviews depth call a.request.target.1 a.request.target.2
      (w.reviews a.request.target).rows) {s : σ} {found : Option Found}
    (hfound : (findRemoteReview depth call a.request.target.1 a.request.target.2 op.marker s).1 =
      .ok found) :
    ∃ phase, AfterSearch op found phase ∧
      Post.World.Step w (.find token) (w.enter token a phase) := by
  have hrel := findRemoteReview_complete hserves hfound
  have hstep := Post.World.Step.find ha hop
  cases hreview : Post.findRemoteReview (w.reviews a.request.target).rows op.marker with
  | none =>
    rw [hreview] at hrel hstep
    cases hrel
    exact ⟨_, .missing, hstep⟩
  | some v =>
    rw [hreview] at hrel hstep
    cases hrel with
    | @some found _ h =>
      obtain ⟨id, url⟩ := found
      obtain ⟨⟨h, rfl⟩, rfl⟩ := h
      exact ⟨_, .found, hstep⟩

end Gh
