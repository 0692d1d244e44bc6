import AlmightyReview.Pr.Poll

/-!
# A poll and newer observations

The listing of a poll and its write are apart, and neither `upsert` nor `mark_closed` asks how old
what it overwrites is.

* `Replaces o row`: the operation stores another head or state in the row.
* `Ordered`: the invariant. What is stored was observed before now; deliveries come in the order of
  the changes; what was stored before a listing was observed before it.
* `InTime`: the guard. No observation made after the listing of a poll was stored between the
  listing and the write of the poll, and no poll that listed after a change has stored its pull
  request before the change is delivered. Then nothing newer is replaced (`never_older`).
* `webhook_overwritten`: without the guard, a poll overwrites what a webhook has stored meanwhile.
-/

namespace Poller

open Sql PrRepo

/-- Polls under way. -/
abbrev Polls := Pool PollOp Exc PollState Unit Polled

/-! ## What the operations store -/

section Operations

variable {I : Db → Prop} {repo : Repo} {settings : PollSettings} {prs : List PullInfo}
  {numbers : List Nat} {db₀ : Db}

/-- `I` is about pull requests and the time only. -/
def AboutPulls (I : Db → Prop) : Prop :=
  ∀ db db' : Db, db'.pullRequests = db.pullRequests → db'.now = db.now → I db → I db'

theorem stores_aboutPulls (repoId : Nat) (prs : List PullInfo) (numbers : List Nat) (db₀ : Db) :
    AboutPulls (Stores repoId prs numbers db₀) :=
  fun _ _ he _ h => PullsFrom.of_eq h he

/-- An enqueue leaves the pull requests alone. -/
theorem enqueueWithResult_pulls (hI : AboutPulls I) (prId : Nat) (headSha : Sha)
    (trigger : Trigger) (priority : Int) (commit : Bool) :
    Preserves I (JobRepo.enqueueWithResult prId headSha trigger priority commit) := by
  refine preserves_bind (preserves_execute fun db h => ?_) fun inserted => ?_
  · split
    · exact h
    · exact hI db _ rfl rfl h
  refine preserves_bind (preserves_when fun _ => preserves_commit) fun _ => ?_
  refine preserves_bind (preserves_select _) fun row => ?_
  cases row with
  | none => exact preserves_throw _
  | some row =>
    refine preserves_ite (fun _ => ?_) fun _ => preserves_pure _
    refine preserves_bind (preserves_execute fun db h => hI db _ rfl rfl h) fun _ => ?_
    exact preserves_bind (preserves_when fun _ => preserves_commit) fun _ => preserves_pure _

theorem enqueue_pulls (hI : AboutPulls I) (commit : Bool) (pid : Nat) :
    Preserves I (enqueue commit pid) := by
  refine preserves_bind (preserves_select _) fun pr => ?_
  cases pr with
  | none => exact preserves_throw _
  | some pr =>
    exact preserves_bind (enqueueWithResult_pulls hI _ _ _ _ _) fun _ => preserves_pure _

theorem needsReview_pulls (pid : Nat) : Preserves I (needsReview pid) := by
  refine preserves_bind (preserves_select _) fun pr => ?_
  cases pr <;> exact preserves_pure _

theorem storePull_stores {pr : PullInfo} (hpr : pr ∈ prs) (commit : Bool) :
    Preserves (Stores repo.id prs numbers db₀) (storePull repo settings commit pr) := by
  refine preserves_bind (upsert_stores hpr _) fun pid => ?_
  have henq : Preserves (Stores repo.id prs numbers db₀) (do
      let counts ← enqueue commit pid
      pure (if counts then 1 else 0) : Sql Db Exc Nat) :=
    preserves_bind (enqueue_pulls (stores_aboutPulls _ _ _ _) _ _) fun _ => preserves_pure _
  exact preserves_bind (needsReview_pulls pid) fun needed =>
    preserves_ite (fun _ => henq) fun _ => preserves_pure _

theorem storePulls_stores {rest : List PullInfo} (hrest : ∀ pr ∈ rest, pr ∈ prs) :
    Preserves (Stores repo.id prs numbers db₀) (storePulls repo settings rest) := by
  induction rest with
  | nil => exact preserves_pure _
  | cons pr rest ih =>
    have htail : ∀ pr ∈ rest, pr ∈ prs := fun p hp => hrest p (List.mem_cons_of_mem _ hp)
    exact preserves_bind (storePull_stores (hrest pr List.mem_cons_self) _) fun n =>
      preserves_bind (ih htail) fun m => preserves_pure _

/-- What is gone is not listed. -/
theorem not_mem_gone (prevOpen : List Nat) : ∀ pr ∈ prs, pr.number ∉ gone prevOpen prs := by
  intro pr hpr hg
  unfold gone at hg
  split at hg
  · simp only [List.mem_filter, Bool.not_eq_true', List.contains_eq_mem, decide_eq_false_iff_not,
      List.mem_map, not_exists, not_and] at hg
    exact hg.2 pr hpr rfl
  · cases hg

/-- **What an operation of a poll does to the pull requests.** -/
theorem op_stores {β : Type} (o : PollOp β) {p : Sql Db Exc β} (hp : o.program = some p) (db : Db) :
    Stores o.write.repoId o.write.prs o.write.closed db (p.run db).2 := by
  refine preserves_run ?_ (Stores.refl db)
  cases o with
  | openBefore repoId =>
    cases hp
    exact preserves_select _
  | listPrs => cases hp
  | storeAll repo settings prevOpen prs =>
    cases hp
    refine preserves_transaction (preserves_bind (storePulls_stores fun _ h => h) fun n => ?_)
    refine preserves_bind ?_ fun _ => preserves_pure _
    exact preserves_bind (markClosed_stores (not_mem_gone prevOpen) _) fun _ => preserves_pure _
  | storeOne repo settings pr =>
    cases hp
    exact preserves_transaction (storePull_stores List.mem_cons_self _)
  | close repo prevOpen prs =>
    cases hp
    refine preserves_transaction (preserves_bind (markClosed_stores ?_ _) fun _ => preserves_pure _)
    intro pr hpr
    cases hpr

/-- What a webhook does to the pull requests of its repository. -/
theorem githubWebhook_stores {fullName : Text} {pr : PullInfo} {db : Db}
    (hr : hooked fullName db = some repo) :
    Stores repo.id [{ pr with createdAt := none }] [] db
      ((githubWebhook settings fullName pr).run db).2 := by
  have hrun :
      (githubWebhook settings fullName pr).run db = (storeHooked repo settings pr).run db := by
    simp only [githubWebhook, run, onConn_bind, onConn_select, Conn.fresh, hr]
  rw [hrun]
  refine preserves_run ?_ (Stores.refl db)
  refine preserves_bind (upsert_stores List.mem_cons_self _) fun pid => ?_
  have henq : Preserves (Stores repo.id [{ pr with createdAt := none }] [] db) (do
      let _ ← JobRepo.enqueue pid pr.headSha .auto 0 true
      pure .enqueued : Sql Db Exc Hooked) :=
    preserves_bind (preserves_bind
      (enqueueWithResult_pulls (stores_aboutPulls _ _ _ _) _ _ _ _ _) fun _ => preserves_pure _)
      fun _ => preserves_pure _
  refine preserves_bind (needsReview_pulls pid) fun needed => ?_
  exact preserves_ite (fun _ => henq) fun _ => preserves_pure _

end Operations

/-! ## The guard and the property -/

/-- GitHub shows another head or state than the row has. -/
def ShownOther (repoId : Nat) (prs : List PullInfo) (row : PullRequest) : Prop :=
  row.repoId = repoId ∧
    ∃ pr ∈ prs, row.number = pr.number ∧ (row.headSha ≠ pr.headSha ∨ row.state ≠ pr.state)

/-- Storing `prs` and closing `numbers` gives the row another head or state. -/
def Replaces (repoId : Nat) (prs : List PullInfo) (numbers : List Nat) (row : PullRequest) : Prop :=
  ShownOther repoId prs row ∨ closes repoId numbers row = true

/-- Since poll `n` listed, no observation of the pull request made after its listing was stored. -/
def NotOvertaken (s : PollState) (n prId : Nat) : Prop :=
  ∀ t ∈ s.stored, t.prId = prId → (s.listed n).2 ≤ t.clock → t.time ≤ (s.listed n).1

/-- No poll that listed after the change has stored the pull request. -/
def NotAhead (s : PollState) (d : Delivery) (prId : Nat) : Prop :=
  ∀ t ∈ s.stored, t.prId = prId → t.byPoll = true → t.time ≤ d.time

/-- A poll writes, and a webhook stores, before a newer observation of what it replaces is
stored. -/
def InTime (w : Polls) : Pool.Event HubStep → Prop
  | .call n => ∀ (β : Type) (o : PollOp β) g next, w.threads n = some (g, .call o next) →
    ∀ row ∈ w.state.db.pullRequests, Replaces o.write.repoId o.write.prs o.write.closed row →
      NotOvertaken w.state n row.id
  | .outside (.deliver _) => ∀ d rest repo, w.state.inFlight = d :: rest →
    hooked d.fullName w.state.db = some repo →
    ∀ row ∈ w.state.db.pullRequests, ShownOther repo.id [d.pr] row → NotAhead w.state d row.id
  | _ => True

/-- The head and state of the row are those of the observation. -/
def Stored.Of (t : Stored) (row : PullRequest) : Prop :=
  t.prId = row.id ∧ t.headSha = row.headSha ∧ t.state = row.state

/-- A step that gives a pull request another head or state stores an observation of it, and none of
the observations that the old ones come from was made later. -/
def NeverOlder (w : Polls) (_ : Pool.Event HubStep) (w' : Polls) : Prop :=
  ∀ row ∈ w.state.db.pullRequests, ∀ row' ∈ w'.state.db.pullRequests, row'.id = row.id →
    row'.headSha ≠ row.headSha ∨ row'.state ≠ row.state →
      ∃ t' ∈ w'.state.stored, t'.Of row' ∧ t'.clock = w.state.clock ∧
        ∀ t ∈ w.state.stored, t.Of row → t.time ≤ t'.time

/-! ## The order of observations -/

/-- The invariant of polls and webhooks. -/
structure Ordered (s : PollState) (_ : Nat → Option Unit) : Prop where
  /-- What is stored of a pull request comes from an observation. -/
  sourced : ∀ row ∈ s.db.pullRequests, ∃ t ∈ s.stored, t.Of row
  /-- Observations are stored after they were made. -/
  past : ∀ t ∈ s.stored, t.time ≤ s.github.time ∧ t.clock < s.clock
  reported : ∀ d ∈ s.inFlight, d.time ≤ s.github.time
  /-- Deliveries come in the order of the changes. -/
  fifo : s.inFlight.Pairwise fun d d' => d.time ≤ d'.time
  hooks : ∀ t ∈ s.stored, t.byPoll = false → ∀ d ∈ s.inFlight, t.time ≤ d.time
  listed : ∀ n, (s.listed n).1 ≤ s.github.time ∧ (s.listed n).2 ≤ s.clock
  /-- What was stored before a listing was observed before it. -/
  before : ∀ n, ∀ t ∈ s.stored, t.clock < (s.listed n).2 → t.time ≤ (s.listed n).1

/-- A row that an operation gave another head or state is one of those that it writes. -/
theorem among_numbers {repoId : Nat} {prs : List PullInfo} {closed : List Nat}
    {r : PullRequest} (h : Shown repoId prs r) :
    among repoId (Write.numbers ⟨repoId, prs, closed⟩) r = true := by
  obtain ⟨hr, pr, hpr, hn, -⟩ := h
  simp only [among, Write.numbers, Bool.and_eq_true, beq_iff_eq, List.contains_iff_mem,
    List.mem_append, List.mem_map]
  exact ⟨hr, .inl ⟨pr, hpr, hn.symm⟩⟩

section Observed

variable {s : PollState} {c : Nat → Option Unit} {repoId : Nat} {prs : List PullInfo}
  {closed : List Nat} {time : Nat} {byPoll : Bool} {db' : Db}

theorem mem_observed {t : Stored} {numbers : List Nat} :
    t ∈ (s.observed repoId numbers time byPoll db').stored ↔
      (∃ r ∈ db'.pullRequests, among repoId numbers r = true ∧
        t = ⟨r.id, r.headSha, r.state, time, byPoll, s.clock⟩) ∨ t ∈ s.stored := by
  simp only [PollState.observed, List.mem_append, List.mem_map, List.mem_filter, Table.mem_def,
    and_assoc, eq_comm]

/-- The row of a written pull request comes from the new observation. -/
theorem observed_of_among {numbers : List Nat} {r : PullRequest} (hr : r ∈ db'.pullRequests)
    (ha : among repoId numbers r = true) :
    ∃ t ∈ (s.observed repoId numbers time byPoll db').stored,
      t.Of r ∧ t.time = time ∧ t.clock = s.clock :=
  ⟨_, mem_observed.mpr (.inl ⟨r, hr, ha, rfl⟩), ⟨rfl, rfl, rfl⟩, rfl, rfl⟩

/-- The new observation keeps the order. -/
theorem Ordered.observed (h : Ordered s c)
    (hs : Stores repoId prs closed s.db db') (ht : time ≤ s.github.time)
    (hb : byPoll = false → ∀ d ∈ s.inFlight, time ≤ d.time) :
    Ordered (s.observed repoId (Write.numbers ⟨repoId, prs, closed⟩) time byPoll db') c where
  sourced := by
    intro row' hrow'
    by_cases ha : among repoId (Write.numbers ⟨repoId, prs, closed⟩) row' = true
    · exact ⟨_, mem_observed.mpr (.inl ⟨row', hrow', ha, rfl⟩), rfl, rfl, rfl⟩
    · cases hs.rows row' hrow' with
      | new _ hn => exact absurd (among_numbers hn) ha
      | @old row hrow hid hstep =>
        cases hstep with
        | kept hsame =>
          obtain ⟨t, htm, hp, hh, hst⟩ := h.sourced row hrow
          exact ⟨t, mem_observed.mpr (.inr htm), hp.trans hid, hh.trans hsame.headSha.symm,
            hst.trans hsame.state.symm⟩
        | shown _ _ hshown => exact absurd (among_numbers hshown) ha
        | closed hc hr hn =>
          refine absurd ?_ ha
          simp only [closes, Bool.and_eq_true, beq_iff_eq, List.contains_iff_mem] at hc
          simp only [among, Write.numbers, Bool.and_eq_true, beq_iff_eq, List.contains_iff_mem,
            List.mem_append]
          exact ⟨hr.trans hc.1.1, .inr (hn ▸ hc.2)⟩
  past := by
    intro t htm
    rcases mem_observed.mp htm with ⟨r, -, -, rfl⟩ | htm
    · exact ⟨ht, Nat.lt_succ_self _⟩
    · exact ⟨(h.past t htm).1, Nat.lt_succ_of_lt (h.past t htm).2⟩
  reported := h.reported
  fifo := h.fifo
  hooks := by
    intro t htm hbp
    rcases mem_observed.mp htm with ⟨r, -, -, rfl⟩ | htm
    · exact hb hbp
    · exact h.hooks t htm hbp
  listed := fun n => ⟨(h.listed n).1, Nat.le_succ_of_le (h.listed n).2⟩
  before := by
    intro n t htm hlt
    rcases mem_observed.mp htm with ⟨r, -, -, rfl⟩ | htm
    · exact absurd (h.listed n).2 (Nat.not_le.mpr hlt)
    · exact h.before n t htm hlt

end Observed

/-- The first event has left. -/
theorem Ordered.delivered {s : PollState} {c : Nat → Option Unit} (h : Ordered s c) {d : Delivery}
    {rest : List Delivery} (hd : s.inFlight = d :: rest) : Ordered { s with
      inFlight := rest } c := by
  have hmem : ∀ d' ∈ rest, d' ∈ s.inFlight := fun d' hd' => hd ▸ List.mem_cons_of_mem _ hd'
  refine { h with reported := ?_, fifo := ?_, hooks := ?_ }
  · exact fun d' hd' => h.reported d' (hmem d' hd')
  · have hf := h.fifo
    rw [hd, List.pairwise_cons] at hf
    exact hf.2
  · exact fun t ht hb d' hd' => h.hooks t ht hb d' (hmem d' hd')

/-- A poll may do anything. -/
theorem obeys_any {Q : Unit → Except Exc Polled → Prop} (hQ : ∀ r, Q () r)
    (p : Prog PollOp Exc Polled) : Prog.Obeys contract Q () p := by
  induction p with
  | ret r => exact hQ r
  | call o next ih => exact ⟨trivial, fun r _ => ih r⟩

/-- **The order of observations** is kept by every step. -/
theorem ordered_holds (G : Polls → Pool.Event HubStep → Prop) :
    Pool.Holds machine contract Begins Fresh G Ordered where
  init := by
    intro s h
    obtain ⟨hp, hf, hs, hc, ht, hl⟩ := h
    constructor
    · rw [hp]
      exact fun row hrow => absurd hrow Table.mem_empty
    · simp [hs]
    · simp [hf]
    · simp [hf]
    · simp [hs]
    · simp [hl]
    · simp [hs]
  start := fun h _ _ _ => ⟨h.sourced, h.past, h.reported, h.fifo, h.hooks, h.listed, h.before⟩
  call := by
    intro w n g β o next r s h _ _ _ hex
    have hbase : Ordered w.state (Function.update w.histories n (some (contract.after g o r))) :=
      ⟨h.sourced, h.past, h.reported, h.fifo, h.hooks, h.listed, h.before⟩
    cases o with
    | listPrs fullName =>
      cases r with
      | error e =>
        obtain rfl := hex
        exact hbase
      | ok prs =>
        obtain ⟨-, rfl⟩ := hex
        refine { hbase with past := ?_, listed := ?_, before := ?_ }
        · exact fun t ht => ⟨(h.past t ht).1, Nat.lt_succ_of_lt (h.past t ht).2⟩
        · intro m
          by_cases hm : m = n
          · subst hm
            simp
          · simp only [Function.update_of_ne hm]
            exact ⟨(h.listed m).1, Nat.le_succ_of_le (h.listed m).2⟩
        · intro m t ht hlt
          by_cases hm : m = n
          · subst hm
            simp only [Function.update_self]
            exact (h.past t ht).1
          · simp only [Function.update_of_ne hm] at hlt ⊢
            exact h.before m t ht hlt
    | _ =>
      obtain ⟨p, hp, -, rfl⟩ := hex
      exact hbase.observed (op_stores _ hp _) (h.listed n).1 fun hb => by cases hb
  outside := by
    intro w a s h _ hout
    cases a with
    | change fullName pr reported =>
      obtain rfl := hout
      have hle : ∀ {k}, k ≤ w.state.github.time → k ≤ w.state.github.time + 1 :=
        Nat.le_succ_of_le
      refine { h with past := ?_, reported := ?_, fifo := ?_, hooks := ?_, listed := ?_ }
      · exact fun t ht => ⟨hle (h.past t ht).1, (h.past t ht).2⟩
      · intro d hd
        cases reported with
        | false => exact hle (h.reported d hd)
        | true =>
          rcases List.mem_append.mp hd with hd | hd
          · exact hle (h.reported d hd)
          · rw [List.mem_singleton.mp hd]
            exact Nat.le_refl _
      · cases reported with
        | false => exact h.fifo
        | true =>
          refine List.pairwise_append.mpr ⟨h.fifo, List.pairwise_singleton _ _, ?_⟩
          intro d hd d' hd'
          rw [List.mem_singleton.mp hd']
          exact hle (h.reported d hd)
      · intro t ht hb d hd
        cases reported with
        | false => exact h.hooks t ht hb d hd
        | true =>
          rcases List.mem_append.mp hd with hd | hd
          · exact h.hooks t ht hb d hd
          · rw [List.mem_singleton.mp hd]
            exact hle (h.past t ht).1
      · exact fun n => ⟨hle (h.listed n).1, (h.listed n).2⟩
    | deliver settings =>
      obtain ⟨d, rest, hd, rfl⟩ := hout
      have hrest := h.delivered hd
      unfold PollState.delivered
      cases hr : hooked d.fullName w.state.db with
      | none => exact hrest
      | some repo =>
        have hf := h.fifo
        rw [hd, List.pairwise_cons] at hf
        have ht : d.time ≤ w.state.github.time := h.reported d (hd ▸ List.mem_cons_self)
        exact hrest.observed (githubWebhook_stores hr) ht fun _ => hf.1
    | drop =>
      obtain ⟨d, rest, hd, rfl⟩ := hout
      exact h.delivered hd
    | server =>
      obtain ⟨db', hdb', rfl⟩ := hout
      refine { h with sourced := fun row' hrow' => ?_ }
      cases hdb'.rows row' hrow' with
      | new _ hn => exact hn.elim
      | @old row hrow hid hsame =>
        obtain ⟨t, ht, hp, hh, hst⟩ := h.sourced row hrow
        exact ⟨t, ht, hp.trans hid, hh.trans hsame.headSha.symm, hst.trans hsame.state.symm⟩

/-! ## The law -/

/-- A changed row is one that the operation writes, and it was not as GitHub shows it. -/
theorem replaces_of_changed {repoId : Nat} {prs : List PullInfo} {closed : List Nat} {db db' : Db}
    (hs : Stores repoId prs closed db db') {row row' : PullRequest} (hrow : row ∈ db.pullRequests)
    (hrow' : row' ∈ db'.pullRequests) (hid : row'.id = row.id)
    (hne : row'.headSha ≠ row.headSha ∨ row'.state ≠ row.state) :
    Replaces repoId prs closed row ∧
      among repoId (Write.numbers ⟨repoId, prs, closed⟩) row' = true := by
  cases hs.rows row' hrow' with
  | new hle _ =>
    have hlt : row.id < db.pullRequests.nextId := Table.lt_nextId hrow
    omega
  | @old r hr hid' hstep =>
    obtain rfl : r = row := Table.eq_of_id hr hrow (hid'.trans hid)
    cases hstep with
    | kept hsame =>
      rcases hne with hne | hne
      · exact absurd hsame.headSha hne
      · exact absurd hsame.state hne
    | shown hk hn hshown =>
      refine ⟨.inl ?_, among_numbers hshown⟩
      obtain ⟨hr', pr, hpr, hn', hh, hst⟩ := hshown
      refine ⟨hk.symm.trans hr', pr, hpr, hn.symm.trans hn', ?_⟩
      rw [← hh, ← hst]
      exact hne.imp Ne.symm Ne.symm
    | closed hc hk hn =>
      refine ⟨.inr hc, ?_⟩
      simp only [closes, Bool.and_eq_true, beq_iff_eq, List.contains_iff_mem] at hc
      simp only [among, Write.numbers, Bool.and_eq_true, beq_iff_eq, List.contains_iff_mem,
        List.mem_append]
      exact ⟨hk.trans hc.1.1, .inr (hn ▸ hc.2)⟩

/-- A step that leaves the heads and states of the stored pull requests. -/
theorem neverOlder_of_kept {w w' : Polls} {e : Pool.Event HubStep}
    (h : PullsFrom (fun _ => False) SameHead w.state.db w'.state.db) : NeverOlder w e w' := by
  intro row hrow row' hrow' hid hne
  cases h.rows row' hrow' with
  | new _ hn => exact hn.elim
  | @old r hr hid' hsame =>
    obtain rfl : r = row := Table.eq_of_id hr hrow (hid'.trans hid)
    rcases hne with hne | hne
    · exact absurd hsame.headSha hne
    · exact absurd hsame.state hne

/-- What a poll that is in time writes is not older than what it replaces. -/
theorem neverOlder_call {s : PollState} {c : Nat → Option Unit} (h : Ordered s c) {n : Nat}
    {row : PullRequest} (hn : NotOvertaken s n row.id) :
    ∀ t ∈ s.stored, t.Of row → t.time ≤ (s.listed n).1 := by
  intro t ht hof
  rcases Nat.lt_or_ge t.clock (s.listed n).2 with hlt | hge
  · exact h.before n t ht hlt
  · exact hn t ht hof.1 hge

/-- What a webhook in time stores is not older than what it replaces. -/
theorem neverOlder_deliver {s : PollState} {c : Nat → Option Unit} (h : Ordered s c) {d : Delivery}
    (hd : d ∈ s.inFlight) {row : PullRequest} (hn : NotAhead s d row.id) :
    ∀ t ∈ s.stored, t.Of row → t.time ≤ d.time := by
  intro t ht hof
  cases hb : t.byPoll with
  | true => exact hn t ht hof.1 hb
  | false => exact h.hooks t ht hb d hd

/-- **Newer observations are kept** in every run in which polls write and webhooks store in time:
the head and state of a pull request come from an observation of GitHub, and are not replaced by
one that was made before. -/
theorem never_older (w : Polls) :
    (polling.Reach Sys.anyStep w →
      ∀ row ∈ w.state.db.pullRequests, ∃ t ∈ w.state.stored, t.Of row) ∧
    ∀ e w', polling.Reach InTime w → InTime w e → polling.step w e w' → NeverOlder w e w' := by
  have hany : ∀ s g p, Begins s g p → Prog.Obeys contract (fun _ _ => True) g p :=
    fun _ _ p _ => obeys_any (fun _ => trivial) p
  refine ⟨fun hw => (((ordered_holds _).inductive hany).reach hw).holds.sourced,
    fun e w' hr ha hs => (ordered_holds _).stepInvariant hany (fun {w e w'} hw hg hstep => ?_)
      hr ha hs⟩
  have h := hw.holds
  cases hstep with
  | start => exact neverOlder_of_kept (PullsFrom.refl SameHead.refl _)
  | @call n g β o next r s hn hex =>
    cases o with
    | listPrs fullName =>
      refine neverOlder_of_kept ((PullsFrom.refl SameHead.refl _).of_eq ?_)
      cases r with
      | error e =>
        obtain rfl := hex
        rfl
      | ok prs =>
        obtain ⟨-, rfl⟩ := hex
        rfl
    | _ =>
      obtain ⟨p, hp, -, rfl⟩ := hex
      intro row hrow row' hrow' hid hne
      obtain ⟨hrep, ha⟩ := replaces_of_changed (op_stores _ hp _) hrow hrow' hid hne
      exact ⟨_, mem_observed.mpr (.inl ⟨row', hrow', ha, rfl⟩), ⟨rfl, rfl, rfl⟩, rfl,
        neverOlder_call h (hg _ _ _ _ hn row hrow hrep)⟩
  | @outside a s hout =>
    cases a with
    | change =>
      obtain rfl := hout
      exact neverOlder_of_kept (PullsFrom.refl SameHead.refl _)
    | drop =>
      obtain ⟨d, rest, -, rfl⟩ := hout
      exact neverOlder_of_kept (PullsFrom.refl SameHead.refl _)
    | server =>
      obtain ⟨db', hdb', rfl⟩ := hout
      exact neverOlder_of_kept hdb'
    | deliver settings =>
      obtain ⟨d, rest, hd, rfl⟩ := hout
      unfold PollState.delivered
      cases hr : hooked d.fullName w.state.db with
      | none => exact neverOlder_of_kept (PullsFrom.refl SameHead.refl _)
      | some repo =>
        intro row hrow row' hrow' hid hne
        obtain ⟨hrep, ha⟩ := replaces_of_changed (githubWebhook_stores hr) hrow hrow' hid hne
        have hother : ShownOther repo.id [d.pr] row := by
          rcases hrep with ⟨hk, pr, hpr, hrest⟩ | hc
          · rw [List.mem_singleton.mp hpr] at hrest
            exact ⟨hk, d.pr, List.mem_cons_self, hrest⟩
          · simp [closes] at hc
        exact ⟨_, mem_observed.mpr (.inl ⟨row', hrow', ha, rfl⟩), ⟨rfl, rfl, rfl⟩, rfl,
          neverOlder_deliver h (hd ▸ List.mem_cons_self) (hg _ _ _ hd hr row hrow hother)⟩

/-! ## Runs -/

namespace Polls

/-- A step beside the polls. -/
def beside (w : Polls) (s : PollState) : Polls := { w with state := s }

/-- A poll starts. -/
def start (w : Polls) (n : Nat) (repo : Repo) (settings : PollSettings) : Polls :=
  w.put n () (pollRepo repo settings false)

/-- A pull request changes on GitHub, and the change is reported. -/
def change (w : Polls) (fullName : Text) (pr : PullInfo) : Polls :=
  w.beside { w.state with
    github := w.state.github.push (GitHub.change w.state.github.now fullName pr)
    inFlight := w.state.inFlight ++ [⟨fullName, pr, w.state.github.time + 1⟩] }

/-- The oldest event is delivered. -/
def deliver (w : Polls) (settings : PollSettings) : Polls :=
  match w.state.inFlight with
  | [] => w
  | d :: rest => w.beside (w.state.delivered settings d rest)

/-- Poll `n` issues its next operation on the database. -/
def call (w : Polls) (n : Nat) : Polls :=
  match w.threads n with
  | some (_, .call o next) =>
    match o.program with
    | none => w
    | some p => { w with
      state := w.state.moved n o (p.run w.state.db).2 }.put n () (next (p.run w.state.db).1)
  | _ => w

/-- Poll `n` lists. -/
def list (w : Polls) (n : Nat) (prs : List PullInfo) : Polls :=
  match w.threads n with
  | some (_, .call (.listPrs _) next) =>
    { w with
      state := { w.state with
        clock := w.state.clock + 1
        listed := Function.update w.state.listed n (w.state.github.time, w.state.clock) } }.put n ()
      (next (.ok prs))
  | _ => w

variable {G : Polls → Pool.Event HubStep → Prop} {w : Polls}

theorem step_call {n : Nat} {β : Type} {o : PollOp β} {p : Sql Db Exc β}
    {next : Except Exc β → Prog PollOp Exc Polled} (hn : w.threads n = some ((), .call o next))
    (hp : o.program = some p) : polling.step w (.call n) (w.call n) := by
  have hc : w.call n = { w with
      state := w.state.moved n o (p.run w.state.db).2 }.put n () (next (p.run w.state.db).1) := by
    unfold call
    rw [hn]
    simp only [hp]
  rw [hc]
  have hex : machine.exec n o w.state (p.run w.state.db).1
      (w.state.moved n o (p.run w.state.db).2) := by
    cases o with
    | listPrs => cases hp
    | _ => exact ⟨p, hp, rfl, rfl⟩
  exact .call hn hex

theorem step_list {n : Nat} {fullName : Text} {prs : List PullInfo}
    {next : Except Exc (List PullInfo) → Prog PollOp Exc Polled}
    (hn : w.threads n = some ((), .call (.listPrs fullName) next))
    (hl : Lists (w.state.github.now (Text.lower fullName)) prs) :
    polling.step w (.call n) (w.list n prs) := by
  have hc : w.list n prs = { w with
      state := { w.state with
        clock := w.state.clock + 1
        listed := Function.update w.state.listed n (w.state.github.time, w.state.clock) } }.put n ()
      (next (.ok prs)) := by
    unfold list
    rw [hn]
  rw [hc]
  exact .call hn (show machine.exec n (.listPrs fullName) w.state (.ok prs) _ from ⟨hl, rfl⟩)

theorem step_change (fullName : Text) (pr : PullInfo) :
    polling.step w (.outside (.change fullName pr true)) (w.change fullName pr) :=
  have ho : machine.outside (.change fullName pr true) w.state (w.change fullName pr).state := rfl
  .outside ho

theorem step_deliver (settings : PollSettings) {d : Delivery} {rest : List Delivery}
    (hd : w.state.inFlight = d :: rest) :
    polling.step w (.outside (.deliver settings)) (w.deliver settings) := by
  have hw : w.deliver settings = w.beside (w.state.delivered settings d rest) := by
    unfold deliver
    rw [hd]
  have ho : machine.outside (.deliver settings) w.state (w.state.delivered settings d rest) :=
    ⟨d, rest, hd, rfl⟩
  rw [hw]
  exact .outside ho

end Polls

/-! ## A poll that was overtaken -/

def autoRepo : Repo where
  id := 1
  fullName := "o/r".toList
  enabled := true
  triggerMode := .auto
  claudeModel := none
  claudeEffort := none
  codexModel := none
  codexEffort := none
  vendorClaudeOn := true
  vendorCodexOn := true
  mergeEnabled := false
  harnessName := "default".toList
  incrementalReviewOn := none
  verifySinglesOn := none
  skipDraftOn := none
  reviewScopeGuardMode := none
  reviewDedupeMode := none

/-- A server with one repository, before anything was observed. -/
def watching : Polls where
  state := {
    db := { Db.empty 0 with
      repos := .ofRows [autoRepo] 2 (by decide) (by decide) }
    github := .start fun _ => []
    inFlight := []
    stored := []
    clock := 0
    listed := fun _ => (0, 0) }
  threads := fun _ => none

/-- A pull request at a head. -/
def pullAt (headSha : Sha) : PullInfo :=
  ⟨7, "t".toList, "a".toList, headSha, "main".toList, "u".toList, .opened, none, [], [], false, []⟩

/-- A webhook has stored a new pull request. -/
def hookedNew : Polls := (watching.change "o/r".toList (pullAt "A".toList)).deliver ⟨false⟩

/-- A commit is pushed to it. -/
def pushed (w : Polls) : Polls := w.change "o/r".toList (pullAt "B".toList)

theorem reach_hookedNew {G : Polls → Pool.Event HubStep → Prop}
    (hg : G watching (.outside (.change "o/r".toList (pullAt "A".toList) true)))
    (hg' : G (watching.change "o/r".toList (pullAt "A".toList)) (.outside (.deliver ⟨false⟩))) :
    polling.Reach G hookedNew :=
  have h₀ : polling.Reach G watching := .init ⟨⟨rfl, rfl, rfl, rfl, rfl, rfl⟩, fun _ => rfl⟩
  (h₀.step hg (Polls.step_change _ _)).step hg' (Polls.step_deliver ⟨false⟩ rfl)

/-- A webhook that no poll has overtaken. -/
theorem inTime_deliver {w : Polls} (settings : PollSettings)
    (h : ∀ t ∈ w.state.stored, t.byPoll = false) : InTime w (.outside (.deliver settings)) := by
  intro d rest repo _ _ row _ _ t ht _ hb
  rw [h t ht] at hb
  cases hb

/-- The webhook of the push stores the newer head. -/
theorem never_older_pushed :
    NeverOlder (pushed hookedNew) (.outside (.deliver ⟨false⟩))
      ((pushed hookedNew).deliver ⟨false⟩) := by
  have h₁ : polling.Reach InTime hookedNew :=
    reach_hookedNew trivial (inTime_deliver ⟨false⟩ (by decide))
  have h₂ : polling.Reach InTime (pushed hookedNew) :=
    h₁.step (a := .outside (.change "o/r".toList (pullAt "B".toList) true)) trivial
      (Polls.step_change _ _)
  exact (never_older _).2 _ _ h₂ (inTime_deliver ⟨false⟩ (by decide))
    (Polls.step_deliver ⟨false⟩ rfl)

/-- A poll has listed the pull request before the push, and the webhook of the push was delivered
since. -/
def overtaken : Polls :=
  (pushed (((hookedNew.start 0 autoRepo ⟨false⟩).call 0).list 0
    [pullAt "A".toList])).deliver ⟨false⟩

theorem reach_overtaken : polling.Reach Sys.anyStep overtaken := by
  have h₀ : polling.Reach Sys.anyStep hookedNew := reach_hookedNew trivial trivial
  have h₁ : polling.Reach Sys.anyStep (hookedNew.start 0 autoRepo ⟨false⟩) :=
    h₀.step (a := .start 0) trivial (.start rfl (.poll autoRepo ⟨false⟩ false))
  have h₂ := h₁.step trivial (Polls.step_call (n := 0) rfl rfl)
  have hl : Lists (((hookedNew.start 0 autoRepo ⟨false⟩).call 0).state.github.now "o/r".toList)
      [pullAt "A".toList] := ⟨by decide, by decide, by decide, by decide⟩
  have h₃ := h₂.step trivial (Polls.step_list (n := 0) rfl hl)
  exact (h₃.step trivial (Polls.step_change "o/r".toList (pullAt "B".toList))).step trivial
    (Polls.step_deliver ⟨false⟩ rfl)

/-- **A webhook that a poll overwrites.** The poll stores the head that it listed before the push
over the one that the webhook has stored since. -/
theorem webhook_overwritten : ¬polling.StepInvariant Sys.anyStep NeverOlder := by
  intro h
  have hstep := h reach_overtaken trivial (Polls.step_call (n := 0) rfl rfl)
  have hrow : ∃ row ∈ overtaken.state.db.pullRequests.rows,
      ∃ row' ∈ (overtaken.call 0).state.db.pullRequests.rows, row'.id = row.id ∧
        row'.headSha ≠ row.headSha ∧ ∃ t ∈ overtaken.state.stored,
          (t.prId = row.id ∧ t.headSha = row.headSha ∧ t.state = row.state) ∧
          ∀ t' ∈ (overtaken.call 0).state.stored, t'.clock = overtaken.state.clock →
            t'.time < t.time := by
    decide +kernel
  obtain ⟨row, hr, row', hr', hid, hne, t, ht, hof, hlt⟩ := hrow
  obtain ⟨t', ht', -, hc, hle⟩ := hstep row hr row' hr' hid (.inl hne)
  exact absurd (hle t ht hof) (Nat.not_le.mpr (hlt t' ht' hc))

end Poller
