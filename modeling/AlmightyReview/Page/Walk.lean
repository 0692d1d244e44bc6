import AlmightyReview.Page.Findings

/-!
# Walks over the findings

A client asks for the first page of a run, and then for the page of each `next_cursor`, until there
is none. Between two requests findings may be inserted, and statuses may change.

* `Later`: such a change. `walk`: the requests, one after the other.
* `Complete`: the items are the findings of the run at the first request, each once and in order;
  only their statuses may be later ones.
* `BoundariesFit`: the last item of every page but the last has a cursor that is carried.
* `walk_complete_iff`: a walk is complete exactly then.
-/

namespace PageRepo

open Json Pagination FindingSummary

/-! ## Changes between two requests -/

inductive Later where
  | insert (row : FindingRow)
  | setStatus (id : Nat) (status : Text)

/-- A new finding gets the next id. -/
def Later.change (db : SummaryDb) : Later → Change
  | insert row => .insert { row with id := db.findings.nextId }
  | setStatus id status => .update id { status := some status }

def Later.apply (db : SummaryDb) (l : Later) : SummaryDb := (l.change db).apply .current db

/-- What does not change of a finding: all but its status. -/
def kept (f : FindingRow) : FindingRow := { f with status := [] }

theorem pageKey_kept (f : FindingRow) : pageKey (kept f) = pageKey f := rfl

/-- The findings up to a snapshot are the same but for their statuses, and no new one can be among
them. -/
structure Kept (runId snapshot : Nat) (base : List FindingRow) (db : SummaryDb) : Prop where
  rows : ((snapshotRows runId snapshot db).map kept).Perm (base.map kept)
  lt : snapshot < db.findings.nextId

variable {runId snapshot : Nat} {base : List FindingRow} {db : SummaryDb}

theorem Kept.later (h : Kept runId snapshot base db) (l : Later) :
    Kept runId snapshot base (l.apply db) := by
  cases l with
  | insert row =>
    have hnew : ∀ f ∈ db.findings, f.id ≠ db.findings.nextId := fun f hf =>
      Nat.ne_of_lt (Table.lt_nextId hf)
    have happly : (Later.insert row).apply db = ⟨db.findings.put { row with id :=
        db.findings.nextId }, insertTrigger { row with id := db.findings.nextId } db.summaries⟩ :=
      Change.apply_insert .current hnew
    have hrows : snapshotRows runId snapshot ((Later.insert row).apply db) =
        snapshotRows runId snapshot db := by
      have hlt := h.lt
      rw [happly]
      unfold snapshotRows
      rw [Table.rows_put hnew, List.filter_append]
      simp [hlt]
    refine ⟨?_, ?_⟩
    · rw [hrows]
      exact h.rows
    · rw [happly]
      exact h.lt.trans_le Table.nextId_le_put
  | setStatus id status =>
    cases hget : db.findings.get? id with
    | none =>
      have happly : (Later.setStatus id status).apply db = db := by
        simp only [Later.apply, Later.change, Change.apply, hget]
      rwa [happly]
    | some old =>
      obtain ⟨hold, rfl⟩ := Table.get?_eq_some.mp hget
      let new : FindingRow := { old with status := status }
      have hfree : ∀ f ∈ db.findings.delete fun f => f.id == old.id, f.id ≠ new.id := fun f hf =>
        ne_of_mem_rest hf
      have happly : ((Later.setStatus old.id status).apply db).findings =
          (db.findings.delete fun f => f.id == old.id).put new :=
        congrArg SummaryDb.findings (Change.apply_update .current hold rfl)
      let p : FindingRow → Bool := fun f => f.runId == runId && decide (f.id ≤ snapshot)
      let rest := (db.findings.delete fun f => f.id == old.id).rows
      have hrows : snapshotRows runId snapshot ((Later.setStatus old.id status).apply db) =
          (rest ++ [new]).filter p := by
        unfold snapshotRows
        rw [happly, Table.rows_put hfree]
      have hbefore : (snapshotRows runId snapshot db).Perm ((old :: rest).filter p) :=
        (Table.perm_delete_id hold).filter p
      have hsame : ((new :: rest).filter p).map kept = ((old :: rest).filter p).map kept := by
        have hp : p new = p old := rfl
        rw [List.filter_cons, List.filter_cons, hp]
        split <;> rfl
      rw [FindingRow.row_id]
      refine ⟨?_, ?_⟩
      · rw [hrows]
        refine (((List.perm_append_singleton new rest).filter p).map kept).trans ?_
        rw [hsame]
        exact (hbefore.map kept).symm.trans h.rows
      · rw [happly]
        exact h.lt.trans_le (Table.nextId_le_put (t := db.findings.delete fun f => f.id == old.id))

/-- The run of changes. -/
theorem Kept.laterAll (h : Kept runId snapshot base db) (ls : List Later) :
    Kept runId snapshot base (ls.foldl Later.apply db) := by
  induction ls generalizing db with
  | nil => exact h
  | cons l ls ih => exact ih (h.later l)

/-! ## The findings in order -/

/-- The findings of a run. -/
def rowsOfRun (runId : Nat) (db : SummaryDb) : List FindingRow :=
  db.findings.rows.filter (ofRun runId)

def sortRows (rows : List FindingRow) : List FindingRow :=
  rows.insertionSort fun f g => pageKey f ≤ pageKey g

theorem map_sortRows (rows : List FindingRow) :
    (sortRows rows).map pageKey = Seek.keys pageKey rows :=
  List.map_insertionSort (fun f g => pageKey f ≤ pageKey g) (· ≤ ·) pageKey _ fun _ _ _ _ => Iff.rfl

theorem Kept.keys (h : Kept runId snapshot base db) :
    Seek.keys pageKey (snapshotRows runId snapshot db) = Seek.keys pageKey base := by
  have hperm : ((snapshotRows runId snapshot db).map pageKey).Perm (base.map pageKey) := by
    simpa only [List.map_map, Function.comp_def, pageKey_kept] using h.rows.map pageKey
  refine Seek.eq_of_sorted (List.pairwise_insertionSort _ _) (List.pairwise_insertionSort _ _) ?_
  exact (List.perm_insertionSort _ _).trans (hperm.trans (List.perm_insertionSort _ _).symm)

/-- Findings of one place in the order are the same but for their statuses. -/
theorem map_kept_eq {xs ys : List FindingRow} (hn : (base.map pageKey).Nodup)
    (hx : ∀ f ∈ xs, kept f ∈ base.map kept) (hy : ∀ f ∈ ys, kept f ∈ base.map kept)
    (h : xs.map pageKey = ys.map pageKey) : xs.map kept = ys.map kept := by
  induction xs generalizing ys with
  | nil =>
    obtain rfl : ys = [] := List.map_eq_nil_iff.mp h.symm
    rfl
  | cons f xs ih =>
    cases ys with
    | nil => cases h
    | cons g ys =>
      obtain ⟨hkey, hrest⟩ := List.cons.inj h
      obtain ⟨f', hf', hff⟩ := List.mem_map.mp (hx f List.mem_cons_self)
      obtain ⟨g', hg', hgg⟩ := List.mem_map.mp (hy g List.mem_cons_self)
      have hkeys : pageKey f' = pageKey g' := by
        rw [← pageKey_kept f', ← pageKey_kept g', hff, hgg]
        exact hkey
      have hfg : kept f = kept g := by
        rw [← hff, ← hgg, List.inj_on_of_nodup_map hn hf' hg' hkeys]
      rw [List.map_cons, List.map_cons, hfg,
        ih (fun u hu => hx u (List.mem_cons_of_mem _ hu))
          (fun u hu => hy u (List.mem_cons_of_mem _ hu)) hrest]

theorem mem_findingsPage {after : Option PageKey} {limit : Nat} {f : FindingRow}
    (h : f ∈ findingsPage runId snapshot after limit db) : f ∈ snapshotRows runId snapshot db :=
  List.mem_of_mem_filter ((List.mem_insertionSort _).mp (List.mem_of_mem_take h))

/-! ## Summaries in another order -/

/-- The same counts, the statuses in any order. -/
structure PageSummary.Same (s t : PageSummary) : Prop where
  total : s.totalCount = t.totalCount
  statuses : s.statusCounts.Perm t.statusCounts
  postable : s.postableCount = t.postableCount

variable {s t : PageSummary} {f g : FindingRow}

theorem PageSummary.Same.symm (h : s.Same t) : t.Same s :=
  ⟨h.total.symm, h.statuses.symm, h.postable.symm⟩

theorem PageSummary.Same.valid (h : s.Same t) (hvalid : t.Valid) : s.Valid := by
  refine ⟨?_, ?_⟩
  · rw [h.postable, h.total]
    exact hvalid.1
  · rw [(h.statuses.map Prod.snd).sum_eq, h.total]
    exact hvalid.2

theorem PageSummary.Same.nodup (h : s.Same t) (hkeys : (t.statusCounts.map Prod.fst).Nodup) :
    (s.statusCounts.map Prod.fst).Nodup :=
  (h.statuses.map Prod.fst).nodup_iff.mpr hkeys

theorem PageSummary.Same.countsWidth (h : s.Same t) :
    countsWidth s.statusCounts = countsWidth t.statusCounts := by
  unfold PageRepo.countsWidth
  rw [(h.statuses.map _).sum_eq, h.statuses.length_eq]

/-- What a cursor needs does not change with the status of its finding. -/
theorem PageSummary.Same.fits (h : s.Same t) (hfg : kept f = kept g)
    (hfits : Fits runId snapshot t g) : Fits runId snapshot s f := by
  have hfile : f.file = g.file :=
    show (kept f).file = (kept g).file from congrArg FindingRow.file hfg
  have hconfidence : f.confidence = g.confidence :=
    show (kept f).confidence = (kept g).confidence from congrArg FindingRow.confidence hfg
  have hid : f.id = g.id := show (kept f).id = (kept g).id from congrArg FindingRow.id hfg
  have hwidth : cursorWidth runId snapshot s f = cursorWidth runId snapshot t g := by
    unfold cursorWidth confidenceWidth
    rw [h.total, h.postable, h.countsWidth, hfile, hconfidence, hid]
  refine ⟨?_, ?_⟩
  · rw [hfile]
    exact hfits.path
  · rw [hwidth]
    exact hfits.width

/-! ## One page -/

/-- A start behind the rows that were served. -/
structure At (start : Start) (snapshot : Nat) (summary : PageSummary) (done : List FindingRow) :
    Prop where
  snapshot : start.snapshot = snapshot
  summary : start.summary.Same summary
  after : start.after.map keyOf = done.getLast?.map fun f => some (pageKey f)

variable (secret : Text) (outside : List Loaded → Except Exc (List FindingRow))
  {summary : PageSummary} {start : Start} {done left : List FindingRow} {limit : Nat}

theorem At.rowsFrom (h : At start snapshot summary done) (hkept : Kept runId snapshot base db)
    (hn : (base.map pageKey).Nodup) (hsort : sortRows base = done ++ left) (n : Nat) :
    ∃ rows, rowsFrom outside runId start n db = .ok rows ∧
      rows.map kept = (left.take n).map kept := by
  have hkeys : Seek.keys pageKey (snapshotRows runId snapshot db) =
      done.map pageKey ++ left.map pageKey := by
    rw [hkept.keys, ← map_sortRows, hsort, List.map_append]
  have hsorted : (done.map pageKey ++ left.map pageKey).Pairwise (· < ·) := by
    rw [← hkeys]
    exact Seek.pairwise_keys (nodup_keys runId snapshot db)
  have hpage : ∀ after, (done.map pageKey ++ left.map pageKey).filter (Seek.isAfter after) =
      left.map pageKey → (findingsPage runId snapshot after n db).map kept =
        (left.take n).map kept := by
    intro after hafter
    refine map_kept_eq hn ?_ ?_ ?_
    · intro f hf
      exact hkept.rows.mem_iff.mp (List.mem_map_of_mem (mem_findingsPage hf))
    · intro f hf
      have hmem : f ∈ sortRows base := by
        rw [hsort]
        exact List.mem_append_right _ (List.mem_of_mem_take hf)
      exact List.mem_map_of_mem ((List.mem_insertionSort _).mp hmem)
    · unfold findingsPage
      rw [Seek.map_page, hkeys, hafter, List.map_take]
  have hafter := h.after
  unfold PageRepo.rowsFrom
  rw [h.snapshot]
  cases hstart : start.after with
  | none =>
    rw [hstart, Option.map_none, eq_comm, Option.map_eq_none_iff,
      List.getLast?_eq_none_iff] at hafter
    subst hafter
    exact ⟨_, rfl, hpage none (List.filter_eq_self.mpr fun _ _ => rfl)⟩
  | some position =>
    rw [hstart, Option.map_some, eq_comm, Option.map_eq_some_iff] at hafter
    obtain ⟨f, hlast, hkey⟩ := hafter
    dsimp only
    rw [← hkey]
    refine ⟨_, rfl, hpage (some (pageKey f)) (Seek.filter_after hsorted ?_)⟩
    rw [List.getLast?_map, hlast, Option.map_some]

/-- The last page has all rows that are left. -/
theorem At.respond_last (h : At start snapshot summary done)
    (hkept : Kept runId snapshot base db) (hn : (base.map pageKey).Nodup)
    (hsort : sortRows base = done ++ left) (hle : left.length ≤ limit) :
    ∃ items, respond secret outside runId start limit db =
        .ok ⟨items, limit, none, start.summary⟩ ∧ items.map kept = left.map kept := by
  obtain ⟨rows, hrows, hmap⟩ := h.rowsFrom outside hkept hn hsort (limit + 1)
  have htake : left.take (limit + 1) = left := List.take_of_length_le (by omega)
  rw [htake] at hmap
  have hlen : rows.length = left.length := by simpa using congrArg List.length hmap
  have hall : rows.take limit = rows := List.take_of_length_le (by omega)
  refine ⟨rows.take limit, ?_, by rw [hall, hmap]⟩
  have hnext : nextCursor secret runId start limit rows = .ok none := if_neg (by omega)
  unfold respond
  rw [hrows]
  simp only [bind, Except.bind, hnext]
  rfl

/-- A page with more rows behind it has the cursor of its last row. -/
theorem At.respond_more (h : At start snapshot summary done)
    (hkept : Kept runId snapshot base db) (hn : (base.map pageKey).Nodup)
    (hsort : sortRows base = done ++ left) (hpos : 1 ≤ limit) (hlt : limit < left.length) :
    ∃ items f g, (left.take limit).getLast? = some g ∧ kept f = kept g ∧
      items.map kept = (left.take limit).map kept ∧
      respond secret outside runId start limit db =
        (findingCursor secret runId snapshot start.summary f).map fun token =>
          ⟨items, limit, some token, start.summary⟩ := by
  obtain ⟨rows, hrows, hmap⟩ := h.rowsFrom outside hkept hn hsort (limit + 1)
  have hlen : rows.length = limit + 1 := by
    have := congrArg List.length hmap
    rw [List.length_map, List.length_map, List.length_take] at this
    omega
  have hitems : (rows.take limit).map kept = (left.take limit).map kept := by
    have := congrArg (List.take limit) hmap
    rw [← List.map_take, ← List.map_take, List.take_take, min_eq_left (Nat.le_succ limit)] at this
    exact this
  have hne : rows.take limit ≠ [] := by
    intro hnil
    have := congrArg List.length hnil
    rw [List.length_take, List.length_nil] at this
    omega
  obtain ⟨f, hf⟩ : ∃ f, (rows.take limit).getLast? = some f :=
    ⟨_, List.getLast?_eq_some_getLast hne⟩
  have hlast := congrArg List.getLast? hitems
  rw [List.getLast?_map, List.getLast?_map, hf, Option.map_some, eq_comm,
    Option.map_eq_some_iff] at hlast
  obtain ⟨g, hg, hfg⟩ := hlast
  refine ⟨rows.take limit, f, g, hg, hfg.symm, hitems, ?_⟩
  have hnext : nextCursor secret runId start limit rows =
      (findingCursor secret runId snapshot start.summary f).map some := by
    unfold nextCursor
    rw [if_pos (by omega), hf, h.snapshot]
  unfold respond
  rw [hrows]
  simp only [bind, Except.bind, hnext]
  cases findingCursor secret runId snapshot start.summary f <;> rfl

/-! ## Walks -/

/-- A request for a page, and what happens after it. -/
structure Visit where
  limit : Nat
  later : List Later

/-- The items of the pages, and the cursor that is left. -/
def walk (depth : Nat) (secret : Text) (outside : List Loaded → Except Exc (List FindingRow))
    (known : Nat → Bool) (runId : Nat) :
    List Visit → Option Text → SummaryDb → Except Exc (List FindingRow × Option Text)
  | [], cursor, _ => .ok ([], cursor)
  | v :: vs, cursor, db => do
    let page ← runFindings depth secret outside known runId v.limit cursor db
    match page.nextCursor with
    | none => pure (page.items, none)
    | some token =>
      let (items, rest) ← walk depth secret outside known runId vs (some token)
        (v.later.foldl Later.apply db)
      pure (page.items ++ items, rest)

/-- The items are the findings of the run, each once and in order. -/
structure Complete (runId : Nat) (db : SummaryDb) (items : List FindingRow) : Prop where
  exact : (items.map kept).Perm ((rowsOfRun runId db).map kept)
  ordered : items.Pairwise fun f g => pageKey f < pageKey g

/-- The last row of every page but the last fits. -/
def BoundariesFit (fits : FindingRow → Prop) : List Nat → List FindingRow → Prop
  | [], _ => True
  | limit :: limits, rows => rows.length ≤ limit ∨
      (∀ f ∈ (rows.take limit).getLast?, fits f) ∧ BoundariesFit fits limits (rows.drop limit)

section Run

variable {depth : Nat} {known : Nat → Bool}

/-- The next request starts behind the rows that were served. -/
def Opens (depth : Nat) (secret : Text) (outside : List Loaded → Except Exc (List FindingRow))
    (known : Nat → Bool) (runId snapshot : Nat) (summary : PageSummary) (cursor : Option Text)
    (db : SummaryDb) (done : List FindingRow) : Prop :=
  ∀ limit, 1 ≤ limit → limit ≤ 100 → ∃ start : Start, At start snapshot summary done ∧
    runFindings depth secret outside known runId limit cursor db =
      respond secret outside runId start limit db

variable (hdepth : 4 ≤ depth) (hknown : known runId = true) (hvalid : summary.Valid)
  (hkeys : (summary.statusCounts.map Prod.fst).Nodup) (hn : (base.map pageKey).Nodup)

include hdepth hknown

/-- A request with a cursor that was issued is answered only if the path can be read. -/
theorem path_of_runFindings {token : Text} {page : FindingsPage}
    (hissue : findingCursor secret runId snapshot s f = .ok token)
    (hs : (s.statusCounts.map Prod.fst).Nodup)
    (hrun : runFindings depth secret outside known runId limit (some token) db = .ok page) :
    (f.file.getD []).length ≤ 1024 := by
  obtain ⟨hwidth, htoken⟩ := findingCursor_ok.mp hissue
  have hissued : Issued secret depth runId snapshot s f token := ⟨hwidth, htoken, hs, hdepth⟩
  have hdecode := hissued.decode runFindingsResource (some (runId : Int))
  cases hread : readPayload runFindingsResource (some (runId : Int))
      (findingPayload runId snapshot s f).loaded with
  | some q => exact (hissued.readPayload_iff.mp hread).1.2.2
  | none =>
    rw [hread] at hdecode
    have hfilter : (some token).filter (· ≠ []) = some token := by
      have hne : token ≠ [] := by
        rw [htoken, tokenOf]
        exact List.append_ne_nil_of_right_ne_nil _ (List.cons_ne_nil _ _)
      simp [hne]
    have hopen : openCursor depth secret runId (some token) db = .error badCursor := by
      unfold openCursor
      rw [hfilter]
      dsimp only
      rw [hdecode]
      rfl
    unfold runFindings at hrun
    rw [hopen] at hrun
    by_cases hquery : ValidQuery limit (some token)
    · rw [if_neg (not_not.mpr hquery), if_neg (by simp [hknown])] at hrun
      cases hrun
    · rw [if_pos hquery] at hrun
      cases hrun

include hvalid hkeys

/-- The cursor of the last row of a page opens the next page. -/
theorem opens_of_fits {token : Text} (hsame : s.Same summary) (hfits : Fits runId snapshot s f)
    (hissue : findingCursor secret runId snapshot s f = .ok token)
    (hlast : done.getLast? = some g) (hfg : kept f = kept g) (db : SummaryDb) :
    Opens depth secret outside known runId snapshot summary (some token) db done := by
  intro limit hlow hhigh
  have hcarried : Carried depth secret outside runId snapshot s f :=
    hfits.carried hdepth (hsame.valid hvalid) (hsame.nodup hkeys)
  obtain ⟨token', hissue', -, hopen, -⟩ := hcarried
  obtain rfl : token' = token := Except.ok.inj (hissue'.symm.trans hissue)
  obtain ⟨start, hresumes, hrun⟩ := hopen known limit db hknown hlow hhigh
  refine ⟨start, ?_, hrun⟩
  obtain ⟨position, hposition, hkey⟩ := Option.bind_eq_some_iff.mp hresumes.after
  have hfg' : pageKey f = pageKey g :=
    show pageKey (kept f) = pageKey (kept g) from congrArg pageKey hfg
  exact
    { snapshot := hresumes.snapshot
      summary :=
        ⟨hresumes.total.trans hsame.total, hresumes.statuses.trans hsame.statuses,
          hresumes.postable.trans hsame.postable⟩
      after := by rw [hposition, hlast, Option.map_some, Option.map_some, hkey, hfg'] }

include hn

theorem walk_of_fit {visits : List Visit} {cursor : Option Text}
    (hkept : Kept runId snapshot base db) (hsort : sortRows base = done ++ left)
    (hopens : Opens depth secret outside known runId snapshot summary cursor db done)
    (hlimits : ∀ v ∈ visits, 1 ≤ v.limit ∧ v.limit ≤ 100) (hne : visits ≠ [])
    (henough : left.length ≤ (visits.map Visit.limit).sum)
    (hfit : BoundariesFit (Fits runId snapshot summary) (visits.map Visit.limit) left) :
    ∃ items, walk depth secret outside known runId visits cursor db = .ok (items, none) ∧
      items.map kept = left.map kept := by
  induction visits generalizing cursor db done left with
  | nil => exact absurd rfl hne
  | cons v vs ih =>
    obtain ⟨hlow, hhigh⟩ := hlimits v List.mem_cons_self
    obtain ⟨start, hat, hrun⟩ := hopens v.limit hlow hhigh
    rw [List.map_cons, List.sum_cons] at henough
    rw [walk, hrun]
    by_cases hlast : left.length ≤ v.limit
    · obtain ⟨items, hrespond, hitems⟩ :=
        hat.respond_last secret outside hkept hn hsort hlast
      rw [hrespond]
      exact ⟨items, rfl, hitems⟩
    · obtain ⟨items, f, g, hg, hfg, hitems, hrespond⟩ :=
        hat.respond_more secret outside hkept hn hsort hlow (by omega)
      obtain ⟨hboundary, hrest⟩ := hfit.resolve_left hlast
      have hfits : Fits runId snapshot start.summary f := hat.summary.fits hfg (hboundary g hg)
      have hcarried : Carried depth secret outside runId snapshot start.summary f :=
        hfits.carried hdepth (hat.summary.valid hvalid) (hat.summary.nodup hkeys)
      obtain ⟨token, hissue, -⟩ := hcarried
      have hdone : (done ++ left.take v.limit).getLast? = some g := by
        rw [List.getLast?_append, hg]
        rfl
      have hopens' := opens_of_fits secret outside hdepth hknown hvalid hkeys hat.summary
        hfits hissue hdone hfg (v.later.foldl Later.apply db)
      have hsort' : sortRows base = (done ++ left.take v.limit) ++ left.drop v.limit := by
        rw [List.append_assoc, List.take_append_drop, hsort]
      have hlen : (left.drop v.limit).length ≤ (vs.map Visit.limit).sum := by
        rw [List.length_drop]
        omega
      have hvs : vs ≠ [] := by
        rintro rfl
        rw [List.map_nil, List.sum_nil] at henough
        omega
      obtain ⟨more, hwalk, hmore⟩ := ih (hkept.laterAll v.later) hsort' hopens'
        (fun u hu => hlimits u (List.mem_cons_of_mem _ hu)) hvs hlen hrest
      refine ⟨items ++ more, ?_, ?_⟩
      · rw [hrespond, hissue]
        simp only [Except.map, bind, Except.bind, hwalk]
        rfl
      · rw [List.map_append, hitems, hmore, ← List.map_append, List.take_append_drop]

/-- A walk that ends has met no boundary that does not fit. -/
theorem fit_of_walk {visits : List Visit} {cursor : Option Text} {items : List FindingRow}
    (hkept : Kept runId snapshot base db) (hsort : sortRows base = done ++ left)
    (hopens : Opens depth secret outside known runId snapshot summary cursor db done)
    (hlimits : ∀ v ∈ visits, 1 ≤ v.limit ∧ v.limit ≤ 100)
    (hwalk : walk depth secret outside known runId visits cursor db = .ok (items, none)) :
    BoundariesFit (Fits runId snapshot summary) (visits.map Visit.limit) left := by
  induction visits generalizing cursor db done left items with
  | nil => trivial
  | cons v vs ih =>
    obtain ⟨hlow, hhigh⟩ := hlimits v List.mem_cons_self
    obtain ⟨start, hat, hrun⟩ := hopens v.limit hlow hhigh
    by_cases hlast : left.length ≤ v.limit
    · exact .inl hlast
    obtain ⟨_, f, g, hg, hfg, -, hrespond⟩ :=
      hat.respond_more secret outside hkept hn hsort hlow (by omega)
    rw [walk, hrun, hrespond] at hwalk
    cases hissue : findingCursor secret runId snapshot start.summary f with
    | error e =>
      rw [hissue] at hwalk
      cases hwalk
    | ok token =>
      rw [hissue] at hwalk
      simp only [Except.map, bind, Except.bind] at hwalk
      cases hmore : walk depth secret outside known runId vs (some token)
          (v.later.foldl Later.apply db) with
      | error e =>
        rw [hmore] at hwalk
        cases hwalk
      | ok more =>
        rw [hmore] at hwalk
        have hend : more.2 = none := congrArg Prod.snd (Except.ok.inj hwalk)
        -- the next request was answered
        have hpath : (f.file.getD []).length ≤ 1024 := by
          cases vs with
          | nil =>
            rw [← Except.ok.inj hmore] at hend
            cases hend
          | cons u us =>
            rw [walk] at hmore
            cases hnext : runFindings depth secret outside known runId u.limit (some token)
                (v.later.foldl Later.apply db) with
            | error e =>
              rw [hnext] at hmore
              cases hmore
            | ok page =>
              exact path_of_runFindings secret outside hdepth hknown hissue
                (hat.summary.nodup hkeys) hnext
        have hfits : Fits runId snapshot start.summary f :=
          ⟨hpath, (findingCursor_ok.mp hissue).1⟩
        have hdone : (done ++ left.take v.limit).getLast? = some g := by
          rw [List.getLast?_append, hg]
          rfl
        have hopens' := opens_of_fits secret outside hdepth hknown hvalid hkeys hat.summary
          hfits hissue hdone hfg (v.later.foldl Later.apply db)
        have hsort' : sortRows base = (done ++ left.take v.limit) ++ left.drop v.limit := by
          rw [List.append_assoc, List.take_append_drop, hsort]
        refine .inr ⟨fun g' hg' => ?_, ?_⟩
        · obtain rfl : g = g' := Option.some.inj (hg.symm.trans hg')
          exact hat.summary.symm.fits hfg.symm hfits
        · have hrest : walk depth secret outside known runId vs (some token)
              (v.later.foldl Later.apply db) = .ok (more.1, none) := by
            rw [hmore, ← hend]
          exact ih (hkept.laterAll v.later) hsort' hopens'
            (fun u hu => hlimits u (List.mem_cons_of_mem _ hu)) hrest

end Run

/-! ## The first page -/

/-- A finding has one status that is counted. -/
theorem sum_amounts (f : FindingRow) : (statusCounters.map fun c => c.2.amount f).sum = 1 := by
  simp only [statusCounters, List.map_cons, List.map_nil, List.sum_cons, List.sum_nil,
    Counter.amount, Counter.meets]
  by_cases hpending : f.status = "pending".toList
  · simp only [hpending]
    decide
  by_cases happroved : f.status = "approved".toList
  · simp only [happroved]
    decide
  by_cases hdismissed : f.status = "dismissed".toList
  · simp only [hdismissed]
    decide
  by_cases hedited : f.status = "edited".toList
  · simp only [hedited]
    decide
  by_cases hposted : f.status = "posted".toList
  · simp only [hposted]
    decide
  simp only [known, List.contains_cons, List.contains_nil, beq_eq_false_iff_ne.mpr hpending,
    beq_eq_false_iff_ne.mpr happroved, beq_eq_false_iff_ne.mpr hdismissed,
    beq_eq_false_iff_ne.mpr hedited, beq_eq_false_iff_ne.mpr hposted]
  rfl

theorem sum_counts (rows : List FindingRow) (p : FindingRow → Bool) :
    (statusCounters.map fun c => rows.countP fun f => p f && c.2.meets f).sum =
      rows.countP fun f => p f && Counter.total.meets f := by
  induction rows with
  | nil => rfl
  | cons f rows ih =>
    have hstep : ∀ c : Counter, ((f :: rows).countP fun f => p f && c.meets f) =
        (rows.countP fun f => p f && c.meets f) + if p f then c.amount f else 0 := by
      intro c
      rw [List.countP_cons]
      unfold Counter.amount
      cases p f <;> rfl
    have hone := sum_amounts f
    simp only [statusCounters, List.map_cons, List.map_nil, List.sum_cons, List.sum_nil, hstep]
      at ih hone ⊢
    have htotal : Counter.total.amount f = 1 := rfl
    rw [htotal]
    split <;> omega

theorem sum_filter_ne_zero (counts : List (Text × Nat)) :
    ((counts.filter fun c => c.2 ≠ 0).map Prod.snd).sum = (counts.map Prod.snd).sum := by
  induction counts with
  | nil => rfl
  | cons c counts ih =>
    rw [List.filter_cons]
    split
    · rw [List.map_cons, List.sum_cons, ih, List.map_cons, List.sum_cons]
    · next hc =>
      have hzero : c.2 = 0 := by simpa using hc
      rw [ih, List.map_cons, List.sum_cons, hzero, Nat.zero_add]

/-- The first page has the aggregates of the run. -/
theorem findingsSnapshot_eq (h : Consistent db) (runId : Nat) : findingsSnapshot runId db =
    (db.findings.maxId (ofRun runId),
      ⟨(recomputed db.findings runId).count .total,
        (statusCounters.map fun c => (c.1, (recomputed db.findings runId).count c.2)).filter
          fun c => c.2 ≠ 0,
        (recomputed db.findings runId).count .postable⟩) := by
  rw [show db.findings.maxId (ofRun runId) = (recomputed db.findings runId).maxFindingId from rfl,
    ← h runId]
  unfold findingsSnapshot summaryOf
  cases db.summaries.get? runId with
  | none => rfl
  | some r => rfl

theorem valid_findingsSnapshot (h : Consistent db) (runId : Nat) :
    (findingsSnapshot runId db).2.Valid := by
  rw [findingsSnapshot_eq h]
  refine ⟨?_, ?_⟩
  · refine List.countP_mono_left fun f _ hf => ?_
    rw [Bool.and_eq_true] at hf ⊢
    exact ⟨hf.1, rfl⟩
  · show ((List.filter _ _).map Prod.snd).sum = _
    rw [sum_filter_ne_zero, List.map_map]
    exact sum_counts db.findings.rows (ofRun runId)

theorem nodup_findingsSnapshot (h : Consistent db) (runId : Nat) :
    ((findingsSnapshot runId db).2.statusCounts.map Prod.fst).Nodup := by
  rw [findingsSnapshot_eq h]
  have hnames : ((statusCounters.map fun c =>
      (c.1, (recomputed db.findings runId).count c.2)).map Prod.fst).Nodup := by
    rw [List.map_map]
    exact show (statusCounters.map Prod.fst).Nodup by decide
  exact hnames.sublist (List.filter_sublist.map _)

/-- The snapshot has all findings of the run. -/
theorem snapshotRows_findingsSnapshot (h : Consistent db) (runId : Nat) :
    snapshotRows runId (findingsSnapshot runId db).1 db = rowsOfRun runId db := by
  rw [findingsSnapshot_eq h]
  refine List.filter_congr fun f hf => ?_
  by_cases hrun : ofRun runId f = true
  · have hle : f.id ≤ db.findings.maxId (ofRun runId) := Table.le_maxId (r := f) hf hrun
    rw [hrun, decide_eq_true hle, Bool.and_true]
    exact hrun
  · rw [Bool.not_eq_true] at hrun
    have hne : (f.runId == runId) = false := hrun
    rw [hrun, hne, Bool.false_and]

theorem kept_findingsSnapshot (h : Consistent db) (hpos : 0 < db.findings.nextId) (runId : Nat) :
    Kept runId (findingsSnapshot runId db).1 (rowsOfRun runId db) db where
  rows := by rw [snapshotRows_findingsSnapshot h]
  lt := by
    rw [findingsSnapshot_eq h]
    rcases (Table.maxId_eq_iff.mp (rfl : db.findings.maxId (ofRun runId) = _)).2 with hz | hmax
    · rw [hz]
      exact hpos
    · obtain ⟨f, hf, -, hid⟩ := hmax
      rw [← hid]
      exact Table.lt_nextId hf

theorem opens_first {depth : Nat} {known : Nat → Bool} (h : Consistent db)
    (hknown : known runId = true) :
    Opens depth secret outside known runId (findingsSnapshot runId db).1
      (findingsSnapshot runId db).2 none db [] := by
  intro limit hlow hhigh
  have hquery : ValidQuery limit none := ⟨⟨hlow, hhigh⟩, fun t ht => by cases ht⟩
  refine ⟨⟨_, _, none⟩, ⟨rfl, ⟨rfl, .refl _, rfl⟩, rfl⟩, ?_⟩
  unfold runFindings openCursor
  rw [if_neg (not_not.mpr hquery), if_neg (by simp [hknown])]
  simp only [Option.filter_none, valid_findingsSnapshot h, if_true]
  rfl

/-- A change leaves no key for a later row that is lower. -/
theorem nextId_le_apply (T : Triggers) (c : Change) (db : SummaryDb) :
    db.findings.nextId ≤ (c.apply T db).findings.nextId := by
  cases c with
  | insert row =>
    simp only [Change.apply]
    split
    · exact le_rfl
    · exact Table.nextId_le_put
  | update id set =>
    simp only [Change.apply]
    cases db.findings.get? id with
    | none => exact le_rfl
    | some old =>
      have hput := Table.nextId_le_put (t := db.findings.delete fun f => f.id == old.id)
        (r := set.assign old)
      dsimp only
      split
      · exact le_rfl
      split
      · exact hput
      · exact hput
  | delete id =>
    simp only [Change.apply]
    cases db.findings.get? id <;> exact le_rfl

theorem nextId_applyAll (T : Triggers) (changes : List Change) (db : SummaryDb) :
    db.findings.nextId ≤ (applyAll T changes db).findings.nextId := by
  induction changes generalizing db with
  | nil => exact le_rfl
  | cons c changes ih => exact (nextId_le_apply T c db).trans (ih (c.apply T db))

/-- The items of a walk are complete if they are the sorted findings. -/
theorem complete_of_map {items : List FindingRow}
    (h : items.map kept = (sortRows (rowsOfRun runId db)).map kept)
    (hn : ((rowsOfRun runId db).map pageKey).Nodup) : Complete runId db items where
  exact := by
    rw [h]
    exact (List.perm_insertionSort _ _).map kept
  ordered := by
    have hkeys : items.map pageKey = Seek.keys pageKey (rowsOfRun runId db) := by
      rw [← map_sortRows]
      simpa only [List.map_map, Function.comp_def, pageKey_kept] using congrArg (List.map pageKey) h
    rw [← List.pairwise_map (f := pageKey) (R := fun a b => a < b), hkeys]
    exact Seek.pairwise_keys hn

/-- **A walk over the pages** of a run returns its findings, each once and in order, whatever is
inserted and whatever statuses change on the way: exactly when no page has to end at a finding
whose cursor is not carried. -/
theorem walk_complete_iff (depth : Nat) (secret : Text)
    (outside : List Loaded → Except Exc (List FindingRow)) (known : Nat → Bool) (runId : Nat)
    (earlier : List Change) (visits : List Visit) (db : SummaryDb)
    (hdb : db = applyAll .current earlier .empty) (hearlier : ∀ c ∈ earlier, c.KeepsId)
    (hdepth : 4 ≤ depth) (hknown : known runId = true)
    (hlimits : ∀ v ∈ visits, 1 ≤ v.limit ∧ v.limit ≤ 100) (hne : visits ≠ [])
    (henough : (rowsOfRun runId db).length ≤ (visits.map Visit.limit).sum) :
    (∃ items, walk depth secret outside known runId visits none db = .ok (items, none) ∧
        Complete runId db items) ↔
      BoundariesFit (Fits runId (findingsSnapshot runId db).1 (findingsSnapshot runId db).2)
        (visits.map Visit.limit) (sortRows (rowsOfRun runId db)) := by
  have hconsistent : Consistent db := hdb ▸ consistent_applyAll consistent_empty hearlier
  have hpos : 0 < db.findings.nextId := by
    have := nextId_applyAll .current earlier .empty
    rw [hdb]
    exact Nat.lt_of_lt_of_le Nat.zero_lt_one this
  have hn : ((rowsOfRun runId db).map pageKey).Nodup := by
    rw [← snapshotRows_findingsSnapshot hconsistent]
    exact nodup_keys runId _ db
  have hvalid := valid_findingsSnapshot hconsistent runId
  have hkeys := nodup_findingsSnapshot hconsistent runId
  have hkept := kept_findingsSnapshot hconsistent hpos runId
  have hopens : Opens depth secret outside known runId _ _ none db [] :=
    opens_first secret outside hconsistent hknown
  constructor
  · rintro ⟨items, hwalk, -⟩
    exact fit_of_walk secret outside hdepth hknown hvalid hkeys hn hkept rfl hopens hlimits hwalk
  · intro hfit
    have hlen : (sortRows (rowsOfRun runId db)).length ≤ (visits.map Visit.limit).sum := by
      rw [sortRows, List.length_insertionSort]
      exact henough
    obtain ⟨items, hwalk, hitems⟩ :=
      walk_of_fit secret outside hdepth hknown hvalid hkeys hn hkept rfl hopens hlimits hne hlen hfit
    exact ⟨items, hwalk, complete_of_map hitems hn⟩

/-- A walk of two pages, with an approval and a new finding between them. -/
theorem walk_complete_iff_sample :
    (∃ items, walk 4 [] (fun _ => .ok []) (· == 7) 7
          [⟨1, [.setStatus 1 "approved".toList, .insert (sample 0 7)]⟩, ⟨1, []⟩] none
          (applyAll .current [.insert (sample 1 7), .insert (sample 2 7)] .empty) =
            .ok (items, none) ∧
        Complete 7 (applyAll .current [.insert (sample 1 7), .insert (sample 2 7)] .empty) items) ↔
      BoundariesFit
        (Fits 7
          (findingsSnapshot 7
            (applyAll .current [.insert (sample 1 7), .insert (sample 2 7)] .empty)).1
          (findingsSnapshot 7
            (applyAll .current [.insert (sample 1 7), .insert (sample 2 7)] .empty)).2)
        [1, 1]
        (sortRows (rowsOfRun 7
          (applyAll .current [.insert (sample 1 7), .insert (sample 2 7)] .empty))) :=
  walk_complete_iff 4 [] (fun _ => .ok []) (· == 7) 7 [.insert (sample 1 7), .insert (sample 2 7)]
    [⟨1, [.setStatus 1 "approved".toList, .insert (sample 0 7)]⟩, ⟨1, []⟩] _ rfl (by decide) le_rfl
    rfl (by decide) (List.cons_ne_nil _ _) (by decide)

end PageRepo
