import AlmightyReview.Page.Cursor
import AlmightyReview.Page.Pages
import Mathlib.Algebra.Order.BigOperators.Group.List

/-!
# The endpoint of the findings

`run_findings` of the server: one page of the findings of a run, and the cursor of the next one.

* `openCursor`: what a page starts from, of a cursor or of the summary of the run.
* `runFindings`: a page. `outside` is what the query makes of a position with a float that is
  infinite or no number; the server issues none.
* `Carried`: the cursor of a finding can be issued, gives its payload back, and is accepted, where
  it was issued for. `Fits`: its parts are short enough. They are the same (`carried_iff_fits`).
-/

namespace PageRepo

open Json Pagination FindingSummary

/-! ## Summaries -/

def summaryJson (s : PageSummary) : Value :=
  .obj [("total_count".toList, ofNat s.totalCount),
    ("status_counts".toList, .obj (s.statusCounts.map fun c => (c.1, ofNat c.2))),
    ("postable_count".toList, ofNat s.postableCount)]

/-- `isinstance(v, int) and v >= 0`; `True` is 1 and `False` is 0. -/
def countOf : Loaded → Option Nat
  | .int n _ => if 0 ≤ n then some n.toNat else none
  | .bool b => some (if b then 1 else 0)
  | _ => none

def summaryKeys : List Text :=
  ["total_count".toList, "status_counts".toList, "postable_count".toList]

/-- A summary that was read, if its fields have the right types. -/
def readSummary : Loaded → Option PageSummary
  | .obj fields => do
    guard ((fields.map Prod.fst).all summaryKeys.contains)
    let total ← countOf (← get fields "total_count".toList)
    let postable ← countOf (← get fields "postable_count".toList)
    match ← get fields "status_counts".toList with
    | .obj counts => do
      let counts ← counts.mapM fun c => (countOf c.2).map fun n => (c.1, n)
      pure ⟨total, counts, postable⟩
    | _ => none
  | _ => none

/-- The counts of a summary fit each other. -/
def PageSummary.Valid (s : PageSummary) : Prop :=
  s.postableCount ≤ s.totalCount ∧ (s.statusCounts.map Prod.snd).sum = s.totalCount

instance (s : PageSummary) : Decidable s.Valid :=
  inferInstanceAs (Decidable (_ ∧ _))

/-! ## Starts -/

/-- What a page starts from. -/
structure Start where
  snapshot : Nat
  summary : PageSummary
  after : Option (List Loaded)

def badCursor : Exc := .httpException 400 "invalid cursor".toList

/-- `except ValueError as exc: raise HTTPException(400, ..)`. -/
def asBadCursor : Exc → Exc
  | .valueError _ => badCursor
  | e => e

/-- `isinstance(v, (int, float))`. -/
def isNumber : Loaded → Bool
  | .int .. => true
  | .float _ => true
  | .bool _ => true
  | _ => false

def isText : Loaded → Bool
  | .str _ => true
  | _ => false

/-- A position as the endpoint accepts it. -/
def isFindingPosition : List Loaded → Bool
  | [severity, consensus, confidence, file, id] =>
    isNumber severity && isNumber consensus && isNumber confidence && isText file && isNumber id
  | _ => false

variable (depth : Nat) (secret : Text)

/-- `"run-findings"`. -/
def runFindingsResource : Text := "run-findings".toList

def openCursor (runId : Nat) (cursor : Option Text) (db : SummaryDb) : Except Exc Start :=
  match cursor.filter (· ≠ []) with
  | none =>
    let (snapshot, summary) := findingsSnapshot runId db
    if summary.Valid then .ok ⟨snapshot, summary, none⟩ else .error badCursor
  | some token =>
    match decodeCursor depth secret token runFindingsResource (some runId) with
    | .error e => .error (asBadCursor e)
    | .ok p =>
      match (get p.metadata "summary".toList).bind readSummary with
      | none => .error badCursor
      | some summary =>
        if isFindingPosition p.position ∧ summary.Valid then
          .ok ⟨p.snapshot, summary, some p.position⟩
        else .error badCursor

/-! ## Pages -/

/-- A number as the query binds it. -/
def numberOf : Loaded → Option Rat
  | .bool b => some (if b then 1 else 0)
  | .int n _ => some n
  | .float (.finite x) => some x.val
  | _ => none

def textOf : Loaded → Option Text
  | .str s => some s
  | _ => none

/-- A position as the query binds it. -/
def keyOf : List Loaded → Option PageKey
  | [severity, consensus, confidence, file, id] => do
    mkKey (← numberOf severity) (← numberOf consensus) (← numberOf confidence) (← textOf file)
      (← numberOf id)
  | _ => none

structure FindingsPage where
  items : List FindingRow
  limit : Nat
  nextCursor : Option Text
  summary : PageSummary

variable (outside : List Loaded → Except Exc (List FindingRow))

/-- The rows of a page and the one behind it. -/
def rowsFrom (runId : Nat) (start : Start) (limit : Nat) (db : SummaryDb) :
    Except Exc (List FindingRow) :=
  match start.after with
  | none => .ok (findingsPage runId start.snapshot none limit db)
  | some position =>
    match keyOf position with
    | some key => .ok (findingsPage runId start.snapshot (some key) limit db)
    | none => outside position

/-- The cursor of a finding. -/
def findingCursor (runId snapshot : Nat) (summary : PageSummary) (f : FindingRow) :
    Except Exc Text :=
  encodeCursor secret runFindingsResource (some runId) snapshot (findingPosition f)
    [("summary".toList, summaryJson summary)]

/-- The cursor behind the last of the items, if there are more rows. -/
def nextCursor (runId : Nat) (start : Start) (limit : Nat) (rows : List FindingRow) :
    Except Exc (Option Text) :=
  if limit < rows.length then
    match (rows.take limit).getLast? with
    | some last => (findingCursor secret runId start.snapshot start.summary last).map some
    | none => .ok none
  else .ok none

/-- The page that starts there. -/
def respond (runId : Nat) (start : Start) (limit : Nat) (db : SummaryDb) :
    Except Exc FindingsPage := do
  let rows ← rowsFrom outside runId start (limit + 1) db
  let next ← nextCursor secret runId start limit rows
  pure ⟨rows.take limit, limit, next, start.summary⟩

/-- The parameters of the request are in their ranges. -/
def ValidQuery (limit : Nat) (cursor : Option Text) : Prop :=
  (1 ≤ limit ∧ limit ≤ 100) ∧ ∀ token ∈ cursor, token.length ≤ 4096

instance (limit : Nat) (cursor : Option Text) : Decidable (ValidQuery limit cursor) :=
  inferInstanceAs (Decidable (_ ∧ _))

/-- `run_findings`; `known` tells which runs there are. -/
def runFindings (known : Nat → Bool) (runId limit : Nat) (cursor : Option Text) (db : SummaryDb) :
    Except Exc FindingsPage := do
  if ¬ValidQuery limit cursor then throw (.httpException 422 [])
  if known runId = false then throw (.httpException 404 "run not found".toList)
  let start ← openCursor depth secret runId cursor db
  respond secret outside runId start limit db

/-! ## Cursors that are carried -/

/-- The payload of the cursor of a finding. -/
def findingPayload (runId snapshot : Nat) (summary : PageSummary) (f : FindingRow) : Value :=
  payload runFindingsResource (some runId) snapshot (findingPosition f)
    [("summary".toList, summaryJson summary)]

/-- A start behind a finding, with its snapshot and its counts. -/
structure Start.Resumes (start : Start) (snapshot : Nat) (summary : PageSummary)
    (f : FindingRow) : Prop where
  snapshot : start.snapshot = snapshot
  total : start.summary.totalCount = summary.totalCount
  statuses : start.summary.statusCounts.Perm summary.statusCounts
  postable : start.summary.postableCount = summary.postableCount
  after : start.after.bind keyOf = some (pageKey f)

/-- The cursor of the finding is issued, gives its payload back, is accepted by the endpoint, and is
refused for another resource or parent. -/
def Carried (runId snapshot : Nat) (summary : PageSummary) (f : FindingRow) : Prop :=
  ∃ token, findingCursor secret runId snapshot summary f = .ok token ∧
    (∃ p, decodeCursor depth secret token runFindingsResource (some runId) = .ok p ∧
      .obj p.fields = (findingPayload runId snapshot summary f).loaded) ∧
    (∀ known limit db, known runId = true → 1 ≤ limit → limit ≤ 100 →
      ∃ start : Start, start.Resumes snapshot summary f ∧
        runFindings depth secret outside known runId limit (some token) db =
          respond secret outside runId start limit db) ∧
    ∀ resource parent, ¬(resource = runFindingsResource ∧ parent = some (runId : Int)) →
      decodeCursor depth secret token resource parent = .error invalidCursor

/-! ### Lengths -/

/-- The number of digits. -/
def digits (n : Nat) : Nat := (Text.ofNat n).length

def countsWidth (counts : List (Text × Nat)) : Nat :=
  (counts.map fun c => writtenText c.1 + digits c.2 + 3).sum + (counts.length - 1)

def confidenceWidth (f : FindingRow) : Nat :=
  match f.confidence with
  | some x => x.neg.repr.length
  | none => 1

/-- The number of characters of a cursor's payload. -/
def cursorWidth (runId snapshot : Nat) (summary : PageSummary) (f : FindingRow) : Nat :=
  154 + digits runId + digits snapshot + digits summary.totalCount + digits summary.postableCount +
    countsWidth summary.statusCounts + confidenceWidth f + writtenText (f.file.getD []) +
    digits f.id

/-- A cursor can be issued and read. -/
structure Fits (runId snapshot : Nat) (summary : PageSummary) (f : FindingRow) : Prop where
  path : (f.file.getD []).length ≤ 1024
  width : cursorWidth runId snapshot summary f ≤ maxPayloadChars

variable {depth secret outside} {runId snapshot : Nat} {summary : PageSummary} {f : FindingRow}

theorem length_dumps_ofNat (n : Nat) : ((ofNat n).dumps true).length = digits n := by
  rw [ofNat, Value.dumps]
  rfl

theorem length_dumps_str (s : Text) : ((Value.str s).dumps true).length = writtenText s + 2 := by
  rw [Value.dumps, length_quote]

theorem length_dumps_arr (xs : List Value) : ((Value.arr xs).dumps true).length =
    (xs.map fun v => (v.dumps true).length).sum + (xs.length - 1) + 2 := by
  rw [Value.dumps, dumpsEach_eq, List.length_append, List.length_cons, length_join, List.map_map,
    List.length_map]
  rfl

theorem length_dumps_position (f : FindingRow) :
    ((Value.arr (findingPosition f)).dumps true).length =
      confidenceWidth f + writtenText (f.file.getD []) + digits f.id + 10 := by
  have hseverity : ((Value.int (severityRank f.severity)).dumps true).length = 1 := by
    rw [severityRank_eq]
    unfold pageSeverityOrder
    cases f.severity with
    | none => rw [Value.dumps]; rfl
    | some s =>
      dsimp only
      split
      · rw [Value.dumps]; rfl
      split
      · rw [Value.dumps]; rfl
      split
      · rw [Value.dumps]; rfl
      · rw [Value.dumps]; rfl
  have hconsensus : ((Value.int (if f.consensus = some "consensus".toList then 0 else 1)).dumps
      true).length = 1 := by
    split
    · rw [Value.dumps]; rfl
    · rw [Value.dumps]; rfl
  have hid : ((Value.int f.id).dumps true).length = digits f.id := length_dumps_ofNat f.id
  have hone : ((Value.int 1).dumps true).length = 1 := by
    rw [Value.dumps]
    rfl
  have hfloat : ∀ x : Double, ((Value.float x).dumps true).length = x.repr.length := fun x => by
    rw [Value.dumps]
  rw [length_dumps_arr, findingPosition, confidenceWidth]
  cases f.confidence <;>
  · simp only [List.map_cons, List.map_nil, List.sum_cons, List.sum_nil, List.length_cons,
      List.length_nil, hseverity, hconsensus, hone, hfloat, length_dumps_str, hid]
    omega

theorem length_dumps_summary (s : PageSummary) : ((summaryJson s).dumps true).length =
    digits s.totalCount + digits s.postableCount + countsWidth s.statusCounts + 53 := by
  have hcounts : ((Value.obj (s.statusCounts.map fun c => (c.1, ofNat c.2))).dumps true).length =
      countsWidth s.statusCounts + 2 := by
    rw [length_dumps_obj, List.map_map, List.length_map, countsWidth]
    simp only [Function.comp_def, length_dumps_ofNat]
  have hkeys : writtenText "total_count".toList = 11 ∧ writtenText "status_counts".toList = 13 ∧
      writtenText "postable_count".toList = 14 := by decide
  rw [summaryJson, length_dumps_obj]
  simp only [List.map_cons, List.map_nil, List.sum_cons, List.sum_nil, List.length_cons,
    List.length_nil, hcounts, length_dumps_ofNat, hkeys.1, hkeys.2.1, hkeys.2.2]
  omega

theorem length_dumps_payload (runId snapshot : Nat) (summary : PageSummary) (f : FindingRow) :
    ((findingPayload runId snapshot summary f).dumps true).length =
      cursorWidth runId snapshot summary f := by
  have hkeys : writtenText "v".toList = 1 ∧ writtenText "resource".toList = 8 ∧
      writtenText "parent".toList = 6 ∧ writtenText "snapshot".toList = 8 ∧
      writtenText "position".toList = 8 ∧ writtenText "metadata".toList = 8 ∧
      writtenText "summary".toList = 7 ∧ writtenText runFindingsResource = 12 := by decide
  obtain ⟨hv, hresource, hparent, hsnapshot, hposition, hmetadata, hsummary, hname⟩ := hkeys
  have hversion : ((Value.int cursorVersion).dumps true).length = 1 := by
    rw [Value.dumps]
    rfl
  have hrun : ((ofOption Value.int (some (runId : Int))).dumps true).length = digits runId :=
    length_dumps_ofNat runId
  have hsnap : ((Value.int (snapshot : Int)).dumps true).length = digits snapshot :=
    length_dumps_ofNat snapshot
  rw [findingPayload, payload, length_dumps_obj]
  simp only [List.map_cons, List.map_nil, List.sum_cons, List.sum_nil, List.length_cons,
    List.length_nil, hversion, hrun, hsnap, length_dumps_str, length_dumps_position,
    length_dumps_obj [_], length_dumps_summary, hv, hresource, hparent, hsnapshot, hposition,
    hmetadata, hsummary, hname, cursorWidth]
  omega

/-! ### Reading -/

theorem lt_intLimit_of_length {n k : Nat} (hk : 0 < k) (hle : k ≤ 4300) (h : digits n ≤ k) :
    n < intLimit := by
  have hlt : n < 10 ^ k := (Nat.length_toDigits_le_iff (by decide) hk).mp h
  have hpow : ∀ m, k ≤ m → n < 10 ^ m := fun m hm =>
    hlt.trans_le (Nat.pow_le_pow_right (by decide) hm)
  unfold intLimit
  exact hpow 4300 hle

theorem lt_intLimit_of_digits {n : Nat} (h : digits n ≤ maxPayloadChars) : n < intLimit :=
  lt_intLimit_of_length (by decide) (by decide) h

theorem countOf_loaded {n : Nat} (h : n < intLimit) : countOf (ofNat n).loaded = some n := by
  rw [ofNat, loaded_int (show (n : Int).natAbs < intLimit from h), countOf,
    if_pos (Int.natCast_nonneg n)]
  rfl

/-- The numbers of a summary are short. -/
structure ShortSummary (s : PageSummary) : Prop where
  total : s.totalCount < intLimit
  statuses : ∀ c ∈ s.statusCounts, c.2 < intLimit
  postable : s.postableCount < intLimit

/-- A summary as it is read: its counts in the order of their names. -/
def PageSummary.sorted (s : PageSummary) : PageSummary :=
  { s with statusCounts := s.statusCounts.insertionSort fun a b => a.1 ≤ b.1 }

theorem mapM_countOf {counts : List (Text × Nat)} (h : ∀ c ∈ counts, c.2 < intLimit) :
    (counts.map fun c => (c.1, (ofNat c.2).loaded)).mapM
      (fun c => (countOf c.2).map fun n => (c.1, n)) = some counts := by
  induction counts with
  | nil => rfl
  | cons c counts ih =>
    rw [List.map_cons, List.mapM_cons, countOf_loaded (h c List.mem_cons_self),
      ih fun d hd => h d (List.mem_cons_of_mem _ hd)]
    rfl

/-- The counts as they are read. -/
theorem loaded_counts (counts : List (Text × Nat)) :
    (Value.obj (counts.map fun c => (c.1, ofNat c.2))).loaded =
      .obj ((counts.insertionSort fun a b => a.1 ≤ b.1).map fun c =>
        (c.1, (ofNat c.2).loaded)) := by
  have hsort : sortFields (counts.map fun c => (c.1, ofNat c.2)) =
      (counts.insertionSort fun a b => a.1 ≤ b.1).map fun c => (c.1, ofNat c.2) :=
    (List.map_insertionSort (fun a b : Text × Nat => a.1 ≤ b.1)
      (fun a b : Text × Value => a.1 ≤ b.1) (fun c => (c.1, ofNat c.2)) _
      fun a _ b _ => Iff.rfl).symm
  rw [loaded_obj, hsort, List.map_map]
  rfl

theorem readSummary_loaded (s : PageSummary) (h : ShortSummary s) :
    readSummary (summaryJson s).loaded = some s.sorted := by
  have hloaded : (summaryJson s).loaded = .obj
      [("postable_count".toList, (ofNat s.postableCount).loaded),
        ("status_counts".toList,
          (Value.obj (s.statusCounts.map fun c => (c.1, ofNat c.2))).loaded),
        ("total_count".toList, (ofNat s.totalCount).loaded)] := by
    rw [summaryJson, loaded_obj]
    rfl
  have hcounts : ∀ c ∈ s.statusCounts.insertionSort fun a b => a.1 ≤ b.1, c.2 < intLimit :=
    fun c hc => h.statuses c ((List.mem_insertionSort _).mp hc)
  have hget : ∀ a b c : Loaded,
      let fields := [("postable_count".toList, a), ("status_counts".toList, b),
        ("total_count".toList, c)]
      get fields "postable_count".toList = some a ∧ get fields "status_counts".toList = some b ∧
        get fields "total_count".toList = some c ∧
        (fields.map Prod.fst).all summaryKeys.contains = true := fun a b c =>
    ⟨rfl, rfl, rfl, rfl⟩
  obtain ⟨hpostable, hstatuses, htotal, hkeys⟩ := hget (ofNat s.postableCount).loaded
    (Value.obj (s.statusCounts.map fun c => (c.1, ofNat c.2))).loaded (ofNat s.totalCount).loaded
  rw [hloaded, readSummary, hkeys, hpostable, hstatuses, htotal, loaded_counts]
  simp only [guard, if_true, Option.bind_eq_bind, Option.bind_some, Option.pure_def,
    countOf_loaded h.total, countOf_loaded h.postable, mapM_countOf hcounts]
  rfl

theorem valid_sorted {s : PageSummary} (h : s.Valid) : s.sorted.Valid := by
  have hperm : (s.statusCounts.insertionSort fun a b => a.1 ≤ b.1).Perm s.statusCounts :=
    List.perm_insertionSort _ _
  exact ⟨h.1, ((hperm.map Prod.snd).sum_nat).trans h.2⟩

/-! ### Positions -/

theorem numberOf_int {n : Int} (h : n.natAbs < intLimit) :
    numberOf (Value.int n).loaded = number (.int n) := by
  rw [loaded_int h]
  rfl

theorem short_severity (f : FindingRow) :
    ((severityRank f.severity : Nat) : Int).natAbs < intLimit := by
  refine lt_intLimit (lt_of_le_of_lt (b := 3) ?_ (by decide))
  rw [severityRank_eq, pageSeverityOrder, Int.natAbs_natCast]
  cases f.severity with
  | none => exact le_rfl
  | some s =>
    dsimp only
    split
    · decide
    split
    · decide
    split <;> decide

theorem short_consensus (f : FindingRow) :
    (if f.consensus = some "consensus".toList then 0 else 1 : Int).natAbs < intLimit := by
  split
  · exact lt_intLimit (by decide)
  · exact lt_intLimit (by decide)

/-- **The position of a finding** is bound as its place in the order. -/
theorem keyOf_findingPosition (h : f.id < intLimit) :
    keyOf ((findingPosition f).map Value.loaded) = some (pageKey f) := by
  have hid := numberOf_int (show (f.id : Int).natAbs < intLimit from h)
  have hfloat : ∀ x : Double, numberOf (Value.float x).loaded = number (.float x) := fun x => by
    rw [Value.loaded]
    rfl
  have htext : textOf (Value.str (f.file.getD [])).loaded = text (.str (f.file.getD [])) := by
    rw [Value.loaded]
    rfl
  rw [← positionKey_findingPosition, findingPosition]
  simp only [List.map_cons, List.map_nil, keyOf, positionKey]
  rw [numberOf_int (short_severity f), numberOf_int (short_consensus f), htext, hid]
  cases f.confidence with
  | none => rw [numberOf_int (n := 1) (lt_intLimit (by decide))]
  | some x => rw [hfloat]

theorem isNumber_loaded {n : Int} (h : n.natAbs < intLimit) :
    isNumber (Value.int n).loaded = true := by
  rw [loaded_int h]
  rfl

theorem isFindingPosition_loaded (h : f.id < intLimit) :
    isFindingPosition ((findingPosition f).map Value.loaded) = true := by
  have hid := isNumber_loaded (show (f.id : Int).natAbs < intLimit from h)
  have hfloat : ∀ x : Double, isNumber (Value.float x).loaded = true := fun x => by
    rw [Value.loaded]
    rfl
  have htext : isText (Value.str (f.file.getD [])).loaded = true := by
    rw [Value.loaded]
    rfl
  rw [findingPosition]
  simp only [List.map_cons, List.map_nil, isFindingPosition]
  rw [isNumber_loaded (short_severity f), isNumber_loaded (short_consensus f), htext, hid]
  cases f.confidence with
  | none =>
    rw [isNumber_loaded (n := 1) (lt_intLimit (by decide))]
    rfl
  | some x =>
    rw [hfloat]
    rfl

/-- A position is read if its path is not too long. -/
theorem readablePosition_iff (h : f.id < intLimit) :
    ReadablePosition (findingPosition f) ↔ (f.file.getD []).length ≤ 1024 := by
  have hint : ∀ {n : Int}, n.natAbs < intLimit → isPositionItem (Value.int n).loaded = true := by
    intro n hn
    rw [loaded_int hn]
    rfl
  have hfloat : ∀ x : Double, isPositionItem (Value.float x).loaded = true := fun x => by
    rw [Value.loaded]
    rfl
  have hconfidence : isPositionItem (match f.confidence with
      | some x => Value.float x.neg
      | none => .int 1).loaded = true := by
    cases f.confidence with
    | none => exact hint (lt_intLimit (by decide))
    | some x => exact hfloat x.neg
  have hid := hint (show (f.id : Int).natAbs < intLimit from h)
  have htext : isPositionItem (Value.str (f.file.getD [])).loaded = true ↔
      (f.file.getD []).length ≤ 1024 := by
    rw [Value.loaded, isPositionItem, decide_eq_true_iff]
  unfold ReadablePosition findingPosition
  simp only [List.forall_mem_cons, hint (short_severity f), hint (short_consensus f), hid, htext]
  constructor
  · rintro ⟨-, -, -, -, hpath, -⟩
    exact hpath
  · intro hpath
    exact ⟨show 5 ≤ 8 by decide, trivial, trivial, hconfidence, hpath, trivial,
      List.forall_mem_nil _⟩

/-! ### A finding whose cursor is carried -/

/-- The numbers of a payload that is not too long are short. -/
structure ShortPayload (runId snapshot : Nat) (summary : PageSummary) (f : FindingRow) : Prop where
  run : runId < intLimit
  snapshot : snapshot < intLimit
  summary : ShortSummary summary
  id : f.id < intLimit

theorem shortPayload_of_width (h : cursorWidth runId snapshot summary f ≤ maxPayloadChars) :
    ShortPayload runId snapshot summary f := by
  unfold cursorWidth at h
  have hcounts : ∀ c ∈ summary.statusCounts, digits c.2 ≤ countsWidth summary.statusCounts := by
    intro c hc
    have := List.single_le_sum (fun _ _ => Nat.zero_le _) _
      (List.mem_map_of_mem (f := fun c : Text × Nat => writtenText c.1 + digits c.2 + 3) hc)
    unfold countsWidth
    omega
  exact
    { run := lt_intLimit_of_digits (by omega)
      snapshot := lt_intLimit_of_digits (by omega)
      summary :=
        { total := lt_intLimit_of_digits (by omega)
          statuses := fun c hc => lt_intLimit_of_digits (by have := hcounts c hc; omega)
          postable := lt_intLimit_of_digits (by omega) }
      id := lt_intLimit_of_digits (by omega) }

theorem readable_int {n : Int} (h : n.natAbs < intLimit) (k : Nat) : (Value.int n).Readable k := by
  rwa [Value.Readable]

theorem readable_nat {n : Nat} (h : n < intLimit) (k : Nat) : (Value.int n).Readable k :=
  readable_int (show (n : Int).natAbs < intLimit from h) k

theorem readable_counts {counts : List (Text × Nat)} (hshort : ∀ c ∈ counts, c.2 < intLimit)
    (k : Nat) : ReadableFields (counts.map fun c => (c.1, ofNat c.2)) k := by
  induction counts with
  | nil => rw [List.map_nil, ReadableFields]; trivial
  | cons c counts ih =>
    rw [List.map_cons, ReadableFields]
    exact ⟨readable_nat (hshort c List.mem_cons_self) k,
      ih fun d hd => hshort d (List.mem_cons_of_mem _ hd)⟩

theorem readable_summary {s : PageSummary} (h : ShortSummary s)
    (hkeys : (s.statusCounts.map Prod.fst).Nodup) (k : Nat) : (summaryJson s).Readable (k + 2) := by
  have hcounts : (Value.obj (s.statusCounts.map fun c => (c.1, ofNat c.2))).Readable (k + 1) := by
    rw [Value.Readable, List.map_map]
    exact ⟨hkeys, readable_counts h.statuses k⟩
  rw [summaryJson, Value.Readable]
  refine ⟨show summaryKeys.Nodup by decide, ?_⟩
  simp only [ReadableFields]
  exact ⟨readable_nat h.total _, hcounts, readable_nat h.postable _, trivial⟩

theorem readable_position (h : f.id < intLimit) (k : Nat) :
    (Value.arr (findingPosition f)).Readable (k + 1) := by
  have hfloat : ∀ x : Double, (Value.float x).Readable k := fun x => by
    rw [Value.Readable]
    · trivial
    all_goals simp
  have hstr : (Value.str (f.file.getD [])).Readable k := by
    rw [Value.Readable]
    · trivial
    all_goals simp
  rw [Value.Readable, findingPosition]
  simp only [ReadableEach]
  refine ⟨readable_int (short_severity f) k, readable_int (short_consensus f) k, ?_, hstr,
    readable_nat h k, trivial⟩
  cases f.confidence with
  | none => exact readable_int (lt_intLimit (by decide)) k
  | some x => exact hfloat x.neg

theorem readable_payload (h : ShortPayload runId snapshot summary f)
    (hkeys : (summary.statusCounts.map Prod.fst).Nodup) (k : Nat) :
    (findingPayload runId snapshot summary f).Readable (k + 4) := by
  have hmetadata : (Value.obj [("summary".toList, summaryJson summary)]).Readable (k + 3) := by
    rw [Value.Readable]
    refine ⟨List.nodup_singleton _, ?_⟩
    simp only [ReadableFields]
    exact ⟨readable_summary h.summary hkeys k, trivial⟩
  have hresource : (Value.str runFindingsResource).Readable (k + 3) := by
    rw [Value.Readable]
    · trivial
    all_goals simp
  rw [findingPayload, payload, Value.Readable]
  refine ⟨show payloadKeys.Nodup by decide, ?_⟩
  simp only [ReadableFields]
  exact ⟨readable_int (lt_intLimit (by decide)) _, hresource, readable_nat h.run _,
    readable_nat h.snapshot _, readable_position h.id _, hmetadata, trivial⟩

/-- The cursor of a finding is issued exactly when its payload is not too long. -/
theorem findingCursor_ok {token : Text} :
    findingCursor secret runId snapshot summary f = .ok token ↔
      cursorWidth runId snapshot summary f ≤ maxPayloadChars ∧
        token = tokenOf secret (rawOf runFindingsResource (some (runId : Int)) snapshot
          (findingPosition f) [("summary".toList, summaryJson summary)]) := by
  have hresource : resources.contains runFindingsResource = true := by decide
  unfold findingCursor
  rw [encodeCursor_ok hresource (Int.natCast_nonneg snapshot), ← length_dumps_payload]
  rfl

/-- A payload that can be read. -/
structure Issued (secret : Text) (depth runId snapshot : Nat) (summary : PageSummary)
    (f : FindingRow) (token : Text) : Prop where
  width : cursorWidth runId snapshot summary f ≤ maxPayloadChars
  token_eq : token = tokenOf secret (rawOf runFindingsResource (some (runId : Int)) snapshot
    (findingPosition f) [("summary".toList, summaryJson summary)])
  keys : (summary.statusCounts.map Prod.fst).Nodup
  depth : 4 ≤ depth

/-- What is decoded of a cursor that was issued. -/
theorem Issued.decode {token : Text} (h : Issued secret depth runId snapshot summary f token)
    (r : Text) (p : Option Int) : decodeCursor depth secret token r p =
      match readPayload r p (findingPayload runId snapshot summary f).loaded with
      | some q => .ok q
      | none => .error invalidCursor := by
  obtain ⟨k, rfl⟩ : ∃ k, depth = k + 4 := ⟨depth - 4, by have := h.depth; omega⟩
  have hwidth := h.width
  rw [← length_dumps_payload] at hwidth
  rw [h.token_eq]
  exact decodeCursor_tokenOf hwidth (readable_payload (shortPayload_of_width h.width) h.keys k)

/-- The payload of a cursor is read for its own run only. -/
theorem Issued.readPayload_iff {token : Text}
    (h : Issued secret depth runId snapshot summary f token) {r : Text} {p : Option Int}
    {q : Payload} :
    readPayload r p (findingPayload runId snapshot summary f).loaded = some q ↔
      (r = runFindingsResource ∧ p = some (runId : Int) ∧ (f.file.getD []).length ≤ 1024) ∧
        q = ⟨loadedPayload runFindingsResource (some (runId : Int)) snapshot (findingPosition f)
            [("summary".toList, summaryJson summary)], snapshot,
          (findingPosition f).map Value.loaded,
          [("summary".toList, (summaryJson summary).loaded)]⟩ := by
  have hshort := shortPayload_of_width h.width
  have hnumbers : ShortNumbers (some (runId : Int)) (snapshot : Int) :=
    ⟨fun n hn => by obtain rfl := Option.some.inj hn; exact hshort.run, hshort.snapshot⟩
  have hmetadata : (Value.obj [("summary".toList, summaryJson summary)]).loaded =
      .obj [("summary".toList, (summaryJson summary).loaded)] := by
    rw [loaded_obj]
    rfl
  rw [findingPayload, readPayload_loaded hnumbers (Int.natCast_nonneg snapshot),
    readablePosition_iff hshort.id, hmetadata]
  simp only [Loaded.obj.injEq, exists_eq_left', Int.toNat_natCast]

/-- A cursor that can be read opens a page behind its finding. -/
theorem Issued.opens {token : Text} (h : Issued secret depth runId snapshot summary f token)
    (hpath : (f.file.getD []).length ≤ 1024) (hvalid : summary.Valid) (db : SummaryDb) :
    openCursor depth secret runId (some token) db =
      .ok ⟨snapshot, summary.sorted, some ((findingPosition f).map Value.loaded)⟩ := by
  have hshort := shortPayload_of_width h.width
  have hread := h.readPayload_iff.mpr ⟨⟨rfl, rfl, hpath⟩, rfl⟩
  have hdecode := h.decode runFindingsResource (some (runId : Int))
  rw [hread] at hdecode
  have hne : token ≠ [] := by
    rw [h.token_eq, tokenOf]
    exact List.append_ne_nil_of_right_ne_nil _ (List.cons_ne_nil _ _)
  have hfilter : (some token).filter (· ≠ []) = some token := by simp [hne]
  have hget : get [("summary".toList, (summaryJson summary).loaded)] "summary".toList =
      some (summaryJson summary).loaded := rfl
  unfold openCursor
  rw [hfilter]
  dsimp only
  rw [hdecode]
  dsimp only
  rw [hget, Option.bind_some, readSummary_loaded summary hshort.summary]
  dsimp only
  rw [if_pos ⟨isFindingPosition_loaded hshort.id, valid_sorted hvalid⟩]

theorem resumes_opened (h : ShortPayload runId snapshot summary f) :
    (⟨snapshot, summary.sorted, some ((findingPosition f).map Value.loaded)⟩ : Start).Resumes
      snapshot summary f where
  snapshot := rfl
  total := rfl
  statuses := List.perm_insertionSort _ _
  postable := rfl
  after := keyOf_findingPosition h.id

/-- A token that was issued is not too long for the query. -/
theorem Issued.length_le {token : Text} (h : Issued secret depth runId snapshot summary f token) :
    token.length ≤ 4096 := by
  have hlen := length_tokenOf secret (rawOf runFindingsResource (some (runId : Int)) snapshot
    (findingPosition f) [("summary".toList, summaryJson summary)])
  have hraw : (rawOf runFindingsResource (some (runId : Int)) snapshot
      (findingPosition f) [("summary".toList, summaryJson summary)]).length =
        cursorWidth runId snapshot summary f := by
    rw [rawOf, length_encode_dumps]
    exact length_dumps_payload runId snapshot summary f
  rw [← h.token_eq, hraw] at hlen
  have hchars := (Text.length_encode token).1
  have hwidth := h.width
  unfold maxPayloadChars at hwidth
  omega

/-- A cursor that is issued and gives its payload back fits. -/
theorem Carried.fits (h : Carried depth secret outside runId snapshot summary f)
    (hdepth : 4 ≤ depth) (hkeys : (summary.statusCounts.map Prod.fst).Nodup) :
    Fits runId snapshot summary f := by
  obtain ⟨token, hissue, ⟨p, hdecode, -⟩, -, -⟩ := h
  obtain ⟨hwidth, htoken⟩ := findingCursor_ok.mp hissue
  have hissued : Issued secret depth runId snapshot summary f token :=
    ⟨hwidth, htoken, hkeys, hdepth⟩
  refine ⟨?_, hwidth⟩
  rw [hissued.decode] at hdecode
  cases hread : readPayload runFindingsResource (some (runId : Int))
      (findingPayload runId snapshot summary f).loaded with
  | none => rw [hread] at hdecode; cases hdecode
  | some q => exact (hissued.readPayload_iff.mp hread).1.2.2

/-- A cursor that fits is carried. -/
theorem Fits.carried (h : Fits runId snapshot summary f) (hdepth : 4 ≤ depth)
    (hvalid : summary.Valid) (hkeys : (summary.statusCounts.map Prod.fst).Nodup) :
    Carried depth secret outside runId snapshot summary f := by
  have hissued : Issued secret depth runId snapshot summary f _ := ⟨h.width, rfl, hkeys, hdepth⟩
  refine ⟨_, findingCursor_ok.mpr ⟨h.width, rfl⟩, ?_, ?_, ?_⟩
  · have hread := hissued.readPayload_iff.mpr ⟨⟨rfl, rfl, h.path⟩, rfl⟩
    exact ⟨_, by rw [hissued.decode, hread], loaded_payload.symm⟩
  · intro known limit db hknown hlow hhigh
    refine ⟨_, resumes_opened (shortPayload_of_width h.width), ?_⟩
    have hquery : ValidQuery limit (some (tokenOf secret (rawOf runFindingsResource
        (some (runId : Int)) snapshot (findingPosition f)
        [("summary".toList, summaryJson summary)]))) :=
      ⟨⟨hlow, hhigh⟩, fun t ht => by rw [← Option.some.inj ht]; exact hissued.length_le⟩
    unfold runFindings
    rw [if_neg (not_not.mpr hquery), if_neg (by simp [hknown]),
      hissued.opens h.path hvalid db]
    rfl
  · intro resource parent hother
    rw [hissued.decode]
    cases hread : readPayload resource parent
        (findingPayload runId snapshot summary f).loaded with
    | none => rfl
    | some q =>
      obtain ⟨⟨hr, hp, -⟩, -⟩ := hissued.readPayload_iff.mp hread
      exact absurd ⟨hr, hp⟩ hother

/-- **Which cursors are carried**: those of findings whose path is not too long to be read, and
whose payload is not too long to be issued. -/
theorem carried_iff_fits (depth : Nat) (secret : Text)
    (outside : List Loaded → Except Exc (List FindingRow)) (runId snapshot : Nat)
    (summary : PageSummary) (f : FindingRow) (hdepth : 4 ≤ depth) (hvalid : summary.Valid)
    (hkeys : (summary.statusCounts.map Prod.fst).Nodup) :
    Carried depth secret outside runId snapshot summary f ↔ Fits runId snapshot summary f :=
  ⟨fun h => h.fits hdepth hkeys, fun h => h.carried hdepth hvalid hkeys⟩

theorem carried_iff_fits_sample :
    Carried 4 [] (fun _ => .ok []) 7 1 ⟨1, [("pending".toList, 1)], 1⟩ (sample 1 7) ↔
      Fits 7 1 ⟨1, [("pending".toList, 1)], 1⟩ (sample 1 7) :=
  carried_iff_fits 4 [] (fun _ => .ok []) 7 1 ⟨1, [("pending".toList, 1)], 1⟩ (sample 1 7) le_rfl
    (by decide) (List.nodup_singleton _)

/-- The path of a finding that a model reports is not bounded. -/
theorem not_carried_longPath :
    ¬∀ (depth : Nat) (secret : Text) (outside : List Loaded → Except Exc (List FindingRow))
      (runId snapshot : Nat) (summary : PageSummary) (f : FindingRow), 4 ≤ depth →
      summary.Valid → (summary.statusCounts.map Prod.fst).Nodup →
      Carried depth secret outside runId snapshot summary f := by
  intro h
  have hcarried := h 4 [] (fun _ => .ok []) 7 1 ⟨1, [("pending".toList, 1)], 1⟩
    { sample 1 7 with file := some (List.replicate 1025 'a') } le_rfl (by decide)
    (List.nodup_singleton _)
  have hpath := (hcarried.fits le_rfl (List.nodup_singleton _)).path
  rw [Option.getD_some, List.length_replicate] at hpath
  exact absurd hpath (by decide)

end PageRepo
