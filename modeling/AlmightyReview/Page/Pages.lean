import AlmightyReview.Lib.Json
import AlmightyReview.Lib.Seek
import AlmightyReview.Page.Summary
import Mathlib.Data.Char
import Mathlib.Data.List.Lex
import Mathlib.Data.Prod.Lex

/-!
# Pages of findings

The functions of `page_repo` for the findings of a run. A page is in the order of the generated
columns of `finding`, and starts after a position that is computed from the last row of the page
before.

* `pageKey`: the generated columns of a row; `findingPosition`: the same position as the server
  computes it. `positionKey` is a position as the query binds it.
* `findingsSnapshot`: the greatest id and the counts of a run; `findingsPage`: one page.
* `positionKey_findingPosition`: the two computations agree on every row.
-/

namespace PageRepo

open FindingSummary

/-! ## The order -/

/-- A row of the order: numbers, and a text that is compared by its code points. -/
abbrev PageKey := Rat ×ₗ Rat ×ₗ Rat ×ₗ Text ×ₗ Rat

def mkKey (severity consensus confidence : Rat) (file : Text) (id : Rat) : PageKey :=
  toLex (severity, toLex (consensus, toLex (confidence, toLex (file, id))))

/-- `page_severity_order`. -/
def pageSeverityOrder (f : FindingRow) : Nat :=
  match f.severity with
  | none => 3
  | some s =>
    if s = "critical".toList then 0
    else if s = "high".toList then 1
    else if s = "medium".toList then 2
    else 3

/-- `page_consensus_order`. -/
def pageConsensusOrder (f : FindingRow) : Nat :=
  if f.consensus = some "consensus".toList then 0 else 1

/-- `page_confidence_order`. -/
def pageConfidenceOrder (f : FindingRow) : Rat := -((f.confidence.map Double.val).getD (-1))

/-- `page_file_order`. -/
def pageFileOrder (f : FindingRow) : Text := f.file.getD []

/-- The columns of `ORDER BY`. -/
def pageKey (f : FindingRow) : PageKey :=
  mkKey (pageSeverityOrder f) (pageConsensusOrder f) (pageConfidenceOrder f) (pageFileOrder f) f.id

theorem pageKey_injective {f g : FindingRow} (h : pageKey f = pageKey g) : f.id = g.id := by
  unfold pageKey mkKey at h
  simp only [toLex_inj, Prod.mk.injEq] at h
  exact_mod_cast h.2.2.2.2

/-! ## Positions -/

/-- `{"critical": 0, "high": 1, "medium": 2}.get(severity, 3)`. -/
def severityRank (severity : Option Text) : Nat :=
  (([("critical".toList, 0), ("high".toList, 1), ("medium".toList, 2)].lookup
    (severity.getD [])).getD 3)

/-- `finding_position`: JSON values, as they are put into a cursor. -/
def findingPosition (f : FindingRow) : List Json.Value :=
  [.int (severityRank f.severity),
    .int (if f.consensus = some "consensus".toList then 0 else 1),
    match f.confidence with
    | some x => .float x.neg
    | none => .int 1,
    .str (f.file.getD []),
    .int f.id]

/-- `isinstance(v, (int, float))`; a `bool` is an `int`. -/
def number : Json.Value → Option Rat
  | .bool b => some (if b then 1 else 0)
  | .int n => some n
  | .float x => some x.val
  | _ => none

def text : Json.Value → Option Text
  | .str s => some s
  | _ => none

/-- A position as the endpoint accepts it and the query binds it. -/
def positionKey : List Json.Value → Option PageKey
  | [severity, consensus, confidence, file, id] => do
    mkKey (← number severity) (← number consensus) (← number confidence) (← text file)
      (← number id)
  | _ => none

theorem severityRank_eq (f : FindingRow) : severityRank f.severity = pageSeverityOrder f := by
  unfold severityRank pageSeverityOrder
  cases f.severity with
  | none => rfl
  | some s =>
    simp only [Option.getD_some, List.lookup_cons, List.lookup_nil]
    by_cases h₁ : s = "critical".toList
    · subst h₁
      rfl
    by_cases h₂ : s = "high".toList
    · subst h₂
      rfl
    by_cases h₃ : s = "medium".toList
    · subst h₃
      rfl
    rw [if_neg h₁, if_neg h₂, if_neg h₃, beq_eq_false_iff_ne.mpr h₁, beq_eq_false_iff_ne.mpr h₂,
      beq_eq_false_iff_ne.mpr h₃]
    rfl

/-- **One order.** The position that the server computes is the place of the row in the query. -/
theorem positionKey_findingPosition (f : FindingRow) :
    positionKey (findingPosition f) = some (pageKey f) := by
  unfold findingPosition pageKey
  rw [severityRank_eq]
  have hconsensus : (((if f.consensus = some "consensus".toList then 0 else 1 : Int)) : Rat) =
      ((pageConsensusOrder f : Nat) : Rat) := by
    unfold pageConsensusOrder
    split <;> rfl
  have hconfidence : number (match f.confidence with
      | some x => .float x.neg
      | none => .int 1) = some (pageConfidenceOrder f) := by
    unfold pageConfidenceOrder
    cases f.confidence with
    | none => rfl
    | some x => exact congrArg some x.val_neg
  simp only [positionKey]
  rw [hconfidence]
  simp only [number, text, hconsensus, Option.bind_eq_bind, Option.bind_some]
  rfl

/-! ## Queries -/

/-- The counts of a run as the pages show them. -/
structure PageSummary where
  totalCount : Nat
  statusCounts : List (Text × Nat)
  postableCount : Nat
  deriving DecidableEq, Repr

/-- The statuses with their columns. -/
def statusCounters : List (Text × Counter) :=
  [("pending".toList, .pending), ("approved".toList, .approved), ("dismissed".toList, .dismissed),
    ("edited".toList, .edited), ("posted".toList, .posted), ("unknown".toList, .unknown)]

/-- `findings_snapshot`: the greatest id of the run, and its counts. -/
def findingsSnapshot (runId : Nat) (db : SummaryDb) : Nat × PageSummary :=
  match db.summaries.get? runId with
  | none => (0, ⟨0, [], 0⟩)
  | some s =>
    (s.maxFindingId,
      { totalCount := s.count .total
        statusCounts := (statusCounters.map fun c => (c.1, s.count c.2)).filter fun c => c.2 ≠ 0
        postableCount := s.count .postable })

/-- The findings of a run up to the snapshot. -/
def snapshotRows (runId snapshot : Nat) (db : SummaryDb) : List FindingRow :=
  db.findings.rows.filter fun f => f.runId == runId && decide (f.id ≤ snapshot)

/-- `findings_page`. -/
def findingsPage (runId snapshot : Nat) (after : Option PageKey) (limit : Nat) (db : SummaryDb) :
    List FindingRow :=
  Seek.page pageKey after limit (snapshotRows runId snapshot db)

theorem mem_snapshotRows {runId snapshot : Nat} {db : SummaryDb} {f : FindingRow} :
    f ∈ snapshotRows runId snapshot db ↔ f ∈ db.findings ∧ f.runId = runId ∧ f.id ≤ snapshot := by
  simp [snapshotRows, Table.mem_def]

/-- The keys of the rows of a table are distinct. -/
theorem nodup_keys (runId snapshot : Nat) (db : SummaryDb) :
    ((snapshotRows runId snapshot db).map pageKey).Nodup := by
  have hid : ((snapshotRows runId snapshot db).map FindingRow.id).Nodup :=
    db.findings.nodup.sublist (List.filter_sublist.map _)
  refine List.Nodup.of_map (fun k : PageKey => (ofLex (ofLex (ofLex (ofLex k).2).2).2).2) ?_
  rw [List.map_map]
  have : (fun k : PageKey => (ofLex (ofLex (ofLex (ofLex k).2).2).2).2) ∘ pageKey =
      (fun n : Nat => (n : Rat)) ∘ FindingRow.id := rfl
  rw [this, ← List.map_map]
  exact hid.map fun a b h => by exact_mod_cast h

end PageRepo
