import AlmightyReview.Lib.Convert
import AlmightyReview.Lib.Lists
import AlmightyReview.Lib.Scan

/-!
# A schema as DDL

`render_schema` of the live MSSQL source: rows of `INFORMATION_SCHEMA` become `CREATE TABLE`
statements.

* `SchemaRow`: a row whose identifiers and type are valid. `toRow?` reads it from JSON.
* `typeSql`: the type of a column with its length or its precision. Python raises for a float that
  is infinite (`Overflows`).
* `renderSchema`: one statement for each table, in the order of the rows.
-/

namespace MssqlSchema

open Json (Loaded join)

/-! ## Rows -/

def isLetter (c : Char) : Bool := ('A' ≤ c && c ≤ 'Z') || ('a' ≤ c && c ≤ 'z')

/-- `[A-Za-z_]`. -/
def isStart (c : Char) : Bool := isLetter c || c == '_'

/-- `[A-Za-z0-9_$]`. -/
def isPart (c : Char) : Bool := isStart c || Decimal.isDigit c || c == '$'

/-- `_IDENTIFIER_RE.fullmatch`. -/
def isIdentifier : Text → Bool
  | [] => false
  | c :: s => isStart c && s.all isPart && s.length ≤ 127

/-- `_TYPE_RE.fullmatch`. -/
def isType : Text → Bool
  | [] => false
  | c :: s => isLetter c && s.all (fun c => isStart c || Decimal.isDigit c) && s.length ≤ 63

/-- A row that passes the checks. -/
structure SchemaRow where
  schema : Text
  table : Text
  column : Text
  dataType : Text
  maxLength : Loaded
  numericPrecision : Loaded
  numericScale : Loaded
  nullable : Bool
  schema_valid : isIdentifier schema = true
  table_valid : isIdentifier table = true
  column_valid : isIdentifier column = true
  dataType_valid : isType dataType = true

/-- `row.get(key)`. -/
def value (row : List (Text × Loaded)) (key : String) : Loaded :=
  (Json.get row key.toList).getD .null

/-- `str(value).upper() == "YES"`; only a string can be that. -/
def isYes : Loaded → Bool
  | .str s => s.map (fun c => if c = 'ſ' then 'S' else c.toUpper) = "YES".toList
  | _ => false

/-- The row, if `render_schema` does not skip it. -/
def toRow? : Loaded → Option SchemaRow
  | .obj row =>
    match value row "table_schema", value row "table_name", value row "column_name",
      value row "data_type" with
    | .str schema, .str table, .str column, .str dataType =>
      if h : isIdentifier schema = true ∧ isIdentifier table = true ∧ isIdentifier column = true ∧
          isType dataType = true then
        some ⟨schema, table, column, dataType, value row "max_length",
          value row "numeric_precision", value row "numeric_scale",
          isYes (value row "is_nullable"), h.1, h.2.1, h.2.2.1, h.2.2.2⟩
      else none
    | _, _, _, _ => none
  | _ => none

/-! ## Types -/

/-- `OverflowError`: an infinite float is no integer. -/
inductive OverflowError where
  | infinity
deriving DecidableEq, Repr

/-- `int(value)`; `none` for a `TypeError` or a `ValueError`. -/
def int (value : Loaded) : Except OverflowError (Option Int) :=
  match Convert.toInt value with
  | .ok n => .ok (some n)
  | .error .overflowError => .error .infinity
  | .error _ => .ok none

/-- `_bounded_int`. -/
def boundedInt (value : Loaded) (minimum maximum : Int) : Except OverflowError (Option Int) :=
  match value with
  | .bool _ => .ok none
  | value => (int value).map fun number => number.filter fun n => minimum ≤ n ∧ n ≤ maximum

/-- `_CHAR_TYPES`. -/
def charTypes : List Text :=
  ["char".toList, "nchar".toList, "varchar".toList, "nvarchar".toList, "binary".toList,
    "varbinary".toList]

/-- `_DECIMAL_TYPES`. -/
def decimalTypes : List Text := ["decimal".toList, "numeric".toList]

/-- The length behind a type. -/
def lengthText (length : Option Int) : Text :=
  match length with
  | some n =>
    if n = -1 then "(MAX)".toList
    else if 0 < n then '(' :: Text.ofInt n ++ [')']
    else []
  | none => []

/-- The precision and the scale behind a type. -/
def precisionText (precision scale : Option Int) : Text :=
  match precision, scale with
  | some p, some s => if s ≤ p then '(' :: Text.ofInt p ++ ',' :: Text.ofInt s ++ [')'] else []
  | _, _ => []

/-- `_type_sql`. -/
def typeSql (row : SchemaRow) : Except OverflowError Text :=
  let lowered := row.dataType.lower
  if lowered ∈ charTypes then do
    let length ← boundedInt row.maxLength (-1) 1000000
    pure (row.dataType ++ lengthText length)
  else if lowered ∈ decimalTypes then do
    let p ← boundedInt row.numericPrecision 1 38
    let s ← boundedInt row.numericScale 0 38
    pure (row.dataType ++ precisionText p s)
  else pure row.dataType

/-! ## Statements -/

/-- The line of a column. -/
def columnLine (row : SchemaRow) : Except OverflowError Text := do
  let type ← typeSql row
  pure ("  [".toList ++ row.column ++ "] ".toList ++ type ++ " ".toList ++
    (if row.nullable then "NULL" else "NOT NULL").toList)

def header (schema table : Text) : Text :=
  "CREATE TABLE [".toList ++ schema ++ "].[".toList ++ table ++ "] (\n".toList

/-- The statement of a table: its columns are the lines of a group of rows. -/
def statement (group : List (SchemaRow × Text)) : Text :=
  match group with
  | [] => []
  | first :: _ => header first.1.schema first.1.table ++
      join ",\n".toList (group.map Prod.snd) ++ "\n);".toList

def tableKey (row : SchemaRow × Text) : Text × Text := (row.1.schema, row.1.table)

/-- The rows that `render_schema` does not skip. -/
def validRows (rows : List Loaded) : List SchemaRow := rows.filterMap toRow?

def renderSchema (rows : List Loaded) : Except OverflowError Text := do
  let lines ← (validRows rows).mapM fun row => do
    let line ← columnLine row
    pure (row, line)
  pure (join "\n\n".toList ((groups tableKey lines).map statement))

/-- The conversion of a value raises. -/
def IsInfinite (value : Loaded) : Prop := ∃ negative, value = .float (.inf negative)

/-- The type of the row cannot be written. -/
def Overflows (row : SchemaRow) : Prop :=
  (row.dataType.lower ∈ charTypes ∧ IsInfinite row.maxLength) ∨
    (row.dataType.lower ∈ decimalTypes ∧
      (IsInfinite row.numericPrecision ∨ IsInfinite row.numericScale))

end MssqlSchema
