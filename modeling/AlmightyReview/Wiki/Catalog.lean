import AlmightyReview.Lib.Scan
import AlmightyReview.Lib.SetDict

/-!
# The catalog of a database

`build_database_catalog`: `CREATE TABLE` statements are read line by line, and their columns item by
item.

* `Unicode`: what Python knows of the characters beyond ASCII.
* `headerName`, `parseTables`: the statements of a text, with their table names. A header is
  recognised by a pattern in which a name has only the characters of `\w`.
* `splitTopLevel`: the items between the parentheses, as a machine that reads a character at a time.
* `statementColumns`: the names that the items begin with, except for the words that begin a
  constraint.
-/

namespace DbCatalog

/-- What is known of the characters beyond ASCII. -/
structure Unicode where
  /-- `\w`. -/
  word : Char → Bool
  /-- `str.casefold` of one character. -/
  casefold : Char → Text

variable (u : Unicode)

def isAscii (c : Char) : Bool := c.toNat < 128

/-- `\w`. -/
def isWord (c : Char) : Bool := if isAscii c then c.isAlphanum || c == '_' else u.word c

/-- `s.casefold()`. -/
def casefold (s : Text) : Text :=
  s.flatMap fun c => if isAscii c then [c.toLower] else u.casefold c

/-! ## Headers -/

/-- A character as `IGNORECASE` compares it with a letter of a keyword. -/
def ignoreCase (c : Char) : Char :=
  if c = 'İ' ∨ c = 'ı' then 'i' else if c = 'ſ' then 's' else c.toLower

/-- The rest after a word in whatever case; the word is given in lowercase. -/
def keyword : Text → Text → Option Text
  | [], s => some s
  | _ :: _, [] => none
  | w :: word, c :: s => if ignoreCase c = w then keyword word s else none

/-- The rest after `\s+`. -/
def spaces : Text → Option Text
  | [] => none
  | c :: s => if Text.isSpace c then some (Text.lstrip s) else none

/-- The first character, if it is one of these, and the rest. -/
def optional (quotes : List Char) : Text → Text × Text
  | [] => ([], [])
  | c :: s => if c ∈ quotes then ([c], s) else ([], c :: s)

/-- ``[`"\[]?\w+[`"\]]?`` at the start, and the rest. -/
def segment (s : Text) : Option (Text × Text) :=
  let opening := optional ['`', '"', '['] s
  let word := opening.2.takeWhile (isWord u)
  let closing := optional ['`', '"', ']'] (opening.2.dropWhile (isWord u))
  if word = [] then none else some (opening.1 ++ word ++ closing.1, closing.2)

/-- A name that may be qualified. -/
def qualified (s : Text) : Option Text :=
  match segment u s with
  | none => none
  | some (first, '.' :: s) =>
    match segment u s with
    | some (second, _) => some (first ++ '.' :: second)
    | none => some first
  | some (first, _) => some first

/-- `IF\s+NOT\s+EXISTS\s+`. -/
def ifNotExists (s : Text) : Option Text := do
  let s ← spaces (← keyword "if".toList s)
  let s ← spaces (← keyword "not".toList s)
  spaces (← keyword "exists".toList s)

/-- The group of `_HEADER_RE` at the start of a text. -/
def headerName (line : Text) : Option Text := do
  let s ← spaces (← keyword "create".toList (Text.lstrip line))
  let s ← spaces (← keyword "table".toList s)
  ((ifNotExists s).bind (qualified u)).or (qualified u s)

/-! ## Statements -/

/-- A line without its comment; nothing follows the end of a line. -/
def removeComment : Text → Text
  | '-' :: '-' :: s => s.dropWhile (· ≠ '\n')
  | c :: s => c :: removeComment s
  | [] => []

/-- `_terminates`. -/
def terminates (line : Text) : Bool :=
  (Text.lstrip line).head? == some ')' ||
    (Text.rstrip (removeComment line)).getLast? == some ';'

/-- ``s.strip('`"[] ')``. -/
def stripQuotes (s : Text) : Text :=
  let isQuote := fun c : Char => c ∈ ['`', '"', '[', ']', ' ']
  ((s.dropWhile isQuote).reverse.dropWhile isQuote).reverse

/-- The name of the table in a header. -/
def tableName (group : Text) : Text := stripQuotes ((group.splitOn '.').getLast?.getD [])

/-- The tables of the lines to come, and the one that was begun. -/
def parseLines : Option (Text × Text) → List Text → List (Text × Text)
  | none, [] => []
  | some table, [] => [table]
  | none, line :: lines =>
    match headerName u line with
    | none => parseLines none lines
    | some group =>
      if terminates line then (tableName group, line) :: parseLines none lines
      else parseLines (some (tableName group, line)) lines
  | some (name, statement), line :: lines =>
    if terminates line then (name, statement ++ line) :: parseLines none lines
    else parseLines (some (name, statement ++ line)) lines

/-- `_parse_tables`. -/
def parseTables (ddl : Text) : List (Text × Text) :=
  (parseLines u none ddl.splitlinesKeep).filter fun table => table.1 ≠ []

/-! ## Items -/

/-- Where `_split_top_level` is; after `skip` it is there one character later. -/
inductive Mode where
  | code
  | lineComment
  | blockComment
  | quoted (quote : Char)
  | skip (next : Mode)

/-- The mode and the depth after a character, which `rest` follows. -/
def advance : Mode → Nat → Char → Text → Mode × Nat
  | .skip next, depth, _, _ => (next, depth)
  | .lineComment, depth, c, _ => (if c = '\n' then .code else .lineComment, depth)
  | .blockComment, depth, c, rest =>
    (if c = '*' ∧ rest.head? = some '/' then .skip .code else .blockComment, depth)
  | .quoted quote, depth, c, rest =>
    (if c ≠ quote then .quoted quote
      else if rest.head? = some quote ∧ quote ∈ ['\'', '"', '`'] then .skip (.quoted quote)
      else .code, depth)
  | .code, depth, c, rest =>
    if c = '-' ∧ rest.head? = some '-' then (.skip .lineComment, depth)
    else if c = '/' ∧ rest.head? = some '*' then (.skip .blockComment, depth)
    else if c ∈ ['\'', '"', '`'] then (.quoted c, depth)
    else if c = '[' then (.quoted ']', depth)
    else if c = '(' then (.code, depth + 1)
    else if c = ')' then (.code, depth - 1)
    else (.code, depth)

/-- The character ends an item. -/
def endsItem : Mode → Nat → Char → Bool
  | .code, 0, ',' => true
  | _, _, _ => false

/-- The items to come, the first of which has begun with `part`. -/
def splitFrom : Mode → Nat → Text → Text → List Text
  | _, _, part, [] => [part]
  | mode, depth, part, c :: s =>
    if endsItem mode depth c then part :: splitFrom mode depth [] s
    else
      let next := advance mode depth c s
      splitFrom next.1 next.2 (part ++ [c]) s

/-- `_split_top_level`. -/
def splitTopLevel (body : Text) : List Text := splitFrom .code 0 [] body

/-- The rest after `sub`, which is left out. -/
def afterSub (sub : Text) : Text → Option Text
  | [] => none
  | c :: s =>
    match Text.dropStart? sub (c :: s) with
    | some rest => some rest
    | none => afterSub sub s

/-- The loop of `_without_leading_comments`; each comment shortens the text. -/
def dropComments : Nat → Text → Text
  | 0, _ => []
  | fuel + 1, value =>
    match Text.dropStart? "--".toList value with
    | some rest =>
      match afterSub "\n".toList rest with
      | some rest => dropComments fuel (Text.lstrip rest)
      | none => []
    | none =>
      match Text.dropStart? "/*".toList value with
      | some rest =>
        match afterSub "*/".toList rest with
        | some rest => dropComments fuel (Text.lstrip rest)
        | none => []
      | none => value

/-- `_without_leading_comments`. -/
def withoutLeadingComments (item : Text) : Text :=
  dropComments (item.length + 1) (Text.lstrip item)

/-! ## Identifiers -/

/-- A quoted name at the start: at least one character up to the quote. -/
def quotedName (opening closing : Char) (s : Text) : Option Text :=
  let inner := s.takeWhile (· ≠ closing)
  if inner = [] ∨ inner.length = s.length then none else some (opening :: inner ++ [closing])

def isNameStart (c : Char) : Bool := isAscii c && (c.isAlpha || c == '_')

def isNamePart (c : Char) : Bool := isAscii c && (c.isAlphanum || c == '_' || c == '$')

/-- `_IDENTIFIER_RE.match`. -/
def identifierAt : Text → Option Text
  | [] => none
  | c :: s =>
    if c = '`' then quotedName '`' '`' s
    else if c = '"' then quotedName '"' '"' s
    else if c = '[' then quotedName '[' ']' s
    else if isNameStart c then some (c :: s.takeWhile isNamePart)
    else none

/-- A name without its quotes. -/
def unquote (value : Text) : Text :=
  if 2 ≤ value.length ∧ (value.head?, value.getLast?) ∈
      [(some '`', some '`'), (some '"', some '"'), (some '[', some ']')] then
    value.tail.dropLast
  else value

/-- `_normalize_identifier`. -/
def normalizeIdentifier (raw : Text) : Text := casefold u (unquote (Text.strip raw))

/-! ## The catalog -/

/-- `_TABLE_CONSTRAINTS`. -/
def tableConstraints : List Text :=
  ["constraint".toList, "primary".toList, "foreign".toList, "unique".toList, "check".toList,
    "key".toList, "index".toList, "exclude".toList]

/-- What is between the first `(` and the last `)`. -/
def statementBody (statement : Text) : Option Text :=
  match statement.dropWhile (· ≠ '(') with
  | [] => none
  | _ :: after =>
    match after.reverse.dropWhile (· ≠ ')') with
    | [] => none
    | _ :: body => some body.reverse

/-- The name of the column of an item. -/
def itemColumn (item : Text) : Option Text :=
  ((identifierAt (withoutLeadingComments item)).map (normalizeIdentifier u)).filter fun column =>
    column ∉ tableConstraints

/-- `_statement_columns`. -/
def statementColumns (statement : Text) : Finset Text :=
  match statementBody statement with
  | none => ∅
  | some body => ((splitTopLevel body).filterMap (itemColumn u)).toFinset

/-- `_catalog_table_keys`. -/
def catalogTableKeys (table statement : Text) : List Text :=
  let tableKey := normalizeIdentifier u table
  match (headerName u statement).map fun group =>
      (group.takeWhile (· ≠ '.'), group.dropWhile (· ≠ '.')) with
  | some (schema, _ :: qualifiedTable) =>
    let normalizedTable := normalizeIdentifier u qualifiedTable
    if normalizedTable = tableKey then
      [tableKey, normalizeIdentifier u schema ++ '.' :: normalizedTable]
    else [tableKey]
  | _ => [tableKey]

/-- The entries of the catalog: each key of a statement, with its columns. -/
def catalogEntries (ddl : Text) : List (Text × Finset Text) :=
  (parseTables u ddl).flatMap fun table =>
    (catalogTableKeys u table.1 table.2).map fun key => (key, statementColumns u table.2)

/-- `build_database_catalog`. -/
def buildDatabaseCatalog (ddl : Text) : SetDict Text Text :=
  (catalogEntries u ddl).foldl (fun d e => d.add e.1 e.2) SetDict.empty

end DbCatalog
