import AlmightyReview.Db
import AlmightyReview.Lib.Tsql

/-!
# The local guard of a query

`guard_read_sql`, which a query passes before it is sent to the gateway.

* `maskCommentsLiteralsIdentifiers` writes blanks over comments, literals and quoted identifiers.
* `checkStatement`: one statement, whose first word is SELECT or WITH, without the words that
  write (`forbidden`).
* `checkTop`: the first SELECT outside parentheses is a scalar aggregate, or begins with a bounded
  TOP. Its place is found in the masked text and looked up in the text itself.

A pattern is written as the matcher of its parts. No part of these patterns can give back a
character that the next part needs, so that the greedy match is the only one. `wide` tells which
characters beyond ASCII are in `\w`.
-/

namespace SqlGateway

/-! ## The mask -/

/-- The characters after the opener, up to the closer that ends the region. -/
def closedAt (closer : Char) : Text → Option Nat
  | [] => none
  | [c] => if c = closer then some 1 else none
  | c :: d :: s =>
    if c = closer then
      if closer ≠ ']' ∧ d = closer then (closedAt closer s).map (· + 2) else some 1
    else (closedAt closer (d :: s)).map (· + 1)

/-- The length of the region that begins the text; 0 when none does. -/
def region : Text → Except Exc Nat
  | [] => .ok 0
  | c :: s =>
    if Text.startsWith (c :: s) ['-', '-'] then
      .ok (((Text.find ['\n'] (s.drop 1)).map (· + 2)).getD (s.length + 1))
    else if Text.startsWith (c :: s) ['/', '*'] then
      match Text.find ['*', '/'] (s.drop 1) with
      | none => .error (.valueError "unterminated block comment".toList)
      | some n => .ok (n + 4)
    else if c = '\'' ∨ c = '"' ∨ c = '[' then
      match closedAt (if c = '[' then ']' else c) s with
      | none => .error (.valueError "unterminated_literal_or_identifier".toList)
      | some n => .ok (n + 1)
    else .ok 0

/-- The mask of the text after the next `skip` characters, which are in a region. -/
def maskFrom : Nat → Text → Except Exc Text
  | _, [] => .ok []
  | skip + 1, _ :: s => (maskFrom skip s).map (' ' :: ·)
  | 0, c :: s => do
    let n ← region (c :: s)
    if n = 0 then (maskFrom 0 s).map (c :: ·) else (maskFrom (n - 1) s).map (' ' :: ·)

def maskCommentsLiteralsIdentifiers (sql : Text) : Except Exc Text := maskFrom 0 sql

/-! ## Names -/

/-- `[A-Za-z_]` -/
def isNameStart (c : Char) : Bool := c.isAlpha || c == '_'

/-- `[A-Za-z0-9_]` -/
def isNamePart (c : Char) : Bool := c.isAlphanum || c == '_'

/-- `re.sub(r"@[A-Za-z_][A-Za-z0-9_]*", " ", s)`, after the next `skip` characters. -/
def withoutParamsFrom : Nat → Text → Text
  | _, [] => []
  | skip + 1, _ :: s => withoutParamsFrom skip s
  | 0, c :: s =>
    if c = '@' ∧ s.head?.any isNameStart then
      ' ' :: withoutParamsFrom (s.takeWhile isNamePart).length s
    else c :: withoutParamsFrom 0 s

def withoutParams (s : Text) : Text := withoutParamsFrom 0 s

/-- `re.findall(r"[A-Za-z_][A-Za-z0-9_]*", s)`, after the next `skip` characters. -/
def namesFrom : Nat → Text → List Text
  | _, [] => []
  | skip + 1, _ :: s => namesFrom skip s
  | 0, c :: s =>
    if isNameStart c then
      (c :: s.takeWhile isNamePart) :: namesFrom (s.takeWhile isNamePart).length s
    else namesFrom 0 s

def names (s : Text) : List Text := namesFrom 0 s

/-- `c.lower()`. The only letters beyond ASCII whose lower case begins with an ASCII letter are the
Kelvin sign and the dotted capital I; the others are not looked at. -/
def lowerChar (c : Char) : Text :=
  if c.toNat = 0x212a then ['k']
  else if c.toNat = 0x130 then ['i', Char.ofNat 0x307]
  else [c.toLower]

/-- `s.lower()` -/
def lower (s : Text) : Text := s.flatMap lowerChar

/-- `_FORBIDDEN` -/
def forbidden : List Text :=
  ["alter", "backup", "begin", "bulk", "commit", "create", "dbcc", "declare", "delete", "deny",
    "drop", "exec", "execute", "grant", "insert", "kill", "merge", "offset", "opendatasource",
    "openquery", "openrowset", "reconfigure", "restore", "revoke", "rollback", "save", "set",
    "shutdown", "transaction", "truncate", "update", "use", "waitfor"].map String.toList

/-! ## Patterns -/

/-- A letter of a pattern against a character, without regard to case. -/
def foldsTo (p c : Char) : Bool :=
  c.toLower == p || (p == 'i' && (c.toNat == 0x130 || c.toNat == 0x131)) ||
    (p == 's' && c.toNat == 0x17f) || (p == 'k' && c.toNat == 0x212a)

/-- The rest of the text after a word of a pattern. -/
def afterWord : Text → Text → Option Text
  | [], s => some s
  | _ :: _, [] => none
  | p :: ps, c :: s => if foldsTo p c then afterWord ps s else none

/-- The rest after `\s*`. -/
def afterBlanks (s : Text) : Text := s.dropWhile Text.isSpace

/-- The rest after `\s+`. -/
def afterBlank (s : Text) : Option Text :=
  if s.head?.any Text.isSpace then some (afterBlanks s) else none

/-- The rest after one character. -/
def afterChar (c : Char) (s : Text) : Option Text :=
  if s.head? = some c then some s.tail else none

/-- The rest after `\s*select\s+(?:(?:all|distinct)\s+)?`. -/
def afterSelect (s : Text) : Option Text := do
  let s ← afterBlank (← afterWord "select".toList (afterBlanks s))
  pure <| (((afterWord "all".toList s).bind afterBlank).or
    ((afterWord "distinct".toList s).bind afterBlank)).getD s

variable (wide : Char → Bool)

/-- `\w` -/
def isWord (c : Char) : Bool :=
  isNamePart c || Tsql.foldingLetters.contains c ||
    (128 ≤ c.toNat && wide c && !Text.isSpace c)

/-- `\b` after a word that ends here. -/
def endsWord (s : Text) : Bool := !s.head?.any (isWord wide)

/-- A pattern that begins with `\b` and a letter, searched from here on; `before`: the character
before is in `\w`. -/
def searchFrom (pattern : Text → Bool) : Bool → Text → Bool
  | _, [] => false
  | before, c :: s => (!before && pattern (c :: s)) || searchFrom pattern (isWord wide c) s

def search (pattern : Text → Bool) (s : Text) : Bool := searchFrom wide pattern false s

/-- A word, then `\b`. -/
def isWholeWord (w : Text) (s : Text) : Bool := (afterWord w s).any (endsWord wide)

/-- `group\s+by\b` -/
def isGroupBy (s : Text) : Bool :=
  (((afterWord "group".toList s).bind afterBlank).bind (afterWord "by".toList)).any (endsWord wide)

/-- `over\s*\(` -/
def isOver (s : Text) : Bool :=
  (((afterWord "over".toList s).map afterBlanks).bind (afterChar '(')).isSome

/-- `(?:union|intersect|except)\b` -/
def isSetOperator (s : Text) : Bool :=
  ["union".toList, "intersect".toList, "except".toList].any fun w => isWholeWord wide w s

/-- `_outer_select_offset` from the offset `i` on, inside `depth` parentheses. -/
def outerSelectFrom : Nat → Nat → Bool → Text → Option Nat
  | _, _, _, [] => none
  | i, depth, before, c :: s =>
    if c = '(' then outerSelectFrom (i + 1) (depth + 1) false s
    else if c = ')' then if depth = 0 then none else outerSelectFrom (i + 1) (depth - 1) false s
    else if !before && isWholeWord wide "select".toList (c :: s) && depth = 0 then some i
    else outerSelectFrom (i + 1) depth (isWord wide c) s

def outerSelectOffset (plain : Text) : Option Nat := outerSelectFrom wide 0 0 false plain

/-- `^\s*select\s+(?:(?:all|distinct)\s+)?(?:count_big|count|sum|avg|min|max)\s*\(` -/
def isAggregate (s : Text) : Bool :=
  (afterSelect s).any fun s =>
    ["count_big", "count", "sum", "avg", "min", "max"].any fun w =>
      (((afterWord w.toList s).map afterBlanks).bind (afterChar '(')).isSome

/-- `scalar` -/
def isScalar (outerPlain : Text) : Bool :=
  isAggregate outerPlain && !search wide (isGroupBy wide) outerPlain &&
    !search wide isOver outerPlain && !search wide (isSetOperator wide) outerPlain

/-- What stands in the parentheses of TOP. -/
inductive Top where
  | param (name : Text)
  | digits (ds : Text)
  deriving DecidableEq

/-- A character of `[A-Za-z0-9_]` without regard to case. -/
def foldsToNamePart (c : Char) : Bool := isNamePart c || Tsql.foldingLetters.contains c

/-- A character of `[A-Za-z_]` without regard to case. -/
def foldsToNameStart (c : Char) : Bool := isNameStart c || Tsql.foldingLetters.contains c

/-- `@[A-Za-z_][A-Za-z0-9_]*|[0-9]+`, and the rest. -/
def topValue (s : Text) : Option (Top × Text) :=
  if s.head? = some '@' then
    if s.tail.head?.any foldsToNameStart then
      some (.param (s.tail.takeWhile foldsToNamePart), s.tail.dropWhile foldsToNamePart)
    else none
  else if s.head?.any Char.isDigit then
    some (.digits (s.takeWhile Char.isDigit), s.dropWhile Char.isDigit)
  else none

/-- `^\s*select\s+(?:(?:all|distinct)\s+)?top\s*\(`, and the rest. -/
def afterTop (s : Text) : Option Text := do
  afterChar '(' (afterBlanks (← afterWord "top".toList (← afterSelect s)))

/-- `top`: its group 1. -/
def matchTop (s : Text) : Option Top := do
  let (value, s) ← topValue (afterBlanks (← afterTop s))
  let _ ← afterChar ')' (afterBlanks s)
  pure value

/-- `…top\s*\([^)]*\)\s*percent\b` -/
def isPercent (s : Text) : Bool :=
  (((afterTop s).map (·.dropWhile (· != ')'))).bind (afterChar ')')).any fun s =>
    isWholeWord wide "percent".toList (afterBlanks s)

/-! ## The guard -/

/-- A value of a parameter. -/
inductive Value where
  | none
  | str (s : Text)
  | int (i : Int)
  | float
  | bool (b : Bool)
  | other
  deriving DecidableEq

/-- A key of the parameters. -/
inductive Key where
  | str (s : Text)
  | other
  deriving DecidableEq

/-- `_PARAM_RE.fullmatch` -/
def isParamName (s : Text) : Bool := s.head?.any isNameStart && s.all isNamePart

def raise {α : Type} (message : String) : Except Exc α := .error (.valueError message.toList)

def check (ok : Bool) (message : String) : Except Exc Unit := if ok then .ok () else raise message

def checkParams : List (Key × Value) → Except Exc Unit
  | [] => .ok ()
  | (key, value) :: params => do
    check (match key with | .str s => isParamName s | .other => false) "invalid_param_name"
    check (value != .other) "invalid_param_value"
    checkParams params

/-- `parts` -/
def parts (s : Text) : List Text := ((s.splitOn ';').map Text.strip).filter (· ≠ [])

/-- `head`, in lower case; empty when there is none. -/
def headWord (s : Text) : Text :=
  let s := afterBlanks s
  if s.head?.any isNameStart then Text.lower (s.takeWhile isNamePart) else []

/-- The words that write. -/
def checkWords : List Text → Except Exc Unit
  | [] => .ok ()
  | word :: words => do
    check (word != "into".toList) "select_into"
    check (!word.startsWith "xp_".toList) "extended_procedure"
    if word ∈ forbidden then .error (.valueError ("forbidden_".toList ++ word))
    checkWords words

/-- The checks up to the temporary tables, of the masked text. -/
def checkStatement (plain : Text) : Except Exc Unit := do
  let s := withoutParams plain
  check ((parts s).length = 1) "multi_statement"
  check (headWord s = "select".toList || headWord s = "with".toList) "select_only"
  check (headWord s != "with".toList || search wide (isWholeWord wide "select".toList) s)
    "with_without_select"
  check (!search wide (isWholeWord wide "limit".toList) s) "limit_not_allowed"
  checkWords (names (lower s))
  check ('#' ∉ s) "temporary_table"

/-- `int(raw)` of digits; the interpreter refuses more than 4300 of them. -/
def intOf (ds : Text) : Except Exc Int :=
  if ds.length > 4300 then
    .error (.valueError ("Exceeds the limit (4300 digits) for integer string conversion: ".toList ++
      "value has ".toList ++ Text.ofNat ds.length ++
      " digits; use sys.set_int_max_str_digits() to increase the limit".toList))
  else .ok ((ds.foldl (fun n d => 10 * n + (d.toNat - 48)) 0 : Nat) : Int)

/-- The number of rows that TOP asks for. -/
def topRows (params : List (Key × Value)) : Top → Except Exc Int
  | .param name =>
    match (params.find? fun p => p.1 = .str name).map Prod.snd with
    | some (.int i) => .ok i
    | _ => raise "invalid_top_parameter"
  | .digits ds => intOf ds

/-- The checks from the outer SELECT on. -/
def checkTop (sql plain : Text) (params : List (Key × Value)) (maxRows : Int) :
    Except Exc Unit :=
  match outerSelectOffset wide plain with
  | none => raise "missing_outer_select"
  | some offset =>
    match matchTop (sql.drop offset) with
    | none => check (isScalar wide (plain.drop offset)) "missing_top"
    | some top => do
      check (!isPercent wide (sql.drop offset)) "top_percent"
      let value ← topRows params top
      check (0 < value) "invalid_top_limit"
      check (value ≤ maxRows) "max_rows_exceeded"

/-- `guard_read_sql` of a text; `params` is a dict. -/
def guardReadSql (sql : Text) (params : List (Key × Value)) (maxRows : Int) : Except Exc Unit := do
  check (sql.strip != []) "empty_sql"
  checkParams params
  let plain ← maskCommentsLiteralsIdentifiers sql.strip
  checkStatement wide plain
  checkTop wide sql plain params maxRows

end SqlGateway
