import AlmightyReview.Lib.Integer
import AlmightyReview.Lib.Json
import AlmightyReview.Lib.Scan

/-!
# Conversions of loaded values

`int(v)`, `float(v)` and `str(v)` of the values that `json.loads` gives.

* `toInt`, `toFloat`: the number, or the exception that Python raises.
* `readInt`, `readFloat`: the numbers that are read of a text.
* `str`, `repr`: the text of a value. Which characters beyond ASCII are printable is an argument.
-/

namespace Convert

open Json (Loaded PyFloat)

inductive ConversionError where
  | typeError
  | valueError
  | overflowError
  deriving DecidableEq, Repr

/-! ## Numbers of a text -/

/-- A blank around a number: one of C in ASCII, and of `str.isspace` beyond. -/
def isBlank (n : Nat) : Bool :=
  Integer.asciiBlank n || (decide (127 ≤ n) && Text.isSpace (Char.ofNat n))

/-- `int(s)`; `none` for a `ValueError`. -/
def readInt (s : Text) : Option Int :=
  Integer.read (fun n => Text.digit? (Char.ofNat n)) isBlank (s.map Char.toNat)

/-- A decimal digit of any script as one of ASCII. -/
def asciiDigit (c : Char) : Char :=
  match Text.digit? c with
  | some d => Char.ofNat (48 + d)
  | none => c

/-- The text without its underscores, of which each stands between two digits; `prev` is the
character in front of the text. -/
def dropUnderscores : Char → Text → Option Text
  | prev, [] => if prev = '_' then none else some []
  | prev, c :: s =>
    if c = '_' then if Decimal.isDigit prev then dropUnderscores c s else none
    else if prev = '_' ∧ Decimal.isDigit c = false then none
    else (dropUnderscores c s).map (c :: ·)

/-- A number without its sign. -/
def unsignedFloat (negative : Bool) (s : Text) : Option PyFloat :=
  if s.lower = "inf".toList ∨ s.lower = "infinity".toList then some (.inf negative)
  else if s.lower = "nan".toList then some .nan
  else
    let int := s.takeWhile Decimal.isDigit
    let (frac, rest) :=
      match s.dropWhile Decimal.isDigit with
      | '.' :: t => (some (t.takeWhile Decimal.isDigit), t.dropWhile Decimal.isDigit)
      | t => (none, t)
    if int = [] ∧ frac.getD [] = [] then none
    else
      match Json.scanExponent rest with
      | (exponent, []) => some (Json.ofDecimal negative ⟨int, frac, exponent⟩)
      | _ => none

/-- `float(s)`; `none` for a `ValueError`. A number beyond the greatest float is infinite. -/
def readFloat (s : Text) : Option PyFloat :=
  let blank := fun c : Char => isBlank c.toNat
  let trimmed := ((s.dropWhile blank).reverse.dropWhile blank).reverse
  (dropUnderscores '\x00' (trimmed.map asciiDigit)).bind fun t =>
    match t with
    | '-' :: t => unsignedFloat true t
    | '+' :: t => unsignedFloat false t
    | t => unsignedFloat false t

/-! ## Numbers of a value -/

/-- A float without its fraction. -/
def trunc (x : Double) : Int := if x.negative then -x.magnitude.floor else x.magnitude.floor

/-- `int(v)`. -/
def toInt : Loaded → Except ConversionError Int
  | .bool b => .ok b.toNat
  | .int n _ => .ok n
  | .float (.finite x) => .ok (trunc x)
  | .float (.inf _) => .error .overflowError
  | .float .nan => .error .valueError
  | .str s =>
    match readInt s with
    | some n => .ok n
    | none => .error .valueError
  | _ => .error .typeError

/-- Only an infinite float is too large for an integer. -/
theorem toInt_overflow {v : Loaded} :
    toInt v = .error .overflowError ↔ ∃ negative, v = .float (.inf negative) := by
  constructor
  · intro h
    unfold toInt at h
    split at h
    case h_4 negative => exact ⟨negative, rfl⟩
    case h_6 s => split at h <;> cases h
    all_goals cases h
  · rintro ⟨negative, rfl⟩
    rfl

/-- The float nearest to an integer. -/
def floatOfInt (n : Int) : Except ConversionError PyFloat :=
  match Double.ofDecimal (decide (n < 0)) ⟨Text.ofNat n.natAbs, none, none⟩ with
  | some x => .ok (.finite x)
  | none => .error .overflowError

/-- `float(v)`. -/
def toFloat : Loaded → Except ConversionError PyFloat
  | .bool b => floatOfInt b.toNat
  | .int n _ => floatOfInt n
  | .float x => .ok x
  | .str s =>
    match readFloat s with
    | some x => .ok x
    | none => .error .valueError
  | _ => .error .typeError

/-! ## Texts -/

/-- So many hexadecimal digits of a number. -/
def hexText : Nat → Nat → Text
  | 0, _ => []
  | k + 1, n => hexText k (n / 16) ++ [Json.hexDigit (n % 16)]

variable (printable : Char → Bool)

/-- A character as `repr` writes it between quotes. -/
def escape (quote c : Char) : Text :=
  let n := c.toNat
  if c = quote ∨ c = '\\' then ['\\', c]
  else if c = '\t' then ['\\', 't']
  else if c = '\n' then ['\\', 'n']
  else if c = '\r' then ['\\', 'r']
  else if 32 ≤ n ∧ n < 127 then [c]
  else if 127 < n ∧ printable c = true then [c]
  else if n < 0x100 then '\\' :: 'x' :: hexText 2 n
  else if n < 0x10000 then '\\' :: 'u' :: hexText 4 n
  else '\\' :: 'U' :: hexText 8 n

/-- `repr(s)`: the quotes are double only where there are single ones and no double ones. -/
def reprText (s : Text) : Text :=
  let quote := if '\'' ∈ s ∧ '"' ∉ s then '"' else '\''
  quote :: s.flatMap (escape printable quote) ++ [quote]

def reprFloat : PyFloat → Text
  | .finite x => x.repr
  | .inf negative => (if negative then "-inf" else "inf").toList
  | .nan => "nan".toList

mutual

/-- `repr(v)`. -/
def repr : Loaded → Text
  | .null => "None".toList
  | .bool b => (if b then "True" else "False").toList
  | .int n _ => Text.ofInt n
  | .float x => reprFloat x
  | .str s => reprText printable s
  | .arr xs => '[' :: Json.join ", ".toList (reprEach xs) ++ [']']
  | .obj fields => '\x7b' :: Json.join ", ".toList (reprFields fields) ++ ['\x7d']

def reprEach : List Loaded → List Text
  | [] => []
  | v :: vs => repr v :: reprEach vs

def reprFields : List (Text × Loaded) → List Text
  | [] => []
  | f :: fields => (reprText printable f.1 ++ ": ".toList ++ repr f.2) :: reprFields fields

end

/-- `str(v)`. -/
def str : Loaded → Text
  | .str s => s
  | v => repr printable v

end Convert
