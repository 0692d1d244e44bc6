import AlmightyReview.Lib.Double
import Mathlib.Data.List.Sort

/-!
# Canonical JSON

`json.dumps(value, sort_keys=True, separators=(",", ":"))`: the keys in order, and no blanks.

* `Json.dumps`: an object whose values are strings and integers; every character outside the
  printable ASCII range is escaped.
* `Json.Value.dumps`: any value with finite floats, with `ensure_ascii` as an argument.
* `size_dumps_obj_le`: the size of an object is bounded by that of its fields.
-/

namespace Json

/-- A value of a flat object. -/
inductive Scalar where
  | str (s : Text)
  | int (n : Int)
  deriving DecidableEq, Repr

def hexDigit (n : Nat) : Char :=
  ['0', '1', '2', '3', '4', '5', '6', '7', '8', '9', 'a', 'b', 'c', 'd', 'e', 'f'].getD n '0'

/-- A backslash, `u` and four digits. -/
def unicodeEscape (n : Nat) : Text :=
  ['\\', 'u', hexDigit (n / 4096 % 16), hexDigit (n / 256 % 16), hexDigit (n / 16 % 16),
    hexDigit (n % 16)]

/-- One character in a string; a code point above `U+FFFF` is a surrogate pair. -/
def escape (c : Char) : Text :=
  let n := c.toNat
  if c = '"' then ['\\', '"']
  else if c = '\\' then ['\\', '\\']
  else if n = 10 then ['\\', 'n']
  else if n = 13 then ['\\', 'r']
  else if n = 9 then ['\\', 't']
  else if n = 12 then ['\\', 'f']
  else if n = 8 then ['\\', 'b']
  else if 32 ≤ n ∧ n ≤ 126 then [c]
  else if n < 0x10000 then unicodeEscape n
  else unicodeEscape (0xd800 + (n - 0x10000) / 1024) ++
    unicodeEscape (0xdc00 + (n - 0x10000) % 1024)

def quote (s : Text) : Text := '"' :: s.flatMap escape ++ ['"']

def Scalar.dumps : Scalar → Text
  | .str s => quote s
  | .int n => Text.ofInt n

/-- `sep.join(parts)`. -/
def join (sep : Text) (parts : List Text) : Text := (parts.intersperse sep).flatten

/-- The object with these fields; the keys are distinct. -/
def dumps (fields : List (Text × Scalar)) : Text :=
  let sorted := fields.insertionSort fun a b => a.1 ≤ b.1
  '{' :: join [','] (sorted.map fun f => quote f.1 ++ ':' :: f.2.dumps) ++ ['}']

example : dumps [("b".toList, .int 2), ("a".toList, .str "é\n".toList)] =
    "\x7b\"a\":\"\\u00e9\\n\",\"b\":2\x7d".toList := by
  decide

/-! ## Nested values -/

/-- A value with finite floats. The keys of an object are distinct. -/
inductive Value where
  | null
  | bool (b : Bool)
  | int (n : Int)
  | float (x : Double)
  | str (s : Text)
  | arr (xs : List Value)
  | obj (fields : List (Text × Value))

/-- One character in a string with `ensure_ascii=False`. -/
def escapeWide (c : Char) : Text :=
  if c.toNat < 127 then escape c else [c]

def quoteWith (ascii : Bool) (s : Text) : Text :=
  '"' :: s.flatMap (if ascii then escape else escapeWide) ++ ['"']

mutual

/-- `json.dumps` with `ensure_ascii=ascii`. -/
def Value.dumps (ascii : Bool) : Value → Text
  | .null => "null".toList
  | .bool b => if b then "true".toList else "false".toList
  | .int n => Text.ofInt n
  | .float x => x.repr
  | .str s => quoteWith ascii s
  | .arr xs => '[' :: join [','] (dumpsEach ascii xs) ++ [']']
  | .obj fields =>
    let sorted := (dumpsFields ascii fields).insertionSort fun a b => a.1 ≤ b.1
    '{' :: join [','] (sorted.map fun f => quoteWith ascii f.1 ++ ':' :: f.2) ++ ['}']

def dumpsEach (ascii : Bool) : List Value → List Text
  | [] => []
  | v :: vs => v.dumps ascii :: dumpsEach ascii vs

def dumpsFields (ascii : Bool) : List (Text × Value) → List (Text × Text)
  | [] => []
  | (key, v) :: fields => (key, v.dumps ascii) :: dumpsFields ascii fields

end

/-- A value that may be missing. -/
def ofOption {α : Type} (f : α → Value) : Option α → Value
  | none => .null
  | some a => f a

def ofNat (n : Nat) : Value := .int n

example :
    (Value.obj [("b".toList, .arr [.int 2, .null]), ("a".toList, .str "é".toList)]).dumps false =
    "\x7b\"a\":\"é\",\"b\":[2,null]\x7d".toList := by
  decide

/-! ## Sizes -/

/-- The size of a text in UTF-8. -/
def size (s : Text) : Nat := s.encode.length

theorem size_append (s t : Text) : size (s ++ t) = size s + size t := by
  unfold size Text.encode
  rw [List.flatMap_append, List.length_append]

theorem length_escape_le (c : Char) : (escape c).length ≤ 12 := by
  have hunit : ∀ n, (unicodeEscape n).length = 6 := fun n => rfl
  unfold escape
  dsimp only
  repeat' split
  all_goals simp [hunit]

theorem size_quoteWith_le (s : Text) : size (quoteWith true s) ≤ 8 + 48 * s.length := by
  have hlen : (quoteWith true s).length ≤ 2 + 12 * s.length := by
    have hflat : (s.flatMap escape).length ≤ 12 * s.length := by
      induction s with
      | nil => exact le_rfl
      | cons c s ih =>
        have := length_escape_le c
        rw [List.flatMap_cons, List.length_append, List.length_cons]
        omega
    unfold quoteWith
    simp only [if_true, List.length_append, List.length_cons, List.length_nil]
    omega
  have := (Text.length_encode (quoteWith true s)).2
  unfold size
  omega

theorem size_digits {ds : Text} (h : ∀ c ∈ ds, c.toNat < 128) : size ds = ds.length := by
  induction ds with
  | nil => rfl
  | cons c ds ih =>
    have hc : Text.utf8 c = [c.toNat] := by
      unfold Text.utf8
      exact if_pos (h c List.mem_cons_self)
    have hrest := ih fun c hc => h c (List.mem_cons_of_mem _ hc)
    unfold size Text.encode at hrest ⊢
    rw [List.flatMap_cons, hc, List.length_append, hrest]
    simp only [List.length_cons, List.length_nil]
    omega

theorem size_ofInt_le {n : Int} {k : Nat} (hk : 0 < k) (h : n.natAbs < 10 ^ k) :
    size (Text.ofInt n) ≤ k + 1 := by
  have hnat : ∀ m, m < 10 ^ k → size (Text.ofNat m) ≤ k := by
    intro m hm
    rw [size_digits fun c hc => ?_]
    · exact (Nat.length_toDigits_le_iff (by decide) hk).mpr hm
    · have := Nat.isDigit_of_mem_toDigits (by decide) (by decide) hc
      simp only [Char.isDigit, Bool.and_eq_true, decide_eq_true_eq, ge_iff_le,
        UInt32.le_iff_toNat_le] at this
      exact lt_of_le_of_lt this.2 (by decide)
  cases n with
  | ofNat m =>
    have := hnat m h
    exact Nat.le_succ_of_le this
  | negSucc m =>
    have := hnat (m + 1) h
    show size (['-'] ++ Text.ofNat (m + 1)) ≤ k + 1
    rw [size_append]
    have : size ['-'] = 1 := by decide
    omega

theorem size_join_le (parts : List Text) :
    size (join [','] parts) ≤ (parts.map fun p => size p + 1).sum := by
  unfold join
  induction parts with
  | nil => exact le_rfl
  | cons p parts ih =>
    cases parts with
    | nil =>
      simp [size]
    | cons q parts =>
      simp only [List.intersperse_cons_cons, List.flatten_cons, size_append, List.map_cons,
        List.sum_cons] at ih ⊢
      have : size [','] = 1 := by decide
      omega

/-- The size of a field in an object, with what stands between fields. -/
def fieldSize (f : Text × Value) : Nat :=
  size (quoteWith true f.1) + size (f.2.dumps true) + 2

theorem dumpsFields_eq (ascii : Bool) (fields : List (Text × Value)) :
    dumpsFields ascii fields = fields.map fun f => (f.1, f.2.dumps ascii) := by
  induction fields with
  | nil => rfl
  | cons f fields ih =>
    rw [dumpsFields, ih]
    rfl

/-- **The size of an object** is at most that of its fields, in whatever order they are written. -/
theorem size_dumps_obj_le (fields : List (Text × Value)) :
    size ((Value.obj fields).dumps true) ≤ (fields.map fieldSize).sum + 2 := by
  have hperm := List.perm_insertionSort (fun a b : Text × Text => a.1 ≤ b.1)
    (dumpsFields true fields)
  have hsum := ((hperm.map fun f => quoteWith true f.1 ++ ':' :: f.2).map
    fun p => size p + 1).sum_nat
  have hjoin := size_join_le (((dumpsFields true fields).insertionSort fun a b => a.1 ≤ b.1).map
    fun f => quoteWith true f.1 ++ ':' :: f.2)
  have hfields : (((dumpsFields true fields).map fun f => quoteWith true f.1 ++ ':' :: f.2).map
      fun p => size p + 1).sum = (fields.map fieldSize).sum := by
    rw [dumpsFields_eq, List.map_map, List.map_map]
    congr 1
    refine List.map_congr_left fun f _ => ?_
    have hcolon : size (':' :: f.2.dumps true) = 1 + size (f.2.dumps true) := by
      show size ([':'] ++ f.2.dumps true) = _
      rw [size_append]
      rfl
    simp only [Function.comp_apply, fieldSize, size_append, hcolon]
    omega
  rw [Value.dumps]
  show size (['{'] ++ join [','] _ ++ ['}']) ≤ _
  have hbrace : size ['{'] = 1 ∧ size ['}'] = 1 := by decide
  rw [size_append, size_append]
  omega

end Json
