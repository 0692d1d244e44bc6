import AlmightyReview.Lib.Text
import Mathlib.Data.Rat.Defs
import Mathlib.Algebra.Order.Ring.Unbundled.Rat

/-!
# Binary floating point

A finite `float` of IEEE 754 with 64 bits: a sign and an exact magnitude. The sign of zero is kept.

* `Double.round`: the nearest magnitude with 53 bits, ties to even; `none` beyond the greatest one.
* `Double`: the numbers that rounding leaves as they are. `val` is the exact value, by which
  numbers are compared.
* `Decimal`: a decimal number as it is written, with its exact value.
* `Double.repr`: the shortest decimal number that is rounded to the float.
-/

namespace Double

/-! ## Rounding -/

/-- The integer nearest to `n / d`, the even one of two. -/
def roundQuot (n d : Nat) : Nat :=
  if 2 * (n % d) < d ∨ (2 * (n % d) = d ∧ n / d % 2 = 0) then n / d else n / d + 1

/-- The exponent of the greatest power of two up to `n / d`. -/
def ilog2 (n d : Nat) : Int :=
  let k : Int := (n.log2 : Int) - d.log2
  if n * 2 ^ (-k).toNat < d * 2 ^ k.toNat then k - 1 else k

/-- `m * b ^ e`. -/
def scale (b m : Nat) (e : Int) : Rat := mkRat (m * b ^ e.toNat : Nat) (b ^ (-e).toNat)

/-- The unit in the last place of `n / d` is `2 ^ (ulp n d)`. -/
def ulp (n d : Nat) : Int := max (-1074) (ilog2 n d - 52)

/-- A nonnegative number to the nearest that a double can be. -/
def round (q : Rat) : Option Rat :=
  let n := q.num.toNat
  let e := ulp n q.den
  let m := scale 2 (roundQuot (n * 2 ^ (-e).toNat) (q.den * 2 ^ e.toNat)) e
  if m < 2 ^ 1024 then some m else none

end Double

/-- A finite `float`. -/
structure Double where
  negative : Bool
  magnitude : Rat
  exact : Double.round magnitude = some magnitude
  deriving DecidableEq

namespace Double

/-- The exact value. -/
def val (x : Double) : Rat := if x.negative then -x.magnitude else x.magnitude

/-- `-x`. -/
def neg (x : Double) : Double := { x with negative := !x.negative }

@[simp] theorem val_neg (x : Double) : x.neg.val = -x.val := by
  unfold val neg
  cases x.negative <;> simp

/-- One half. -/
def half : Double := ⟨false, 1 / 2, by decide +kernel⟩

example : round (1 / 10) = some (3602879701896397 / 2 ^ 55) := by decide +kernel

end Double

/-! ## Decimal numbers -/

/-- A decimal number without its sign: digits, digits after a point, and a signed exponent. -/
structure Decimal where
  int : Text
  frac : Option Text
  exponent : Option (Bool × Text)
  deriving DecidableEq, Repr

namespace Decimal

def isDigit (c : Char) : Bool := 48 ≤ c.toNat && c.toNat ≤ 57

/-- The number that digits are. -/
def digitsValue (ds : Text) : Nat := ds.foldl (fun n c => 10 * n + (c.toNat - 48)) 0

/-- Digits, at least one. -/
def Digits (ds : Text) : Prop := ds ≠ [] ∧ ∀ c ∈ ds, isDigit c = true

/-- No digit is missing, and no zero stands before other digits. -/
structure Valid (d : Decimal) : Prop where
  int : Digits d.int ∧ (d.int.head? = some '0' → d.int = ['0'])
  frac : ∀ ds ∈ d.frac, Digits ds
  exponent : ∀ e ∈ d.exponent, Digits e.2

instance (ds : Text) : Decidable (Digits ds) :=
  inferInstanceAs (Decidable (_ ∧ _))

instance (d : Decimal) : Decidable d.Valid :=
  decidable_of_iff ((Digits d.int ∧ (d.int.head? = some '0' → d.int = ['0'])) ∧
      (∀ ds ∈ d.frac, Digits ds) ∧ ∀ e ∈ d.exponent, Digits e.2)
    ⟨fun h => ⟨h.1, h.2.1, h.2.2⟩, fun h => ⟨h.1, h.2, h.3⟩⟩

def fracText : Option Text → Text
  | none => []
  | some ds => '.' :: ds

def exponentText : Option (Bool × Text) → Text
  | none => []
  | some (negative, ds) => 'e' :: (if negative then '-' else '+') :: ds

/-- The number as it is written. -/
def text (d : Decimal) : Text := d.int ++ (fracText d.frac ++ exponentText d.exponent)

def exponentValue : Option (Bool × Text) → Int
  | none => 0
  | some (negative, ds) => if negative then -(digitsValue ds : Int) else digitsValue ds

/-- The exact value. -/
def value (d : Decimal) : Rat :=
  let frac := d.frac.getD []
  Double.scale 10 (digitsValue (d.int ++ frac)) (exponentValue d.exponent - frac.length)

/-! ### The shortest decimal of a number -/

/-- How many digits stand before the point, when the first digit after it is not zero. -/
def pointPlace (q : Rat) : Int :=
  let n := q.num.toNat
  if q.den ≤ n then (Text.ofNat (n / q.den)).length
  else 1 - (Text.ofNat ((q.den + n - 1) / n - 1)).length

/-- An exponent of two digits at least. -/
def exponentDigits (n : Nat) : Text :=
  if n < 10 then '0' :: Text.ofNat n else Text.ofNat n

/-- The digits `ds` with the point at `place`; an exponent for the great and the small numbers. -/
def place (ds : Text) (place : Int) : Decimal :=
  if place ≤ -4 ∨ 16 < place then
    { int := ds.take 1
      frac := if ds.length ≤ 1 then none else some (ds.drop 1)
      exponent := some (decide (place - 1 < 0), exponentDigits (place - 1).natAbs) }
  else if place ≤ 0 then ⟨['0'], some (List.replicate (-place).toNat '0' ++ ds), none⟩
  else if ds.length ≤ place.toNat then
    ⟨ds ++ List.replicate (place.toNat - ds.length) '0', some ['0'], none⟩
  else ⟨ds.take place.toNat, some (ds.drop place.toNat), none⟩

/-- The nearest decimal with `n` digits; a power of ten may be the nearest to a smaller number. -/
def nearest (q : Rat) (n : Nat) : Decimal :=
  let e := (n : Int) - pointPlace q
  let ds := Text.ofNat
    (Double.roundQuot (q.num.toNat * 10 ^ e.toNat) (q.den * 10 ^ (-e).toNat))
  place (ds.take n) (pointPlace q + (ds.length - n))

/-- A decimal of a number whose denominator is a power of two. -/
def exactOf (q : Rat) : Decimal where
  int := Text.ofNat (q.num.toNat * 5 ^ q.den.log2)
  frac := none
  exponent := some (true, Text.ofNat q.den.log2)

/-- The shortest decimal that is rounded to `q`. There is one with at most 17 digits; the last
alternative is for the proofs only. -/
def shortest (q : Rat) : Decimal :=
  if q = 0 then ⟨['0'], some ['0'], none⟩
  else
    (((List.range 17).map fun n => nearest q (n + 1)).find? fun d =>
      decide (d.Valid ∧ Double.round d.value = some q)).getD (exactOf q)

end Decimal

/-- `repr(x)`. -/
def Double.repr (x : Double) : Text :=
  (if x.negative then ['-'] else []) ++ (Decimal.shortest x.magnitude).text

example : Double.half.neg.repr = "-0.5".toList := by decide +kernel
