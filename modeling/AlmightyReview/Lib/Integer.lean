import AlmightyReview.Lib.Loads

/-!
# Integers that are read

`int(s)` of the Python standard library, for a `str` and for `bytes`. Which code points are digits
and which are blanks is a parameter, since it is not the same for both.

* `Integer.read`: blanks around a number with a sign, whose digits may have single underscores
  between them. A number with more than 4300 digits is not read.
* `read_ofNat`: the decimal digits of a natural number are read.
-/

namespace Integer

variable (digit : Nat → Option Nat) (blank : Nat → Bool)

/-- The greatest number of digits. -/
def maxDigits : Nat := 4300

/-- The values of the digits behind a digit. -/
def digitsAfter : List Nat → Option (List Nat)
  | [] => some []
  | [c] => (digit c).map fun d => [d]
  | c :: e :: s =>
    match digit c with
    | some d => (digitsAfter (e :: s)).map (d :: ·)
    | none =>
      if c = 95 then (digit e).bind fun d => (digitsAfter s).map (d :: ·) else none

/-- The values of digits. -/
def digits : List Nat → Option (List Nat)
  | [] => none
  | c :: s => (digit c).bind fun d => (digitsAfter digit s).map (d :: ·)

/-- The number that digits stand for. -/
def value (ds : List Nat) : Nat := ds.foldl (fun n d => 10 * n + d) 0

/-- A number without a sign. -/
def unsigned (s : List Nat) : Option Nat :=
  (digits digit s).bind fun ds => if ds.length ≤ maxDigits then some (value ds) else none

/-- A text without the blanks around it. -/
def trim (s : List Nat) : List Nat := ((s.dropWhile blank).reverse.dropWhile blank).reverse

/-- `int(s)`; `none` for a `ValueError`. -/
def read (s : List Nat) : Option Int :=
  match trim blank s with
  | [] => none
  | c :: s =>
    if c = 43 then (unsigned digit s).map Int.ofNat
    else if c = 45 then (unsigned digit s).map fun n => -(n : Int)
    else (unsigned digit (c :: s)).map Int.ofNat

/-- The value of a digit of ASCII. -/
def asciiDigit (n : Nat) : Option Nat := if 48 ≤ n ∧ n ≤ 57 then some (n - 48) else none

/-- The blanks of ASCII. -/
def asciiBlank (n : Nat) : Bool := (9 ≤ n && n ≤ 13) || n == 32

/-- `int(b)` of `bytes`. -/
def ofBytes (b : List Nat) : Option Int := read asciiDigit asciiBlank b

example : ofBytes [32, 45, 49, 95, 48, 10] = some (-10) := by decide

variable {digit blank}

theorem digits_ascii {s : Text} (hne : s ≠ []) (hs : ∀ c ∈ s, Decimal.isDigit c = true) :
    digits asciiDigit (s.map Char.toNat) = some (s.map fun c => c.toNat - 48) := by
  have hdigit : ∀ c ∈ s, asciiDigit c.toNat = some (c.toNat - 48) := by
    intro c hc
    have := hs c hc
    unfold Decimal.isDigit at this
    simp only [Bool.and_eq_true, decide_eq_true_eq] at this
    exact if_pos this
  have hafter : ∀ s : Text, (∀ c ∈ s, asciiDigit c.toNat = some (c.toNat - 48)) →
      digitsAfter asciiDigit (s.map Char.toNat) = some (s.map fun c => c.toNat - 48) := by
    intro s hs
    induction s with
    | nil => rfl
    | cons c s ih =>
      cases s with
      | nil =>
        rw [List.map_cons, List.map_nil, digitsAfter, hs c List.mem_cons_self]
        rfl
      | cons e s =>
        have hrest := ih fun c hc => hs c (List.mem_cons_of_mem _ hc)
        rw [List.map_cons] at hrest
        rw [List.map_cons, List.map_cons, digitsAfter, hs c List.mem_cons_self]
        dsimp only
        rw [hrest]
        rfl
  cases s with
  | nil => exact absurd rfl hne
  | cons c s =>
    rw [List.map_cons, digits, hdigit c List.mem_cons_self,
      hafter s fun c hc => hdigit c (List.mem_cons_of_mem _ hc)]
    rfl

theorem value_map (s : Text) : value (s.map fun c => c.toNat - 48) = Decimal.digitsValue s := by
  unfold value Decimal.digitsValue
  rw [List.foldl_map]

theorem length_ofNat_le {n k : Nat} (hk : 0 < k) (h : n < 10 ^ k) :
    (Text.ofNat n).length ≤ k := by
  unfold Text.ofNat
  exact (Nat.length_toDigits_le_iff (by decide) hk).mpr h

/-- **The digits of a number** that is not too long are read. -/
theorem ofBytes_ofNat {n : Nat} (h : n < 10 ^ maxDigits) :
    ofBytes ((Text.ofNat n).map Char.toNat) = some (n : Int) := by
  obtain ⟨hne, hdigits⟩ := Decimal.digits_ofNat n
  have hnot : ∀ c ∈ (Text.ofNat n).map Char.toNat, asciiBlank c = false ∧ c ≠ 43 ∧ c ≠ 45 := by
    intro c hc
    obtain ⟨d, hd, rfl⟩ := List.mem_map.mp hc
    have := hdigits d hd
    unfold Decimal.isDigit at this
    simp only [Bool.and_eq_true, decide_eq_true_eq] at this
    refine ⟨?_, by omega, by omega⟩
    unfold asciiBlank
    simp only [Bool.or_eq_false_iff, Bool.and_eq_false_iff, decide_eq_false_iff_not,
      beq_eq_false_iff_ne]
    omega
  have htrim : trim asciiBlank ((Text.ofNat n).map Char.toNat) = (Text.ofNat n).map Char.toNat := by
    have hhead : ∀ l : List Nat, (∀ c ∈ l, asciiBlank c = false) → l.dropWhile asciiBlank = l := by
      intro l hl
      cases l with
      | nil => rfl
      | cons c l => exact List.dropWhile_cons_of_neg (by simp [hl c List.mem_cons_self])
    unfold trim
    rw [hhead _ fun c hc => (hnot c hc).1,
      hhead _ fun c hc => (hnot c (List.mem_reverse.mp hc)).1, List.reverse_reverse]
  have hunsigned : unsigned asciiDigit ((Text.ofNat n).map Char.toNat) = some n := by
    have hlen : (Text.ofNat n).length ≤ maxDigits := length_ofNat_le (by decide) h
    rw [unsigned, digits_ascii hne hdigits, Option.bind_some, List.length_map, if_pos hlen,
      value_map,
      Decimal.digitsValue_ofNat]
  rw [ofBytes, read, htrim]
  cases hs : (Text.ofNat n).map Char.toNat with
  | nil => exact absurd (List.map_eq_nil_iff.mp hs) hne
  | cons c s =>
    obtain ⟨-, hplus, hminus⟩ := hnot c (by rw [hs]; exact List.mem_cons_self)
    rw [hs] at hunsigned
    dsimp only
    rw [if_neg hplus, if_neg hminus, hunsigned]
    rfl

end Integer
