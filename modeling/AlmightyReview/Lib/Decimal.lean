import AlmightyReview.Lib.Double
import Mathlib.Data.Nat.Log
import Mathlib.Data.Nat.Prime.Basic
import Mathlib.Data.Rat.Lemmas
import Mathlib.Tactic.FieldSimp
import Mathlib.Tactic.IntervalCases

/-!
# Decimals and the floats that they are read as

`float(s)` is the float nearest to a decimal, and `repr(x)` a decimal of which `x` is the nearest
float.

* `Double.ofDecimal`: the float of a decimal with a sign.
* `digits_ofNat`, `digitsValue_ofNat`: the digits of a natural number, and their value.
* `shortest_spec`: the decimal of a float is well formed, and that float is the nearest one to it,
  so it is read as that float (`ofDecimal_shortest`).
-/

/-- `float(s)` of a decimal; `none` beyond the greatest float. A number that was rounded is one that
rounding leaves as it is. -/
def Double.ofDecimal (negative : Bool) (d : Decimal) : Option Double :=
  (Double.round d.value).bind fun q =>
    if h : Double.round q = some q then some ⟨negative, q, h⟩ else none

namespace Decimal

/-! ## Digits of a natural number -/

theorem isDigit_iff {c : Char} : isDigit c = true ↔ c.isDigit = true := by
  simp only [isDigit, Char.isDigit, Bool.and_eq_true, decide_eq_true_eq, ge_iff_le,
    UInt32.le_iff_toNat_le]
  rfl

theorem digitsValue_ofNat (n : Nat) : digitsValue (Text.ofNat n) = n :=
  Nat.ofDigitChars_ten_toDigits

theorem digits_ofNat (n : Nat) : Digits (Text.ofNat n) :=
  ⟨Nat.toDigits_ne_nil, fun _ hc =>
    isDigit_iff.mpr (Nat.isDigit_of_mem_toDigits (by decide) (by decide) hc)⟩

/-- The digits of a positive number do not begin with zero. -/
theorem head?_ofNat {n : Nat} (h : 0 < n) : (Text.ofNat n).head? ≠ some '0' := by
  unfold Text.ofNat
  induction n using Nat.strong_induction_on with
  | _ n ih =>
    by_cases hn : n < 10
    · rw [Nat.toDigits_of_lt_base hn]
      interval_cases n <;> decide
    · rw [Nat.toDigits_of_base_le (by decide) (by omega), List.head?_append]
      have hne : Nat.toDigits 10 (n / 10) ≠ [] := Nat.toDigits_ne_nil
      obtain ⟨c, cs, hcs⟩ := List.exists_cons_of_ne_nil hne
      have hhead := ih (n / 10) (by omega) (by omega)
      rw [hcs] at hhead ⊢
      exact hhead

theorem ofNat_zero_cases {n : Nat} (h : (Text.ofNat n).head? = some '0') :
    Text.ofNat n = ['0'] := by
  rcases Nat.eq_zero_or_pos n with rfl | hn
  · rfl
  · exact absurd h (head?_ofNat hn)

/-! ## The decimal of a float -/

theorem scale_nonneg (b m : Nat) (e : Int) (hb : b ≠ 0) : 0 ≤ Double.scale b m e := by
  unfold Double.scale
  exact (Rat.mkRat_nonneg_iff _ (pow_ne_zero _ hb)).mpr (Int.natCast_nonneg _)

theorem den_scale (m : Nat) (e : Int) : ∃ k, (Double.scale 2 m e).den = 2 ^ k := by
  unfold Double.scale
  rw [Rat.mkRat_eq_divInt]
  have hdvd : ((Rat.divInt (m * 2 ^ e.toNat : Nat) (2 ^ (-e).toNat : Nat)).den : Int) ∣
      (2 ^ (-e).toNat : Nat) := Rat.den_dvd _ _
  obtain ⟨k, -, hk⟩ := (Nat.dvd_prime_pow Nat.prime_two).mp (Int.natCast_dvd_natCast.mp hdvd)
  exact ⟨k, hk⟩

/-- A float is not negative here, and its denominator is a power of two. -/
theorem den_of_round {q : Rat} (h : Double.round q = some q) : 0 ≤ q ∧ ∃ k, q.den = 2 ^ k := by
  unfold Double.round at h
  dsimp only at h
  split at h
  · have hq := Option.some.inj h
    rw [← hq]
    exact ⟨scale_nonneg _ _ _ (by decide), den_scale _ _⟩
  · cases h

theorem valid_exactOf (q : Rat) : (exactOf q).Valid where
  int := ⟨digits_ofNat _, ofNat_zero_cases⟩
  frac ds h := by cases h
  exponent e h := by
    obtain rfl := Option.some.inj h
    exact digits_ofNat _

/-- A number with a power of two below has an exact decimal. -/
theorem value_exactOf {q : Rat} (hq : 0 ≤ q) {k : Nat} (hk : q.den = 2 ^ k) :
    (exactOf q).value = q := by
  have hlog : q.den.log2 = k := by rw [hk, Nat.log2_two_pow]
  have hvalue : (exactOf q).value = mkRat (q.num.toNat * 5 ^ k : Nat) (10 ^ k) := by
    unfold value exactOf
    simp only [Option.getD_none, List.append_nil, exponentValue, if_true, digitsValue_ofNat, hlog,
      List.length_nil, Nat.cast_zero, sub_zero]
    unfold Double.scale
    simp
  have hnum : ((q.num.toNat : Nat) : Rat) = (q.num : Rat) := by
    have := Int.toNat_of_nonneg (Rat.num_nonneg.mpr hq)
    exact_mod_cast this
  have hten : (10 : Rat) ^ k = 2 ^ k * 5 ^ k := by rw [← mul_pow]; norm_num
  rw [hvalue, Rat.mkRat_eq_div]
  push_cast
  rw [hnum, hten]
  have hden : (q.den : Rat) = 2 ^ k := by exact_mod_cast congrArg (Nat.cast (R := Rat)) hk
  have hdiv := Rat.num_div_den q
  rw [hden] at hdiv
  rw [mul_div_mul_right _ _ (pow_ne_zero k (by decide)), hdiv]

/-- A decimal of a float has a point or an exponent. -/
theorem place_isFloat (ds : Text) (p : Int) :
    ((place ds p).frac.isSome || (place ds p).exponent.isSome) = true := by
  unfold place
  split
  · simp
  split
  · rfl
  split
  · rfl
  · rfl

/-- **The shortest decimal of a float** is well formed, and that float is the nearest one to it. -/
theorem shortest_spec {q : Rat} (h : Double.round q = some q) :
    (shortest q).Valid ∧ Double.round (shortest q).value = some q ∧
      ((shortest q).frac.isSome || (shortest q).exponent.isSome) = true := by
  unfold shortest
  by_cases hq : q = 0
  · subst hq
    rw [if_pos rfl]
    exact ⟨by decide, by decide +kernel, rfl⟩
  rw [if_neg hq]
  cases hfind : ((List.range 17).map fun n => nearest q (n + 1)).find? fun d =>
      decide (d.Valid ∧ Double.round d.value = some q) with
  | some d =>
    have hd := List.find?_some hfind
    simp only [decide_eq_true_eq] at hd
    obtain ⟨hvalid, hround⟩ := hd
    obtain ⟨n, -, rfl⟩ := List.mem_map.mp (List.mem_of_find?_eq_some hfind)
    exact ⟨hvalid, hround, place_isFloat _ _⟩
  | none =>
    obtain ⟨hnonneg, k, hk⟩ := den_of_round h
    refine ⟨valid_exactOf q, ?_, rfl⟩
    show Double.round (exactOf q).value = some q
    rw [value_exactOf hnonneg hk, h]

/-- **`float(repr(x))` is `x`.** -/
theorem ofDecimal_shortest (x : Double) :
    Double.ofDecimal x.negative (shortest x.magnitude) = some x := by
  unfold Double.ofDecimal
  rw [(shortest_spec x.exact).2.1, Option.bind_some, dif_pos x.exact]

end Decimal
