import AlmightyReview.Lib.Json
import AlmightyReview.Lib.Loads

/-!
# JSON strings read back

* `scanUnits_escapeWide`: what `json.dumps` with `ensure_ascii=False` writes for a character is read
  as its code point.
* `scanString_quoteWith`: a string that was written is read back, whatever follows it.
-/

namespace Json

theorem hexValue_hexDigit {n : Nat} (h : n < 16) : hexValue (hexDigit n) = some n := by
  revert n
  decide

/-- A character that stands for itself. -/
theorem scanUnits_cons {c : Char} (hq : c ≠ '"') (hb : c ≠ '\\') (hc : 32 ≤ c.toNat) (s : Text) :
    scanUnits (c :: s) = (scanUnits s).map fun r => (c.toNat :: r.1, r.2) := by
  rw [scanUnits, if_neg (by omega)]
  · exact hq
  · exact fun _ _ _ _ _ he => absurd he hb
  · exact fun _ _ he => absurd he hb

theorem scanUnits_simpleEscape {e : Char} {n : Nat} (hu : e ≠ 'u') (he : simpleEscape e = some n)
    (s : Text) : scanUnits ('\\' :: e :: s) = (scanUnits s).map fun r => (n :: r.1, r.2) := by
  rw [scanUnits, he]
  · cases scanUnits s <;> rfl
  · exact fun _ _ _ _ _ h => absurd h hu

theorem scanUnits_unicodeEscape {n : Nat} (h : n < 0x10000) (s : Text) :
    scanUnits (unicodeEscape n ++ s) = (scanUnits s).map fun r => (n :: r.1, r.2) := by
  have hsum : 4096 * (n / 4096 % 16) + 256 * (n / 256 % 16) + 16 * (n / 16 % 16) + n % 16 = n := by
    omega
  show scanUnits ('\\' :: 'u' :: _ :: _ :: _ :: _ :: s) = _
  rw [scanUnits, hexValue_hexDigit (Nat.mod_lt _ (by decide)),
    hexValue_hexDigit (Nat.mod_lt _ (by decide)), hexValue_hexDigit (Nat.mod_lt _ (by decide)),
    hexValue_hexDigit (Nat.mod_lt _ (by decide))]
  simp only [Option.bind_eq_bind, Option.bind_some, hsum]
  cases scanUnits s <;> rfl

/-- One character that was written with `ensure_ascii=False`. -/
theorem scanUnits_escapeWide (c : Char) (s : Text) :
    scanUnits (escapeWide c ++ s) = (scanUnits s).map fun r => (c.toNat :: r.1, r.2) := by
  have hself : c ≠ '"' → c ≠ '\\' → 32 ≤ c.toNat →
      scanUnits ([c] ++ s) = (scanUnits s).map fun r => (c.toNat :: r.1, r.2) :=
    fun hq hb hc => scanUnits_cons hq hb hc s
  unfold escapeWide
  split
  · unfold escape
    dsimp only
    split
    · next hc =>
      subst hc
      exact scanUnits_simpleEscape (by decide) rfl s
    next hq =>
    split
    · next hc =>
      subst hc
      exact scanUnits_simpleEscape (by decide) rfl s
    next hb =>
    split
    · next hn =>
      rw [hn]
      exact scanUnits_simpleEscape (by decide) rfl s
    split
    · next hn =>
      rw [hn]
      exact scanUnits_simpleEscape (by decide) rfl s
    split
    · next hn =>
      rw [hn]
      exact scanUnits_simpleEscape (by decide) rfl s
    split
    · next hn =>
      rw [hn]
      exact scanUnits_simpleEscape (by decide) rfl s
    split
    · next hn =>
      rw [hn]
      exact scanUnits_simpleEscape (by decide) rfl s
    split
    · next hn => exact hself hq hb hn.1
    split
    · next hn => exact scanUnits_unicodeEscape hn s
    · omega
  · next hc =>
    refine hself ?_ ?_ (by omega)
    · rintro rfl
      exact absurd hc (by decide)
    · rintro rfl
      exact absurd hc (by decide)

theorem isHigh_toNat (c : Char) : isHigh c.toNat = false ∧ isLow c.toNat = false := by
  have hv := c.valid
  unfold isHigh isLow
  simp only [Bool.and_eq_false_iff, decide_eq_false_iff_not]
  unfold UInt32.isValidChar Nat.isValidChar at hv
  have : c.toNat = c.val.toNat := rfl
  omega

theorem ofUnits_map_toNat (s : Text) : ofUnits (s.map Char.toNat) = s := by
  induction s with
  | nil => rfl
  | cons c s ih =>
    obtain ⟨hhigh, hlow⟩ := isHigh_toNat c
    cases s with
    | nil =>
      show [if isHigh c.toNat || isLow c.toNat then '�' else Char.ofNat c.toNat] = [c]
      rw [hhigh, hlow, Char.ofNat_toNat]
      rfl
    | cons d s =>
      rw [List.map_cons, List.map_cons, ofUnits, hhigh, Bool.false_and, hlow]
      rw [List.map_cons] at ih
      rw [ih, Char.ofNat_toNat]
      rfl

/-- **A string that was written** with `ensure_ascii=False` is read back, up to its quote. -/
theorem scanString_quoteWith (s t : Text) :
    scanString (s.flatMap escapeWide ++ '"' :: t) = .ok (s, t) := by
  have hunits : scanUnits (s.flatMap escapeWide ++ '"' :: t) = some (s.map Char.toNat, t) := by
    induction s with
    | nil => rfl
    | cons c s ih =>
      rw [List.flatMap_cons, List.append_assoc, scanUnits_escapeWide, ih]
      rfl
  rw [scanString, hunits]
  exact congrArg Except.ok (Prod.ext (ofUnits_map_toNat s) rfl)

end Json
