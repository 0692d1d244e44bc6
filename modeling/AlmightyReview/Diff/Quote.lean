import AlmightyReview.Diff.Unified
import Mathlib.Tactic.IntervalCases

/-!
# Paths in file headers

How `_header_target` reads the paths that git writes into the header of a file.

* `gitHeader`: the header for the paths of both sides; `File.header` is one.
* `shown`: what `shlex` leaves of a path in quotes. It takes the escapes of the quote and of the
  backslash away, and keeps the others.
* `decodeGitBytes_shown`: the octal escapes are decoded then. What is left is the path as it is
  `spelled`, in which a control character is two characters, a backslash and a letter.
* `headerTarget_gitHeader_iff`: a path is read back exactly when it is `ReadBack`.
-/

namespace DiffFilter

open Unified

/-! ## Escapes -/

theorem escapeByte_plain {b : Nat} (h : 32 ≤ b ∧ b < 127) (hq : b ≠ 34) (hs : b ≠ 92) :
    escapeByte b = [Char.ofNat b] := by
  have hfind : letterEscapes.find? (fun e => e.1 = b) = none := by
    simp only [letterEscapes, List.find?_eq_none, List.mem_cons, List.not_mem_nil, or_false,
      decide_eq_true_eq]
    rintro e (rfl | rfl | rfl | rfl | rfl | rfl | rfl | rfl | rfl) <;> dsimp only <;> omega
  rw [escapeByte, hfind]
  exact if_pos h

/-- The byte in three octal digits. -/
def octalEscape (b : Nat) : Text :=
  ['\\', Nat.digitChar (b / 64 % 8), Nat.digitChar (b / 8 % 8), Nat.digitChar (b % 8)]

theorem escapeByte_octal {b : Nat} (hl : ¬(7 ≤ b ∧ b ≤ 13)) (h : ¬(32 ≤ b ∧ b < 127)) :
    escapeByte b = octalEscape b := by
  have hfind : letterEscapes.find? (fun e => e.1 = b) = none := by
    simp only [letterEscapes, List.find?_eq_none, List.mem_cons, List.not_mem_nil, or_false,
      decide_eq_true_eq]
    rintro e (rfl | rfl | rfl | rfl | rfl | rfl | rfl | rfl | rfl) <;> dsimp only <;> omega
  rw [escapeByte, hfind]
  exact if_neg h

/-- A byte with an escape of one letter that `shlex` keeps. -/
theorem escapeByte_letter {b : Nat} (h : 7 ≤ b ∧ b ≤ 13) :
    ∃ l, escapeByte b = ['\\', l] ∧ l ≠ '\\' ∧ l ≠ '"' ∧ isOctal l = false := by
  obtain ⟨h₁, h₂⟩ := h
  interval_cases b <;> exact ⟨_, rfl, by decide, by decide, by decide⟩

theorem isOctal_digitChar (n : Nat) : isOctal (Nat.digitChar (n % 8)) = true := by
  have h : n % 8 < 8 := Nat.mod_lt _ (by decide)
  generalize n % 8 = m at h
  interval_cases m <;> decide

theorem toNat_digitChar (n : Nat) : (Nat.digitChar (n % 8)).toNat = 48 + n % 8 :=
  Nat.toNat_digitChar_of_lt_ten (by omega)

theorem octal_digits {b : Nat} (h : b < 256) :
    octal (Nat.digitChar (b / 64 % 8)) (Nat.digitChar (b / 8 % 8)) (Nat.digitChar (b % 8)) = b := by
  have h0 : '0'.toNat = 48 := rfl
  unfold octal
  rw [toNat_digitChar, toNat_digitChar, toNat_digitChar, h0]
  omega

theorem ne_of_isOctal {c : Char} (h : isOctal c = true) : c ≠ '\\' ∧ c ≠ '"' := by
  refine ⟨ne_backslash_of_isOctal h, ?_⟩
  rintro rfl
  exact absurd h (by decide)

/-! ## What `shlex` leaves -/

/-- What `shlex` leaves of a byte that git escaped. -/
def shownByte (b : Nat) : Text := if b = 34 ∨ b = 92 then [Char.ofNat b] else escapeByte b

def shown (path : Text) : Text := (Text.encode path).flatMap shownByte

/-- A character that is not special in double quotes. -/
theorem shlexFrom_quote_cons {c : Char} (hq : c ≠ '"') (hs : c ≠ '\\') (token s : Text) :
    Text.shlexFrom (.quote '"') token true (c :: s) =
      Text.shlexFrom (.quote '"') (token ++ [c]) true s := by
  rw [Text.shlexFrom, if_neg hq, if_neg (by simp [hs])]

/-- A backslash and a character that it does not escape. -/
theorem shlexFrom_quote_kept {c : Char} (hq : c ≠ '"') (hs : c ≠ '\\') (token s : Text) :
    Text.shlexFrom (.quote '"') token true ('\\' :: c :: s) =
      Text.shlexFrom (.quote '"') (token ++ ['\\', c]) true s := by
  rw [Text.shlexFrom, if_neg (by decide), if_pos ⟨rfl, rfl⟩, Text.shlexFrom, if_pos ⟨hs, hq⟩]

theorem shlexFrom_escapeByte (b : Nat) (token s : Text) :
    Text.shlexFrom (.quote '"') token true (escapeByte b ++ s) =
      Text.shlexFrom (.quote '"') (token ++ shownByte b) true s := by
  unfold shownByte
  split
  · rename_i hb
    rcases hb with rfl | rfl
    · show Text.shlexFrom (.quote '"') token true ('\\' :: '"' :: s) = _
      rw [Text.shlexFrom, if_neg (by decide), if_pos ⟨rfl, rfl⟩, Text.shlexFrom,
        if_neg (by simp)]
    · show Text.shlexFrom (.quote '"') token true ('\\' :: '\\' :: s) = _
      rw [Text.shlexFrom, if_neg (by decide), if_pos ⟨rfl, rfl⟩, Text.shlexFrom,
        if_neg (by simp)]
  · rename_i hb
    rw [not_or] at hb
    by_cases hl : 7 ≤ b ∧ b ≤ 13
    · obtain ⟨l, he, hs, hq, -⟩ := escapeByte_letter hl
      rw [he]
      exact shlexFrom_quote_kept hq hs token s
    by_cases hp : 32 ≤ b ∧ b < 127
    · have hnat : (Char.ofNat b).toNat = b := Text.toNat_ofNat_lt (by omega)
      rw [escapeByte_plain hp hb.1 hb.2]
      refine shlexFrom_quote_cons ?_ ?_ token s
      · intro h
        exact hb.1 (hnat.symm.trans (congrArg Char.toNat h))
      · intro h
        exact hb.2 (hnat.symm.trans (congrArg Char.toNat h))
    · have hd := fun n => ne_of_isOctal (isOctal_digitChar n)
      rw [escapeByte_octal hl hp, octalEscape, List.cons_append, List.cons_append,
        shlexFrom_quote_kept (hd _).2 (hd _).1, List.cons_append,
        shlexFrom_quote_cons (hd _).2 (hd _).1, List.cons_append,
        shlexFrom_quote_cons (hd _).2 (hd _).1, List.append_assoc, List.append_assoc]
      rfl

theorem shlexFrom_escapes (bytes : List Nat) (token s : Text) :
    Text.shlexFrom (.quote '"') token true (bytes.flatMap escapeByte ++ s) =
      Text.shlexFrom (.quote '"') (token ++ bytes.flatMap shownByte) true s := by
  induction bytes generalizing token with
  | nil => simp
  | cons b bytes ih =>
    rw [List.flatMap_cons, List.append_assoc, shlexFrom_escapeByte, ih, List.append_assoc,
      List.flatMap_cons]

/-! ## What is decoded -/

/-- A control character that git writes as a backslash and a letter. -/
def isLetterControl (c : Char) : Bool := 7 ≤ c.toNat && c.toNat ≤ 13

/-- The character as `shlex` leaves it, without octal escapes. -/
def spell (c : Char) : Text := if isLetterControl c then escapeByte c.toNat else [c]

def spelled (path : Text) : Text := path.flatMap spell

/-- The text begins with so many octal digits. -/
def startsOctal : Nat → Text → Bool
  | 0, _ => true
  | _ + 1, [] => false
  | n + 1, c :: s => isOctal c && startsOctal n s

/-- The text has a backslash before three octal digits. -/
def hasEscape : Text → Bool
  | [] => false
  | c :: s => (c == '\\' && startsOctal 3 s) || hasEscape s

theorem exists_of_startsOctal {s : Text} (h : startsOctal 3 s = true) :
    ∃ a b c r, s = a :: b :: c :: r ∧ isOctal a = true ∧ isOctal b = true ∧ isOctal c = true := by
  match s, h with
  | [], h => cases h
  | [a], h => simp [startsOctal] at h
  | [a, b], h => simp [startsOctal] at h
  | a :: b :: c :: r, h =>
    simp only [startsOctal, Bool.and_eq_true, and_true] at h
    exact ⟨a, b, c, r, rfl, h⟩

theorem decodeGitBytes_cons {c : Char} (h : c ≠ '\\') (s : Text) :
    decodeGitBytes (c :: s) = (decodeGitBytes s).map (Text.utf8 c ++ ·) := by
  rw [decodeGitBytes]
  rintro _ _ _ _ rfl
  exact absurd rfl h

theorem decodeGitBytes_backslash {s : Text} (h : startsOctal 3 s = false) :
    decodeGitBytes ('\\' :: s) = (decodeGitBytes s).map (Text.utf8 '\\' ++ ·) := by
  rw [decodeGitBytes.eq_def ('\\' :: s)]
  split
  · rename_i he
    cases he
  · rename_i he
    obtain rfl := (List.cons.inj he).2
    simp only [startsOctal, Bool.and_true, ← Bool.and_assoc] at h
    rw [if_neg (by simp [h])]
  · rename_i he
    obtain ⟨rfl, rfl⟩ := List.cons.inj he
    rfl

theorem decodeGitBytes_escape {a b c : Char} (ha : isOctal a = true) (hb : isOctal b = true)
    (hc : isOctal c = true) (s : Text) :
    decodeGitBytes ('\\' :: a :: b :: c :: s) =
      if octal a b c < 256 then (decodeGitBytes s).map (octal a b c :: ·)
      else .error (.valueError "byte must be in range(0, 256)".toList) := by
  rw [decodeGitBytes, if_pos (by simp [ha, hb, hc])]

/-- What `shlex` leaves of a character. -/
def shownChar (c : Char) : Text := (Text.utf8 c).flatMap shownByte

theorem shown_eq (s : Text) : shown s = s.flatMap shownChar := List.flatMap_assoc

theorem utf8_of_lt {c : Char} (h : c.toNat < 0x80) : Text.utf8 c = [c.toNat] := by
  unfold Text.utf8
  exact if_pos h

/-- A byte of a character that is not ASCII. -/
theorem mem_utf8_wide {c : Char} (h : 0x80 ≤ c.toNat) {b : Nat} (hb : b ∈ Text.utf8 c) :
    0x80 ≤ b ∧ b < 256 := by
  have hv : c.toNat < 0xd800 ∨ 0xdfff < c.toNat ∧ c.toNat < 0x110000 := c.valid
  unfold Text.utf8 at hb
  dsimp only at hb
  rw [if_neg (by omega)] at hb
  split_ifs at hb
  all_goals
    simp only [List.mem_cons, List.not_mem_nil, or_false] at hb
    omega

/-- A character is shown as it is spelled, or byte by byte with octal escapes. -/
theorem shownChar_cases (c : Char) : shownChar c = spell c ∨
    (spell c = [c] ∧ c ≠ '\\' ∧
      shownChar c = (Text.utf8 c).flatMap octalEscape ∧ ∀ b ∈ Text.utf8 c, b < 256) := by
  have hne : ∀ {d : Char}, c.toNat ≠ d.toNat → c ≠ d := fun h he => h (congrArg Char.toNat he)
  by_cases hl : isLetterControl c = true
  · have hb : 7 ≤ c.toNat ∧ c.toNat ≤ 13 := by simpa [isLetterControl] using hl
    left
    rw [shownChar, utf8_of_lt (by omega), List.flatMap_singleton, spell, if_pos hl, shownByte,
      if_neg (by omega)]
  have hb : ¬(7 ≤ c.toNat ∧ c.toNat ≤ 13) := by simpa [isLetterControl] using hl
  have hs : spell c = [c] := if_neg hl
  by_cases hp : 32 ≤ c.toNat ∧ c.toNat < 127
  · left
    rw [shownChar, utf8_of_lt (by omega), List.flatMap_singleton, hs, shownByte]
    split
    · rw [Char.ofNat_toNat]
    · rename_i h
      rw [escapeByte_plain hp (by omega) (by omega), Char.ofNat_toNat]
  right
  have hslash : '\\'.toNat = 92 := rfl
  refine ⟨hs, hne (by omega), List.flatMap_congr fun b hb' => ?_, fun b hb' => ?_⟩
  · by_cases hw : c.toNat < 0x80
    · rw [utf8_of_lt hw, List.mem_singleton] at hb'
      subst hb'
      rw [shownByte, if_neg (by omega), escapeByte_octal hb hp]
    · have := mem_utf8_wide (by omega) hb'
      rw [shownByte, if_neg (by omega), escapeByte_octal (by omega) (by omega)]
  · by_cases hw : c.toNat < 0x80
    · rw [utf8_of_lt hw, List.mem_singleton] at hb'
      omega
    · exact (mem_utf8_wide (by omega) hb').2

/-- Bytes that are written with octal escapes are read back. -/
theorem decodeGitBytes_octals {bytes : List Nat} (h : ∀ b ∈ bytes, b < 256) (s : Text) :
    decodeGitBytes (bytes.flatMap octalEscape ++ s) = (decodeGitBytes s).map (bytes ++ ·) := by
  induction bytes with
  | nil => cases hs : decodeGitBytes s <;> simp [hs, Except.map]
  | cons b bytes ih =>
    have hb := octal_digits (h b List.mem_cons_self)
    rw [List.flatMap_cons, List.append_assoc, octalEscape, List.cons_append, List.cons_append,
      List.cons_append, List.cons_append, List.nil_append, decodeGitBytes_escape
        (isOctal_digitChar _) (isOctal_digitChar _) (isOctal_digitChar _), hb,
      if_pos (h b List.mem_cons_self), ih fun b hb => h b (List.mem_cons_of_mem _ hb)]
    cases decodeGitBytes s <;> rfl

section Rewritten

variable {g : Char → Text} (hoctal : ∀ c, isOctal c = true → g c = [c])
  (hother : ∀ c, isOctal c = false → ∃ d t, g c = d :: t ∧ isOctal d = false)
include hoctal hother

/-- Octal digits stand where they stood when no other characters become some. -/
theorem startsOctal_flatMap (n : Nat) (s : Text) :
    startsOctal n (s.flatMap g) = startsOctal n s := by
  induction n generalizing s with
  | zero => rfl
  | succ n ih =>
    cases s with
    | nil => rfl
    | cons c s =>
      rw [List.flatMap_cons]
      by_cases hc : isOctal c = true
      · rw [hoctal c hc, List.singleton_append, startsOctal, startsOctal, ih]
      · rw [Bool.not_eq_true] at hc
        obtain ⟨d, t, hg, hd⟩ := hother c hc
        rw [hg, List.cons_append, startsOctal, startsOctal, hc, hd, Bool.false_and,
          Bool.false_and]

end Rewritten

theorem isOctal_iff (c : Char) : isOctal c = true ↔ 48 ≤ c.toNat ∧ c.toNat ≤ 55 := by
  unfold isOctal
  rw [Bool.and_eq_true, decide_eq_true_eq, decide_eq_true_eq, Char.le_def, Char.le_def,
    UInt32.le_iff_toNat_le, UInt32.le_iff_toNat_le]
  rfl

theorem spell_octal {c : Char} (h : isOctal c = true) : spell c = [c] := by
  have := (isOctal_iff c).mp h
  exact if_neg (by simp only [isLetterControl, Bool.and_eq_true, decide_eq_true_eq]; omega)

theorem spell_other {c : Char} (h : isOctal c = false) :
    ∃ d t, spell c = d :: t ∧ isOctal d = false := by
  unfold spell
  split
  · rename_i hl
    obtain ⟨l, he, -⟩ := escapeByte_letter (b := c.toNat) (by simpa [isLetterControl] using hl)
    exact ⟨_, _, he, by decide⟩
  · exact ⟨c, [], rfl, h⟩

theorem shownChar_octal {c : Char} (h : isOctal c = true) : shownChar c = [c] := by
  have := (isOctal_iff c).mp h
  rw [shownChar, utf8_of_lt (by omega), List.flatMap_singleton, shownByte, if_neg (by omega),
    escapeByte_plain (by omega) (by omega) (by omega), Char.ofNat_toNat]

theorem shownChar_other {c : Char} (h : isOctal c = false) :
    ∃ d t, shownChar c = d :: t ∧ isOctal d = false := by
  rcases shownChar_cases c with hs | ⟨-, -, hs, -⟩
  · rw [hs]
    exact spell_other h
  · obtain ⟨b, bs, hb⟩ := List.exists_cons_of_ne_nil (Text.utf8_ne_nil c)
    exact ⟨'\\', _, by rw [hs, hb]; rfl, by decide⟩

theorem decodeGitBytes_shownChar (c : Char) (hc : c ≠ '\\') {s t : Text}
    (h : decodeGitBytes s = decodeGitBytes t) :
    decodeGitBytes (shownChar c ++ s) = decodeGitBytes (spell c ++ t) := by
  rcases shownChar_cases c with hs | ⟨hsp, -, hs, hb⟩
  · rw [hs]
    unfold spell
    split
    · rename_i hl
      obtain ⟨l, he, hne, -, ho⟩ :=
        escapeByte_letter (b := c.toNat) (by simpa [isLetterControl] using hl)
      have hstart : ∀ u : Text, startsOctal 3 (l :: u) = false := by
        intro u
        rw [startsOctal, ho, Bool.false_and]
      rw [he, List.cons_append, List.singleton_append, List.cons_append, List.singleton_append,
        decodeGitBytes_backslash (hstart s), decodeGitBytes_backslash (hstart t),
        decodeGitBytes_cons hne, decodeGitBytes_cons hne, h]
    · rw [List.singleton_append, List.singleton_append, decodeGitBytes_cons hc,
        decodeGitBytes_cons hc, h]
  · rw [hs, hsp, decodeGitBytes_octals hb, List.singleton_append, decodeGitBytes_cons hc, h]

/-- **What is decoded** is the spelled path. -/
theorem decodeGitBytes_shown (s : Text) :
    decodeGitBytes (shown s) = decodeGitBytes (spelled s) := by
  have hstart : ∀ t : Text, startsOctal 3 (t.flatMap shownChar) = startsOctal 3 (t.flatMap spell) :=
    fun t => (startsOctal_flatMap (fun _ => shownChar_octal) (fun _ => shownChar_other) 3 t).trans
      (startsOctal_flatMap (fun _ => spell_octal) (fun _ => spell_other) 3 t).symm
  have hslash : ∀ g : Char → Text, g '\\' = ['\\'] → ∀ t : Text,
      ('\\' :: t).flatMap g = '\\' :: t.flatMap g := by
    intro g hg t
    rw [List.flatMap_cons, hg, List.singleton_append]
  rw [shown_eq, spelled]
  -- an escape that the path itself has is decoded with the others
  have hescape : ∀ {a b c : Char} {t : Text}, isOctal a = true → isOctal b = true →
      isOctal c = true → decodeGitBytes (t.flatMap shownChar) = decodeGitBytes (t.flatMap spell) →
      decodeGitBytes (('\\' :: a :: b :: c :: t).flatMap shownChar) =
        decodeGitBytes (('\\' :: a :: b :: c :: t).flatMap spell) := by
    intro a b c t ha hb hc ih
    rw [hslash shownChar rfl, hslash spell rfl]
    simp only [List.flatMap_cons, shownChar_octal ha, shownChar_octal hb, shownChar_octal hc,
      spell_octal ha, spell_octal hb, spell_octal hc, List.singleton_append]
    rw [decodeGitBytes_escape ha hb hc, decodeGitBytes_escape ha hb hc, ih]
  induction hn : s.length using Nat.strong_induction_on generalizing s with
  | _ n ih =>
    cases s with
    | nil => rfl
    | cons c s =>
      rw [List.length_cons] at hn
      have hs := ih s.length (by omega) s rfl
      by_cases hc : c = '\\'
      · subst hc
        by_cases ho : startsOctal 3 s = true
        · obtain ⟨a, b, c, t, rfl, ha, hb, hc⟩ := exists_of_startsOctal ho
          simp only [List.length_cons] at hn
          exact hescape ha hb hc (ih t.length (by omega) t rfl)
        · rw [Bool.not_eq_true] at ho
          have hspell : startsOctal 3 (s.flatMap spell) = false :=
            (startsOctal_flatMap (fun _ => spell_octal) (fun _ => spell_other) 3 s).trans ho
          rw [hslash shownChar rfl, hslash spell rfl,
            decodeGitBytes_backslash ((hstart s).trans hspell), decodeGitBytes_backslash hspell, hs]
      · rw [List.flatMap_cons, List.flatMap_cons]
        exact decodeGitBytes_shownChar c hc hs

/-! ## Texts without escapes -/

theorem decodeGitBytes_of_not_hasEscape {s : Text} (h : hasEscape s = false) :
    decodeGitBytes s = .ok (Text.encode s) := by
  induction s with
  | nil => rfl
  | cons c s ih =>
    simp only [hasEscape, Bool.or_eq_false_iff, Bool.and_eq_false_iff] at h
    have hs := ih h.2
    have hok : (decodeGitBytes s).map (Text.utf8 c ++ ·) = .ok (Text.encode (c :: s)) := by
      rw [hs, Text.encode, Text.encode, List.flatMap_cons]
      rfl
    by_cases hc : c = '\\'
    · subst hc
      rw [decodeGitBytes_backslash (h.1.resolve_left (by decide)), hok]
    · rw [decodeGitBytes_cons hc, hok]

theorem decodeGitPath_of_not_hasEscape {s : Text} (h : hasEscape s = false) :
    decodeGitPath s = .ok s := by
  rw [decodeGitPath, decodeGitBytes_of_not_hasEscape h]
  exact congrArg Except.ok (Text.decodeUtf8_encode s)

/-- A byte that is an octal digit. -/
def isOctalByte (b : Nat) : Bool := 48 ≤ b && b ≤ 55

theorem isOctal_eq (c : Char) : isOctal c = isOctalByte c.toNat := by
  rw [Bool.eq_iff_iff, isOctal_iff, isOctalByte, Bool.and_eq_true, decide_eq_true_eq,
    decide_eq_true_eq]

theorem countP_decoded (bytes : List Nat) :
    (Text.decodeUtf8 bytes).countP isOctal = bytes.countP isOctalByte := by
  have hp : ∀ n, isOctalByte n = true → 0 < n ∧ n < 0x80 := by
    intro n hn
    simp only [isOctalByte, Bool.and_eq_true, decide_eq_true_eq] at hn
    omega
  rw [← Text.countP_decodeUtf8 hp]
  exact List.countP_congr fun c _ => by rw [isOctal_eq]

theorem countP_encode (s : Text) : (Text.encode s).countP isOctalByte = s.countP isOctal := by
  rw [← countP_decoded, Text.decodeUtf8_encode]

/-- An escape that is decoded takes octal digits away. -/
theorem countP_decodeGitBytes {s : Text} {bytes : List Nat} (h : decodeGitBytes s = .ok bytes) :
    bytes.countP isOctalByte ≤ s.countP isOctal ∧
      (hasEscape s = true → bytes.countP isOctalByte < s.countP isOctal) := by
  have hchar : ∀ c, (Text.utf8 c).countP isOctalByte = [c].countP isOctal := by
    intro c
    rw [← countP_encode]
    exact congrArg (List.countP isOctalByte) (List.append_nil _).symm
  have hsplit : ∀ c (t : Text),
      (c :: t).countP isOctal = [c].countP isOctal + t.countP isOctal := by
    intro c t
    rw [← List.countP_append]
    rfl
  fun_induction decodeGitBytes s generalizing bytes with
  | case1 =>
    cases h
    exact ⟨le_rfl, fun h => absurd h (by decide)⟩
  | case2 a b c s ho hlt ih =>
    obtain ⟨bs, hbs, rfl⟩ := Exc.map_ok h
    simp only [Bool.and_eq_true] at ho
    have hle := (ih hbs).1
    have hone : [octal a b c].countP isOctalByte ≤ 1 := List.countP_le_length
    have hcons : (octal a b c :: bs).countP isOctalByte =
        [octal a b c].countP isOctalByte + bs.countP isOctalByte := by
      rw [← List.countP_append]
      rfl
    have hcount : ('\\' :: a :: b :: c :: s).countP isOctal = s.countP isOctal + 3 := by
      simp [List.countP_cons, ho.1.1, ho.1.2, ho.2, show isOctal '\\' = false by decide]
    exact ⟨by omega, fun _ => by omega⟩
  | case3 a b c s ho hlt => cases h
  | case4 a b c s ho ih =>
    obtain ⟨bs, hbs, rfl⟩ := Exc.map_ok h
    obtain ⟨hle, hlt⟩ := ih hbs
    rw [List.countP_append, hchar, hsplit '\\' (a :: b :: c :: s)]
    refine ⟨by omega, fun he => ?_⟩
    have hrest : hasEscape (a :: b :: c :: s) = true := by
      rw [hasEscape, Bool.or_eq_true] at he
      refine he.resolve_left fun hs => ho ?_
      simpa [startsOctal, Bool.and_assoc] using hs
    have := hlt hrest
    omega
  | case5 c s hne ih =>
    obtain ⟨bs, hbs, rfl⟩ := Exc.map_ok h
    obtain ⟨hle, hlt⟩ := ih hbs
    rw [List.countP_append, hchar, hsplit c s]
    refine ⟨by omega, fun he => ?_⟩
    have hrest : hasEscape s = true := by
      rw [hasEscape, Bool.or_eq_true] at he
      refine he.resolve_left fun hs => ?_
      rw [Bool.and_eq_true, beq_iff_eq] at hs
      obtain ⟨a, b, d, r, rfl, -⟩ := exists_of_startsOctal hs.2
      exact hne a b d r hs.1 rfl
    have := hlt hrest
    omega

/-- A text is decoded to itself when it has no escapes, and only then. -/
theorem hasEscape_of_decodeGitPath {s path : Text} (h : decodeGitPath s = .ok path)
    (hcount : s.countP isOctal ≤ path.countP isOctal) : hasEscape s = false := by
  obtain ⟨bytes, hb, rfl⟩ := Exc.map_ok h
  by_contra hs
  have hlt := (countP_decodeGitBytes hb).2 (by simpa using hs)
  rw [countP_decoded] at hcount
  omega

theorem countP_spelled (path : Text) : (spelled path).countP isOctal = path.countP isOctal := by
  induction path with
  | nil => rfl
  | cons c path ih =>
    have hc : (spell c).countP isOctal = [c].countP isOctal := by
      unfold spell
      split
      · rename_i hl
        have hb : 7 ≤ c.toNat ∧ c.toNat ≤ 13 := by simpa [isLetterControl] using hl
        obtain ⟨l, he, -, -, ho⟩ := escapeByte_letter hb
        have hco : isOctal c = false := by
          rw [← Bool.not_eq_true, isOctal_iff]
          omega
        rw [he]
        simp [ho, hco, show isOctal '\\' = false by decide]
      · rfl
    rw [spelled, List.flatMap_cons, List.countP_append, hc]
    show [c].countP isOctal + (spelled path).countP isOctal = _
    rw [ih, ← List.countP_append]
    rfl

theorem length_spell (c : Char) : (spell c).length = if isLetterControl c then 2 else 1 := by
  unfold spell
  split
  · rename_i hl
    obtain ⟨l, he, -⟩ := escapeByte_letter (b := c.toNat) (by simpa [isLetterControl] using hl)
    rw [he]
    rfl
  · rfl

theorem spelled_eq_iff (path : Text) :
    spelled path = path ↔ ∀ c ∈ path, isLetterControl c = false := by
  constructor
  · intro h
    have hge : ∀ s : Text, s.length ≤ (spelled s).length := by
      intro s
      induction s with
      | nil => exact le_rfl
      | cons c s ih =>
        rw [spelled, List.flatMap_cons, List.length_append, length_spell, List.length_cons]
        rw [spelled] at ih
        split <;> omega
    induction path with
    | nil => simp
    | cons c path ih =>
      have hlen := congrArg List.length h
      have hrest := hge path
      rw [spelled, List.flatMap_cons, List.length_append, length_spell, List.length_cons] at hlen
      rw [spelled] at hrest
      have hc : isLetterControl c = false := by
        by_contra hc
        rw [if_pos (by simpa using hc)] at hlen
        omega
      have htail : spelled path = path := by
        rw [spelled, List.flatMap_cons, spell, hc] at h
        exact (List.cons.inj h).2
      intro d hd
      rcases List.mem_cons.mp hd with rfl | hd
      · exact hc
      · exact ih htail d hd
  · intro h
    induction path with
    | nil => rfl
    | cons c path ih =>
      rw [spelled, List.flatMap_cons, spell, h c List.mem_cons_self]
      exact congrArg (c :: ·) (ih fun d hd => h d (List.mem_cons_of_mem _ hd))

/-- **A quoted path** is decoded to itself when git wrote no control character with a letter, and
the path has no backslash before three octal digits. -/
theorem decodeGitPath_shown_iff (path : Text) : decodeGitPath (shown path) = .ok path ↔
    (∀ c ∈ path, isLetterControl c = false) ∧ hasEscape path = false := by
  have hshown : decodeGitPath (shown path) = decodeGitPath (spelled path) := by
    rw [decodeGitPath, decodeGitBytes_shown]
    rfl
  rw [hshown]
  constructor
  · intro h
    have hesc := hasEscape_of_decodeGitPath h (countP_spelled path).le
    rw [decodeGitPath_of_not_hasEscape hesc] at h
    have heq := Except.ok.inj h
    rw [heq] at hesc
    exact ⟨(spelled_eq_iff path).mp heq, hesc⟩
  · rintro ⟨hc, hesc⟩
    rw [(spelled_eq_iff path).mpr hc, decodeGitPath_of_not_hasEscape hesc]

/-! ## Headers -/

/-- The header for a path of the old side and one of the new side. -/
def gitHeader (old new : Text) : Text :=
  "diff --git ".toList ++ quotePath ("a/".toList ++ old) ++ ' ' :: quotePath ("b/".toList ++ new)

/-- A path without quotes has no character that parts words, and no apostrophe. -/
def OneWord (path : Text) : Prop :=
  path.all isPlainPathChar = true → ' ' ∉ path ∧ '\'' ∉ path

/-- What `shlex` makes of a path that it reads as one word. -/
def wordOf (path : Text) : Text := if path.all isPlainPathChar then path else shown path

theorem OneWord.simpleName {path : Text} (h : OneWord path)
    (hp : path.all isPlainPathChar = true) : SimpleName path := by
  intro c hc
  obtain ⟨hblank, hquote⟩ := h hp
  have hplain := List.all_eq_true.mp hp c hc
  simp only [isPlainPathChar, Bool.and_eq_true, decide_eq_true_eq, bne_iff_ne] at hplain
  obtain ⟨⟨⟨h₁, h₂⟩, h₃⟩, h₄⟩ := hplain
  have hne : c.toNat ≠ 32 := by
    intro h32
    refine hblank ?_
    rwa [show ' ' = c from Char.toNat_inj.mp h32.symm]
  refine ⟨by omega, h₂, ?_, h₃, h₄⟩
  rintro rfl
  exact hquote hc

theorem shlexFrom_quotePath {path : Text} (h : OneWord path) (hne : path ≠ []) :
    ∃ q, ∀ s, Text.shlexFrom .blank [] false (quotePath path ++ s) =
      Text.shlexFrom .word (wordOf path) q s := by
  unfold quotePath wordOf
  by_cases hp : path.all isPlainPathChar = true
  · obtain ⟨c, t, rfl⟩ := List.exists_cons_of_ne_nil hne
    refine ⟨false, fun s => ?_⟩
    rw [if_pos hp, if_pos hp]
    exact (h.simpleName hp).bare.shlexFrom_blank s
  · refine ⟨true, fun s => ?_⟩
    rw [if_neg hp, if_neg hp, List.cons_append, List.cons_append, List.append_assoc,
      Text.shlexFrom, if_neg (by decide), if_neg (by decide), if_pos (by decide)]
    have hquoted : ∀ t, Text.shlexFrom (.quote '"') [] false
        ((Text.encode path).flatMap escapeByte ++ ([t] ++ s)) =
          Text.shlexFrom (.quote '"') [] true
            ((Text.encode path).flatMap escapeByte ++ ([t] ++ s)) := by
      intro t
      obtain ⟨d, u, hd⟩ := List.exists_cons_of_ne_nil
        (l := (Text.encode path).flatMap escapeByte ++ ([t] ++ s)) (by simp)
      rw [hd, Text.shlexFrom, Text.shlexFrom]
    rw [hquoted, shlexFrom_escapes, List.nil_append, List.singleton_append, Text.shlexFrom,
      if_pos rfl]
    rfl

theorem shlexFrom_word_blank {token : Text} (h : token ≠ []) (q : Bool) (s : Text) :
    Text.shlexFrom .word token q (' ' :: s) =
      (Text.shlexFrom .blank [] false s).map (token :: ·) := by
  rw [Text.shlexFrom, if_pos (by decide), if_pos (.inl h)]

theorem oneWord_append {u path : Text} (hp : u.all isPlainPathChar = true)
    (hw : OneWord u) (h : OneWord path) : OneWord (u ++ path) := by
  intro hall
  rw [List.all_append, Bool.and_eq_true] at hall
  obtain ⟨h₁, h₂⟩ := hw hp
  obtain ⟨h₃, h₄⟩ := h hall.2
  exact ⟨by simp [h₁, h₃], by simp [h₂, h₄]⟩

theorem toNat_of_plain {c : Char} (h : isPlainPathChar c = true) :
    (32 ≤ c.toNat ∧ c.toNat < 127) ∧ c.toNat ≠ 34 ∧ c.toNat ≠ 92 := by
  simp only [isPlainPathChar, Bool.and_eq_true, decide_eq_true_eq, bne_iff_ne] at h
  have hne : ∀ {n : Nat} {d : Char}, d.toNat = n → c ≠ d → c.toNat ≠ n :=
    fun hn hcd he => hcd (Char.toNat_inj.mp (he.trans hn.symm))
  exact ⟨h.1.1, hne rfl h.1.2, hne rfl h.2⟩

theorem wordOf_append {c d : Char} (hc : isPlainPathChar c = true) (hd : isPlainPathChar d = true)
    (path : Text) : wordOf (c :: d :: path) = c :: d :: wordOf path := by
  have hshow : ∀ c, isPlainPathChar c = true → shownChar c = [c] := by
    intro c hc
    obtain ⟨hrange, h34, h92⟩ := toNat_of_plain hc
    rw [shownChar, utf8_of_lt (by omega), List.flatMap_singleton, shownByte, if_neg (by omega),
      escapeByte_plain hrange h34 h92, Char.ofNat_toNat]
  unfold wordOf
  rw [List.all_cons, List.all_cons, hc, hd, Bool.true_and, Bool.true_and, shown_eq, shown_eq,
    List.flatMap_cons, List.flatMap_cons, hshow c hc, hshow d hd]
  split <;> rfl

theorem wordOf_b (path : Text) : wordOf ("b/".toList ++ path) = 'b' :: '/' :: wordOf path :=
  wordOf_append (by decide) (by decide) path

theorem shlexSplit_gitHeader {old new : Text} (ho : OneWord old) (hn : OneWord new) :
    Text.shlexSplit (gitHeader old new) = some ["diff".toList, "--git".toList,
      wordOf ("a/".toList ++ old), wordOf ("b/".toList ++ new)] := by
  have hsplit : gitHeader old new = 'd' :: "iff".toList ++ ' ' :: ('-' :: "-git".toList ++ ' ' ::
      (quotePath ("a/".toList ++ old) ++ ' ' :: (quotePath ("b/".toList ++ new) ++ []))) := by
    have hstart : "diff --git ".toList =
        'd' :: "iff".toList ++ ' ' :: ('-' :: "-git".toList ++ [' ']) := by decide +kernel
    unfold gitHeader
    generalize quotePath ("a/".toList ++ old) = a
    generalize quotePath ("b/".toList ++ new) = b
    rw [hstart]
    simp only [List.append_assoc, List.cons_append, List.append_nil, List.nil_append]
  have hold : wordOf ("a/".toList ++ old) ≠ [] := by
    rw [show wordOf ("a/".toList ++ old) = 'a' :: '/' :: wordOf old from
      wordOf_append (by decide) (by decide) old]
    exact List.cons_ne_nil _ _
  have hnew : wordOf ("b/".toList ++ new) ≠ [] := by
    rw [wordOf_b]
    exact List.cons_ne_nil _ _
  obtain ⟨q, hq⟩ := shlexFrom_quotePath (oneWord_append (u := "a/".toList) (by decide)
    (fun _ => by decide) ho) (List.cons_ne_nil _ _)
  obtain ⟨r, hr⟩ := shlexFrom_quotePath (oneWord_append (u := "b/".toList) (by decide)
    (fun _ => by decide) hn) (List.cons_ne_nil _ _)
  rw [hsplit, Text.shlexSplit, Bare.shlexFrom_blank (by decide),
    shlexFrom_blank_after (List.cons_ne_nil _ _), Bare.shlexFrom_blank (by decide),
    shlexFrom_blank_after (List.cons_ne_nil _ _), hq,
    shlexFrom_word_blank hold, hr, Text.shlexFrom,
    if_pos (.inl hnew)]
  rfl

theorem decodeGitPath_cons_ascii {c : Char} (hc : c ≠ '\\') (h : c.toNat < 0x80) (s : Text) :
    decodeGitPath (c :: s) = (decodeGitPath s).map (c :: ·) := by
  rw [decodeGitPath, decodeGitPath, decodeGitBytes_cons hc, utf8_of_lt h]
  cases decodeGitBytes s with
  | error e => rfl
  | ok bytes =>
    show Except.ok (Text.decodeUtf8 (c.toNat :: bytes)) = .ok (c :: Text.decodeUtf8 bytes)
    rw [Text.decodeUtf8, Text.decodeFrom, Text.nextByte,
      Text.startSequence, if_pos h, Char.ofNat_toNat]
    rfl

/-- **What a header gives** is the path of the new side as `shlex` leaves it, decoded. -/
theorem headerTarget_gitHeader {old new : Text} (ho : OneWord old) (hn : OneWord new) :
    headerTarget (gitHeader old new) = decodeGitPath (wordOf new) := by
  unfold headerTarget
  rw [shlexSplit_gitHeader ho hn]
  simp only [and_self, if_true]
  rw [wordOf_b, decodeGitPath_cons_ascii (by decide) (by decide),
    decodeGitPath_cons_ascii (by decide) (by decide)]
  cases decodeGitPath (wordOf new) with
  | error e => rfl
  | ok path => exact congrArg Except.ok (if_pos rfl)

/-! ## Headers without quotes -/

/-- The lexer in a text without double quotes and backslashes. It is in single quotes only when
`r` holds. -/
def PlainState (r : Prop) : Text.ShlexState → Prop
  | .blank => True
  | .word => True
  | .quote q => q = '\'' ∧ r
  | .escape _ => False

/-- The characters of the words: those of the text but for apostrophes, and for blanks where there
are no quotes. -/
theorem forall_shlexFrom {p : Char → Prop} {r : Prop} {state : Text.ShlexState} {s : Text}
    (hplain : ∀ c ∈ s, c ≠ '"' ∧ c ≠ '\\' ∧ (c = '\'' → r))
    (hp : ∀ c ∈ s, c ≠ '\'' → (Text.isShlexSpace c = true → r) → p c)
    {token : Text} {quoted : Bool} {words : List Text} (hstate : PlainState r state)
    (ht : ∀ c ∈ token, p c) (h : Text.shlexFrom state token quoted s = some words) :
    ∀ w ∈ words, ∀ c ∈ w, p c := by
  induction s generalizing state token quoted words with
  | nil =>
    cases state with
    | blank =>
      rw [Text.shlexFrom] at h
      cases h
      simp
    | word =>
      rw [Text.shlexFrom] at h
      cases h
      split
      · simpa using ht
      · simp
    | quote q => cases h
    | escape b => cases h
  | cons c s ih =>
    obtain ⟨hdouble, hslash, hquote⟩ := hplain c List.mem_cons_self
    have hpc := hp c List.mem_cons_self
    have ih : ∀ {state token quoted words}, Text.shlexFrom state token quoted s = some words →
        PlainState r state → (∀ d ∈ token, p d) → ∀ w ∈ words, ∀ d ∈ w, p d :=
      fun h hst ht => ih (fun d hd => hplain d (List.mem_cons_of_mem _ hd))
        (fun d hd => hp d (List.mem_cons_of_mem _ hd)) hst ht h
    have hpush : p c → ∀ d ∈ token ++ [c], p d := by
      intro hc d hd
      rcases List.mem_append.mp hd with hd | hd
      · exact ht d hd
      · rwa [List.mem_singleton.mp hd]
    have hq : Text.isQuote c = true → c = '\'' := by
      intro hc
      simpa [Text.isQuote, hdouble] using hc
    cases state with
    | blank =>
      rw [Text.shlexFrom, if_neg hslash] at h
      split_ifs at h with hspace hc
      · exact ih h trivial (by simp)
      · exact ih h ⟨hq hc, hquote (hq hc)⟩ (by simp)
      · refine ih h trivial ?_
        have hne : c ≠ '\'' := fun he => hc (he ▸ rfl)
        simpa using hpc hne fun hs => absurd hs hspace
    | word =>
      rw [Text.shlexFrom, if_neg hslash] at h
      split_ifs at h with hspace hne hc
      · obtain ⟨ws, hws, rfl⟩ := Option.map_eq_some_iff.mp h
        intro w hw
        rcases List.mem_cons.mp hw with rfl | hw
        · exact ht
        · exact ih hws trivial (by simp) w hw
      · exact ih h trivial (by simp)
      · exact ih h ⟨hq hc, hquote (hq hc)⟩ ht
      · have hne : c ≠ '\'' := fun he => hc (he ▸ rfl)
        exact ih h trivial (hpush (hpc hne fun hs => absurd hs hspace))
    | quote q =>
      obtain ⟨rfl, hquotes⟩ := hstate
      rw [Text.shlexFrom] at h
      split_ifs at h with hc hs
      · exact ih h trivial ht
      · exact absurd hs.1 hslash
      · exact ih h ⟨rfl, hquotes⟩ (hpush (hpc hc fun _ => hquotes))
    | escape b => exact hstate.elim

theorem not_mem_of_hasEscape {s : Text} (h : '\\' ∉ s) : hasEscape s = false := by
  induction s with
  | nil => rfl
  | cons c s ih =>
    rw [List.mem_cons, not_or] at h
    rw [hasEscape, ih h.2, beq_eq_false_iff_ne.mpr (Ne.symm h.1)]
    rfl

/-- The path of a header consists of characters of its last word. -/
theorem forall_headerTarget {p : Char → Prop} {header path : Text}
    (hw : ∀ words, Text.shlexSplit header = some words → ∀ w ∈ words, ∀ c ∈ w, p c ∧ c ≠ '\\')
    (h : headerTarget header = .ok path) : ∀ c ∈ path, p c := by
  unfold headerTarget at h
  split at h
  · rename_i diff git source target hs
    have ht := hw _ hs target (by simp)
    split at h
    · obtain ⟨t, hdec, rfl⟩ := Exc.map_ok h
      have hesc : hasEscape target = false := not_mem_of_hasEscape fun hm => (ht _ hm).2 rfl
      rw [decodeGitPath_of_not_hasEscape hesc] at hdec
      cases hdec
      intro c hc
      split at hc
      · exact (ht c (List.mem_of_mem_drop hc)).1
      · exact (ht c hc).1
    · cases h
      simp
  · cases h
    simp

theorem gitHeader_plain {path : Text} (h : path.all isPlainPathChar = true) :
    gitHeader path path = "diff --git ".toList ++ ("a/".toList ++ path) ++
      ' ' :: ("b/".toList ++ path) := by
  have hfixed :
      "a/".toList.all isPlainPathChar = true ∧ "b/".toList.all isPlainPathChar = true := by
    decide +kernel
  have ha : quotePath ("a/".toList ++ path) = "a/".toList ++ path :=
    if_pos (by rw [List.all_append, h, hfixed.1, Bool.and_self])
  have hb : quotePath ("b/".toList ++ path) = "b/".toList ++ path :=
    if_pos (by rw [List.all_append, h, hfixed.2, Bool.and_self])
  unfold gitHeader
  rw [ha, hb]

/-- A path without quotes that is read back is one word. -/
theorem oneWord_of_headerTarget {path : Text} (h : headerTarget (gitHeader path path) = .ok path) :
    OneWord path := by
  intro hall
  have hfixed : (∀ c ∈ "diff --git ".toList, c ≠ '"' ∧ c ≠ '\\' ∧ c ≠ '\'') ∧
      (∀ c ∈ "a/".toList, c ≠ '"' ∧ c ≠ '\\' ∧ c ≠ '\'') ∧
      ∀ c ∈ "b/".toList, c ≠ '"' ∧ c ≠ '\\' ∧ c ≠ '\'' := by decide +kernel
  have hheader : ∀ c ∈ gitHeader path path, c ∈ path ∨ c ≠ '"' ∧ c ≠ '\\' ∧ c ≠ '\'' := by
    intro c hc
    rw [gitHeader_plain hall] at hc
    simp only [List.mem_append, List.mem_cons] at hc
    rcases hc with (hc | hc | hc) | rfl | hc | hc
    · exact .inr (hfixed.1 c hc)
    · exact .inr (hfixed.2.1 c hc)
    · exact .inl hc
    · exact .inr (by decide)
    · exact .inr (hfixed.2.2 c hc)
    · exact .inl hc
  have hplain : ∀ c ∈ gitHeader path path, c ≠ '"' ∧ c ≠ '\\' := by
    intro c hc
    rcases hheader c hc with hc | hc
    · have hc := List.all_eq_true.mp hall c hc
      simp only [isPlainPathChar, Bool.and_eq_true, bne_iff_ne] at hc
      exact ⟨hc.1.2, hc.2⟩
    · exact ⟨hc.1, hc.2.1⟩
  have hquote : '\'' ∉ path := by
    have := forall_headerTarget (p := (· ≠ '\'')) (fun words hw => forall_shlexFrom
      (r := True) (fun c hc => ⟨(hplain c hc).1, (hplain c hc).2, fun _ => trivial⟩)
      (fun c hc hne _ => ⟨hne, (hplain c hc).2⟩) (show PlainState True .blank from trivial)
      (by simp) hw) h
    exact fun hm => this _ hm rfl
  have hblank : ' ' ∉ path := by
    have hne : ∀ c ∈ gitHeader path path, c ≠ '\'' := by
      intro c hc
      rcases hheader c hc with hc | hc
      · exact fun he => hquote (he ▸ hc)
      · exact hc.2.2
    have := forall_headerTarget (p := (· ≠ ' ')) (fun words hw => forall_shlexFrom
      (r := False) (fun c hc => ⟨(hplain c hc).1, (hplain c hc).2, hne c hc⟩)
      (fun c hc _ hs => ⟨fun he => hs (he ▸ rfl), (hplain c hc).2⟩)
      (show PlainState False .blank from trivial) (by simp) hw) h
    exact fun hm => this _ hm rfl
  exact ⟨hblank, hquote⟩

/-! ## Paths that are read back -/

/-- **Read back**: where git writes the path without quotes it is one word, git writes no control
character of it with a letter, and it has no backslash before three octal digits. -/
structure ReadBack (path : Text) : Prop where
  word : OneWord path
  noLetter : ∀ c ∈ path, isLetterControl c = false
  noEscape : hasEscape path = false

/-- A path without quotes has nothing that is escaped. -/
theorem readBack_of_plain {path : Text} (hall : path.all isPlainPathChar = true)
    (h : OneWord path) : ReadBack path := by
  have hplain : ∀ c ∈ path, 32 ≤ c.toNat ∧ c ≠ '\\' := by
    intro c hc
    have hc := List.all_eq_true.mp hall c hc
    simp only [isPlainPathChar, Bool.and_eq_true, decide_eq_true_eq, bne_iff_ne] at hc
    exact ⟨hc.1.1.1, hc.2⟩
  refine ⟨h, fun c hc => ?_, not_mem_of_hasEscape fun hm => (hplain _ hm).2 rfl⟩
  have := (hplain c hc).1
  simp only [isLetterControl, Bool.and_eq_false_iff, decide_eq_false_iff_not]
  omega

theorem decodeGitPath_wordOf {path : Text} (h : OneWord path) :
    decodeGitPath (wordOf path) = .ok path ↔ ReadBack path := by
  unfold wordOf
  by_cases hall : path.all isPlainPathChar = true
  · have hback := readBack_of_plain hall h
    rw [if_pos hall, decodeGitPath_of_not_hasEscape hback.noEscape]
    exact iff_of_true rfl hback
  · rw [if_neg hall, decodeGitPath_shown_iff]
    exact ⟨fun hd => ⟨h, hd.1, hd.2⟩, fun hb => ⟨hb.noLetter, hb.noEscape⟩⟩

/-- **The header parser inverts git's quoting** of a path exactly when the path is one that is read
back. -/
theorem headerTarget_gitHeader_iff (path : Text) :
    headerTarget (gitHeader path path) = .ok path ↔ ReadBack path := by
  constructor
  · intro h
    have hw := oneWord_of_headerTarget h
    rw [headerTarget_gitHeader hw hw] at h
    exact (decodeGitPath_wordOf hw).mp h
  · intro h
    rw [headerTarget_gitHeader h.word h.word]
    exact (decodeGitPath_wordOf h.word).mpr h

/-- A blank in a path is enough to lose it. -/
theorem not_headerTarget_blank : ¬∀ path : Text, path ≠ [] → Char.ofNat 0 ∉ path →
    headerTarget (gitHeader path path) = .ok path := by
  intro h
  have hread := h "a b.py".toList (by decide) (by decide)
  have hlost : headerTarget (gitHeader "a b.py".toList "a b.py".toList) = .ok [] := by
    decide +kernel
  rw [hlost] at hread
  exact absurd (Except.ok.inj hread) (by decide)

/-- The header of a file is read when its paths are read back, also where they differ. -/
theorem headerRead_of_readBack {f : File} (ho : OneWord f.oldPath) (hn : ReadBack f.newPath) :
    f.HeaderRead :=
  (headerTarget_gitHeader ho hn.word).trans ((decodeGitPath_wordOf hn.word).mpr hn)

end DiffFilter
