import Mathlib.Data.List.TakeWhile
import AlmightyReview.Lib.Text

/-!
# Lexical rules of T-SQL

How the server cuts the text of a batch into tokens.

* `items`: comments, literals and quoted identifiers are set apart from the other characters. Block
  comments nest, `--` runs to the end of the line, and a closing quote or bracket that is doubled
  does not close.
* `lexemes`: the tokens. A regular identifier, a keyword and a variable are a `word`, which is as
  long as it can be; so is a number, which may have an exponent or be hexadecimal. White space and
  comments only stand between tokens.
* `Gap`: what stands directly before a token. A word may follow a number without a blank.
* `lexed`: the tokens by induction over the items, one case for each kind of token, and
  `spells_lexFrom`, the same for the text with blanks over what is not a character.

Which letters there are beyond ASCII depends on the version of the server (`letter`).
-/

namespace Tsql

/-! ## Characters -/

/-- The letters beyond ASCII that are equal to an ASCII letter when case is ignored. -/
def foldingLetters : List Char :=
  [Char.ofNat 0x130, Char.ofNat 0x131, Char.ofNat 0x17f, Char.ofNat 0x212a]

/-- A regular identifier begins so. -/
def isIdentStart (letter : Char → Bool) (c : Char) : Bool :=
  c.isAlpha || c == '_' || c == '@' || c == '#' || foldingLetters.contains c ||
    (128 ≤ c.toNat && letter c && !Text.isSpace c)

/-- A regular identifier goes on so. -/
def isIdentPart (letter : Char → Bool) (c : Char) : Bool :=
  isIdentStart letter c || c.isDigit || c == '$'

/-! ## Comments, literals and quoted identifiers -/

/-- The characters up to the end of a block comment that `n` others are around. -/
def commentEnd : Nat → Text → Option Nat
  | _, [] => none
  | _, [_] => none
  | n, c :: d :: s =>
    if c = '*' ∧ d = '/' then
      if n = 0 then some 2 else (commentEnd (n - 1) s).map (· + 2)
    else if c = '/' ∧ d = '*' then (commentEnd (n + 1) s).map (· + 2)
    else (commentEnd n (d :: s)).map (· + 1)

/-- The characters up to a closing quote or bracket that is not doubled. -/
def quoteEnd (closer : Char) : Text → Option Nat
  | [] => none
  | [c] => if c = closer then some 1 else none
  | c :: d :: s =>
    if c = closer then
      if d = closer then (quoteEnd closer s).map (· + 2) else some 1
    else (quoteEnd closer (d :: s)).map (· + 1)

/-- A character, or a comment, a literal or a quoted identifier with its text. -/
inductive Item where
  | char (c : Char)
  | comment (raw : Text)
  | literal (raw : Text)
  | quoted (raw : Text)

/-- What the text begins with, and how long it is. It is none when it has no end. -/
def next (s : Text) : Option ((Text → Item) × Nat) :=
  match s with
  | [] => none
  | c :: t =>
    if s.startsWith ['-', '-'] then some (.comment, (s.takeWhile (· != '\n')).length)
    else if s.startsWith ['/', '*'] then
      (commentEnd 0 (s.drop 2)).map fun n => (.comment, n + 2)
    else if c = '\'' then (quoteEnd '\'' t).map fun n => (.literal, n + 1)
    else if c = '"' then (quoteEnd '"' t).map fun n => (.quoted, n + 1)
    else if c = '[' then (quoteEnd ']' t).map fun n => (.quoted, n + 1)
    else some (fun _ => .char c, 1)

/-- The items of the text after the next `skip` characters. -/
def itemsFrom : Nat → Text → Option (List Item)
  | _, [] => some []
  | skip + 1, _ :: s => itemsFrom skip s
  | 0, c :: s => (next (c :: s)).bind fun r =>
    (itemsFrom (r.2 - 1) s).map (r.1 ((c :: s).take r.2) :: ·)

/-- The items of a text. -/
def items (s : Text) : Option (List Item) := itemsFrom 0 s

/-! ## Tokens -/

inductive Token where
  | word (w : Text)
  | number (n : Text)
  | literal
  | quoted
  | symbol (c : Char)
  deriving DecidableEq

/-- What stands directly before a token: a number that ends with a digit, without letters or with
letters; a comment, with or without blanks; or something else. -/
inductive Gap where
  | plain
  | digits
  | letters
  | comment
  deriving DecidableEq

/-- The gap with a blank more in it. -/
def Gap.blank : Gap → Gap
  | .comment => .comment
  | _ => .plain

/-- The gap behind a number. -/
def Gap.after (n : Text) : Gap :=
  if n.any Char.isAlpha then .letters else if n.getLast? = some '.' then .plain else .digits

structure Lexeme where
  token : Token
  gap : Gap
  deriving DecidableEq

/-- The characters that the items begin with. -/
def chars : List Item → Text
  | .char c :: is => c :: chars is
  | _ => []

def isHexDigit (c : Char) : Bool :=
  c.isDigit || ('a' ≤ c && c ≤ 'f') || ('A' ≤ c && c ≤ 'F')

/-- A point and the digits behind it. -/
def fraction : Text → Text
  | [] => []
  | c :: s => if c = '.' then '.' :: s.takeWhile Char.isDigit else []

/-- An exponent, which has a digit. -/
def exponent : Text → Text
  | [] => []
  | e :: s =>
    let sign := (s.take 1).filter fun c => c == '+' || c == '-'
    let digits := (s.drop sign.length).takeWhile Char.isDigit
    if (e = 'e' ∨ e = 'E') ∧ digits ≠ [] then e :: sign ++ digits else []

/-- The digits, the fraction and the exponent of a decimal. -/
def decimal (s : Text) : Text :=
  let whole := s.takeWhile Char.isDigit
  let part := fraction (s.drop whole.length)
  whole ++ part ++ exponent (s.drop (whole ++ part).length)

/-- The number that the text begins with. -/
def number (s : Text) : Text :=
  if s.startsWith ['0', 'x'] ∨ s.startsWith ['0', 'X'] then
    s.take 2 ++ (s.drop 2).takeWhile isHexDigit
  else decimal s

/-- The text begins with a number. -/
def isNumberStart : Text → Bool
  | [] => false
  | c :: s => c.isDigit || (c == '.' && s.head?.any Char.isDigit)

variable (letter : Char → Bool)

/-- The tokens of the items after the next `skip` ones, which stand behind `gap`. -/
def lexFrom : Gap → Nat → List Item → List Lexeme
  | _, _, [] => []
  | gap, skip + 1, _ :: is => lexFrom gap skip is
  | _, 0, .comment _ :: is => lexFrom .comment 0 is
  | gap, 0, .literal _ :: is => ⟨.literal, gap⟩ :: lexFrom .plain 0 is
  | gap, 0, .quoted _ :: is => ⟨.quoted, gap⟩ :: lexFrom .plain 0 is
  | gap, 0, .char c :: is =>
    if Text.isSpace c then lexFrom gap.blank 0 is
    else if isIdentStart letter c then
      let w := (c :: chars is).takeWhile (isIdentPart letter)
      ⟨.word w, gap⟩ :: lexFrom .plain (w.length - 1) is
    else if isNumberStart (c :: chars is) then
      let n := number (c :: chars is)
      ⟨.number n, gap⟩ :: lexFrom (.after n) (n.length - 1) is
    else ⟨.symbol c, gap⟩ :: lexFrom .plain 0 is

/-- The tokens of a text; none when a comment, literal or quoted identifier has no end. -/
def lexemes (s : Text) : Option (List Lexeme) := (items s).map (lexFrom letter .plain 0)

def tokens (s : Text) : Option (List Token) := (lexemes letter s).map (·.map Lexeme.token)

example : tokens (fun _ => false) "SELECT[a]]b]/* /* */ */,'it''s' --x".toList =
    some [.word "SELECT".toList, .quoted, .symbol ',', .literal] := by decide +kernel

example : tokens (fun _ => false) "1.5e0delete.5 0x1into @p;".toList =
    some [.number "1.5e0".toList, .word "delete".toList, .number ".5".toList,
      .number "0x1".toList, .word "into".toList, .word "@p".toList, .symbol ';'] := by
  decide +kernel

/-! ## Numbers -/

/-- What the characters of a number are. Without letters it has no sign either. -/
structure IsNumber (n : Text) : Prop where
  ne_nil : n ≠ []
  head : ∀ c ∈ n.head?, c.isDigit = true ∨ c = '.'
  chars : ∀ c ∈ n, isHexDigit c = true ∨ c ∈ ['x', 'X', '.', '+', '-']
  plain : n.any Char.isAlpha = false → ∀ c ∈ n, c.isDigit = true ∨ c = '.'

theorem drop_length_takeWhile (p : Char → Bool) (s : Text) :
    s.drop (s.takeWhile p).length = s.dropWhile p := by
  induction s with
  | nil => rfl
  | cons c s ih =>
    by_cases hc : p c = true
    · simpa [hc] using ih
    · simp [hc]

theorem not_of_head?_dropWhile {p : Char → Bool} {s : Text} {c : Char}
    (h : c ∈ (s.dropWhile p).head?) : p c = false := by
  have hnot := List.head?_dropWhile_not p s
  rw [Option.mem_def.mp h] at hnot
  simpa using hnot

theorem dropWhile_append_of_head {p : Char → Bool} {u v : Text}
    (hv : ∀ c ∈ v.head?, p c = false) : (u ++ v).dropWhile p = u.dropWhile p ++ v := by
  induction u with
  | nil =>
    cases v with
    | nil => rfl
    | cons c v =>
      have hc : p c = false := hv c rfl
      simp [hc]
  | cons c u ih =>
    by_cases hc : p c = true
    · simpa [hc] using ih
    · simp [hc]

theorem takeWhile_append_of_head {p : Char → Bool} {u v : Text}
    (hv : ∀ c ∈ v.head?, p c = false) : (u ++ v).takeWhile p = u.takeWhile p := by
  have hsplit := List.takeWhile_append_dropWhile (p := p) (l := u ++ v)
  rw [dropWhile_append_of_head hv, ← List.append_assoc] at hsplit
  exact List.append_cancel_right
    ((List.append_cancel_right hsplit).trans List.takeWhile_append_dropWhile.symm)

theorem fraction_chars {s : Text} {c : Char} (hc : c ∈ fraction s) :
    c.isDigit = true ∨ c = '.' := by
  cases s with
  | nil => simp [fraction] at hc
  | cons a s =>
    rw [fraction] at hc
    split at hc
    · rcases List.mem_cons.mp hc with rfl | hc
      · exact .inr rfl
      · exact .inl (List.mem_takeWhile_imp hc)
    · simp at hc

theorem fraction_isPrefixOf (s : Text) : fraction s <+: s := by
  cases s with
  | nil => simp [fraction]
  | cons a s =>
    rw [fraction]
    split
    · rename_i ha
      rw [ha]
      simpa using List.takeWhile_prefix _
    · exact List.nil_prefix

/-- An exponent is what its text begins with; no digit follows it. -/
theorem exponent_cases (s : Text) : exponent s = [] ∨
    ∃ e sign ds t, s = e :: (sign ++ (ds ++ t)) ∧ exponent s = e :: (sign ++ ds) ∧
      (e = 'e' ∨ e = 'E') ∧ (∀ c ∈ sign, c = '+' ∨ c = '-') ∧ (∀ c ∈ ds, c.isDigit = true) ∧
      ∀ c ∈ t.head?, c.isDigit = false := by
  cases s with
  | nil => exact .inl rfl
  | cons e s =>
    simp only [exponent]
    have hs : s = (s.take 1).filter (fun c => c == '+' || c == '-') ++
        s.drop ((s.take 1).filter fun c => c == '+' || c == '-').length := by
      cases s with
      | nil => rfl
      | cons a s =>
        by_cases ha : (a == '+' || a == '-') = true
        · simp [ha]
        · simp [ha]
    have hsign : ∀ c ∈ (s.take 1).filter (fun c => c == '+' || c == '-'), c = '+' ∨ c = '-' := by
      intro c hc
      simpa using (List.mem_filter.mp hc).2
    generalize (s.take 1).filter (fun c => c == '+' || c == '-') = sign at hs hsign
    split
    · rename_i he
      refine .inr ⟨e, sign, _, (s.drop sign.length).dropWhile Char.isDigit, ?_, rfl, he.1, hsign,
        fun c hc => List.mem_takeWhile_imp hc, fun c hc => not_of_head?_dropWhile hc⟩
      rw [List.takeWhile_append_dropWhile, ← hs]
    · exact .inl rfl

theorem isDigit_of_isHexDigit_eq_false {c : Char} (h : isHexDigit c = false) :
    c.isDigit = false := by
  simp only [isHexDigit, Bool.or_eq_false_iff] at h
  exact h.1.1

theorem isHexDigit_of_isDigit {c : Char} (h : c.isDigit = true) : isHexDigit c = true := by
  simp [isHexDigit, h]

theorem isAlpha_of_isDigit {c : Char} (h : c.isDigit = true) : c.isAlpha = false := by
  have hA : 'A'.val.toNat = 65 := rfl
  have ha : 'a'.val.toNat = 97 := rfl
  have h9 : '9'.val.toNat = 57 := rfl
  simp only [Char.isDigit, Text.isAlpha_eq, Text.isUpper_eq, Text.isLower_eq, Bool.and_eq_true,
    Bool.or_eq_false_iff, Bool.and_eq_false_iff, decide_eq_true_eq, decide_eq_false_iff_not,
    UInt32.le_iff_toNat_le, ge_iff_le] at h ⊢
  omega

theorem isAlphanum_of_isDigit {c : Char} (h : c.isDigit = true) : c.isAlphanum = true := by
  simp [Char.isAlphanum, h]

/-- **Numbers.** A text that begins with a number is the number and a rest. After a number with
letters there is no digit. -/
theorem number_split {s : Text} (h : isNumberStart s = true) :
    ∃ t, s = number s ++ t ∧ IsNumber (number s) ∧
      ((number s).any Char.isAlpha = true → ∀ c ∈ t.head?, c.isDigit = false) := by
  unfold number
  split
  · -- hexadecimal
    rename_i hstart
    simp only [Text.startsWith, List.isPrefixOf_iff_prefix] at hstart
    obtain ⟨x, s', rfl, hx⟩ : ∃ x s', s = '0' :: x :: s' ∧ (x = 'x' ∨ x = 'X') := by
      rcases hstart with ⟨t, ht⟩ | ⟨t, ht⟩
      · exact ⟨'x', t, by simp [← ht], .inl rfl⟩
      · exact ⟨'X', t, by simp [← ht], .inr rfl⟩
    clear hstart
    refine ⟨s'.dropWhile isHexDigit, by simp, ⟨by simp, by simp, ?_, ?_⟩, ?_⟩
    · intro c hc
      simp only [List.take_succ_cons, List.take_zero, List.drop_succ_cons, List.drop_zero,
        List.cons_append, List.nil_append, List.mem_cons] at hc
      rcases hc with rfl | rfl | hc
      · exact .inl rfl
      · rcases hx with rfl | rfl <;> exact .inr (by simp)
      · exact .inl (List.mem_takeWhile_imp hc)
    · intro hany
      rcases hx with rfl | rfl <;> simp [Text.isAlpha_eq] at hany
    · exact fun _ c hc => isDigit_of_isHexDigit_eq_false (not_of_head?_dropWhile hc)
  · -- decimal
    obtain ⟨r, hr⟩ := fraction_isPrefixOf (s.drop (s.takeWhile Char.isDigit).length)
    have hwhole : s = s.takeWhile Char.isDigit ++ s.drop (s.takeWhile Char.isDigit).length := by
      rw [drop_length_takeWhile]
      exact List.takeWhile_append_dropWhile.symm
    have hdigits : ∀ c ∈ s.takeWhile Char.isDigit, c.isDigit = true :=
      fun c hc => List.mem_takeWhile_imp hc
    have hpart := fun c => @fraction_chars (s.drop (s.takeWhile Char.isDigit).length) c
    have hne : s.takeWhile Char.isDigit ++
        fraction (s.drop (s.takeWhile Char.isDigit).length) ≠ [] := by
      cases s with
      | nil => cases h
      | cons c s =>
        by_cases hc : c.isDigit = true
        · simp [hc]
        · have hdot : c = '.' := by
            simp only [isNumberStart, hc, Bool.false_or, Bool.and_eq_true, beq_iff_eq] at h
            exact h.1
          simp [fraction, hdot]
    simp only [decimal]
    generalize s.takeWhile Char.isDigit = whole at *
    generalize fraction (s.drop whole.length) = part at *
    have hs : s = whole ++ part ++ r := by rw [List.append_assoc, hr, ← hwhole]
    have hrest : s.drop (whole ++ part).length = r := by rw [hs, List.drop_left]
    rw [hrest]
    have hwp : ∀ c ∈ whole ++ part, c.isDigit = true ∨ c = '.' := by
      intro c hc
      rcases List.mem_append.mp hc with hc | hc
      · exact .inl (hdigits c hc)
      · exact hpart c hc
    have hhead : ∀ x, ∀ c ∈ (whole ++ part ++ x).head?, c.isDigit = true ∨ c = '.' := by
      intro x c hc
      obtain ⟨a, l, hal⟩ := List.exists_cons_of_ne_nil hne
      rw [hal] at hc hwp
      exact Option.some.inj hc ▸ hwp a List.mem_cons_self
    rcases exponent_cases r with he | ⟨e, sign, ds, t, hrt, he, hee, hsign, hds, ht⟩
    · rw [he, List.append_nil]
      have hhead := hhead []
      rw [List.append_nil] at hhead
      refine ⟨r, hs, ⟨hne, hhead, fun c hc => ?_, fun _ => hwp⟩, fun hany => ?_⟩
      · rcases hwp c hc with hc | rfl
        · exact .inl (isHexDigit_of_isDigit hc)
        · exact .inr (by simp)
      · obtain ⟨c, hc, ha⟩ := List.any_eq_true.mp hany
        rcases hwp c hc with hd | rfl
        · rw [isAlpha_of_isDigit hd] at ha
          cases ha
        · simp [Text.isAlpha_eq] at ha
    · rw [he]
      refine ⟨t, by rw [hs, hrt]; simp, ⟨by simp, hhead _, fun c hc => ?_, fun hany => ?_⟩,
        fun _ => ht⟩
      · simp only [List.mem_append, List.mem_cons] at hc
        rcases hc with (hc | hc) | rfl | hc | hc
        · exact .inl (isHexDigit_of_isDigit (hdigits c hc))
        · rcases hpart c hc with hc | rfl
          · exact .inl (isHexDigit_of_isDigit hc)
          · exact .inr (by simp)
        · rcases hee with rfl | rfl <;> exact .inl rfl
        · rcases hsign c hc with rfl | rfl <;> exact .inr (by simp)
        · exact .inl (isHexDigit_of_isDigit (hds c hc))
      · rcases hee with rfl | rfl <;> simp [Text.isAlpha_eq] at hany

/-! ## The text that tokens have -/

/-- The text of an item. -/
@[simp] def Item.raw : Item → Text
  | .char c => [c]
  | .comment raw => raw
  | .literal raw => raw
  | .quoted raw => raw

/-- The text of the items with blanks over all that is not a character. -/
def blank : List Item → Text
  | [] => []
  | .char c :: is => c :: blank is
  | .comment raw :: is => raw.map (fun _ => ' ') ++ blank is
  | .literal raw :: is => raw.map (fun _ => ' ') ++ blank is
  | .quoted raw :: is => raw.map (fun _ => ' ') ++ blank is

theorem blank_map_char (u : Text) (is : List Item) :
    blank (u.map Item.char ++ is) = u ++ blank is := by
  induction u with
  | nil => rfl
  | cons c u ih => exact congrArg (c :: ·) ih

theorem chars_map_char (u : Text) (is : List Item) :
    chars (u.map Item.char ++ is) = u ++ chars is := by
  induction u with
  | nil => rfl
  | cons c u ih => exact congrArg (c :: ·) ih

/-- The characters that the items begin with, up to the `k`th. -/
theorem chars_drop (is : List Item) {k : Nat} (hk : k ≤ (chars is).length) :
    chars (is.drop k) = (chars is).drop k ∧
      is = ((chars is).take k).map Item.char ++ is.drop k := by
  induction k generalizing is with
  | zero => exact ⟨rfl, rfl⟩
  | succ k ih =>
    match is with
    | .char c :: is =>
      have hk : k ≤ (chars is).length := by simpa [chars] using hk
      exact ⟨(ih is hk).1, congrArg (Item.char c :: ·) (ih is hk).2⟩
    | [] => simp [chars] at hk
    | .comment raw :: is => simp [chars] at hk
    | .literal raw :: is => simp [chars] at hk
    | .quoted raw :: is => simp [chars] at hk

theorem isIdentPart_of_isDigit {c : Char} (h : c.isDigit = true) : isIdentPart letter c = true := by
  simp [isIdentPart, h]

theorem isIdentPart_of_isIdentStart {c : Char} (h : isIdentStart letter c = true) :
    isIdentPart letter c = true := by
  simp [isIdentPart, h]

theorem isIdentPart_blank : isIdentPart letter ' ' = false := by
  have h : isIdentStart letter ' ' = false := by
    simp [isIdentStart, foldingLetters]
  simp [isIdentPart, h]

theorem ne_of_isSpace {c d : Char} (hc : Text.isSpace c = true) (hd : Text.isSpace d = false) :
    c ≠ d := by
  rintro rfl
  rw [hc] at hd
  cases hd

theorem isIdentStart_of_isSpace {c : Char} (hc : Text.isSpace c = true) :
    isIdentStart letter c = false ∧ c.isDigit = false := by
  have hne : ∀ d, Text.isSpace d = false → (c == d) = false := fun d hd =>
    beq_false_of_ne (ne_of_isSpace hc hd)
  have hf : c ∉ foldingLetters := by
    intro hin
    have hno : ∀ d ∈ foldingLetters, Text.isSpace d = false := by decide
    rw [hno c hin] at hc
    cases hc
  have hw := hc
  simp only [Text.isSpace, Bool.or_eq_true, Bool.and_eq_true, decide_eq_true_eq, beq_iff_eq] at hw
  have hn : c.val.toNat = c.toNat := rfl
  have hA : 'A'.val.toNat = 65 ∧ 'Z'.val.toNat = 90 := ⟨rfl, rfl⟩
  have hl : 'a'.val.toNat = 97 ∧ 'z'.val.toNat = 122 := ⟨rfl, rfl⟩
  have h0 : '0'.val.toNat = 48 ∧ '9'.val.toNat = 57 := ⟨rfl, rfl⟩
  have ha : c.isAlpha = false := by
    simp only [Text.isAlpha_eq, Text.isUpper_eq, Text.isLower_eq, Bool.or_eq_false_iff,
      Bool.and_eq_false_iff, decide_eq_false_iff_not, UInt32.le_iff_toNat_le, ge_iff_le]
    omega
  have hd : c.isDigit = false := by
    simp only [Char.isDigit, Bool.and_eq_false_iff, decide_eq_false_iff_not,
      UInt32.le_iff_toNat_le, ge_iff_le]
    omega
  refine ⟨?_, hd⟩
  simp [isIdentStart, ha, hf, hc, hne '_' rfl, hne '@' rfl, hne '#' rfl]

theorem isIdentPart_of_isSpace {c : Char} (hc : Text.isSpace c = true) :
    isIdentPart letter c = false := by
  obtain ⟨h₁, h₂⟩ := isIdentStart_of_isSpace letter hc
  simp [isIdentPart, h₁, h₂, ne_of_isSpace (d := '$') hc rfl]

theorem not_isSpace_of_isIdentPart {c : Char} (h : isIdentPart letter c = true) :
    Text.isSpace c = false := by
  by_contra hs
  rw [isIdentPart_of_isSpace letter (by simpa using hs)] at h
  cases h

theorem ne_of_isDigit {c d : Char} (hc : c.isDigit = true) (hd : d.isDigit = false) : c ≠ d := by
  rintro rfl
  rw [hc] at hd
  cases hd

theorem isIdentStart_of_isDigit {c : Char} (h : c.isDigit = true) :
    isIdentStart letter c = false := by
  have hf : c ∉ foldingLetters := by
    intro hc
    have hall : ∀ d ∈ foldingLetters, d.isDigit = false := by decide
    rw [hall c hc] at h
    cases h
  have hascii : c.toNat < 128 := by
    have hn : c.val.toNat = c.toNat := rfl
    have h9 : '9'.val.toNat = 57 := rfl
    simp only [Char.isDigit, Bool.and_eq_true, decide_eq_true_eq, UInt32.le_iff_toNat_le,
      ge_iff_le] at h
    omega
  simp [isIdentStart, isAlpha_of_isDigit h, hf, ne_of_isDigit (d := '_') h rfl,
    ne_of_isDigit (d := '@') h rfl, ne_of_isDigit (d := '#') h rfl, Nat.not_le_of_lt hascii]

/-- The items behind a gap, token by token. -/
inductive Lexed : Gap → List Item → Prop
  | nil {gap} : Lexed gap []
  | comment {gap raw is} : Lexed .comment is → Lexed gap (.comment raw :: is)
  | literal {gap raw is} : Lexed .plain is → Lexed gap (.literal raw :: is)
  | quoted {gap raw is} : Lexed .plain is → Lexed gap (.quoted raw :: is)
  | space {gap c is} : Text.isSpace c = true → Lexed gap.blank is → Lexed gap (.char c :: is)
  | word {gap c w is} : isIdentStart letter c = true → (∀ d ∈ w, isIdentPart letter d = true) →
      (∀ d ∈ (chars is).head?, isIdentPart letter d = false) →
      lexFrom letter gap 0 ((c :: w).map .char ++ is) =
        ⟨.word (c :: w), gap⟩ :: lexFrom letter .plain 0 is →
      Lexed .plain is → Lexed gap ((c :: w).map .char ++ is)
  | number {gap n is} : IsNumber n → (gap = .letters → ∀ c ∈ n.head?, c.isDigit = false) →
      lexFrom letter gap 0 (n.map .char ++ is) =
        ⟨.number n, gap⟩ :: lexFrom letter (.after n) 0 is →
      Lexed (.after n) is → Lexed gap (n.map .char ++ is)
  | symbol {gap c is} : Text.isSpace c = false → isIdentStart letter c = false →
      c.isDigit = false →
      lexFrom letter gap 0 (.char c :: is) = ⟨.symbol c, gap⟩ :: lexFrom letter .plain 0 is →
      Lexed .plain is → Lexed gap (.char c :: is)

theorem lexFrom_eq_drop (gap : Gap) (k : Nat) (is : List Item) :
    lexFrom letter gap k is = lexFrom letter gap 0 (is.drop k) := by
  induction k generalizing is with
  | zero => rfl
  | succ k ih =>
    cases is with
    | nil => rfl
    | cons i is =>
      rw [List.drop_succ_cons, ← ih]
      cases i <;> rfl

/-- **The tokens of the items, one after the other.** -/
theorem lexed {gap : Gap} (is : List Item)
    (hdigit : gap = .letters → ∀ c ∈ (chars is).head?, c.isDigit = false) :
    Lexed letter gap is := by
  induction hn : is.length using Nat.strong_induction_on generalizing is gap with
  | h n ih =>
    subst hn
    match is with
    | [] => exact .nil
    | .comment raw :: is => exact .comment (ih is.length (by simp) is (by simp) rfl)
    | .literal raw :: is => exact .literal (ih is.length (by simp) is (by simp) rfl)
    | .quoted raw :: is => exact .quoted (ih is.length (by simp) is (by simp) rfl)
    | .char c :: is =>
      -- the tokens after `k` more characters
      have hrest : ∀ g k, k ≤ (chars is).length →
          (g = .letters → ∀ c ∈ ((chars is).drop k).head?, c.isDigit = false) →
          Lexed letter g (is.drop k) := by
        intro g k hk hg
        refine ih _ (by simp only [List.length_drop, List.length_cons]; omega) _ (fun h => ?_) rfl
        rw [(chars_drop is hk).1]
        exact hg h
      by_cases hc : Text.isSpace c = true
      · exact .space hc (hrest gap.blank 0 (by simp) (by cases gap <;> simp [Gap.blank]))
      by_cases hs : isIdentStart letter c = true
      · -- a word, up to the first character that does not go on with it
        have hw : (c :: chars is).takeWhile (isIdentPart letter) =
            c :: (chars is).takeWhile (isIdentPart letter) :=
          List.takeWhile_cons_of_pos (isIdentPart_of_isIdentStart letter hs)
        have hpre := List.takeWhile_prefix (isIdentPart letter) (l := chars is)
        obtain ⟨hchars, his⟩ := chars_drop is hpre.length_le
        rw [← List.prefix_iff_eq_take.mp hpre] at his
        rw [drop_length_takeWhile] at hchars
        have hlex : lexFrom letter gap 0 (.char c :: is) =
            ⟨.word (c :: (chars is).takeWhile (isIdentPart letter)), gap⟩ :: lexFrom letter .plain 0
              (is.drop ((chars is).takeWhile (isIdentPart letter)).length) := by
          rw [lexFrom, if_neg hc, if_pos hs, ← lexFrom_eq_drop]
          simp only [hw, List.length_cons, Nat.add_sub_cancel]
        have hsplit : Item.char c :: is =
            (c :: (chars is).takeWhile (isIdentPart letter)).map Item.char ++
              is.drop ((chars is).takeWhile (isIdentPart letter)).length := by
          rw [List.map_cons, List.cons_append, ← his]
        rw [hsplit] at hlex ⊢
        exact .word hs (fun d hd => List.mem_takeWhile_imp hd)
          (fun d hd => not_of_head?_dropWhile (hchars ▸ hd)) hlex
          (hrest .plain _ hpre.length_le (by simp))
      by_cases hnum : isNumberStart (c :: chars is) = true
      · obtain ⟨t, ht, hn, hnext⟩ := number_split hnum
        have hhead : ∀ d ∈ (number (c :: chars is)).head?, d ∈ (c :: chars is).head? := by
          intro d hd
          rw [ht, List.head?_append, Option.mem_def.mp hd]
          rfl
        have hlex :
            lexFrom letter gap 0 (.char c :: is) = ⟨.number (number (c :: chars is)), gap⟩ ::
            lexFrom letter (.after (number (c :: chars is))) 0
              (is.drop ((number (c :: chars is)).length - 1)) := by
          rw [lexFrom, if_neg hc, if_neg hs, if_pos hnum, ← lexFrom_eq_drop]
        generalize number (c :: chars is) = n at *
        obtain ⟨a, n, rfl⟩ := List.exists_cons_of_ne_nil hn.ne_nil
        rw [List.cons_append, List.cons.injEq] at ht
        obtain ⟨rfl, ht⟩ := ht
        have hk : n.length ≤ (chars is).length := by simp [ht]
        obtain ⟨hchars, his⟩ := chars_drop is hk
        rw [ht, List.take_left] at his
        rw [List.length_cons, Nat.add_sub_cancel] at hlex
        have hsplit : Item.char c :: is =
            (c :: n).map Item.char ++ is.drop n.length := by
          rw [List.map_cons, List.cons_append, ← his]
        rw [hsplit] at hlex ⊢
        refine .number hn (fun hg d hd => hdigit hg d (hhead d hd)) hlex
          (hrest (.after (c :: n)) _ hk fun hg => ?_)
        rw [ht, List.drop_left]
        refine hnext ?_
        by_contra hany
        rw [Gap.after, if_neg hany] at hg
        split at hg <;> cases hg
      · refine .symbol (by simpa using hc) (by simpa using hs) ?_ ?_
          (hrest .plain 0 (by simp) (by simp))
        · simp only [isNumberStart, Bool.or_eq_true, not_or, Bool.not_eq_true] at hnum
          exact hnum.1
        · rw [lexFrom, if_neg hc, if_neg hs, if_neg hnum]

/-- The text has these tokens behind a gap, a literal or a quoted identifier being blanks in it. -/
inductive Spells : Gap → List Lexeme → Text → Prop
  | nil {gap} : Spells gap [] []
  | space {gap gap' ls c s} : Text.isSpace c = true → gap' ≠ .letters → Spells gap' ls s →
      Spells gap ls (c :: s)
  | literal {gap ls b s} : b ≠ [] → (∀ c ∈ b, c = ' ') → Spells .plain ls s →
      Spells gap (⟨.literal, gap⟩ :: ls) (b ++ s)
  | quoted {gap ls b s} : b ≠ [] → (∀ c ∈ b, c = ' ') → Spells .plain ls s →
      Spells gap (⟨.quoted, gap⟩ :: ls) (b ++ s)
  | word {gap ls c w s} : isIdentStart letter c = true →
      (∀ d ∈ w, isIdentPart letter d = true) → (∀ d ∈ s.head?, isIdentPart letter d = false) →
      Spells .plain ls s → Spells gap (⟨.word (c :: w), gap⟩ :: ls) (c :: w ++ s)
  | number {gap ls n s} : IsNumber n → (gap = .letters → ∀ c ∈ n.head?, c.isDigit = false) →
      Spells (.after n) ls s → Spells gap (⟨.number n, gap⟩ :: ls) (n ++ s)
  | symbol {gap ls c s} : Text.isSpace c = false → isIdentStart letter c = false →
      c.isDigit = false → Spells .plain ls s → Spells gap (⟨.symbol c, gap⟩ :: ls) (c :: s)

/-- What is blank begins as its characters do, or with a blank. -/
theorem head?_blank {is : List Item} (hraw : ∀ i ∈ is, i.raw ≠ []) {c : Char}
    (hc : c ∈ (blank is).head?) : c ∈ (chars is).head? ∨ c = ' ' := by
  have hmap : ∀ raw s : Text, raw ≠ [] → c ∈ (raw.map (fun _ => ' ') ++ s).head? → c = ' ' := by
    intro raw s hne hc
    obtain ⟨a, raw, rfl⟩ := List.exists_cons_of_ne_nil hne
    exact (Option.some.inj hc).symm
  match is with
  | [] => simp [blank] at hc
  | .char d :: is => exact .inl hc
  | .comment raw :: is => exact .inr (hmap raw _ (hraw _ List.mem_cons_self) hc)
  | .literal raw :: is => exact .inr (hmap raw _ (hraw _ List.mem_cons_self) hc)
  | .quoted raw :: is => exact .inr (hmap raw _ (hraw _ List.mem_cons_self) hc)

theorem Spells.blanks {gap gap' : Gap} {ls : List Lexeme} {b s : Text} (hne : b ≠ [])
    (hb : ∀ c ∈ b, c = ' ') (hgap : gap' ≠ .letters) (h : Spells letter gap' ls s) :
    Spells letter gap ls (b ++ s) := by
  induction b generalizing gap with
  | nil => exact absurd rfl hne
  | cons c b ih =>
    have hc : Text.isSpace c = true := by
      rw [hb c List.mem_cons_self]
      rfl
    by_cases hbn : b = []
    · rw [hbn]
      exact .space hc hgap h
    · exact .space hc (by simp : Gap.plain ≠ .letters)
        (ih hbn fun d hd => hb d (List.mem_cons_of_mem _ hd))

theorem next_raw {c : Char} {s : Text} {f : Text → Item} {n : Nat}
    (h : next (c :: s) = some (f, n)) :
    0 < n ∧ (f ((c :: s).take n)).raw = (c :: s).take n := by
  rw [next] at h
  split at h
  · rename_i hdash
    obtain ⟨rfl, rfl⟩ := Prod.mk.inj (Option.some.inj h)
    obtain ⟨t, ht⟩ := List.isPrefixOf_iff_prefix.mp hdash
    obtain ⟨rfl, -⟩ : c = '-' ∧ s = '-' :: t := by simpa [eq_comm] using ht
    exact ⟨by simp, rfl⟩
  split at h
  · obtain ⟨m, -, h⟩ := Option.map_eq_some_iff.mp h
    obtain ⟨rfl, rfl⟩ := Prod.mk.inj h
    exact ⟨by omega, rfl⟩
  split at h
  · obtain ⟨m, -, h⟩ := Option.map_eq_some_iff.mp h
    obtain ⟨rfl, rfl⟩ := Prod.mk.inj h
    exact ⟨by omega, rfl⟩
  split at h
  · obtain ⟨m, -, h⟩ := Option.map_eq_some_iff.mp h
    obtain ⟨rfl, rfl⟩ := Prod.mk.inj h
    exact ⟨by omega, rfl⟩
  split at h
  · obtain ⟨m, -, h⟩ := Option.map_eq_some_iff.mp h
    obtain ⟨rfl, rfl⟩ := Prod.mk.inj h
    exact ⟨by omega, rfl⟩
  · obtain ⟨rfl, rfl⟩ := Prod.mk.inj (Option.some.inj h)
    exact ⟨by omega, rfl⟩

/-- The items of a text make up the text. -/
theorem flatten_items {k : Nat} {s : Text} {is : List Item} (h : itemsFrom k s = some is) :
    (is.map Item.raw).flatten = s.drop k ∧ ∀ i ∈ is, i.raw ≠ [] := by
  induction s generalizing k is with
  | nil =>
    obtain rfl : is = [] := by cases k <;> simpa [itemsFrom] using h.symm
    simp
  | cons c s ih =>
    cases k with
    | succ k => exact ih h
    | zero =>
      rw [itemsFrom] at h
      obtain ⟨⟨f, n⟩, hnext, h⟩ := Option.bind_eq_some_iff.mp h
      obtain ⟨is, his, rfl⟩ := Option.map_eq_some_iff.mp h
      obtain ⟨hn, hraw⟩ := next_raw hnext
      obtain ⟨n, rfl⟩ : ∃ m, n = m + 1 := ⟨n - 1, by omega⟩
      obtain ⟨hflat, hne⟩ := ih his
      refine ⟨?_, ?_⟩
      · rw [List.map_cons, List.flatten_cons, hraw, hflat]
        simp
      · intro i hi
        rcases List.mem_cons.mp hi with rfl | hi
        · rw [hraw]
          simp
        · exact hne i hi

/-- **The tokens of the items are the tokens of their text.** -/
theorem spells_lexFrom {gap : Gap} {is : List Item} (hraw : ∀ i ∈ is, i.raw ≠ [])
    (h : Lexed letter gap is) : Spells letter gap (lexFrom letter gap 0 is) (blank is) := by
  have hspaces : ∀ raw : Text, ∀ c ∈ raw.map (fun _ => ' '), c = ' ' := by simp
  induction h with
  | nil => exact .nil
  | comment _ ih =>
    have hne := hraw _ List.mem_cons_self
    exact (ih fun i hi => hraw i (List.mem_cons_of_mem _ hi)).blanks letter (by simpa using hne)
      (hspaces _) (by simp)
  | literal _ ih =>
    have hne := hraw _ List.mem_cons_self
    exact .literal (by simpa using hne) (hspaces _)
      (ih fun i hi => hraw i (List.mem_cons_of_mem _ hi))
  | quoted _ ih =>
    have hne := hraw _ List.mem_cons_self
    exact .quoted (by simpa using hne) (hspaces _)
      (ih fun i hi => hraw i (List.mem_cons_of_mem _ hi))
  | @space gap c is hc _ ih =>
    rw [lexFrom, if_pos hc]
    refine .space hc ?_ (ih fun i hi => hraw i (List.mem_cons_of_mem _ hi))
    cases gap <;> simp [Gap.blank]
  | @word gap c w is hs hw hend hlex _ ih =>
    have hraw' := fun i hi => hraw i (List.mem_append_right _ hi)
    rw [hlex, blank_map_char]
    refine .word hs hw (fun d hd => ?_) (ih hraw')
    rcases head?_blank hraw' hd with hd | rfl
    · exact hend d hd
    · exact isIdentPart_blank letter
  | number hn hg hlex _ ih =>
    rw [hlex, blank_map_char]
    exact .number hn hg (ih fun i hi => hraw i (List.mem_append_right _ hi))
  | symbol h₁ h₂ h₃ hlex _ ih =>
    rw [hlex]
    exact .symbol h₁ h₂ h₃ (ih fun i hi => hraw i (List.mem_cons_of_mem _ hi))

/-! ## Reading on -/

/-- No comment, literal or quoted identifier begins with the character. -/
def isOrdinary (c : Char) : Bool := c ∉ ['-', '/', '\'', '"', '[']

theorem items_cons {c : Char} {s : Text} (hc : isOrdinary c = true) :
    items (c :: s) = (items s).map (Item.char c :: ·) := by
  simp only [isOrdinary, decide_eq_true_eq, List.mem_cons, List.not_mem_nil, or_false,
    not_or] at hc
  obtain ⟨h₁, h₂, h₃, h₄, h₅⟩ := hc
  have hstart : ∀ a b, c ≠ a → Text.startsWith (c :: s) [a, b] = false := by
    intro a b h
    simp [Text.startsWith, List.isPrefixOf_cons_cons, beq_false_of_ne h.symm]
  rw [items, itemsFrom, next, hstart _ _ h₁, hstart _ _ h₂, if_neg (by simp), if_neg (by simp),
    if_neg h₃, if_neg h₄, if_neg h₅]
  rfl

/-- The text has these tokens behind a gap. -/
def HasTokens (gap : Gap) (s : Text) (ls : List Lexeme) : Prop :=
  ∃ is, items s = some is ∧ ls = lexFrom letter gap 0 is

theorem head?_chars {s : Text} {is : List Item} (h : items s = some is) {c : Char}
    (hc : c ∈ (chars is).head?) : c ∈ s.head? := by
  match is with
  | [] => cases hc
  | .comment _ :: _ => cases hc
  | .literal _ :: _ => cases hc
  | .quoted _ :: _ => cases hc
  | .char d :: is =>
    have hs := (flatten_items h).1
    rw [List.drop_zero] at hs
    rw [← hs]
    exact hc

theorem isOrdinary_of_isIdentPart {c : Char} (h : isIdentPart letter c = true) :
    isOrdinary c = true := by
  by_contra hc
  simp only [isOrdinary, decide_eq_true_eq, not_not] at hc
  have hall : ∀ d ∈ ['-', '/', '\'', '"', '['], isIdentPart letter d = false := by
    intro d hd
    simp only [List.mem_cons, List.not_mem_nil, or_false] at hd
    rcases hd with rfl | rfl | rfl | rfl | rfl <;>
      simp [isIdentPart, isIdentStart, foldingLetters]
  rw [hall c hc] at h
  cases h

theorem isOrdinary_of_isSpace {c : Char} (h : Text.isSpace c = true) : isOrdinary c = true := by
  by_contra hc
  simp only [isOrdinary, decide_eq_true_eq, not_not] at hc
  have hall : ∀ d ∈ ['-', '/', '\'', '"', '['], Text.isSpace d = false := by decide
  rw [hall c hc] at h
  cases h

theorem items_append_ordinary {u s : Text} {is : List Item} (hu : ∀ c ∈ u, isOrdinary c = true)
    (h : items (u ++ s) = some is) :
    ∃ is', items s = some is' ∧ is = u.map Item.char ++ is' := by
  induction u generalizing is with
  | nil => exact ⟨is, h, rfl⟩
  | cons c u ih =>
    rw [List.cons_append, items_cons (hu c List.mem_cons_self)] at h
    obtain ⟨is, his, rfl⟩ := Option.map_eq_some_iff.mp h
    obtain ⟨is', his', rfl⟩ := ih (fun d hd => hu d (List.mem_cons_of_mem _ hd)) his
    exact ⟨is', his', rfl⟩

theorem HasTokens.blank {gap : Gap} {c : Char} {s : Text} {ls : List Lexeme}
    (h : HasTokens letter gap (c :: s) ls) (hc : Text.isSpace c = true) :
    HasTokens letter gap.blank s ls := by
  obtain ⟨is, his, rfl⟩ := h
  rw [items_cons (isOrdinary_of_isSpace hc)] at his
  obtain ⟨is', his', rfl⟩ := Option.map_eq_some_iff.mp his
  exact ⟨is', his', by rw [lexFrom, if_pos hc]⟩

/-- Blanks before the next token. -/
theorem HasTokens.dropWhile {gap : Gap} {s : Text} {ls : List Lexeme}
    (h : HasTokens letter gap s ls) : ∃ gap',
      HasTokens letter gap' (s.dropWhile Text.isSpace) ls ∧ (gap = .plain → gap' = .plain) := by
  induction s generalizing gap with
  | nil => exact ⟨gap, h, id⟩
  | cons c s ih =>
    by_cases hc : Text.isSpace c = true
    · obtain ⟨gap', h', hgap⟩ := ih (h.blank letter hc)
      rw [List.dropWhile_cons_of_pos hc]
      exact ⟨gap', h', fun hg => hgap (by rw [hg]; rfl)⟩
    · rw [List.dropWhile_cons_of_neg hc]
      exact ⟨gap, h, id⟩

/-- A word, when no identifier goes on behind it. -/
theorem HasTokens.word {gap : Gap} {c : Char} {w s : Text} {ls : List Lexeme}
    (h : HasTokens letter gap (c :: w ++ s) ls) (hc : isIdentStart letter c = true)
    (hw : ∀ d ∈ w, isIdentPart letter d = true) (hs : ∀ d ∈ s.head?, isIdentPart letter d = false) :
    ∃ ls', ls = ⟨.word (c :: w), gap⟩ :: ls' ∧ HasTokens letter .plain s ls' := by
  obtain ⟨is, his, rfl⟩ := h
  have hpart := isIdentPart_of_isIdentStart letter hc
  obtain ⟨is', his', rfl⟩ := items_append_ordinary (u := c :: w)
    (List.forall_mem_cons.mpr ⟨isOrdinary_of_isIdentPart letter hpart,
      fun d hd => isOrdinary_of_isIdentPart letter (hw d hd)⟩) his
  refine ⟨_, ?_, is', his', rfl⟩
  have htake : (c :: chars (w.map Item.char ++ is')).takeWhile (isIdentPart letter) = c :: w := by
    rw [chars_map_char, ← List.cons_append,
      takeWhile_append_of_head fun d hd => hs d (head?_chars his' hd)]
    exact List.takeWhile_eq_self_iff.mpr (List.forall_mem_cons.mpr ⟨hpart, hw⟩)
  rw [List.map_cons, List.cons_append, lexFrom,
    if_neg (by simp [not_isSpace_of_isIdentPart letter hpart]), if_pos hc]
  simp only [htake, List.length_cons, Nat.add_sub_cancel]
  rw [lexFrom_eq_drop, List.drop_left' (by simp)]

/-- A parenthesis. -/
theorem HasTokens.paren {gap : Gap} {c : Char} {s : Text} {ls : List Lexeme}
    (h : HasTokens letter gap (c :: s) ls) (hc : c = '(' ∨ c = ')') :
    ∃ ls', ls = ⟨.symbol c, gap⟩ :: ls' ∧ HasTokens letter .plain s ls' := by
  obtain ⟨is, his, rfl⟩ := h
  have hord : isOrdinary c = true := by rcases hc with rfl | rfl <;> rfl
  rw [items_cons hord] at his
  obtain ⟨is', his', rfl⟩ := Option.map_eq_some_iff.mp his
  refine ⟨lexFrom letter .plain 0 is', ?_, is', his', rfl⟩
  have hsp : Text.isSpace c = false := by rcases hc with rfl | rfl <;> rfl
  have hid : isIdentStart letter c = false := by
    rcases hc with rfl | rfl <;> simp [isIdentStart, foldingLetters]
  have hnum : isNumberStart (c :: chars is') = false := by
    rcases hc with rfl | rfl <;> simp [isNumberStart]
  rw [lexFrom, if_neg (by simp [hsp]), if_neg (by simp [hid]), if_neg (by simp [hnum])]

theorem number_digits {ds s : Text} (hne : ds ≠ []) (hds : ∀ c ∈ ds, c.isDigit = true)
    (hs : ∀ c ∈ s.head?, c = ')' ∨ Text.isSpace c = true) : number (ds ++ s) = ds := by
  have hno : ∀ c ∈ s.head?, c.isDigit = false ∧ c ∉ ['x', 'X', '.', 'e', 'E'] := by
    intro c hc
    rcases hs c hc with rfl | h
    · decide
    · refine ⟨(isIdentStart_of_isSpace (fun _ => false) h).2, fun hin => ?_⟩
      have hall : ∀ d ∈ ['x', 'X', '.', 'e', 'E'], Text.isSpace d = false := by decide
      rw [hall c hin] at h
      cases h
  have htake : (ds ++ s).takeWhile Char.isDigit = ds := by
    rw [takeWhile_append_of_head fun c hc => (hno c hc).1]
    exact List.takeWhile_eq_self_iff.mpr hds
  have hhex : ¬(Text.startsWith (ds ++ s) ['0', 'x'] = true ∨
      Text.startsWith (ds ++ s) ['0', 'X'] = true) := by
    have hone : ∀ x, x = 'x' ∨ x = 'X' → ¬Text.startsWith (ds ++ s) ['0', x] = true := by
      intro x hx h
      obtain ⟨t, ht⟩ := List.isPrefixOf_iff_prefix.mp h
      have hxs : x ∈ ds ∨ x ∈ s.head? := by
        match ds, hne with
        | [c], _ =>
          right
          rw [List.singleton_append, List.cons_append, List.cons.injEq] at ht
          rw [← ht.2]
          rfl
        | c :: d :: ds, _ =>
          left
          simp only [List.cons_append, List.nil_append, List.cons.injEq] at ht
          rw [ht.2.1]
          simp
      rcases hxs with h | h
      · have := hds x h
        rcases hx with rfl | rfl <;> cases this
      · have := (hno x h).2
        rcases hx with rfl | rfl <;> simp at this
    rintro (h | h)
    · exact hone _ (.inl rfl) h
    · exact hone _ (.inr rfl) h
  rw [number, if_neg hhex, decimal]
  simp only [htake, List.drop_left]
  have hfrac : fraction s = [] := by
    cases s with
    | nil => rfl
    | cons c s =>
      have hc := (hno c rfl).2
      rw [fraction, if_neg fun h => by simp [h] at hc]
  have hexp : exponent s = [] := by
    cases s with
    | nil => rfl
    | cons c s =>
      have hc := (hno c rfl).2
      simp only [List.mem_cons, List.not_mem_nil, or_false, not_or] at hc
      simp [exponent, hc]
  rw [hfrac, List.append_nil, List.drop_left, hexp, List.append_nil]

/-- Digits, when nothing of a number goes on behind them. -/
theorem HasTokens.digits {gap : Gap} {ds s : Text} {ls : List Lexeme}
    (h : HasTokens letter gap (ds ++ s) ls) (hne : ds ≠ []) (hds : ∀ c ∈ ds, c.isDigit = true)
    (hs : ∀ c ∈ s.head?, c = ')' ∨ Text.isSpace c = true) :
    ∃ gap' ls', ls = ⟨.number ds, gap⟩ :: ls' ∧ HasTokens letter gap' s ls' := by
  obtain ⟨is, his, rfl⟩ := h
  obtain ⟨is', his', rfl⟩ := items_append_ordinary (u := ds)
    (fun c hc => isOrdinary_of_isIdentPart letter (isIdentPart_of_isDigit letter (hds c hc))) his
  refine ⟨.after ds, lexFrom letter (.after ds) 0 is', ?_, is', his', rfl⟩
  have hnum := number_digits hne hds fun c hc => hs c (head?_chars his' hc)
  obtain ⟨c, ds, rfl⟩ := List.exists_cons_of_ne_nil hne
  have hc := hds c List.mem_cons_self
  have hsp : Text.isSpace c = false :=
    not_isSpace_of_isIdentPart letter (isIdentPart_of_isDigit letter hc)
  rw [List.cons_append] at hnum
  rw [List.map_cons, List.cons_append, lexFrom, if_neg (by simp [hsp]),
    if_neg (by simp [isIdentStart_of_isDigit letter hc]), chars_map_char,
    if_pos (by simp [isNumberStart, hc])]
  simp only [hnum, List.length_cons, Nat.add_sub_cancel]
  rw [lexFrom_eq_drop, List.drop_left' (by simp)]

end Tsql
