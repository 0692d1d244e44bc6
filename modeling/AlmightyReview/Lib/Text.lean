import Mathlib.Algebra.GroupWithZero.Nat
import Mathlib.Data.Char
import Mathlib.Data.List.Infix
import Mathlib.Data.List.Lex

/-!
# Strings of the Python standard library

A `str` is the list of its code points (`Text`), so that a property of a text is a property of a
list. The functions are those of `str` under their own names: `strip`, `lower` (of ASCII letters),
`in` (`Text.contains`), `str(int)` (`ofNat`), `encode` and `decode` (UTF-8), `startswith` and
`splitlines`.
`Text.lines` cuts a text after each `\n`, as a `MULTILINE` pattern sees it.
-/

/-- A Python `str`: its code points. -/
abbrev Text := List Char

namespace Text

/-- A property of every character of a text is decided by looking at the text, not at the whole
type of characters. -/
instance (priority := 2000) decidableForallMem {p : Char → Prop} [DecidablePred p] (s : Text) :
    Decidable (∀ c ∈ s, p c) := List.decidableBAll p s

instance (priority := 2000) decidableExistsMem {p : Char → Prop} [DecidablePred p] (s : Text) :
    Decidable (∃ c ∈ s, p c) := List.decidableBEx p s

instance lawfulBEq : LawfulBEq (List Char) := inferInstance

/-- `str(n)`. -/
def ofNat (n : Nat) : Text := Nat.toDigits 10 n

theorem ofNat_injective {m n : Nat} (h : ofNat m = ofNat n) : m = n := by
  have hm : Nat.ofDigitChars 10 (ofNat m) 0 = m :=
    Nat.ofDigitChars_toDigits (by decide) (by decide)
  have hn : Nat.ofDigitChars 10 (ofNat n) 0 = n :=
    Nat.ofDigitChars_toDigits (by decide) (by decide)
  rw [← hm, h, hn]

/-- `str(n)` of a number that may be negative. -/
def ofInt : Int → Text
  | .ofNat n => ofNat n
  | .negSucc n => '-' :: ofNat (n + 1)

/-- `sub in s`. -/
def contains (s sub : Text) : Bool := decide (sub <:+: s)

@[simp] theorem contains_iff {s sub : Text} : s.contains sub = true ↔ sub <:+: s := by
  simp [contains]

/-- A text without the character `c` lies on one side of it. -/
theorem infix_of_append_cons {s l r : Text} {c : Char} (hc : c ∉ s) (h : s <:+: l ++ c :: r) :
    s <:+: l ∨ s <:+: r := by
  rw [List.infix_append_iff] at h
  rcases h with h | h | ⟨s₁, s₂, rfl, h₁, h₂⟩
  · exact .inl h
  · rw [List.infix_cons_iff] at h
    rcases h with h | h
    · cases s with
      | nil => exact .inl (List.nil_infix)
      | cons a s =>
        obtain ⟨rfl, -⟩ := List.cons_prefix_cons.mp h
        exact absurd List.mem_cons_self hc
    · exact .inr h
  · cases s₂ with
    | nil =>
      rw [List.append_nil]
      exact .inl h₁.isInfix
    | cons a s₂ =>
      obtain ⟨rfl, -⟩ := List.cons_prefix_cons.mp h₂
      exact absurd (List.mem_append_right _ List.mem_cons_self) hc

/-- `str.isspace` of one character. -/
def isSpace (c : Char) : Bool :=
  let n := c.toNat
  (9 ≤ n && n ≤ 13) || (28 ≤ n && n ≤ 32) || n == 0x85 || n == 0xa0 || n == 0x1680 ||
    (0x2000 ≤ n && n ≤ 0x200a) || n == 0x2028 || n == 0x2029 || n == 0x202f || n == 0x205f ||
    n == 0x3000

/-- `s.lstrip()`. -/
def lstrip (s : Text) : Text := s.dropWhile isSpace

/-- `s.rstrip()`. -/
def rstrip (s : Text) : Text := (s.reverse.dropWhile isSpace).reverse

/-- `s.strip()`. -/
def strip (s : Text) : Text := rstrip (lstrip s)

theorem isAlpha_eq (c : Char) : c.isAlpha = (c.isUpper || c.isLower) := rfl

theorem isUpper_eq (c : Char) : c.isUpper = decide (c.val ≥ 'A'.val ∧ c.val ≤ 'Z'.val) := rfl

theorem isLower_eq (c : Char) :
    c.isLower = (decide (c.val ≥ 'a'.val) && decide (c.val ≤ 'z'.val)) := rfl

/-- Only a capital changes. -/
theorem toLower_eq {c : Char} (h : ¬(c.val ≥ 'A'.val ∧ c.val ≤ 'Z'.val)) : c.toLower = c :=
  dif_neg h

/-- `s.lower()` of ASCII letters; other characters stay. -/
def lower (s : Text) : Text := s.map Char.toLower

/-- `s.find(sub)`; `none` for -1. -/
def find (sub : Text) : Text → Option Nat
  | [] => if sub = [] then some 0 else none
  | c :: s => if sub.isPrefixOf (c :: s) then some 0 else (find sub s).map (· + 1)

/-- The UTF-8 encoding of one code point. -/
def utf8 (c : Char) : List Nat :=
  let n := c.toNat
  if n < 0x80 then [n]
  else if n < 0x800 then [0xc0 + n / 64, 0x80 + n % 64]
  else if n < 0x10000 then [0xe0 + n / 4096, 0x80 + n / 64 % 64, 0x80 + n % 64]
  else [0xf0 + n / 262144, 0x80 + n / 4096 % 64, 0x80 + n / 64 % 64, 0x80 + n % 64]

/-- `s.encode()`: the UTF-8 bytes. -/
def encode (s : Text) : List Nat := s.flatMap utf8

/-- A byte after the first one of a code point. -/
def isContinuation (b : Nat) : Bool := 0x80 ≤ b && b < 0xc0

/-- The code point of a first byte without its marker and of the bytes after it; `least` is the
first one that needs so many bytes. -/
def codePoint (least lead : Nat) (cs : List Nat) : Option Char :=
  let n := cs.foldl (fun n c => 64 * n + c % 64) lead
  if cs.all isContinuation ∧ least ≤ n ∧ n.isValidChar then some (Char.ofNat n)
  else none

/-- The first code point, and the bytes after it. -/
def decodeOne : List Nat → Option (Char × List Nat)
  | [] => none
  | a :: m =>
    if a < 0x80 then some (Char.ofNat a, m)
    else if 0xc0 ≤ a ∧ a < 0xe0 then (codePoint 0x80 (a - 0xc0) (m.take 1)).map (·, m.drop 1)
    else if 0xe0 ≤ a ∧ a < 0xf0 then (codePoint 0x800 (a - 0xe0) (m.take 2)).map (·, m.drop 2)
    else if 0xf0 ≤ a ∧ a < 0xf8 then (codePoint 0x10000 (a - 0xf0) (m.take 3)).map (·, m.drop 3)
    else none

/-- At most `n` code points. -/
def decodeUpTo : Nat → List Nat → Option Text
  | _, [] => some []
  | 0, _ :: _ => none
  | n + 1, m => (decodeOne m).bind fun r => (decodeUpTo n r.2).map (r.1 :: ·)

/-- `b.decode()`; `none` for bytes that are not UTF-8. -/
def decode (m : List Nat) : Option Text := decodeUpTo m.length m

theorem codePoint_eq {least lead : Nat} {cs : List Nat} {c : Char}
    (hcs : cs.all isContinuation = true) (hleast : least ≤ c.toNat)
    (hn : cs.foldl (fun n c => 64 * n + c % 64) lead = c.toNat) :
    codePoint least lead cs = some c := by
  unfold codePoint
  simp only [hn]
  rw [if_pos ⟨hcs, hleast, c.valid⟩, Char.ofNat_toNat]

theorem decodeOne_utf8 (c : Char) (m : List Nat) : decodeOne (utf8 c ++ m) = some (c, m) := by
  have hlt : c.toNat < 0x110000 := by
    have := c.valid
    unfold UInt32.isValidChar Nat.isValidChar at this
    have h : c.val.toNat = c.toNat := rfl
    omega
  have hcont : ∀ n, isContinuation (0x80 + n % 64) = true := by
    intro n
    simp only [isContinuation, Bool.and_eq_true, decide_eq_true_eq]
    omega
  unfold utf8
  by_cases h₁ : c.toNat < 0x80
  · simp only [if_pos h₁, List.singleton_append, decodeOne, Char.ofNat_toNat]
  by_cases h₂ : c.toNat < 0x800
  · simp only [if_neg h₁, if_pos h₂, List.cons_append, List.nil_append, decodeOne]
    rw [if_neg (by omega), if_pos (by omega), codePoint_eq (c := c) _ (by omega)]
    · rfl
    · show 64 * (0xc0 + c.toNat / 64 - 0xc0) + (0x80 + c.toNat % 64) % 64 = c.toNat
      omega
    · simp only [List.take, List.all_cons, List.all_nil, hcont, Bool.and_self]
  by_cases h₃ : c.toNat < 0x10000
  · simp only [if_neg h₁, if_neg h₂, if_pos h₃, List.cons_append, List.nil_append, decodeOne]
    rw [if_neg (by omega), if_neg (by omega), if_pos (by omega), codePoint_eq (c := c) _ (by omega)]
    · rfl
    · show 64 * (64 * (0xe0 + c.toNat / 4096 - 0xe0) + (0x80 + c.toNat / 64 % 64) % 64) +
        (0x80 + c.toNat % 64) % 64 = c.toNat
      omega
    · simp only [List.take, List.all_cons, List.all_nil, hcont, Bool.and_self]
  · simp only [if_neg h₁, if_neg h₂, if_neg h₃, List.cons_append, List.nil_append, decodeOne]
    rw [if_neg (by omega), if_neg (by omega), if_neg (by omega), if_pos (by omega),
      codePoint_eq (c := c) _ (by omega)]
    · rfl
    · show 64 * (64 * (64 * (0xf0 + c.toNat / 262144 - 0xf0) + (0x80 + c.toNat / 4096 % 64) % 64) +
        (0x80 + c.toNat / 64 % 64) % 64) + (0x80 + c.toNat % 64) % 64 = c.toNat
      omega
    · simp only [List.take, List.all_cons, List.all_nil, hcont, Bool.and_self]

theorem utf8_ne_nil (c : Char) : utf8 c ≠ [] := by
  unfold utf8
  dsimp only
  split
  · exact List.cons_ne_nil _ _
  split
  · exact List.cons_ne_nil _ _
  split
  · exact List.cons_ne_nil _ _
  · exact List.cons_ne_nil _ _

theorem length_utf8 (c : Char) : 1 ≤ (utf8 c).length ∧ (utf8 c).length ≤ 4 := by
  unfold utf8
  dsimp only
  split
  · exact ⟨by simp, by simp⟩
  split
  · exact ⟨by simp, by simp⟩
  split
  · exact ⟨by simp, by simp⟩
  · exact ⟨by simp, by simp⟩

theorem length_encode (s : Text) : s.length ≤ s.encode.length ∧ s.encode.length ≤ 4 * s.length := by
  induction s with
  | nil => exact ⟨le_rfl, le_rfl⟩
  | cons c s ih =>
    have hc := length_utf8 c
    simp only [encode, List.flatMap_cons, List.length_append, List.length_cons] at ih ⊢
    omega

theorem decodeUpTo_encode {n : Nat} {s : Text} (h : (encode s).length ≤ n) :
    decodeUpTo n (encode s) = some s := by
  induction s generalizing n with
  | nil => cases n <;> rfl
  | cons c s ih =>
    obtain ⟨a, m, ha⟩ := List.exists_cons_of_ne_nil (utf8_ne_nil c)
    have hcons : encode (c :: s) = a :: (m ++ encode s) := by
      rw [encode, List.flatMap_cons, ha]
      rfl
    have hone : decodeOne (a :: (m ++ encode s)) = some (c, encode s) := by
      rw [← List.cons_append, ← ha]
      exact decodeOne_utf8 c _
    rw [hcons, List.length_cons, List.length_append] at h
    rw [hcons]
    cases n with
    | zero => omega
    | succ n =>
      show (decodeOne (a :: (m ++ encode s))).bind _ = _
      rw [hone, Option.bind_some, ih (by omega), Option.map_some]

/-- **Decoding inverts encoding.** -/
theorem decode_encode (s : Text) : decode (encode s) = some s := decodeUpTo_encode le_rfl

/-! ## Lines -/

/-- `s.startswith(p)`. -/
def startsWith (s p : Text) : Bool := p.isPrefixOf s

/-- The characters that end a line for `str.splitlines`. -/
def isLineBreak (c : Char) : Bool :=
  let n := c.toNat
  (10 ≤ n && n ≤ 13) || (28 ≤ n && n ≤ 30) || n == 0x85 || n == 0x2028 || n == 0x2029

/-- `s.splitlines(keepends=True)`; `\r\n` is one boundary. -/
def splitlinesKeep : Text → List Text
  | [] => []
  | '\r' :: '\n' :: s => ['\r', '\n'] :: splitlinesKeep s
  | c :: s =>
    if isLineBreak c then [c] :: splitlinesKeep s
    else
      match splitlinesKeep s with
      | [] => [[c]]
      | l :: ls => (c :: l) :: ls

/-- A line without its boundary. -/
def chomp (line : Text) : Text := line.takeWhile fun c => !isLineBreak c

/-- `s.splitlines()`. -/
def splitlines (s : Text) : List Text := (splitlinesKeep s).map chomp

theorem ne_nil_of_mem_splitlinesKeep {s l : Text} (h : l ∈ splitlinesKeep s) : l ≠ [] := by
  fun_induction splitlinesKeep s with
  | case1 => cases h
  | case2 s ih =>
    rcases List.mem_cons.mp h with rfl | h
    · simp
    · exact ih h
  | case3 c s _ hc ih =>
    rcases List.mem_cons.mp h with rfl | h
    · simp
    · exact ih h
  | case4 c s _ hc hs ih =>
    rw [List.mem_singleton.mp h]
    simp
  | case5 c s _ hc l' ls hs ih =>
    rcases List.mem_cons.mp h with rfl | h
    · simp
    · exact ih (hs ▸ List.mem_cons_of_mem _ h)

/-- What a line starts with does not depend on its boundary. -/
theorem startsWith_chomp {line p : Text} (hp : ∀ c ∈ p, isLineBreak c = false) :
    startsWith (chomp line) p = startsWith line p := by
  unfold startsWith chomp
  induction p generalizing line with
  | nil => simp
  | cons a p ih =>
    have ha := hp a List.mem_cons_self
    cases line with
    | nil => rfl
    | cons c line =>
      by_cases hc : isLineBreak c = true
      · have hne : (a == c) = false := by
          rw [beq_eq_false_iff_ne]
          rintro rfl
          rw [ha] at hc
          cases hc
        rw [List.takeWhile_cons_of_neg (by simp [hc]), List.isPrefixOf_cons_cons, hne]
        rfl
      · simp only [Bool.not_eq_true] at hc
        rw [List.takeWhile_cons_of_pos (by simp [hc]), List.isPrefixOf_cons_cons,
          List.isPrefixOf_cons_cons, ih fun c hc => hp c (List.mem_cons_of_mem _ hc)]

/-- A character put before the first line. -/
def consLine (c : Char) : List Text → List Text
  | [] => [[c]]
  | l :: ls => (c :: l) :: ls

theorem splitlinesKeep_cons {c : Char} {s : Text} (h : ¬(c = '\r' ∧ s.head? = some '\n')) :
    splitlinesKeep (c :: s) =
      if isLineBreak c then [c] :: splitlinesKeep s else consLine c (splitlinesKeep s) := by
  rw [splitlinesKeep.eq_3 c s fun t hc hs => h ⟨hc, by rw [hs]; rfl⟩]
  cases splitlinesKeep s <;> rfl

theorem consLine_append (c : Char) {ls : List Text} (h : ls ≠ []) (ms : List Text) :
    consLine c (ls ++ ms) = consLine c ls ++ ms := by
  obtain ⟨l, ls, rfl⟩ := List.exists_cons_of_ne_nil h
  rfl

theorem splitlinesKeep_ne_nil {s : Text} (h : s ≠ []) : splitlinesKeep s ≠ [] := by
  fun_cases splitlinesKeep s with
  | case1 => exact absurd rfl h
  | case2 s => exact List.cons_ne_nil _ _
  | case3 c s _ hc => exact List.cons_ne_nil _ _
  | case4 c s _ hc hs => exact List.cons_ne_nil _ _
  | case5 c s _ hc l ls hs => exact List.cons_ne_nil _ _

/-- **Lines of a text in parts.** A `\n` ends a line, whatever stands before it. -/
theorem splitlinesKeep_append (s t : Text) :
    splitlinesKeep (s ++ '\n' :: t) = splitlinesKeep (s ++ ['\n']) ++ splitlinesKeep t := by
  have hstep : ∀ {c : Char} {s : Text}, ¬(c = '\r' ∧ (s ++ ['\n']).head? = some '\n') →
      splitlinesKeep (s ++ '\n' :: t) = splitlinesKeep (s ++ ['\n']) ++ splitlinesKeep t →
      splitlinesKeep (c :: s ++ '\n' :: t) =
        splitlinesKeep (c :: s ++ ['\n']) ++ splitlinesKeep t := by
    intro c s hne ih
    have hhead : ¬(c = '\r' ∧ (s ++ '\n' :: t).head? = some '\n') := by
      cases s with
      | nil => exact hne
      | cons d s => exact hne
    rw [List.cons_append, splitlinesKeep_cons hhead, List.cons_append, splitlinesKeep_cons hne, ih]
    split
    · rfl
    · exact consLine_append c (splitlinesKeep_ne_nil (by simp)) _
  fun_induction splitlinesKeep s with
  | case1 => simp [splitlinesKeep, isLineBreak]
  | case2 s ih => exact congrArg (['\r', '\n'] :: ·) ih
  | case3 c s hne hc ih =>
    by_cases hr : c = '\r' ∧ s = []
    · obtain ⟨rfl, rfl⟩ := hr
      rfl
    · refine hstep (fun h => ?_) ih
      cases s with
      | nil => exact hr ⟨h.1, rfl⟩
      | cons d s => exact hne s h.1 (by rw [Option.some.inj h.2])
  | case4 c s hne hc hs ih =>
    refine hstep (fun h => hc ?_) ih
    rw [h.1]
    rfl
  | case5 c s hne hc l ls hs ih =>
    refine hstep (fun h => hc ?_) ih
    rw [h.1]
    rfl

/-- A text without boundaries is one line. -/
theorem splitlinesKeep_line {s : Text} (h : ∀ c ∈ s, isLineBreak c = false) :
    splitlinesKeep (s ++ ['\n']) = [s ++ ['\n']] := by
  induction s with
  | nil => rfl
  | cons c s ih =>
    have hc := h c List.mem_cons_self
    have hne : ¬(c = '\r' ∧ (s ++ ['\n']).head? = some '\n') := by
      rintro ⟨rfl, -⟩
      cases hc
    rw [List.cons_append, splitlinesKeep_cons hne, if_neg (by simp [hc]),
      ih fun c hc => h c (List.mem_cons_of_mem _ hc)]
    rfl

/-- The lines of a text end each at its own boundary. -/
theorem flatten_splitlinesKeep (s : Text) : (splitlinesKeep s).flatten = s := by
  fun_induction splitlinesKeep s with
  | case1 => rfl
  | case2 s ih => exact congrArg ('\r' :: '\n' :: ·) ih
  | case3 c s _ hc ih => exact congrArg (c :: ·) ih
  | case4 c s _ hc hs ih =>
    rw [hs] at ih
    simp [← ih]
  | case5 c s _ hc l ls hs ih =>
    rw [hs] at ih
    simp [← ih]

/-- What comes after the first line. -/
def afterFirst (s : Text) : List Text := (splitlines s).tail

theorem chomp_head_splitlinesKeep {s l : Text} {ls : List Text}
    (h : splitlinesKeep s = l :: ls) : chomp l = chomp s := by
  fun_induction splitlinesKeep s generalizing l ls with
  | case1 => cases h
  | case2 s ih =>
    rw [← (List.cons.inj h).1]
    rfl
  | case3 c s _ hc ih =>
    rw [← (List.cons.inj h).1, chomp, chomp, List.takeWhile_cons_of_neg (by simp [hc]),
      List.takeWhile_cons_of_neg (by simp [hc])]
  | case4 c s _ hc hs ih =>
    obtain rfl : s = [] := by
      by_contra hne
      exact splitlinesKeep_ne_nil hne hs
    rw [← (List.cons.inj h).1]
  | case5 c s _ hc l' ls' hs ih =>
    rw [← (List.cons.inj h).1, chomp, chomp, List.takeWhile_cons_of_pos (by simpa using hc),
      List.takeWhile_cons_of_pos (by simpa using hc)]
    exact congrArg (c :: ·) (ih hs)

/-- The first line of a text is the text up to its first boundary. -/
theorem splitlines_eq_cons {s : Text} (h : s ≠ []) : splitlines s = chomp s :: afterFirst s := by
  obtain ⟨l, ls, hl⟩ := List.exists_cons_of_ne_nil (splitlinesKeep_ne_nil h)
  rw [afterFirst, splitlines, hl, List.map_cons, chomp_head_splitlinesKeep hl]
  rfl

theorem splitlines_append (s t : Text) :
    splitlines (s ++ '\n' :: t) = splitlines (s ++ ['\n']) ++ splitlines t := by
  rw [splitlines, splitlinesKeep_append, List.map_append]
  rfl

/-! ## Lines of a pattern

`^` and `$` of a `MULTILINE` pattern see `\n` only. -/

/-- The text cut after each `\n`. -/
def lines : Text → List Text
  | [] => []
  | c :: s =>
    if c = '\n' then [c] :: lines s
    else
      match lines s with
      | [] => [[c]]
      | l :: ls => (c :: l) :: ls

theorem flatten_lines (s : Text) : (lines s).flatten = s := by
  fun_induction lines s with
  | case1 => rfl
  | case2 s ih => simp [ih]
  | case3 c s hc hs ih =>
    rw [hs] at ih
    simp [← ih]
  | case4 c s hc l ls hs ih =>
    rw [hs] at ih
    simp [← ih]

/-- Each line ends with its only `\n`, except the last, which may have none. -/
def AreLines : List Text → Prop
  | [] => True
  | l :: ls => (∃ s, '\n' ∉ s ∧ (l = s ++ ['\n'] ∨ ls = [] ∧ s ≠ [] ∧ l = s)) ∧ AreLines ls

theorem areLines_lines (s : Text) : AreLines (lines s) := by
  fun_induction lines s with
  | case1 => trivial
  | case2 s ih => exact ⟨⟨[], by simp, .inl rfl⟩, ih⟩
  | case3 c s hc hs ih =>
    exact ⟨⟨[c], by simpa using Ne.symm hc, .inr ⟨rfl, by simp, rfl⟩⟩, trivial⟩
  | case4 c s hc l ls hs ih =>
    rw [hs] at ih
    obtain ⟨⟨t, ht, hl⟩, hls⟩ := ih
    have hct : '\n' ∉ c :: t := by
      rw [List.mem_cons, not_or]
      exact ⟨Ne.symm hc, ht⟩
    refine ⟨⟨c :: t, hct, ?_⟩, hls⟩
    rcases hl with rfl | ⟨rfl, -, rfl⟩
    · exact .inl rfl
    · exact .inr ⟨rfl, by simp, rfl⟩

/-- Some of the lines of a text are the lines of a text. -/
theorem AreLines.sublist {ls ms : List Text} (hs : ls.Sublist ms) (h : AreLines ms) :
    AreLines ls := by
  induction hs with
  | slnil => trivial
  | cons m _ ih => exact ih h.2
  | @cons_cons ls ms m hsub ih =>
    obtain ⟨⟨s, hn, hl⟩, hms⟩ := h
    refine ⟨⟨s, hn, ?_⟩, ih hms⟩
    rcases hl with hl | ⟨rfl, hl⟩
    · exact .inl hl
    · exact .inr ⟨List.eq_nil_of_sublist_nil hsub, hl⟩

/-- A line without its `\n`, and a line put before others. -/
theorem lines_append {s t : Text} (hs : '\n' ∉ s) : lines (s ++ '\n' :: t) =
    (s ++ ['\n']) :: lines t := by
  induction s with
  | nil => simp [lines]
  | cons c s ih =>
    rw [List.mem_cons, not_or] at hs
    rw [List.cons_append, lines, if_neg (Ne.symm hs.1), ih hs.2]
    rfl

theorem lines_of_not_mem {s : Text} (hs : '\n' ∉ s) (hne : s ≠ []) : lines s = [s] := by
  induction s with
  | nil => exact absurd rfl hne
  | cons c s ih =>
    rw [List.mem_cons, not_or] at hs
    rw [lines, if_neg (Ne.symm hs.1)]
    cases s with
    | nil => rfl
    | cons d s => rw [ih hs.2 (by simp)]

/-- Lines that are put together are cut into the same lines. -/
theorem lines_flatten {ls : List Text} (h : AreLines ls) : lines ls.flatten = ls := by
  induction ls with
  | nil => rfl
  | cons l ls ih =>
    obtain ⟨⟨s, hn, hl⟩, hls⟩ := h
    rcases hl with rfl | ⟨rfl, hne, rfl⟩
    · rw [List.flatten_cons, List.append_assoc, List.singleton_append, lines_append hn, ih hls]
    · simpa using lines_of_not_mem hn hne

/-- Lines that have their ends, before other lines. -/
theorem AreLines.append {ls ms : List Text} (hls : AreLines ls) (hend : ∀ l ∈ ls, '\n' ∈ l)
    (hms : AreLines ms) : AreLines (ls ++ ms) := by
  induction ls with
  | nil => exact hms
  | cons l ls ih =>
    obtain ⟨⟨s, hn, hl⟩, hrest⟩ := hls
    refine ⟨⟨s, hn, .inl ?_⟩, ih hrest fun l hl => hend l (List.mem_cons_of_mem _ hl)⟩
    rcases hl with hl | ⟨-, -, rfl⟩
    · exact hl
    · exact absurd (hend l List.mem_cons_self) hn

/-! ## Parts -/

theorem mem_join {sep : Text} {parts : List Text} {c : Char}
    (h : c ∈ (parts.intersperse sep).flatten) : c ∈ sep ∨ ∃ p ∈ parts, c ∈ p := by
  obtain ⟨p, hp, hc⟩ := List.mem_flatten.mp h
  induction parts with
  | nil => cases hp
  | cons part parts ih =>
    cases parts with
    | nil =>
      obtain rfl : p = part := by simpa using hp
      exact .inr ⟨p, List.mem_cons_self, hc⟩
    | cons next parts =>
      rw [List.intersperse_cons_cons, List.mem_cons, List.mem_cons] at hp
      rcases hp with rfl | rfl | hp
      · exact .inr ⟨p, List.mem_cons_self, hc⟩
      · exact .inl hc
      · rcases ih (List.mem_flatten.mpr ⟨p, hp, hc⟩) hp with hs | ⟨q, hq, hcq⟩
        · exact .inl hs
        · exact .inr ⟨q, List.mem_cons_of_mem _ hq, hcq⟩

/-- A part between separators is of the text, without a separator. -/
theorem mem_splitOn {s p : Text} {sep : Char} (h : p ∈ s.splitOn sep) : sep ∉ p ∧ p ⊆ s := by
  induction s generalizing p with
  | nil =>
    obtain rfl : p = [] := by simpa [List.splitOn_nil] using h
    exact ⟨List.not_mem_nil, List.nil_subset _⟩
  | cons c s ih =>
    rw [List.splitOn_cons_eq_if_modifyHead] at h
    split at h
    · rcases List.mem_cons.mp h with rfl | h
      · exact ⟨List.not_mem_nil, List.nil_subset _⟩
      · exact ⟨(ih h).1, List.subset_cons_of_subset _ (ih h).2⟩
    · rename_i hc
      simp only [beq_iff_eq] at hc
      obtain ⟨q, qs, hq⟩ := List.exists_cons_of_ne_nil (List.splitOn_ne_nil sep s)
      rw [hq, List.modifyHead_cons] at h
      rcases List.mem_cons.mp h with rfl | h
      · -- the first part goes on
        obtain ⟨hsep, hsub⟩ := ih (hq ▸ List.mem_cons_self)
        refine ⟨fun hm => ?_, List.cons_subset_cons _ hsub⟩
        rcases List.mem_cons.mp hm with rfl | hm
        · exact hc rfl
        · exact hsep hm
      · obtain ⟨hsep, hsub⟩ := ih (hq ▸ List.mem_cons_of_mem _ h)
        exact ⟨hsep, List.subset_cons_of_subset _ hsub⟩

end Text
