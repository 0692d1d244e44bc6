import AlmightyReview.Lib.Text

/-!
# Scanning a text

The readers of the Python standard library that the server takes a text apart with.

* `digit?`, `number`, `int`: `\d` and `\d+` of a pattern, and the `int` of what they match. A
  decimal digit is one of any script. (`int` refuses more than 4300 digits; the numbers here are
  line numbers.)
* `decodeUtf8`: `bytes.decode("utf-8", "replace")`.
* `shlexSplit`: `shlex.split`, in POSIX mode and without comments.
-/

namespace Text

/-! ## Numbers -/

/-- The zeros of the scripts that have decimal digits; the other nine follow each of them. -/
def digitZeros : List Nat :=
  [0x30, 0x660, 0x6f0, 0x7c0, 0x966, 0x9e6, 0xa66, 0xae6, 0xb66, 0xbe6, 0xc66, 0xce6, 0xd66, 0xde6,
   0xe50, 0xed0, 0xf20, 0x1040, 0x1090, 0x17e0, 0x1810, 0x1946, 0x19d0, 0x1a80, 0x1a90, 0x1b50,
   0x1bb0, 0x1c40, 0x1c50, 0xa620, 0xa8d0, 0xa900, 0xa9d0, 0xa9f0, 0xaa50, 0xabf0, 0xff10, 0x104a0,
   0x10d30, 0x11066, 0x110f0, 0x11136, 0x111d0, 0x112f0, 0x11450, 0x114d0, 0x11650, 0x116c0,
   0x11730, 0x118e0, 0x11950, 0x11c50, 0x11d50, 0x11da0, 0x16a60, 0x16ac0, 0x16b50, 0x1d7ce,
   0x1d7d8, 0x1d7e2, 0x1d7ec, 0x1d7f6, 0x1e140, 0x1e2f0, 0x1e950, 0x1fbf0]

/-- The value of a decimal digit. -/
def digit? (c : Char) : Option Nat :=
  (digitZeros.find? fun z => z ≤ c.toNat && c.toNat < z + 10).map fun z => c.toNat - z

/-- The digits at the beginning of the text, and the rest. -/
def digits : Text → List Nat × Text
  | [] => ([], [])
  | c :: s =>
    match digit? c with
    | none => ([], c :: s)
    | some d => (d :: (digits s).1, (digits s).2)

/-- The number that is written with the digits. -/
def int (ds : List Nat) : Nat := ds.foldl (fun n d => 10 * n + d) 0

/-- `\d+` at the beginning of the text: its number, and the rest. -/
def number (s : Text) : Option (Nat × Text) :=
  match digits s with
  | ([], _) => none
  | (ds, rest) => some (int ds, rest)

/-- The rest of a text that begins with `p`. -/
def dropStart? (p s : Text) : Option Text :=
  if s.startsWith p then some (s.drop p.length) else none

theorem dropStart?_eq_some {p s t : Text} : dropStart? p s = some t ↔ s = p ++ t := by
  unfold dropStart? startsWith
  split
  · next h =>
    obtain ⟨u, rfl⟩ := List.isPrefixOf_iff_prefix.mp h
    simp
  · next h =>
    refine ⟨fun h => (by cases h), fun he => ?_⟩
    exact absurd (List.isPrefixOf_iff_prefix.mpr ⟨t, he.symm⟩) h

theorem dropStart?_append (p t : Text) : dropStart? p (p ++ t) = some t :=
  dropStart?_eq_some.mpr rfl

/-! ### Lines without their boundary -/

theorem digit?_lineBreak {c : Char} (h : isLineBreak c = true) : digit? c = none := by
  have hn : c.toNat ∈ [10, 11, 12, 13, 28, 29, 30, 0x85, 0x2028, 0x2029] := by
    simp only [isLineBreak, Bool.or_eq_true, Bool.and_eq_true, decide_eq_true_eq,
      beq_iff_eq] at h
    simp only [List.mem_cons, List.not_mem_nil, or_false]
    omega
  have key : ∀ n ∈ [10, 11, 12, 13, 28, 29, 30, 0x85, 0x2028, 0x2029],
      digitZeros.find? (fun z => z ≤ n && n < z + 10) = none := by decide
  rw [digit?, key _ hn]
  rfl

theorem chomp_cons_of_not {c : Char} {s : Text} (h : isLineBreak c = false) :
    chomp (c :: s) = c :: chomp s :=
  List.takeWhile_cons_of_pos (by simp [h])

theorem chomp_cons_of_lineBreak {c : Char} {s : Text} (h : isLineBreak c = true) :
    chomp (c :: s) = [] :=
  List.takeWhile_cons_of_neg (by simp [h])

theorem digits_chomp (s : Text) : digits (chomp s) = ((digits s).1, chomp (digits s).2) := by
  induction s with
  | nil => rfl
  | cons c s ih =>
    by_cases hc : isLineBreak c = true
    · rw [chomp_cons_of_lineBreak hc, digits, digits, digit?_lineBreak hc]
      exact congrArg (Prod.mk []) (chomp_cons_of_lineBreak hc).symm
    · rw [Bool.not_eq_true] at hc
      rw [chomp_cons_of_not hc, digits, digits]
      cases digit? c with
      | none => exact congrArg (Prod.mk []) (chomp_cons_of_not hc).symm
      | some d => simp only [ih]

theorem number_chomp (s : Text) :
    number (chomp s) = (number s).map fun r => (r.1, chomp r.2) := by
  rw [number, number, digits_chomp]
  rcases digits s with ⟨_ | ⟨d, ds⟩, rest⟩ <;> rfl

theorem dropStart?_chomp {p : Text} (hp : ∀ c ∈ p, isLineBreak c = false) (s : Text) :
    dropStart? p (chomp s) = (dropStart? p s).map chomp := by
  unfold dropStart?
  rw [startsWith_chomp hp]
  split
  · rename_i h
    rw [Option.map_some]
    refine congrArg some ?_
    obtain ⟨t, rfl⟩ := List.isPrefixOf_iff_prefix.mp h
    clear h
    induction p with
    | nil => rfl
    | cons a p ih =>
      rw [List.cons_append, chomp_cons_of_not (hp a List.mem_cons_self)]
      exact ih fun c hc => hp c (List.mem_cons_of_mem _ hc)
  · rfl

/-! ### Numbers that are written -/

theorem digit?_of_isDigit {c : Char} (h : c.isDigit = true) : digit? c = some (c.toNat - 48) := by
  simp only [Char.isDigit, Bool.and_eq_true, decide_eq_true_eq, ge_iff_le,
    UInt32.le_iff_toNat_le] at h
  have hc : c.val.toNat = c.toNat := rfl
  have h48 : '0'.val.toNat = 48 := rfl
  have h57 : '9'.val.toNat = 57 := rfl
  have hfind : digitZeros.find? (fun z => z ≤ c.toNat && c.toNat < z + 10) = some 0x30 := by
    rw [digitZeros, List.find?_cons_of_pos]
    simp only [Bool.and_eq_true, decide_eq_true_eq]
    omega
  rw [digit?, hfind]
  rfl

theorem digits_append {s t : Text} (hs : ∀ c ∈ s, c.isDigit = true)
    (ht : ∀ c ∈ t.head?, digit? c = none) :
    digits (s ++ t) = (s.map fun c => c.toNat - 48, t) := by
  induction s with
  | nil =>
    cases t with
    | nil => rfl
    | cons c t =>
      rw [List.nil_append, digits, ht c rfl]
      rfl
  | cons c s ih =>
    rw [List.cons_append, digits, digit?_of_isDigit (hs c List.mem_cons_self)]
    simp only [ih fun c hc => hs c (List.mem_cons_of_mem _ hc)]
    rfl

theorem int_map (s : Text) (n : Nat) :
    (s.map fun c => c.toNat - 48).foldl (fun n d => 10 * n + d) n = Nat.ofDigitChars 10 s n := by
  induction s generalizing n with
  | nil => rw [Nat.ofDigitChars_nil]; rfl
  | cons c s ih => rw [List.map_cons, List.foldl_cons, ih, Nat.ofDigitChars_cons]; rfl

/-- A number that is written in decimal is read back. -/
theorem number_ofNat (n : Nat) {t : Text} (ht : ∀ c ∈ t.head?, digit? c = none) :
    number (ofNat n ++ t) = some (n, t) := by
  have hd : ∀ c ∈ ofNat n, c.isDigit = true := fun _ hc =>
    Nat.isDigit_of_mem_toDigits (by decide) (by decide) hc
  obtain ⟨c, s, hs⟩ := List.exists_cons_of_ne_nil (Nat.toDigits_ne_nil (b := 10) (n := n))
  have hint : int ((ofNat n).map fun c => c.toNat - 48) = n :=
    (int_map _ 0).trans Nat.ofDigitChars_ten_toDigits
  rw [number, digits_append hd ht]
  rw [show ofNat n = c :: s from hs] at hint ⊢
  rw [List.map_cons] at hint ⊢
  simp only [hint]

/-! ## UTF-8 -/

/-- A sequence that has begun: the bytes it needs, the bounds of the next one, and its value. -/
structure Sequence where
  need : Nat
  low : Nat
  high : Nat
  value : Nat

/-- What is put in the place of an ill-formed sequence. -/
def replacement : Char := Char.ofNat 0xfffd

/-- The first byte of a sequence: the character, or the sequence that it begins. -/
def startSequence (b : Nat) : Text × Option Sequence :=
  if b < 0x80 then ([Char.ofNat b], none)
  else if 0xc2 ≤ b ∧ b ≤ 0xdf then ([], some ⟨1, 0x80, 0xbf, b - 0xc0⟩)
  else if b = 0xe0 then ([], some ⟨2, 0xa0, 0xbf, 0⟩)
  else if b = 0xed then ([], some ⟨2, 0x80, 0x9f, 0xd⟩)
  else if 0xe1 ≤ b ∧ b ≤ 0xef then ([], some ⟨2, 0x80, 0xbf, b - 0xe0⟩)
  else if b = 0xf0 then ([], some ⟨3, 0x90, 0xbf, 0⟩)
  else if 0xf1 ≤ b ∧ b ≤ 0xf3 then ([], some ⟨3, 0x80, 0xbf, b - 0xf0⟩)
  else if b = 0xf4 then ([], some ⟨3, 0x80, 0x8f, 4⟩)
  else ([replacement], none)

/-- The next byte: what is decoded by it, and the sequence that it leaves open. -/
def nextByte (open? : Option Sequence) (b : Nat) : Text × Option Sequence :=
  match open? with
  | none => startSequence b
  | some q =>
    if q.low ≤ b ∧ b ≤ q.high then
      let value := 64 * q.value + (b - 0x80)
      if q.need ≤ 1 then ([Char.ofNat value], none)
      else ([], some ⟨q.need - 1, 0x80, 0xbf, value⟩)
    else (replacement :: (startSequence b).1, (startSequence b).2)

def decodeFrom : Option Sequence → List Nat → Text
  | none, [] => []
  | some _, [] => [replacement]
  | open?, b :: bs => (nextByte open? b).1 ++ decodeFrom (nextByte open? b).2 bs

/-- `bytes.decode("utf-8", "replace")`. -/
def decodeUtf8 (bytes : List Nat) : Text := decodeFrom none bytes

/-! ### What is decoded -/

theorem toNat_ofNat_lt {n : Nat} (h : n < 0x80) : (Char.ofNat n).toNat = n := by
  have hv : n.isValidChar := .inl (by omega)
  unfold Char.ofNat
  rw [dif_pos hv]
  rfl

theorem toNat_ofNat_wide {n : Nat} (h : 0x80 ≤ n) :
    (Char.ofNat n).toNat = 0 ∨ 0x80 ≤ (Char.ofNat n).toNat := by
  by_cases hv : n.isValidChar
  · refine .inr ?_
    unfold Char.ofNat
    rw [dif_pos hv]
    exact h
  · refine .inl ?_
    unfold Char.ofNat
    rw [dif_neg hv]
    rfl

/-- What the sequence stands for when it is complete is not ASCII. -/
structure Sequence.Wide (q : Sequence) : Prop where
  low : 0x80 ≤ q.low
  value : 2 ≤ q.value ∨ (2 ≤ q.need ∧ (1 ≤ q.value ∨ 0x82 ≤ q.low))

section Count

variable {p : Nat → Bool} (hp : ∀ n, p n = true → 0 < n ∧ n < 0x80)
include hp

theorem eq_false_of_wide {n : Nat} (h : n = 0 ∨ 0x80 ≤ n) : p n = false := by
  by_contra hn
  have := hp n (by simpa using hn)
  omega

theorem eq_false_replacement : p replacement.toNat = false :=
  eq_false_of_wide hp (.inr (by decide))

theorem countP_startSequence (b : Nat) :
    (startSequence b).1.countP (fun c => p c.toNat) = [b].countP p ∧
      ∀ q ∈ (startSequence b).2, q.Wide := by
  unfold startSequence
  split_ifs with h₁ h₂ h₃ h₄ h₅ h₆ h₇ h₈
  · simp [toNat_ofNat_lt h₁]
  all_goals
    refine ⟨by simp [eq_false_of_wide hp (n := b) (.inr (by omega)), eq_false_replacement hp],
      fun q hq => ?_⟩
    cases hq
  · exact ⟨le_rfl, .inl (by show 2 ≤ b - 0xc0; omega)⟩
  · exact ⟨by decide, .inr (by decide)⟩
  · exact ⟨by decide, .inl (by decide)⟩
  · exact ⟨le_rfl, .inr ⟨le_rfl, .inl (by show 1 ≤ b - 0xe0; omega)⟩⟩
  · exact ⟨by decide, .inr (by decide)⟩
  · exact ⟨le_rfl, .inr ⟨by show 2 ≤ 3; decide, .inl (by show 1 ≤ b - 0xf0; omega)⟩⟩
  · exact ⟨le_rfl, .inl (by decide)⟩

theorem countP_nextByte {open? : Option Sequence} (h : ∀ q ∈ open?, q.Wide) (b : Nat) :
    (nextByte open? b).1.countP (fun c => p c.toNat) = [b].countP p ∧
      ∀ q ∈ (nextByte open? b).2, q.Wide := by
  cases open? with
  | none => exact countP_startSequence hp b
  | some q =>
    obtain ⟨hlow, hvalue⟩ := h q rfl
    unfold nextByte
    dsimp only
    split
    · rename_i hb
      have hpb : p b = false := eq_false_of_wide hp (.inr (by omega))
      split
      · rename_i hneed
        have hpc : p (Char.ofNat (64 * q.value + (b - 0x80))).toNat = false :=
          eq_false_of_wide hp (toNat_ofNat_wide (by omega))
        exact ⟨by simp [hpb, hpc], by simp⟩
      · refine ⟨by simp [hpb], fun r hr => ?_⟩
        cases hr
        exact ⟨le_rfl, .inl (by show 2 ≤ 64 * q.value + (b - 0x80); omega)⟩
    · obtain ⟨hcount, hopen⟩ := countP_startSequence hp b
      refine ⟨?_, hopen⟩
      rw [List.countP_cons, hcount, eq_false_replacement hp]
      rfl

theorem countP_decodeFrom {open? : Option Sequence} (h : ∀ q ∈ open?, q.Wide) (bytes : List Nat) :
    (decodeFrom open? bytes).countP (fun c => p c.toNat) = bytes.countP p := by
  induction bytes generalizing open? with
  | nil =>
    cases open? with
    | none => rfl
    | some q => simp [decodeFrom, eq_false_replacement hp]
  | cons b bytes ih =>
    obtain ⟨hcount, hopen⟩ := countP_nextByte hp h b
    have hstep : decodeFrom open? (b :: bytes) =
        (nextByte open? b).1 ++ decodeFrom (nextByte open? b).2 bytes := by
      cases open? <;> rfl
    rw [hstep, List.countP_append, hcount, ih hopen, ← List.countP_append]
    rfl

/-- **ASCII characters** are decoded one by one, whatever stands between them. -/
theorem countP_decodeUtf8 (bytes : List Nat) :
    (decodeUtf8 bytes).countP (fun c => p c.toNat) = bytes.countP p :=
  countP_decodeFrom hp (by simp) bytes

end Count

theorem decodeFrom_last {low high v b : Nat} (h : low ≤ b ∧ b ≤ high) (m : List Nat) :
    decodeFrom (some ⟨1, low, high, v⟩) (b :: m) =
      Char.ofNat (64 * v + (b - 0x80)) :: decodeFrom none m := by
  rw [decodeFrom, nextByte, if_pos h, if_pos le_rfl]
  rfl

theorem decodeFrom_more {n low high v b : Nat} (h : low ≤ b ∧ b ≤ high) (m : List Nat) :
    decodeFrom (some ⟨n + 2, low, high, v⟩) (b :: m) =
      decodeFrom (some ⟨n + 1, 0x80, 0xbf, 64 * v + (b - 0x80)⟩) m := by
  rw [decodeFrom, nextByte, if_pos h, if_neg (by show ¬n + 2 ≤ 1; omega)]
  rfl

theorem decodeFrom_lead {b : Nat} {q : Sequence} (h : startSequence b = ([], some q))
    (m : List Nat) : decodeFrom none (b :: m) = decodeFrom (some q) m := by
  rw [decodeFrom, nextByte, h]
  rfl

theorem decodeFrom_utf8 (c : Char) (m : List Nat) :
    decodeFrom none (utf8 c ++ m) = c :: decodeFrom none m := by
  have hv : c.toNat < 0xd800 ∨ 0xdfff < c.toNat ∧ c.toNat < 0x110000 := c.valid
  have hof : ∀ n, n = c.toNat → Char.ofNat n = c := fun n h => h ▸ Char.ofNat_toNat c
  unfold utf8
  by_cases h₁ : c.toNat < 0x80
  · simp [if_pos h₁, decodeFrom, nextByte, startSequence]
  by_cases h₂ : c.toNat < 0x800
  · have hlead : startSequence (0xc0 + c.toNat / 64) =
        ([], some ⟨1, 0x80, 0xbf, 0xc0 + c.toNat / 64 - 0xc0⟩) := by
      rw [startSequence, if_neg (by omega), if_pos (by omega)]
    simp only [if_neg h₁, if_pos h₂, List.cons_append, List.nil_append]
    rw [decodeFrom_lead hlead, decodeFrom_last (by omega), hof _ (by omega)]
  by_cases h₃ : c.toNat < 0x10000
  · obtain ⟨low, high, hlead, hlow⟩ : ∃ low high, startSequence (0xe0 + c.toNat / 4096) =
        ([], some ⟨2, low, high, c.toNat / 4096⟩) ∧
          low ≤ 0x80 + c.toNat / 64 % 64 ∧ 0x80 + c.toNat / 64 % 64 ≤ high := by
      unfold startSequence
      rw [if_neg (by omega), if_neg (by omega)]
      split_ifs with he hd hm
      · exact ⟨_, _, by rw [show c.toNat / 4096 = 0 by omega], by omega, by omega⟩
      · exact ⟨_, _, by rw [show c.toNat / 4096 = 0xd by omega], by omega, by omega⟩
      · exact ⟨_, _, by rw [Nat.add_sub_cancel_left], by omega, by omega⟩
      all_goals omega
    simp only [if_neg h₁, if_neg h₂, if_pos h₃, List.cons_append, List.nil_append]
    rw [decodeFrom_lead hlead, decodeFrom_more hlow, decodeFrom_last (by omega),
      hof _ (by omega)]
  · obtain ⟨low, high, hlead, hlow⟩ : ∃ low high, startSequence (0xf0 + c.toNat / 262144) =
        ([], some ⟨3, low, high, c.toNat / 262144⟩) ∧
          low ≤ 0x80 + c.toNat / 4096 % 64 ∧ 0x80 + c.toNat / 4096 % 64 ≤ high := by
      unfold startSequence
      rw [if_neg (by omega), if_neg (by omega), if_neg (by omega), if_neg (by omega),
        if_neg (by omega)]
      split_ifs with h0 hm h4
      · exact ⟨_, _, by rw [show c.toNat / 262144 = 0 by omega], by omega, by omega⟩
      · exact ⟨_, _, by rw [Nat.add_sub_cancel_left], by omega, by omega⟩
      · exact ⟨_, _, by rw [show c.toNat / 262144 = 4 by omega], by omega, by omega⟩
      all_goals omega
    simp only [if_neg h₁, if_neg h₂, if_neg h₃, List.cons_append, List.nil_append]
    rw [decodeFrom_lead hlead, decodeFrom_more hlow, decodeFrom_more (by omega),
      decodeFrom_last (by omega), hof _ (by omega)]

/-- **Decoding inverts encoding**, also where it would not fail. -/
theorem decodeUtf8_encode (s : Text) : decodeUtf8 (encode s) = s := by
  unfold decodeUtf8
  induction s with
  | nil => rfl
  | cons c s ih =>
    rw [encode, List.flatMap_cons, decodeFrom_utf8]
    exact congrArg (c :: ·) ih

/-! ## Words of a command line -/

/-- `shlex.whitespace`. -/
def isShlexSpace (c : Char) : Bool := c == ' ' || c == '\t' || c == '\r' || c == '\n'

def isQuote (c : Char) : Bool := c == '\'' || c == '"'

/-- The state of the lexer. After an escape it goes back into the quotes it was in, if any. -/
inductive ShlexState where
  | blank
  | word
  | quote (q : Char)
  | escape (back : Option Char)

/-- The words of the rest of the text, after `token` of the word under way. `quoted` says that a
part of this word was quoted, so that it counts even when it is empty. -/
def shlexFrom : ShlexState → Text → Bool → Text → Option (List Text)
  | .blank, _, _, [] => some []
  | .word, token, quoted, [] => some (if token ≠ [] ∨ quoted then [token] else [])
  -- "No closing quotation" and "No escaped character"
  | .quote _, _, _, [] => none
  | .escape _, _, _, [] => none
  | .blank, _, _, c :: s =>
    if isShlexSpace c then shlexFrom .blank [] false s
    else if c = '\\' then shlexFrom (.escape none) [] false s
    else if isQuote c then shlexFrom (.quote c) [] false s
    else shlexFrom .word [c] false s
  | .word, token, quoted, c :: s =>
    if isShlexSpace c then
      if token ≠ [] ∨ quoted then (shlexFrom .blank [] false s).map (token :: ·)
      else shlexFrom .blank [] false s
    else if isQuote c then shlexFrom (.quote c) token quoted s
    else if c = '\\' then shlexFrom (.escape none) token quoted s
    else shlexFrom .word (token ++ [c]) quoted s
  | .quote q, token, _, c :: s =>
    if c = q then shlexFrom .word token true s
    else if c = '\\' ∧ q = '"' then shlexFrom (.escape (some q)) token true s
    else shlexFrom (.quote q) (token ++ [c]) true s
  | .escape none, token, quoted, c :: s => shlexFrom .word (token ++ [c]) quoted s
  | .escape (some q), token, quoted, c :: s =>
    -- inside quotes only the quote and the escape character are escaped
    if c ≠ '\\' ∧ c ≠ q then shlexFrom (.quote q) (token ++ ['\\', c]) quoted s
    else shlexFrom (.quote q) (token ++ [c]) quoted s

/-- `shlex.split(s)`; `none` when it raises a `ValueError`. -/
def shlexSplit (s : Text) : Option (List Text) := shlexFrom .blank [] false s

example : shlexSplit "diff --git \"a/x y\" 'b'/\"x\\\\\"".toList =
    some ["diff".toList, "--git".toList, "a/x y".toList, "b/x\\".toList] := by decide

end Text
