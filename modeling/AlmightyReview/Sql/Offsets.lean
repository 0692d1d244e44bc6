import AlmightyReview.Sql.Mask

/-!
# Offsets in the mask

The guard cuts the text of a query at an offset that it finds in the masked copy.

* `maskLoop`: the scan as the source writes it, over an index into a list of characters that it
  overwrites. `maskLoop_eq`: it ends, and computes the mask.
* `Span`, `Reads`: the comments, literals and quoted identifiers that the scan delimits, beside the
  plain characters between them. `Unterminated`: one that does not end.
* `mask_reads`: the mask has blanks over the spans and the plain characters as they are; there is
  none exactly when the scan comes to a span that does not end.
-/

namespace SqlGateway

/-! ## The loop of the source -/

/-- The end of the region that begins at index `i`; `i` itself when none does. The marks of comments
are looked up in the text, the quotes in the characters. -/
def regionEnd (sql chars : Text) (i : Nat) : Except Exc Nat :=
  if Text.startsWith (sql.drop i) ['-', '-'] then
    .ok (match Text.find ['\n'] (sql.drop (i + 2)) with
      | some n => i + 2 + n
      | none => chars.length)
  else if Text.startsWith (sql.drop i) ['/', '*'] then
    match Text.find ['*', '/'] (sql.drop (i + 2)) with
    | none => .error (.valueError "unterminated block comment".toList)
    | some n => .ok (i + 2 + n + 2)
  else
    match chars[i]? with
    | none => .ok i
    | some c =>
      if c = '\'' ∨ c = '"' ∨ c = '[' then
        match closedAt (if c = '[' then ']' else c) (chars.drop (i + 1)) with
        | none => .error (.valueError "unterminated_literal_or_identifier".toList)
        | some n => .ok (i + 1 + n)
      else .ok i

/-- `chars[i:end] = " " * (end - i)`. -/
def blankSlice (chars : Text) (i j : Nat) : Text :=
  chars.take i ++ List.replicate (j - i) ' ' ++ chars.drop j

/-- The loop of `_mask_comments_literals_identifiers`, at most `fuel` times. -/
def maskLoop (sql : Text) : Nat → Nat → Text → Option (Except Exc Text)
  | 0, _, _ => none
  | fuel + 1, i, chars =>
    if i < chars.length then
      match regionEnd sql chars i with
      | .error e => some (.error e)
      | .ok j =>
        if j = i then maskLoop sql fuel (i + 1) chars
        else maskLoop sql fuel j (blankSlice chars i j)
    else some (.ok chars)

/-! ## Spans -/

/-- The body of a literal: its quote stands in it in pairs only. -/
inductive Doubled (q : Char) : Text → Prop
  | nil : Doubled q []
  | other {c : Char} {u : Text} (hc : c ≠ q) (hu : Doubled q u) : Doubled q (c :: u)
  | pair {u : Text} (hu : Doubled q u) : Doubled q (q :: q :: u)

def IsQuote (c : Char) : Prop := c = '\'' ∨ c = '"'

/-- A comment, a literal or a quoted identifier in front of `rest`. -/
inductive Span : Text → Text → Prop
  | line {u rest : Text} (hu : '\n' ∉ u) (hrest : ∀ c ∈ rest.head?, c = '\n') :
    Span ('-' :: '-' :: u) rest
  | block {u rest : Text} (hu : ¬['*', '/'] <:+: u ++ ['*']) :
    Span ('/' :: '*' :: (u ++ ['*', '/'])) rest
  | quoted {q : Char} {u rest : Text} (hq : IsQuote q) (hu : Doubled q u)
    (hrest : rest.head? ≠ some q) : Span (q :: (u ++ [q])) rest
  | bracket {u rest : Text} (hu : ']' ∉ u) : Span ('[' :: (u ++ [']'])) rest

/-- A span that does not end, with the message that says so. -/
inductive Unterminated : Text → Text → Prop
  | block {u : Text} (hu : ¬['*', '/'] <:+: u) :
    Unterminated ('/' :: '*' :: u) "unterminated block comment".toList
  | quoted {q : Char} {u : Text} (hq : IsQuote q) (hu : Doubled q u) :
    Unterminated (q :: u) "unterminated_literal_or_identifier".toList
  | bracket {u : Text} (hu : ']' ∉ u) :
    Unterminated ('[' :: u) "unterminated_literal_or_identifier".toList

/-- A comment, a literal or a quoted identifier begins the text. -/
def Opens (s : Text) : Prop :=
  ['-', '-'] <+: s ∨ ['/', '*'] <+: s ∨ ∃ c ∈ s.head?, IsQuote c ∨ c = '['

inductive Piece where
  | plain (c : Char)
  | span (raw : Text)

def Piece.raw : Piece → Text
  | .plain c => [c]
  | .span raw => raw

/-- The characters of the piece that are in a span. -/
def Piece.inside : Piece → List Bool
  | .plain _ => [false]
  | .span raw => raw.map fun _ => true

def Piece.masked : Piece → Text
  | .plain c => [c]
  | .span raw => raw.map fun _ => ' '

/-- The pieces of a text up to `rest`. -/
inductive Reads : Text → List Piece → Text → Prop
  | done {rest : Text} : Reads rest [] rest
  | plain {c : Char} {s rest : Text} {ps : List Piece} (hc : ¬Opens (c :: s))
    (hs : Reads s ps rest) : Reads (c :: s) (.plain c :: ps) rest
  | span {raw s rest : Text} {ps : List Piece} (hraw : Span raw s) (hs : Reads s ps rest) :
    Reads (raw ++ s) (.span raw :: ps) rest

/-! ## The end of a span -/

/-- The first place of a text that is looked for. -/
theorem find_some {sub s : Text} {n : Nat} (hsub : sub ≠ []) (h : Text.find sub s = some n) :
    ∃ u v, s = u ++ (sub ++ v) ∧ u.length = n ∧ ¬sub <:+: u ++ sub.dropLast := by
  induction s generalizing n with
  | nil => simp [Text.find, hsub] at h
  | cons c s ih =>
    rw [Text.find] at h
    split at h
    · next hpre =>
      obtain ⟨v, hv⟩ := List.isPrefixOf_iff_prefix.mp hpre
      refine ⟨[], v, hv.symm, Option.some.inj h, fun hin => ?_⟩
      have hle := hin.length_le
      rw [List.nil_append, List.length_dropLast] at hle
      have := List.length_pos_iff.mpr hsub
      omega
    · next hpre =>
      obtain ⟨m, hm, rfl⟩ := Option.map_eq_some_iff.mp h
      obtain ⟨u, v, rfl, hlen, hnot⟩ := ih hm
      refine ⟨c :: u, v, rfl, by rw [List.length_cons, hlen], fun hin => ?_⟩
      rw [List.cons_append, List.infix_cons_iff] at hin
      rcases hin with hin | hin
      · refine hpre (List.isPrefixOf_iff_prefix.mpr (hin.trans ?_))
        have hlast : sub.dropLast <+: sub ++ v :=
          (List.dropLast_prefix sub).trans (List.prefix_append sub v)
        exact (List.prefix_cons_inj c).mpr ((List.prefix_append_right_inj u).mpr hlast)
      · exact hnot hin

theorem infix_of_mem {c : Char} {s : Text} (h : c ∈ s) : [c] <:+: s := by
  obtain ⟨u, v, rfl⟩ := List.append_of_mem h
  exact ⟨u, v, by simp⟩

theorem find_none {sub s : Text} (hsub : sub ≠ []) (h : Text.find sub s = none) :
    ¬sub <:+: s := by
  induction s with
  | nil => exact fun hin => hsub (List.infix_nil.mp hin)
  | cons c s ih =>
    rw [Text.find] at h
    split at h
    · cases h
    · next hpre =>
      rw [List.infix_cons_iff]
      rintro (hin | hin)
      · exact hpre (List.isPrefixOf_iff_prefix.mpr hin)
      · exact ih (Option.map_eq_none_iff.mp h) hin

theorem closedAt_some {q : Char} {s : Text} {n : Nat} (hq : q ≠ ']')
    (h : closedAt q s = some n) :
    ∃ u v, s = u ++ q :: v ∧ u.length + 1 = n ∧ Doubled q u ∧ v.head? ≠ some q := by
  fun_induction closedAt q s generalizing n with
  | case1 => cases h
  | case2 => exact ⟨[], [], rfl, Option.some.inj h, .nil, by simp⟩
  | case3 => cases h
  | case4 d s hd ih =>
    obtain ⟨-, rfl⟩ := hd
    obtain ⟨m, hm, rfl⟩ := Option.map_eq_some_iff.mp h
    obtain ⟨u, v, rfl, rfl, hu, hv⟩ := ih hm
    exact ⟨d :: d :: u, v, rfl, rfl, .pair hu, hv⟩
  | case5 d s hd =>
    refine ⟨[], d :: s, rfl, Option.some.inj h, .nil, fun he => hd ⟨hq, ?_⟩⟩
    exact Option.some.inj he
  | case6 c d s hne ih =>
    obtain ⟨m, hm, rfl⟩ := Option.map_eq_some_iff.mp h
    obtain ⟨u, v, hs, rfl, hu, hv⟩ := ih hm
    exact ⟨c :: u, v, by rw [hs]; rfl, rfl, .other hne hu, hv⟩

theorem closedAt_none {q : Char} {s : Text} (h : closedAt q s = none) : Doubled q s := by
  fun_induction closedAt q s with
  | case1 => exact .nil
  | case2 => cases h
  | case3 c hne => exact .other hne .nil
  | case4 d s hd ih =>
    obtain ⟨-, rfl⟩ := hd
    exact .pair (ih (Option.map_eq_none_iff.mp h))
  | case5 => cases h
  | case6 c d s hne ih => exact .other hne (ih (Option.map_eq_none_iff.mp h))

theorem closedAt_bracket_some {s : Text} {n : Nat} (h : closedAt ']' s = some n) :
    ∃ u v, s = u ++ ']' :: v ∧ u.length + 1 = n ∧ ']' ∉ u := by
  fun_induction closedAt ']' s generalizing n with
  | case1 => cases h
  | case2 => exact ⟨[], [], rfl, Option.some.inj h, by simp⟩
  | case3 => cases h
  | case4 d s hd => exact absurd rfl hd.1
  | case5 d s hd => exact ⟨[], d :: s, rfl, Option.some.inj h, by simp⟩
  | case6 c d s hne ih =>
    obtain ⟨m, hm, rfl⟩ := Option.map_eq_some_iff.mp h
    obtain ⟨u, v, hs, rfl, hu⟩ := ih hm
    refine ⟨c :: u, v, by rw [hs]; rfl, rfl, fun hin => ?_⟩
    rcases List.mem_cons.mp hin with rfl | hin
    · exact hne rfl
    · exact hu hin

theorem closedAt_bracket_none {s : Text} (h : closedAt ']' s = none) : ']' ∉ s := by
  fun_induction closedAt ']' s with
  | case1 => simp
  | case2 => cases h
  | case3 c hne => simpa using fun he => hne he.symm
  | case4 d s hd => exact absurd rfl hd.1
  | case5 => cases h
  | case6 c d s hne ih =>
    intro hin
    rcases List.mem_cons.mp hin with rfl | hin
    · exact hne rfl
    · exact ih (Option.map_eq_none_iff.mp h) hin

/-! ## The region at the start of a text -/

theorem not_opens {c : Char} {s : Text} (hline : Text.startsWith (c :: s) ['-', '-'] = false)
    (hblock : Text.startsWith (c :: s) ['/', '*'] = false)
    (hquote : ¬(c = '\'' ∨ c = '"' ∨ c = '[')) : ¬Opens (c :: s) := by
  rintro (h | h | ⟨d, hd, h⟩)
  · exact absurd (List.isPrefixOf_iff_prefix.mpr h) (Bool.eq_false_iff.mp hline)
  · exact absurd (List.isPrefixOf_iff_prefix.mpr h) (Bool.eq_false_iff.mp hblock)
  · obtain rfl := Option.mem_some_iff.mp hd
    rcases h with (rfl | rfl) | rfl
    · exact hquote (.inl rfl)
    · exact hquote (.inr (.inl rfl))
    · exact hquote (.inr (.inr rfl))

/-- **A region** is a span, and where it has no end the text begins with an unterminated one. -/
theorem region_cases (c : Char) (s : Text) :
    (region (c :: s) = .ok 0 ∧ ¬Opens (c :: s)) ∨
    (∃ raw rest, c :: s = raw ++ rest ∧ raw ≠ [] ∧ Span raw rest ∧
      region (c :: s) = .ok raw.length) ∨
    ∃ message, region (c :: s) = .error (.valueError message) ∧ Unterminated (c :: s) message := by
  rw [region]
  split
  · -- a comment to the end of the line
    next hline =>
    obtain ⟨t, ht⟩ := List.isPrefixOf_iff_prefix.mp hline
    obtain ⟨rfl, rfl⟩ : c = '-' ∧ s = '-' :: t := by simpa [eq_comm] using ht
    refine .inr (.inl ?_)
    rw [List.drop_succ_cons, List.drop_zero]
    cases hf : Text.find ['\n'] t with
    | none =>
      have hnot := find_none (by simp) hf
      refine ⟨'-' :: '-' :: t, [], by simp, by simp, .line (fun hin => ?_) (by simp), rfl⟩
      exact hnot (infix_of_mem hin)
    | some n =>
      obtain ⟨u, v, rfl, rfl, hnot⟩ := find_some (by simp) hf
      refine ⟨'-' :: '-' :: u, '\n' :: v, rfl, by simp, .line (fun hin => ?_) (by simp), rfl⟩
      exact hnot (by simpa using infix_of_mem hin)
  next hline =>
  split
  · -- a block comment
    next hblock =>
    obtain ⟨t, ht⟩ := List.isPrefixOf_iff_prefix.mp hblock
    obtain ⟨rfl, rfl⟩ : c = '/' ∧ s = '*' :: t := by simpa [eq_comm] using ht
    rw [List.drop_succ_cons, List.drop_zero]
    cases hf : Text.find ['*', '/'] t with
    | none => exact .inr (.inr ⟨_, rfl, .block (find_none (by simp) hf)⟩)
    | some n =>
      obtain ⟨u, v, rfl, rfl, hnot⟩ := find_some (by simp) hf
      refine .inr (.inl ⟨'/' :: '*' :: (u ++ ['*', '/']), v, by simp, by simp, .block hnot, ?_⟩)
      simp
  next hblock =>
  split
  · next hquote =>
    by_cases hb : c = '['
    · subst hb
      rw [if_pos rfl]
      cases hf : closedAt ']' s with
      | none => exact .inr (.inr ⟨_, rfl, .bracket (closedAt_bracket_none hf)⟩)
      | some n =>
        obtain ⟨u, v, rfl, rfl, hu⟩ := closedAt_bracket_some hf
        exact .inr (.inl ⟨'[' :: (u ++ [']']), v, by simp, by simp, .bracket hu, by simp⟩)
    · have hq : IsQuote c := hquote.imp_right fun h => h.resolve_right hb
      have hne : c ≠ ']' := by
        rcases hq with rfl | rfl
        · decide
        · decide
      rw [if_neg hb]
      cases hf : closedAt c s with
      | none => exact .inr (.inr ⟨_, rfl, .quoted hq (closedAt_none hf)⟩)
      | some n =>
        obtain ⟨u, v, rfl, rfl, hu, hv⟩ := closedAt_some hne hf
        exact .inr (.inl ⟨c :: (u ++ [c]), v, by simp, by simp, .quoted hq hu hv, by simp⟩)
  · next hquote =>
    exact .inl ⟨rfl, not_opens (Bool.not_eq_true _ ▸ hline) (Bool.not_eq_true _ ▸ hblock) hquote⟩

/-! ## The pieces of a text -/

theorem maskFrom_append (raw rest : Text) : maskFrom raw.length (raw ++ rest) =
    (maskFrom 0 rest).map (raw.map (fun _ => ' ') ++ ·) := by
  induction raw with
  | nil =>
    show maskFrom 0 rest = _
    cases maskFrom 0 rest <;> rfl
  | cons c raw ih =>
    rw [List.cons_append, List.length_cons, maskFrom, ih]
    cases maskFrom 0 rest <;> rfl

theorem maskFrom_span {raw rest : Text} (hne : raw ≠ [])
    (h : region (raw ++ rest) = .ok raw.length) :
    maskFrom 0 (raw ++ rest) = (maskFrom 0 rest).map (raw.map (fun _ => ' ') ++ ·) := by
  obtain ⟨c, raw, rfl⟩ := List.exists_cons_of_ne_nil hne
  rw [List.cons_append] at h ⊢
  rw [maskFrom, h]
  simp only [bind, Except.bind]
  rw [if_neg (by simp), List.length_cons, Nat.add_sub_cancel, maskFrom_append]
  cases maskFrom 0 rest <;> rfl

/-- **The mask** has blanks over the spans; there is none when a span does not end. -/
theorem mask_reads (s : Text) : ∃ ps rest, Reads s ps rest ∧
    ((rest = [] ∧ maskFrom 0 s = .ok (ps.flatMap Piece.masked)) ∨
      ∃ message, Unterminated rest message ∧ maskFrom 0 s = .error (.valueError message)) := by
  induction hn : s.length using Nat.strong_induction_on generalizing s with
  | _ n ih =>
    cases s with
    | nil => exact ⟨[], [], .done, .inl ⟨rfl, rfl⟩⟩
    | cons c s =>
      rcases region_cases c s with ⟨hr, hopens⟩ | ⟨raw, rest, hs, hne, hspan, hr⟩ |
        ⟨message, hr, hun⟩
      · obtain ⟨ps, rest, hps, hmask⟩ := ih s.length (by rw [← hn]; simp) s rfl
        have heq : maskFrom 0 (c :: s) = (maskFrom 0 s).map (c :: ·) := by
          rw [maskFrom, hr]
          rfl
        refine ⟨.plain c :: ps, rest, .plain hopens hps, ?_⟩
        rw [heq]
        rcases hmask with ⟨hrest, hmask⟩ | ⟨message, hun, hmask⟩
        · exact .inl ⟨hrest, by rw [hmask]; rfl⟩
        · exact .inr ⟨message, hun, by rw [hmask]; rfl⟩
      · have hlen : rest.length < n := by
          have := congrArg List.length hs
          rw [List.length_append] at this
          have := List.length_pos_iff.mpr hne
          omega
        obtain ⟨ps, rest', hps, hmask⟩ := ih rest.length hlen rest rfl
        refine ⟨.span raw :: ps, rest', hs ▸ .span hspan hps, ?_⟩
        rw [hs] at hr ⊢
        rw [maskFrom_span hne hr]
        rcases hmask with ⟨hrest, hmask⟩ | ⟨message, hun, hmask⟩
        · exact .inl ⟨hrest, by rw [hmask]; rfl⟩
        · exact .inr ⟨message, hun, by rw [hmask]; rfl⟩
      · exact ⟨[], c :: s, .done, .inr ⟨message, hun, by rw [maskFrom, hr]; rfl⟩⟩

theorem Reads.split {s rest : Text} {ps : List Piece} (h : Reads s ps rest) :
    s = ps.flatMap Piece.raw ++ rest := by
  induction h with
  | done => rfl
  | plain hc hs ih => rw [ih]; rfl
  | span hraw hs ih => rw [ih, List.flatMap_cons, List.append_assoc]; rfl

/-- The mask, character by character. -/
theorem getElem?_masked (ps : List Piece) (i : Nat) (c : Char)
    (hc : (ps.flatMap Piece.raw)[i]? = some c) : (ps.flatMap Piece.masked)[i]? =
      some (if (ps.flatMap Piece.inside)[i]? = some true then ' ' else c) := by
  have hmap : ps.flatMap Piece.masked = List.zipWith (fun b c => if b = true then ' ' else c)
      (ps.flatMap Piece.inside) (ps.flatMap Piece.raw) ∧
      (ps.flatMap Piece.inside).length = (ps.flatMap Piece.raw).length := by
    clear hc
    induction ps with
    | nil => exact ⟨rfl, rfl⟩
    | cons p ps ih =>
      have hp : p.masked = List.zipWith (fun b c => if b = true then ' ' else c) p.inside p.raw ∧
          p.inside.length = p.raw.length := by
        cases p with
        | plain c => exact ⟨rfl, rfl⟩
        | span raw =>
          refine ⟨?_, List.length_map _⟩
          show raw.map (fun _ => ' ') = List.zipWith _ (raw.map fun _ => true) raw
          rw [List.zipWith_map_left, List.zipWith_self]
          rfl
      simp only [List.flatMap_cons]
      refine ⟨?_, by rw [List.length_append, List.length_append, hp.2, ih.2]⟩
      rw [List.zipWith_append hp.2, ← hp.1, ← ih.1]
  obtain ⟨hmap, hlen⟩ := hmap
  have hi : i < (ps.flatMap Piece.inside).length := by
    rw [hlen]
    exact (List.getElem?_eq_some_iff.mp hc).1
  rw [hmap, List.getElem?_zipWith, hc, List.getElem?_eq_getElem hi]
  simp

theorem length_masked (ps : List Piece) :
    (ps.flatMap Piece.masked).length = (ps.flatMap Piece.raw).length := by
  induction ps with
  | nil => rfl
  | cons p ps ih =>
    have hp : p.masked.length = p.raw.length := by
      cases p with
      | plain c => rfl
      | span raw => exact List.length_map _
    rw [List.flatMap_cons, List.flatMap_cons, List.length_append, List.length_append, ih, hp]

/-! ## The loop computes the mask -/

section Loop

variable {sql chars m : Text} {i : Nat}

theorem regionEnd_eq (hrest : chars.drop i = sql.drop i) (hlen : chars.length = sql.length)
    (hi : i < sql.length) : regionEnd sql chars i = (region (sql.drop i)).map (i + ·) := by
  obtain ⟨c, s, hs⟩ := List.exists_cons_of_ne_nil (List.drop_eq_nil_iff.not.mpr (Nat.not_le.mpr hi))
  have hnext : sql.drop (i + 1) = s := by
    rw [← List.drop_drop, hs]
    rfl
  have hnext2 : sql.drop (i + 2) = s.drop 1 := by
    rw [← hnext, List.drop_drop]
  have hchars : chars.drop (i + 1) = s := by
    rw [← List.drop_drop, hrest, hs]
    rfl
  have hc : chars[i]? = some c := by
    rw [← List.head?_drop, hrest, hs]
    rfl
  have hn : sql.length = i + (s.length + 1) := by
    have := congrArg List.length hs
    rw [List.length_drop, List.length_cons] at this
    omega
  unfold regionEnd
  rw [hs, hnext2, hchars, hc, region]
  split
  · cases Text.find ['\n'] (s.drop 1) with
    | none =>
      show Except.ok chars.length = Except.ok (i + (s.length + 1))
      rw [hlen, hn]
    | some n =>
      show Except.ok (i + 2 + n) = Except.ok (i + (n + 2))
      congr 1
      omega
  split
  · cases Text.find ['*', '/'] (s.drop 1) with
    | none => rfl
    | some n =>
      show Except.ok (i + 2 + n + 2) = Except.ok (i + (n + 4))
      congr 1
      omega
  dsimp only
  split
  · cases closedAt (if c = '[' then ']' else c) s with
    | none => rfl
    | some n =>
      show Except.ok (i + 1 + n) = Except.ok (i + (n + 1))
      congr 1
      omega
  · rfl

/-- What the loop has done before index `i`: the characters there are the mask `m`. -/
structure Masked (sql m : Text) (i : Nat) (chars : Text) : Prop where
  chars : chars = m ++ sql.drop i
  length : m.length = i
  bound : i ≤ sql.length

theorem Masked.drop (h : Masked sql m i chars) : chars.drop i = sql.drop i := by
  rw [h.chars, ← h.length, List.drop_left]

theorem Masked.length_chars (h : Masked sql m i chars) : chars.length = sql.length := by
  have := h.bound
  rw [h.chars, List.length_append, List.length_drop, h.length]
  omega

/-- A character is passed. -/
theorem Masked.next {c : Char} {s : Text} (h : Masked sql m i chars) (hs : sql.drop i = c :: s) :
    Masked sql (m ++ [c]) (i + 1) chars := by
  have hnext : sql.drop (i + 1) = s := by
    rw [← List.drop_drop, hs]
    rfl
  refine ⟨?_, by rw [List.length_append, h.length]; rfl, ?_⟩
  · rw [h.chars, hs, hnext, List.append_assoc]
    rfl
  · have := congrArg List.length hs
    rw [List.length_drop, List.length_cons] at this
    omega

/-- A span is overwritten. -/
theorem Masked.blank {raw rest : Text} (h : Masked sql m i chars)
    (hs : sql.drop i = raw ++ rest) : Masked sql (m ++ raw.map fun _ => ' ') (i + raw.length)
      (blankSlice chars i (i + raw.length)) ∧ sql.drop (i + raw.length) = rest := by
  have hrest : sql.drop (i + raw.length) = rest := by
    rw [← List.drop_drop, hs, List.drop_left]
  refine ⟨⟨?_, by rw [List.length_append, List.length_map, h.length], ?_⟩, hrest⟩
  · unfold blankSlice
    rw [Nat.add_sub_cancel_left, ← List.drop_drop, h.drop, List.drop_drop, List.map_const', h.chars,
      ← h.length, List.take_left]
  · have := congrArg List.length hs
    have := h.bound
    rw [List.length_drop, List.length_append] at *
    omega

/-- **The loop ends**, and computes the mask. -/
theorem maskLoop_masked {fuel : Nat} (h : Masked sql m i chars) (hfuel : sql.length - i < fuel) :
    maskLoop sql fuel i chars = some ((maskFrom 0 (sql.drop i)).map (m ++ ·)) := by
  induction fuel generalizing i m chars with
  | zero => omega
  | succ fuel ih =>
    rw [maskLoop, h.length_chars]
    by_cases hi : i < sql.length
    · rw [if_pos hi, regionEnd_eq h.drop h.length_chars hi]
      obtain ⟨c, s, hs⟩ :=
        List.exists_cons_of_ne_nil (List.drop_eq_nil_iff.not.mpr (Nat.not_le.mpr hi))
      rcases region_cases c s with ⟨hr, -⟩ | ⟨raw, rest, hraw, hne, -, hr⟩ | ⟨message, hr, -⟩
      · have hnext := h.next hs
        have hdrop : sql.drop (i + 1) = s := by
          rw [← List.drop_drop, hs]
          rfl
        rw [hs, hr]
        show (if i + 0 = i then _ else _) = _
        rw [if_pos (Nat.add_zero i), ih hnext (by omega), hdrop, maskFrom, hr]
        simp only [bind, Except.bind, if_true]
        cases maskFrom 0 s with
        | error e => rfl
        | ok t => simp [Except.map]
      · have hblank := h.blank (hs.trans hraw)
        have hpos := List.length_pos_iff.mpr hne
        rw [hs, hr]
        show (if i + raw.length = i then _ else _) = _
        rw [if_neg (by omega), ih hblank.1 (by omega), hblank.2, hraw,
          maskFrom_span hne (hraw ▸ hr)]
        cases maskFrom 0 rest with
        | error e => rfl
        | ok t => simp [Except.map]
      · rw [hs, hr, maskFrom, hr]
        rfl
    · have hend : sql.drop i = [] := List.drop_eq_nil_iff.mpr (Nat.not_lt.mp hi)
      rw [if_neg hi, h.chars, hend]
      rfl

end Loop

theorem maskLoop_eq (sql : Text) {fuel : Nat} (h : sql.length < fuel) :
    maskLoop sql fuel 0 sql = some (maskCommentsLiteralsIdentifiers sql) := by
  have hstart : Masked sql [] 0 sql := ⟨rfl, rfl, Nat.zero_le _⟩
  rw [maskLoop_masked hstart (by omega), List.drop_zero]
  show some ((maskFrom 0 sql).map ([] ++ ·)) = some (maskFrom 0 sql)
  cases maskFrom 0 sql <;> rfl

/-- **Masking keeps offsets.** The scan ends after at most as many steps as the text has characters.
It raises because a comment, a literal or a quoted identifier does not end, or its result has a
blank at each place of one that it delimits and the character of the text at every other place. -/
theorem mask_offsets (sql : Text) : ∃ r,
    (∀ fuel, sql.length < fuel → maskLoop sql fuel 0 sql = some r) ∧
    r = maskCommentsLiteralsIdentifiers sql ∧
    ((∃ ps m, Reads sql ps [] ∧ r = .ok m ∧ m.length = sql.length ∧
        ∀ (i : Nat) (c : Char), sql[i]? = some c →
          m[i]? = some (if (ps.flatMap Piece.inside)[i]? = some true then ' ' else c)) ∨
      ∃ ps rest message, Reads sql ps rest ∧ Unterminated rest message ∧
        r = .error (.valueError message)) := by
  refine ⟨_, fun fuel h => maskLoop_eq sql h, rfl, ?_⟩
  obtain ⟨ps, rest, hps, ⟨rfl, hmask⟩ | ⟨message, hun, hmask⟩⟩ := mask_reads sql
  · have hsplit := hps.split
    rw [List.append_nil] at hsplit
    refine .inl ⟨ps, _, hps, hmask, by rw [length_masked, ← hsplit], fun i c hc => ?_⟩
    exact getElem?_masked ps i c (hsplit ▸ hc)
  · exact .inr ⟨ps, rest, message, hps, hun, hmask⟩

end SqlGateway
