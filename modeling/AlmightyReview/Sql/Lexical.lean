import AlmightyReview.Sql.Mask

/-!
# Lexical soundness of the guard

The tokens of the server beside the words that `guard_read_sql` looks at.

* `firstName_mem_of_spells`: a word of the tokens is a word for the guard, unless it follows a
  number with letters.
* `first_of_headWord`: what the guard takes for the first word is the first token.
* `sound_of_asSeen`: the tokens of a text that the guard accepts are `Sound` when the guard sees
  the text as the server does (`AsSeen`).
-/

namespace SqlGateway

open Tsql

/-! ## The words of the tokens -/

variable {letter : Char → Bool}

/-- What the guard looks for words in. -/
def seen (s : Text) : Text := lower (withoutParams s)

theorem lower_append (u v : Text) : lower (u ++ v) = lower u ++ lower v := List.flatMap_append

/-- A character that no identifier begins with, and no digit. -/
theorem not_name {c : Char} (hs : isIdentStart letter c = false) (hd : c.isDigit = false) :
    isNamePart c = false ∧ c ≠ '@' ∧ lowerChar c = [c] := by
  simp only [isIdentStart, Bool.or_eq_false_iff, beq_eq_false_iff_ne] at hs
  obtain ⟨⟨⟨⟨⟨ha, hu⟩, hat⟩, -⟩, hf⟩, -⟩ := hs
  refine ⟨by simp [isNamePart, Char.isAlphanum, ha, hd, hu], hat, ?_⟩
  have hK : c.toNat ≠ 0x212a := fun h => by
    have : c = Char.ofNat 0x212a := by rw [← h, Char.ofNat_toNat]
    rw [this] at hf
    revert hf
    decide
  have hI : c.toNat ≠ 0x130 := fun h => by
    have : c = Char.ofNat 0x130 := by rw [← h, Char.ofNat_toNat]
    rw [this] at hf
    revert hf
    decide
  have hup : c.isUpper = false := by
    simp only [Text.isAlpha_eq, Bool.or_eq_false_iff] at ha
    exact ha.1
  have hlow : c.toLower = c := by
    simp only [Text.isUpper_eq, decide_eq_false_iff_not] at hup
    rw [Text.toLower_eq hup]
  rw [lowerChar, if_neg hK, if_neg hI, hlow]

/-- A character that no name has is seen as it is. -/
theorem seen_cons {c : Char} (hs : isIdentStart letter c = false) (hd : c.isDigit = false)
    (s : Text) : seen (c :: s) = c :: seen s := by
  obtain ⟨-, hat, hlow⟩ := not_name hs hd
  rw [seen, withoutParams_cons_of_ne hat, lower, List.flatMap_cons, hlow]
  rfl

theorem isIdent_of_not_part {c : Char} (h : isIdentPart letter c = false) :
    isIdentStart letter c = false ∧ c.isDigit = false := by
  simp only [isIdentPart, Bool.or_eq_false_iff] at h
  exact h.1

theorem seen_head {s : Text} (hs : ∀ c ∈ s.head?, isIdentPart letter c = false) :
    (∀ c ∈ s.head?, isNamePart c = false) ∧ ∀ c ∈ (seen s).head?, isNamePart c = false := by
  cases s with
  | nil => simp [seen, withoutParams, withoutParamsFrom, lower]
  | cons c s =>
    obtain ⟨h₁, h₂⟩ := isIdent_of_not_part (hs c rfl)
    have hc := (not_name h₁ h₂).1
    rw [seen_cons h₁ h₂]
    simpa using hc

theorem seen_append {u v : Text} (hv : ∀ c ∈ v.head?, isIdentPart letter c = false) :
    seen (u ++ v) = seen u ++ seen v := by
  rw [seen, withoutParams_append (seen_head hv).1, lower_append]
  rfl

/-- The first name of a word. -/
def firstName (w : Text) : Text := (seen w).takeWhile isNamePart

theorem ascii_of_isNamePart {c : Char} (h : isNamePart c = true) : c.toNat < 128 := by
  have hn : c.val.toNat = c.toNat := rfl
  have hZ : 'Z'.val.toNat = 90 ∧ 'z'.val.toNat = 122 ∧ '9'.val.toNat = 57 := ⟨rfl, rfl, rfl⟩
  simp only [isNamePart, Char.isAlphanum, Text.isAlpha_eq, Text.isUpper_eq, Text.isLower_eq,
    Char.isDigit, Bool.or_eq_true, Bool.and_eq_true, decide_eq_true_eq, beq_iff_eq,
    UInt32.le_iff_toNat_le, ge_iff_le] at h
  rcases h with h | rfl
  · omega
  · decide

theorem forall_ascii {P : Char → Prop} (h : ∀ n < 128, P (Char.ofNat n)) {c : Char}
    (hc : c.toNat < 128) : P c := Char.ofNat_toNat c ▸ h c.toNat hc

/-- The lower case of a character of a name. -/
theorem lowerChar_of_isNamePart {c : Char} (h : isNamePart c = true) :
    lowerChar c = [c.toLower] ∧ isNamePart c.toLower = true ∧
      isNameStart c.toLower = isNameStart c := by
  have hall : ∀ n < 128, isNamePart (Char.ofNat n) = true →
      lowerChar (Char.ofNat n) = [(Char.ofNat n).toLower] ∧
        isNamePart (Char.ofNat n).toLower = true ∧
        isNameStart (Char.ofNat n).toLower = isNameStart (Char.ofNat n) := by decide +kernel
  exact forall_ascii (P := fun c => isNamePart c = true → lowerChar c = [c.toLower] ∧
    isNamePart c.toLower = true ∧ isNameStart c.toLower = isNameStart c) hall
    (ascii_of_isNamePart h) h

theorem seen_cons_name {c : Char} (hc : isNamePart c = true) (w : Text) :
    seen (c :: w) = c.toLower :: seen w := by
  have hat : c ≠ '@' := by
    rintro rfl
    cases hc
  rw [seen, withoutParams_cons_of_ne hat, lower, List.flatMap_cons, (lowerChar_of_isNamePart hc).1]
  rfl

theorem firstName_mem {c : Char} (hc : isNameStart c = true) (w : Text) :
    firstName (c :: w) ∈ names (seen (c :: w)) := by
  have hc' := isNamePart_of_isNameStart hc
  obtain ⟨-, hpart, hstart⟩ := lowerChar_of_isNamePart hc'
  rw [firstName, seen_cons_name hc', names_cons, hstart, if_pos hc,
    List.takeWhile_cons_of_pos hpart]
  exact List.mem_cons_self

/-- Nothing of a number without letters is a name. -/
theorem names_number {n : Text} (hn : ∀ c ∈ n, c.isDigit = true ∨ c = '.') (s : Text) :
    names (seen (n ++ s)) = names (seen s) := by
  induction n with
  | nil => rfl
  | cons c n ih =>
    have hc : isNameStart c = false ∧ c ≠ '@' ∧ lowerChar c = [c.toLower] ∧
        isNameStart c.toLower = false := by
      rcases hn c List.mem_cons_self with h | rfl
      · have hstart : isNameStart c = false := by
          simp [isNameStart, isAlpha_of_isDigit h, ne_of_isDigit (d := '_') h rfl]
        have hpart : isNamePart c = true := by simp [isNamePart, isAlphanum_of_isDigit h]
        obtain ⟨h₁, -, h₃⟩ := lowerChar_of_isNamePart hpart
        exact ⟨hstart, ne_of_isDigit h rfl, h₁, h₃.trans hstart⟩
      · decide
    rw [List.cons_append, seen, withoutParams_cons_of_ne hc.2.1, lower, List.flatMap_cons,
      hc.2.2.1, List.singleton_append, names_cons, hc.2.2.2, if_neg (by simp)]
    exact ih fun d hd => hn d (List.mem_cons_of_mem _ hd)

/-- **Words are seen.** A word that follows no number with letters is a word for the guard as well,
as far as its first name. -/
theorem firstName_mem_of_spells {gap gap' : Gap} {ls : List Lexeme} {s : Text}
    (h : Spells letter gap ls s) {c : Char} {w : Text} (hc : isNameStart c = true)
    (hw : ⟨.word (c :: w), gap'⟩ ∈ ls) (hgap : gap' ≠ .letters) :
    firstName (c :: w) ∈ names (if gap = .letters then (seen s).dropWhile isNamePart
      else seen s) := by
  -- a text that begins with a character of no name
  have hskip : ∀ {gap : Gap} {d : Char} {s : Text}, isIdentStart letter d = false →
      d.isDigit = false → firstName (c :: w) ∈ names (seen s) → firstName (c :: w) ∈ names
        (if gap = .letters then (seen (d :: s)).dropWhile isNamePart else seen (d :: s)) := by
    intro gap d s h₁ h₂ hmem
    have hpart := (not_name h₁ h₂).1
    have hstart := isNameStart_eq_false hpart
    rw [seen_cons h₁ h₂]
    split
    · simpa [hpart, names_cons, hstart] using hmem
    · simpa [names_cons, hstart] using hmem
  have hblank : ∀ {gap : Gap} {b s : Text}, b ≠ [] → (∀ d ∈ b, d = ' ') →
      firstName (c :: w) ∈ names (seen s) → firstName (c :: w) ∈ names
        (if gap = .letters then (seen (b ++ s)).dropWhile isNamePart else seen (b ++ s)) := by
    intro gap b s hne hb hmem
    induction b generalizing gap with
    | nil => exact absurd rfl hne
    | cons d b ih =>
      obtain rfl := hb d List.mem_cons_self
      obtain ⟨h₁, h₂⟩ := isIdentStart_of_isSpace letter (c := ' ') rfl
      refine hskip h₁ h₂ ?_
      by_cases hbn : b = []
      · rw [hbn]
        exact hmem
      · exact @ih .plain hbn fun d hd => hb d (List.mem_cons_of_mem _ hd)
  induction h with
  | nil => cases hw
  | space hd hgap' _ ih =>
    obtain ⟨h₁, h₂⟩ := isIdentStart_of_isSpace letter hd
    have hmem := ih hw
    rw [if_neg hgap'] at hmem
    exact hskip h₁ h₂ hmem
  | literal hne hb _ ih =>
    rcases List.mem_cons.mp hw with hw | hw
    · cases hw
    · exact hblank hne hb (ih hw)
  | quoted hne hb _ ih =>
    rcases List.mem_cons.mp hw with hw | hw
    · cases hw
    · exact hblank hne hb (ih hw)
  | symbol _ h₁ h₂ _ ih =>
    rcases List.mem_cons.mp hw with hw | hw
    · cases hw
    · exact hskip h₁ h₂ (ih hw)
  | @word gap ls d w' s hd hw' hs _ ih =>
    have hhead := (seen_head hs).2
    rw [seen_append hs]
    rcases List.mem_cons.mp hw with hw | hw
    · obtain ⟨hword, hgap'⟩ := Lexeme.mk.inj hw
      obtain ⟨rfl, rfl⟩ := List.cons.inj (Token.word.inj hword)
      rw [← hgap', if_neg hgap, names_append hhead]
      exact List.mem_append_left _ (firstName_mem hc w)
    · have hmem : ∀ u, firstName (c :: w) ∈ names (u ++ seen s) := by
        intro u
        rw [names_append hhead]
        exact List.mem_append_right _ (ih hw)
      split
      · rw [dropWhile_append_of_head hhead]
        exact hmem _
      · exact hmem _
  | @number gap ls n s hn hg _ ih =>
    rcases List.mem_cons.mp hw with hw | hw
    · cases hw
    have hat : '@' ∉ n := by
      intro hin
      rcases hn.chars _ hin with h | h
      · cases h
      · simp at h
    have hseen : seen (n ++ s) = lower n ++ seen s := by
      rw [seen, withoutParams_append_of_not_mem hat, lower_append]
      rfl
    have hmem : firstName (c :: w) ∈ names (seen (n ++ s)) := by
      cases hany : n.any Char.isAlpha with
      | false =>
        have hmem := ih hw
        rw [if_neg fun h => ?_] at hmem
        · rw [names_number (hn.plain hany)]
          exact hmem
        · rw [Gap.after, hany] at h
          simp only [Bool.false_eq_true, if_false] at h
          split at h <;> cases h
      | true =>
        rw [hseen]
        exact names_dropWhile_subset _ _ (by simpa [Gap.after, hany] using ih hw)
    split
    · rename_i hletters
      -- the number begins with its point
      obtain ⟨d, n, rfl⟩ := List.exists_cons_of_ne_nil hn.ne_nil
      obtain rfl : d = '.' := by
        rcases hn.head d rfl with h | h
        · rw [hg hletters d rfl] at h
          cases h
        · exact h
      have hdrop : (seen ('.' :: n ++ s)).dropWhile isNamePart = seen ('.' :: n ++ s) := by
        rw [hseen]
        rfl
      rw [hdrop]
      exact hmem
    · exact hmem

/-! ## The other tokens -/

theorem withoutParams_append_word {c : Char} {w s : Text} (hs : ∀ d ∈ s.head?,
    isIdentPart letter d = false) :
    withoutParams (c :: w ++ s) = withoutParams (c :: w) ++ withoutParams s :=
  withoutParams_append (seen_head hs).1

theorem withoutParams_number {n : Text} (hn : IsNumber n) (s : Text) :
    withoutParams (n ++ s) = n ++ withoutParams s := by
  refine withoutParams_append_of_not_mem (fun hin => ?_) s
  rcases hn.chars _ hin with h | h
  · cases h
  · simp at h

theorem withoutParams_blanks {b : Text} (hb : ∀ c ∈ b, c = ' ') (s : Text) :
    withoutParams (b ++ s) = b ++ withoutParams s :=
  withoutParams_append_of_not_mem (fun hin => by cases hb _ hin) s

/-- What the guard sees of a token. -/
def Shows : Token → Char → Prop
  | .word w, c => c ∈ withoutParams w
  | .number n, c => c ∈ n
  | .symbol d, c => c = d
  | _, _ => False

/-- What the guard sees of a token is in what it sees of the text. -/
theorem mem_withoutParams {gap : Gap} {ls : List Lexeme} {s : Text}
    (h : Spells letter gap ls s) {l : Lexeme} (hl : l ∈ ls) {c : Char} (hc : Shows l.token c) :
    c ∈ withoutParams s := by
  induction h with
  | nil => cases hl
  | space hd _ _ ih =>
    obtain ⟨h₁, h₂⟩ := isIdentStart_of_isSpace letter hd
    rw [withoutParams_cons_of_ne (not_name h₁ h₂).2.1]
    exact List.mem_cons_of_mem _ (ih hl)
  | literal _ hb _ ih =>
    rw [withoutParams_blanks hb]
    rcases List.mem_cons.mp hl with rfl | hl
    · cases hc
    · exact List.mem_append_right _ (ih hl)
  | quoted _ hb _ ih =>
    rw [withoutParams_blanks hb]
    rcases List.mem_cons.mp hl with rfl | hl
    · cases hc
    · exact List.mem_append_right _ (ih hl)
  | word _ _ hs _ ih =>
    rw [withoutParams_append_word hs]
    rcases List.mem_cons.mp hl with rfl | hl
    · exact List.mem_append_left _ hc
    · exact List.mem_append_right _ (ih hl)
  | number hn _ _ ih =>
    rw [withoutParams_number hn]
    rcases List.mem_cons.mp hl with rfl | hl
    · exact List.mem_append_left _ hc
    · exact List.mem_append_right _ (ih hl)
  | symbol _ h₁ h₂ _ ih =>
    rw [withoutParams_cons_of_ne (not_name h₁ h₂).2.1]
    rcases List.mem_cons.mp hl with rfl | hl
    · exact List.mem_cons.mpr (.inl hc)
    · exact List.mem_cons_of_mem _ (ih hl)

/-- The rest of the text after a semicolon has the tokens after it. -/
theorem spells_after_semicolon {gap g : Gap} {ls a b : List Lexeme} {s : Text}
    (h : Spells letter gap ls s) (hls : ls = a ++ ⟨.symbol ';', g⟩ :: b) :
    ∃ u v, s = u ++ ';' :: v ∧ Spells letter .plain b v := by
  induction h generalizing a with
  | nil => simp at hls
  | @space _ _ _ c _ _ _ _ ih =>
    obtain ⟨u, v, rfl, hv⟩ := ih hls
    exact ⟨c :: u, v, rfl, hv⟩
  | @literal _ _ d _ _ _ _ ih =>
    cases a with
    | nil => cases hls
    | cons x a =>
      obtain ⟨u, v, rfl, hv⟩ := ih (List.cons.inj hls).2
      exact ⟨d ++ u, v, by simp, hv⟩
  | @quoted _ _ d _ _ _ _ ih =>
    cases a with
    | nil => cases hls
    | cons x a =>
      obtain ⟨u, v, rfl, hv⟩ := ih (List.cons.inj hls).2
      exact ⟨d ++ u, v, by simp, hv⟩
  | @word _ _ c w _ _ _ _ _ ih =>
    cases a with
    | nil => cases hls
    | cons x a =>
      obtain ⟨u, v, rfl, hv⟩ := ih (List.cons.inj hls).2
      exact ⟨c :: w ++ u, v, by simp, hv⟩
  | @number _ _ n _ _ _ _ ih =>
    cases a with
    | nil => cases hls
    | cons x a =>
      obtain ⟨u, v, rfl, hv⟩ := ih (List.cons.inj hls).2
      exact ⟨n ++ u, v, by simp, hv⟩
  | @symbol _ _ c s _ _ _ hs ih =>
    cases a with
    | nil =>
      obtain ⟨h₁, rfl⟩ := List.cons.inj hls
      obtain rfl : c = ';' := Token.symbol.inj (Lexeme.mk.inj h₁).1
      exact ⟨[], s, rfl, hs⟩
    | cons x a =>
      obtain ⟨u, v, rfl, hv⟩ := ih (List.cons.inj hls).2
      exact ⟨c :: u, v, rfl, hv⟩

/-! ## The first token -/

/-- The guard sees something of the first token, and takes it for SELECT or WITH only when it has
no other characters. -/
def FirstSeen (ts : List Token) : Prop :=
  ∀ t ∈ ts.head?, (∃ c, Shows t c ∧ Text.isSpace c = false) ∧
    ∀ w, t = .word w → Text.lower (w.takeWhile isNamePart) ∈ ["select".toList, "with".toList] →
      ∀ c ∈ w, isNamePart c = true

theorem headWord_space {c : Char} (hc : Text.isSpace c = true) (s : Text) :
    headWord (c :: s) = headWord s := by
  rw [headWord, headWord, afterBlanks, List.dropWhile_cons_of_pos hc]
  rfl

theorem headWord_other {c : Char} (hc : Text.isSpace c = false) (hs : isNameStart c = false)
    (s : Text) : headWord (c :: s) = [] := by
  simp [headWord, afterBlanks, hc, hs]

theorem takeWhile_withoutParams (s : Text) :
    (withoutParams s).takeWhile isNamePart = s.takeWhile isNamePart := by
  induction s with
  | nil => rfl
  | cons c s ih =>
    rw [withoutParams_cons]
    split
    · rename_i h
      rw [h.1]
      rfl
    · by_cases hc : isNamePart c = true
      · simp [hc, ih]
      · simp [hc]

variable (letter) in
/-- A word that does not begin as a name has no name at its head, even without parameters. -/
theorem headWord_word {w : Text} (hw : ∀ c ∈ w, isIdentPart letter c = true)
    (hhead : ∀ c ∈ w.head?, isNameStart c = false)
    (hseen : ∃ c ∈ withoutParams w, Text.isSpace c = false) (s : Text) :
    headWord (withoutParams w ++ s) = [] := by
  induction hn : w.length using Nat.strong_induction_on generalizing w with
  | h n ih =>
    subst hn
    cases w with
    | nil =>
      obtain ⟨c, hc, -⟩ := hseen
      cases hc
    | cons c w =>
      rw [withoutParams_cons] at hseen ⊢
      split at hseen
      · rename_i hparam
        have hsuffix := List.dropWhile_suffix isNamePart (l := w)
        rw [if_pos hparam, List.cons_append, headWord_space rfl]
        refine ih _ (Nat.lt_succ_of_le hsuffix.length_le)
          (fun d hd => hw d (List.mem_cons_of_mem _ (hsuffix.subset hd)))
          (fun d hd => isNameStart_eq_false (not_of_head?_dropWhile hd)) ?_ rfl
        obtain ⟨d, hd, hsp⟩ := hseen
        rcases List.mem_cons.mp hd with rfl | hd
        · cases hsp
        · exact ⟨d, hd, hsp⟩
      · rename_i hparam
        rw [if_neg hparam, List.cons_append]
        refine headWord_other ?_ (hhead c rfl) _
        by_contra h
        have := isIdentPart_of_isSpace letter (by simpa using h)
        rw [hw c List.mem_cons_self] at this
        cases this

/-- **The first word.** What the guard takes for it is the first token. -/
theorem first_of_headWord {gap : Gap} {ls : List Lexeme} {s : Text}
    (h : Spells letter gap ls s) (hfirst : FirstSeen (ls.map Lexeme.token))
    (hhead : headWord (withoutParams s) ∈ ["select".toList, "with".toList]) :
    ∃ w ts, ls.map Lexeme.token = .word w :: ts ∧
      Text.lower w ∈ ["select".toList, "with".toList] := by
  have hnone : ¬([] : Text) ∈ ["select".toList, "with".toList] := by decide
  induction h with
  | nil => exact absurd hhead hnone
  | space hd _ _ ih =>
    have hat : ∀ d, Text.isSpace d = true → d ≠ '@' := fun d hd => ne_of_isSpace hd rfl
    rw [withoutParams_cons_of_ne (hat _ hd), headWord_space hd] at hhead
    exact ih hfirst hhead
  | literal =>
    obtain ⟨c, hc, -⟩ := (hfirst _ rfl).1
    cases hc
  | quoted =>
    obtain ⟨c, hc, -⟩ := (hfirst _ rfl).1
    cases hc
  | @word _ ls c w s hc hw hs _ _ =>
    obtain ⟨hshow, hname⟩ := hfirst _ rfl
    by_cases hstart : isNameStart c = true
    · have hword : headWord (withoutParams (c :: w ++ s)) =
          Text.lower ((c :: w).takeWhile isNamePart) := by
        have hat : c ≠ '@' := by
          rintro rfl
          cases hstart
        have hsp : Text.isSpace c = false := by
          by_contra h
          rw [(isIdentStart_of_isSpace letter (by simpa using h)).1] at hc
          cases hc
        have htake : (w ++ s).takeWhile isNamePart = w.takeWhile isNamePart :=
          takeWhile_append_of_head (seen_head hs).1
        have hpart := isNamePart_of_isNameStart hstart
        rw [List.cons_append, withoutParams_cons_of_ne hat]
        simp [headWord, afterBlanks, hsp, hstart, hpart, takeWhile_withoutParams, htake]
      rw [hword] at hhead
      have hall := hname _ rfl hhead
      rw [List.takeWhile_eq_self_iff.mpr hall] at hhead
      exact ⟨c :: w, ls.map Lexeme.token, rfl, hhead⟩
    · rw [withoutParams_append_word hs, headWord_word letter
        (List.forall_mem_cons.mpr ⟨isIdentPart_of_isIdentStart letter hc, hw⟩)
        (by simpa using hstart) hshow] at hhead
      exact absurd hhead hnone
  | @number _ ls n s hn _ _ _ =>
    obtain ⟨d, n, rfl⟩ := List.exists_cons_of_ne_nil hn.ne_nil
    have hd : Text.isSpace d = false ∧ isNameStart d = false := by
      rcases hn.head d rfl with h | rfl
      · refine ⟨?_, by simp [isNameStart, isAlpha_of_isDigit h, ne_of_isDigit (d := '_') h rfl]⟩
        by_contra hs
        rw [(isIdentStart_of_isSpace letter (by simpa using hs)).2] at h
        cases h
      · decide
    rw [withoutParams_number hn, List.cons_append, headWord_other hd.1 hd.2] at hhead
    exact absurd hhead hnone
  | symbol hsp h₁ h₂ _ _ =>
    rw [withoutParams_cons_of_ne (not_name h₁ h₂).2.1,
      headWord_other hsp (isNameStart_eq_false (not_name h₁ h₂).1)] at hhead
    exact absurd hhead hnone

/-! ## Statements -/

theorem parts_append (u v : Text) : parts (u ++ ';' :: v) = parts u ++ parts v := by
  simp [parts, List.splitOn_append_cons_self]

theorem mem_splitOn_of_ne {s : Text} {c sep : Char} (hc : c ∈ s) (hne : c ≠ sep) :
    ∃ p ∈ s.splitOn sep, c ∈ p := by
  induction s with
  | nil => cases hc
  | cons d s ih =>
    rw [List.splitOn_cons_eq_if_modifyHead]
    obtain ⟨q, qs, hq⟩ := List.exists_cons_of_ne_nil (List.splitOn_ne_nil sep s)
    rcases List.mem_cons.mp hc with rfl | hc
    · rw [if_neg (by simpa using hne), hq]
      exact ⟨c :: q, List.mem_cons_self, List.mem_cons_self⟩
    · obtain ⟨p, hp, hcp⟩ := ih hc
      split
      · exact ⟨p, List.mem_cons_of_mem _ hp, hcp⟩
      · rw [hq] at hp ⊢
        rcases List.mem_cons.mp hp with rfl | hp
        · exact ⟨d :: p, List.mem_cons_self, List.mem_cons_of_mem _ hcp⟩
        · exact ⟨p, List.mem_cons_of_mem _ hp, hcp⟩

theorem mem_strip {s : Text} {c : Char} (hc : c ∈ s) (hsp : Text.isSpace c = false) :
    c ∈ s.strip := by
  obtain ⟨b, hs, hb⟩ := strip_split s
  rw [hs, List.mem_append, List.mem_append] at hc
  rcases hc with (hc | hc) | hc
  · rw [List.mem_takeWhile_imp hc] at hsp
    cases hsp
  · exact hc
  · rw [hb c hc] at hsp
    cases hsp

/-- A part has a character that is neither blank nor a semicolon. -/
theorem parts_ne_nil {s : Text} {c : Char} (hc : c ∈ s) (hne : c ≠ ';')
    (hsp : Text.isSpace c = false) : parts s ≠ [] := by
  obtain ⟨p, hp, hcp⟩ := mem_splitOn_of_ne hc hne
  have hstrip := mem_strip hcp hsp
  refine List.ne_nil_of_mem (a := Text.strip p) (List.mem_filter.mpr ⟨List.mem_map_of_mem hp, ?_⟩)
  simpa using List.ne_nil_of_mem hstrip

/-- There is a statement before a semicolon and one after it. -/
def TwoStatements (s : Text) : Prop :=
  ∃ u v c d, s = u ++ ';' :: v ∧ (c ∈ u ∧ c ≠ ';' ∧ Text.isSpace c = false) ∧
    d ∈ v ∧ d ≠ ';' ∧ Text.isSpace d = false

theorem parts_of_twoStatements {s : Text} (h : TwoStatements s) : (parts s).length ≠ 1 := by
  obtain ⟨u, v, c, d, rfl, ⟨hc, hcne, hcsp⟩, hd, hdne, hdsp⟩ := h
  have h₁ := List.length_pos_iff.mpr (parts_ne_nil hc hcne hcsp)
  have h₂ := List.length_pos_iff.mpr (parts_ne_nil hd hdne hdsp)
  rw [parts_append, List.length_append]
  omega

/-- Blanks around a text are no statement. -/
theorem TwoStatements.of_blanks {a s b : Text} (ha : ∀ c ∈ a, Text.isSpace c = true)
    (hb : ∀ c ∈ b, Text.isSpace c = true) (h : TwoStatements (a ++ s ++ b)) : TwoStatements s := by
  have hnot : ∀ {c : Char} {t : Text}, (∀ c ∈ t, Text.isSpace c = true) →
      Text.isSpace c = false → c ∉ t := by
    intro c t ht hc hin
    rw [ht c hin] at hc
    cases hc
  obtain ⟨u, v, c, d, hs, ⟨hc, hcne, hcsp⟩, hd, hdne, hdsp⟩ := h
  rw [List.append_assoc, List.append_eq_append_iff] at hs
  obtain ⟨u', rfl, hrest⟩ : ∃ u', u = a ++ u' ∧ s ++ b = u' ++ ';' :: v := by
    rcases hs with h | ⟨x, rfl, hx⟩
    · exact h
    · cases x with
      | nil => exact ⟨[], by simp, by simpa using hx.symm⟩
      | cons e x =>
        obtain ⟨rfl, -⟩ := List.cons.inj hx
        exact absurd (List.mem_append_right _ List.mem_cons_self) (hnot ha rfl)
  rw [List.append_eq_append_iff] at hrest
  obtain ⟨v', rfl, rfl⟩ : ∃ v', v = v' ++ b ∧ s = u' ++ ';' :: v' := by
    rcases hrest with ⟨x, rfl, hx⟩ | ⟨x, rfl, hx⟩
    · exact absurd (hx ▸ List.mem_append_right _ List.mem_cons_self) (hnot hb rfl)
    · cases x with
      | nil => exact absurd (hx ▸ List.mem_cons_self) (hnot hb rfl)
      | cons e x =>
        obtain ⟨rfl, rfl⟩ := List.cons.inj hx
        exact ⟨x, rfl, rfl⟩
  refine ⟨u', v', c, d, rfl, ⟨?_, hcne, hcsp⟩, ?_, hdne, hdsp⟩
  · exact (List.mem_append.mp hc).resolve_left (hnot ha hcsp)
  · exact (List.mem_append.mp hd).resolve_right (hnot hb hdsp)

/-! ## Blanks around what is seen -/

section Around

variable {a s b : Text} (ha : ∀ c ∈ a, Text.isSpace c = true) (hb : ∀ c ∈ b, Text.isSpace c = true)
include ha hb

theorem withoutParams_around : withoutParams (a ++ s ++ b) = a ++ withoutParams s ++ b := by
  have hat : ∀ {t : Text}, (∀ c ∈ t, Text.isSpace c = true) → '@' ∉ t := fun ht hin =>
    ne_of_isSpace (ht _ hin) rfl rfl
  have hhead : ∀ c ∈ b.head?, isNamePart c = false := by
    intro c hc
    obtain ⟨h₁, h₂⟩ := isIdentStart_of_isSpace (fun _ => false)
      (hb c (List.mem_of_mem_head? hc))
    exact (not_name h₁ h₂).1
  rw [List.append_assoc, withoutParams_append_of_not_mem (hat ha), withoutParams_append hhead,
    List.append_assoc]
  have hself := withoutParams_append_of_not_mem (hat hb) []
  rw [List.append_nil, show withoutParams [] = [] from rfl, List.append_nil] at hself
  rw [hself]

theorem names_seen_around : names (seen (a ++ s ++ b)) = names (seen s) := by
  have hname : ∀ {c : Char}, Text.isSpace c = true → isNamePart c = false ∧ lowerChar c = [c] := by
    intro c hc
    obtain ⟨h₁, h₂⟩ := isIdentStart_of_isSpace (fun _ => false) hc
    exact ⟨(not_name h₁ h₂).1, (not_name h₁ h₂).2.2⟩
  have hlower : ∀ {t : Text}, (∀ c ∈ t, Text.isSpace c = true) → lower t = t := by
    intro t ht
    induction t with
    | nil => rfl
    | cons c t ih =>
      rw [lower, List.flatMap_cons, (hname (ht c List.mem_cons_self)).2]
      exact congrArg (c :: ·) (ih fun d hd => ht d (List.mem_cons_of_mem _ hd))
  have hnames : ∀ {t u : Text}, (∀ c ∈ t, Text.isSpace c = true) → names (t ++ u) = names u := by
    intro t u ht
    induction t with
    | nil => rfl
    | cons c t ih =>
      rw [List.cons_append, names_cons,
        isNameStart_eq_false (hname (ht c List.mem_cons_self)).1, if_neg (by simp)]
      exact ih fun d hd => ht d (List.mem_cons_of_mem _ hd)
  have hhead : ∀ c ∈ b.head?, isNamePart c = false := fun c hc =>
    (hname (hb c (List.mem_of_mem_head? hc))).1
  rw [seen, withoutParams_around ha hb, lower_append, lower_append, hlower ha, hlower hb,
    List.append_assoc, hnames ha, names_append hhead]
  have hnil := hnames (u := []) hb
  rw [List.append_nil] at hnil
  rw [hnil]
  exact List.append_nil _

theorem headWord_around (hs : headWord s ≠ []) : headWord (a ++ s ++ b) = headWord s := by
  have hlead : headWord (a ++ s ++ b) = headWord (s ++ b) := by
    clear hb hs
    induction a with
    | nil => rfl
    | cons c a ih =>
      rw [List.cons_append, List.cons_append, headWord_space (ha c List.mem_cons_self)]
      exact ih fun d hd => ha d (List.mem_cons_of_mem _ hd)
  rw [hlead]
  have hhead : ∀ c ∈ b.head?, isNamePart c = false := by
    intro c hc
    obtain ⟨h₁, h₂⟩ := isIdentStart_of_isSpace (fun _ => false)
      (hb c (List.mem_of_mem_head? hc))
    exact (not_name h₁ h₂).1
  cases hd : s.dropWhile Text.isSpace with
  | nil => simp [headWord, afterBlanks, hd] at hs
  | cons c t =>
    have hdrop : (s ++ b).dropWhile Text.isSpace = c :: t ++ b := by
      rw [List.dropWhile_append, hd]
      rfl
    simp only [headWord, afterBlanks, hd, hdrop]
    rw [takeWhile_append_of_head hhead]
    rfl

end Around

/-! ## What is accepted -/

/-- The word writes: a keyword of `forbidden`, INTO, or an extended procedure. -/
def Writes (w : Text) : Prop :=
  Text.lower w ∈ forbidden ∨ Text.lower w = "into".toList ∨ "xp_".toList <+: Text.lower w

/-- The tokens are one statement that begins with SELECT or WITH and does not write. -/
structure Sound (ts : List Token) : Prop where
  first : ∃ w rest, ts = .word w :: rest ∧ Text.lower w ∈ ["select".toList, "with".toList]
  last : ∀ a b, ts = a ++ .symbol ';' :: b → b = []
  words : ∀ w, .word w ∈ ts → ¬Writes w
  temporary : ∀ w, .word ('#' :: w) ∉ ts

variable (letter) in
/-- The guard sees the text as the server does. -/
structure AsSeen (sql : Text) : Prop where
  flat : ∀ is, items sql = some is → ∀ i ∈ is, Flat i
  gaps : ∀ ls, lexemes letter sql = some ls → ∀ l ∈ ls, ∀ w, l.token = .word w → Writes w →
    l.gap ≠ .letters
  first : ∀ ts, tokens letter sql = some ts → FirstSeen ts
  rest : ∀ ts, tokens letter sql = some ts → ∀ a b, ts = a ++ .symbol ';' :: b → b ≠ [] →
    ∃ t ∈ b, ∃ c, Shows t c ∧ c ≠ ';' ∧ Text.isSpace c = false

theorem check_ok {ok : Bool} {message : String} {u : Unit} (h : check ok message = .ok u) :
    ok = true := by
  cases ok with
  | true => rfl
  | false => cases h

theorem checkWords_ok {ws : List Text} {u : Unit} (h : checkWords ws = .ok u) :
    ∀ w ∈ ws, w ≠ "into".toList ∧ ¬"xp_".toList <+: w ∧ w ∉ forbidden := by
  induction ws with
  | nil => simp
  | cons w ws ih =>
    obtain ⟨_, h₁, h⟩ := Exc.bind_ok h
    obtain ⟨_, h₂, h⟩ := Exc.bind_ok h
    have h₁ := check_ok h₁
    have h₂ := check_ok h₂
    split at h
    · cases h
    · rename_i h₃
      refine List.forall_mem_cons.mpr ⟨⟨by simpa using h₁, ?_, h₃⟩, ih h⟩
      rw [← List.isPrefixOf_iff_prefix, Bool.not_eq_true]
      simpa [Text.startsWith] using h₂

/-- What the accepted statement is for the guard. -/
theorem checkStatement_ok {wide : Char → Bool} {plain : Text} {u : Unit}
    (h : checkStatement wide plain = .ok u) :
    (parts (withoutParams plain)).length = 1 ∧
      headWord (withoutParams plain) ∈ ["select".toList, "with".toList] ∧
      (∀ w ∈ names (seen plain), w ≠ "into".toList ∧ ¬"xp_".toList <+: w ∧ w ∉ forbidden) ∧
      '#' ∉ withoutParams plain := by
  obtain ⟨_, h₁, h⟩ := Exc.bind_ok h
  obtain ⟨_, h₂, h⟩ := Exc.bind_ok h
  obtain ⟨_, -, h⟩ := Exc.bind_ok h
  obtain ⟨_, -, h⟩ := Exc.bind_ok h
  obtain ⟨_, h₃, h₄⟩ := Exc.bind_ok h
  refine ⟨by simpa using check_ok h₁, ?_, checkWords_ok h₃, by simpa using check_ok h₄⟩
  have hfirst := check_ok h₂
  simp only [Bool.or_eq_true, decide_eq_true_eq] at hfirst
  rw [List.mem_cons, List.mem_singleton]
  exact hfirst

theorem isNamePart_of_toLower {c : Char} (h : isNamePart c.toLower = true) :
    isNamePart c = true := by
  by_cases hup : c.isUpper = true
  · simp [isNamePart, Char.isAlphanum, Text.isAlpha_eq, hup]
  · simp only [Text.isUpper_eq, decide_eq_true_eq] at hup
    rwa [Text.toLower_eq hup] at h

/-- A word whose lower case is a name is seen in lower case. -/
theorem firstName_of_lower {w : Text} (hw : ∀ c ∈ Text.lower w, isNamePart c = true) :
    firstName w = Text.lower w := by
  have hseen : seen w = Text.lower w := by
    induction w with
    | nil => rfl
    | cons c w ih =>
      rw [Text.lower, List.map_cons, List.forall_mem_cons] at hw
      rw [seen_cons_name (isNamePart_of_toLower hw.1), ih hw.2]
      rfl
  rw [firstName, hseen, List.takeWhile_eq_self_iff.mpr hw]

theorem exists_cons_of_lower {w : Text} {d : Char} {k : Text} (h : Text.lower w = d :: k)
    (hd : isNameStart d = true) : ∃ c w', w = c :: w' ∧ isNameStart c = true ∧
      c.toLower = d ∧ Text.lower w' = k := by
  cases w with
  | nil => cases h
  | cons c w =>
    obtain ⟨rfl, rfl⟩ := List.cons.inj h
    have hpart := isNamePart_of_toLower (isNamePart_of_isNameStart hd)
    exact ⟨c, w, rfl, (lowerChar_of_isNamePart hpart).2.2 ▸ hd, rfl, rfl⟩

/-- A word that writes begins with a name, which the guard refuses. -/
theorem firstName_of_writes {w : Text} (h : Writes w) : ∃ c w', w = c :: w' ∧
    isNameStart c = true ∧ (firstName w = "into".toList ∨ "xp_".toList <+: firstName w ∨
      firstName w ∈ forbidden) := by
  -- a keyword is a name
  have hkey : ∀ k : Text, k.head?.any isNameStart ∧ k.all isNamePart → Text.lower w = k →
      ∃ c w', w = c :: w' ∧ isNameStart c = true ∧ firstName w = k := by
    intro k hk hlow
    cases k with
    | nil => simp at hk
    | cons d k =>
      obtain ⟨c, w', hw, hc, -⟩ := exists_cons_of_lower hlow (by simpa using hk.1)
      refine ⟨c, w', hw, hc, (firstName_of_lower fun d hd => ?_).trans hlow⟩
      rw [hlow] at hd
      exact List.all_eq_true.mp hk.2 d hd
  rcases h with h | h | ⟨r, hr⟩
  · have hall : ∀ k ∈ forbidden, k.head?.any isNameStart ∧ k.all isNamePart := by decide
    obtain ⟨c, w', hw, hc, hf⟩ := hkey _ (hall _ h) rfl
    exact ⟨c, w', hw, hc, .inr (.inr (hf ▸ h))⟩
  · obtain ⟨c, w', hw, hc, hf⟩ := hkey "into".toList (by decide) h
    exact ⟨c, w', hw, hc, .inl hf⟩
  · obtain ⟨c₁, w₁, rfl, hc₁, h₁, hr⟩ := exists_cons_of_lower hr.symm rfl
    obtain ⟨c₂, w₂, rfl, hc₂, h₂, hr⟩ := exists_cons_of_lower hr rfl
    obtain ⟨c₃, w₃, rfl, hc₃, h₃, -⟩ := exists_cons_of_lower hr rfl
    refine ⟨c₁, _, rfl, hc₁, .inr (.inl ⟨(seen w₃).takeWhile isNamePart, ?_⟩)⟩
    rw [firstName, seen_cons_name (isNamePart_of_isNameStart hc₁),
      seen_cons_name (isNamePart_of_isNameStart hc₂),
      seen_cons_name (isNamePart_of_isNameStart hc₃), h₁, h₂, h₃]
    rfl

theorem exists_before_semicolon {u v : Text} (h : headWord (u ++ ';' :: v) ≠ []) :
    ∃ c ∈ u, c ≠ ';' ∧ Text.isSpace c = false := by
  induction u with
  | nil => exact absurd (headWord_other rfl rfl v) h
  | cons c u ih =>
    by_cases hc : Text.isSpace c = true
    · rw [List.cons_append, headWord_space hc] at h
      obtain ⟨d, hd, hne⟩ := ih h
      exact ⟨d, List.mem_cons_of_mem _ hd, hne⟩
    · rw [Bool.not_eq_true] at hc
      refine ⟨c, List.mem_cons_self, ?_, hc⟩
      rintro rfl
      exact h (headWord_other rfl rfl _)

/-- **Lexical soundness.** The tokens of an accepted text are sound when the guard sees it as the
server does. -/
theorem sound_of_asSeen {wide : Char → Bool} {sql : Text} {params : List (Key × Value)}
    {maxRows : Int} (hseen : AsSeen letter sql)
    (hok : guardReadSql wide sql params maxRows = .ok ()) {ts : List Token}
    (hts : tokens letter sql = some ts) : Sound ts := by
  obtain ⟨ls, hls, rfl⟩ := Option.map_eq_some_iff.mp hts
  obtain ⟨is, his, rfl⟩ := Option.map_eq_some_iff.mp hls
  obtain ⟨_, -, hok⟩ := Exc.bind_ok hok
  obtain ⟨_, -, hok⟩ := Exc.bind_ok hok
  obtain ⟨plain, hplain, hok⟩ := Exc.bind_ok hok
  obtain ⟨_, hstmt, -⟩ := Exc.bind_ok hok
  -- the mask of the whole text has the tokens, and the guard looks at it without some blanks
  have hmask := maskFrom_items his (hseen.flat is his)
  rw [List.take_zero, List.map_nil, List.nil_append] at hmask
  obtain ⟨m, b, hm, hstrip, hb⟩ := mask_strip hmask
  have ha : ∀ c ∈ sql.takeWhile Text.isSpace, Text.isSpace c = true :=
    fun c hc => List.mem_takeWhile_imp hc
  generalize sql.takeWhile Text.isSpace = a at hm ha
  obtain rfl : plain = m := Except.ok.inj (hplain.symm.trans hstrip)
  have hlexed : Lexed letter .plain is := lexed letter is (by simp)
  have hspells := spells_lexFrom letter (flatten_items his).2 hlexed
  obtain ⟨hparts, hhead, hwords, htemp⟩ := checkStatement_ok hstmt
  generalize lexFrom letter .plain 0 is = ls at *
  rw [hm] at hspells
  have hnil : headWord (withoutParams plain) ≠ [] := by
    intro hnil
    rw [hnil] at hhead
    revert hhead
    decide
  constructor
  · refine first_of_headWord hspells (hseen.first _ hts) ?_
    rw [withoutParams_around ha hb, headWord_around ha hb hnil]
    exact hhead
  · intro x y hxy
    by_contra hne
    obtain ⟨t, ht, c, hc, hcne, hcsp⟩ := hseen.rest _ hts x y hxy hne
    obtain ⟨l₁, l₂, rfl, rfl, hl₂⟩ := List.map_eq_append_iff.mp hxy
    obtain ⟨⟨_, g⟩, l₂, rfl, rfl, rfl⟩ := List.map_eq_cons_iff.mp hl₂
    obtain ⟨u, v, huv, hv⟩ := spells_after_semicolon hspells rfl
    obtain ⟨l, hl, rfl⟩ := List.mem_map.mp ht
    have hd := mem_withoutParams hv hl hc
    have hsplit : a ++ withoutParams plain ++ b = withoutParams u ++ ';' :: withoutParams v := by
      rw [← withoutParams_around ha hb, huv, withoutParams_append (by simp; decide),
        withoutParams_cons_of_ne (by decide)]
    have hwhole := headWord_around ha hb hnil
    rw [hsplit] at hwhole
    obtain ⟨e, he, hene, hesp⟩ := exists_before_semicolon (hwhole ▸ hnil)
    refine parts_of_twoStatements (TwoStatements.of_blanks ha hb ?_) hparts
    exact ⟨_, _, e, c, hsplit, ⟨he, hene, hesp⟩, hd, hcne, hcsp⟩
  · intro w hw hwrites
    obtain ⟨l, hl, hlw⟩ := List.mem_map.mp hw
    obtain ⟨c, w', rfl, hc, hname⟩ := firstName_of_writes hwrites
    have hgap := hseen.gaps ls hls l hl _ hlw hwrites
    obtain ⟨t, g⟩ := l
    obtain rfl : t = .word (c :: w') := hlw
    have hmem := firstName_mem_of_spells hspells hc hl hgap
    rw [if_neg (by simp), names_seen_around ha hb] at hmem
    obtain ⟨h₁, h₂, h₃⟩ := hwords _ hmem
    rcases hname with h | h | h
    · exact h₁ h
    · exact h₂ h
    · exact h₃ h
  · intro w hw
    obtain ⟨l, hl, hlw⟩ := List.mem_map.mp hw
    have hshow : Shows l.token '#' := by
      rw [hlw]
      show '#' ∈ withoutParams ('#' :: w)
      rw [withoutParams_cons_of_ne (by decide)]
      exact List.mem_cons_self
    have hmem := mem_withoutParams hspells hl hshow
    rw [withoutParams_around ha hb, List.mem_append, List.mem_append] at hmem
    rcases hmem with (h | h) | h
    · cases ha _ h
    · exact htemp h
    · cases hb _ h

theorem sound_of_asSeen_literal : Sound [.word "SELECT".toList, .word "TOP".toList, .symbol '(',
    .number "1".toList, .symbol ')', .literal] := by
  have hflat : (items "SELECT TOP (1) 'it''s;' /* -- */".toList).all
      (fun is => is.all fun i => decide (Flat i)) = true := by decide +kernel
  have hgaps : (lexemes (fun _ => false) "SELECT TOP (1) 'it''s;' /* -- */".toList).all
      (fun ls => ls.all fun l => l.gap ≠ .letters) = true := by decide +kernel
  have htokens : tokens (fun _ => false) "SELECT TOP (1) 'it''s;' /* -- */".toList =
      some [.word "SELECT".toList, .word "TOP".toList, .symbol '(', .number "1".toList, .symbol ')',
        .literal] := by decide +kernel
  have hok :
      guardReadSql (fun _ => false) "SELECT TOP (1) 'it''s;' /* -- */".toList [] 1 = .ok () := by
    decide +kernel
  refine sound_of_asSeen ⟨?_, ?_, ?_, ?_⟩ hok htokens
  · intro is h
    rw [h] at hflat
    simpa using hflat
  · intro ls h l hl _ _ _
    rw [h, Option.all_some, List.all_eq_true] at hgaps
    simpa using hgaps l hl
  · intro ts h
    rw [htokens] at h
    obtain rfl := Option.some.inj h
    rintro t ⟨rfl⟩
    have hshow : 'S' ∈ withoutParams "SELECT".toList := by decide
    refine ⟨⟨'S', hshow, rfl⟩, ?_⟩
    rintro w ⟨rfl⟩ -
    decide
  · intro ts h a b hab
    rw [htokens] at h
    obtain rfl := Option.some.inj h
    have hmem : Token.symbol ';' ∈ a ++ .symbol ';' :: b := by simp
    rw [← hab] at hmem
    exact absurd hmem (by decide)

/-- The guard lets a text through that deletes: for the server the comment goes on behind `*/`. -/
theorem nestedComment_not_sound : ¬∀ (sql : Text) (params : List (Key × Value)) (maxRows : Int)
    (ts : List Token), guardReadSql (fun _ => false) sql params maxRows = .ok () →
      tokens (fun _ => false) sql = some ts → Sound ts := by
  intro h
  have hsound := h "SELECT TOP (1) 1 /* /* */ ' */ DELETE FROM t --'".toList [] 1
    [.word "SELECT".toList, .word "TOP".toList, .symbol '(', .number "1".toList, .symbol ')',
      .number "1".toList, .word "DELETE".toList, .word "FROM".toList, .word "t".toList]
    (by decide +kernel) (by decide +kernel)
  exact hsound.words "DELETE".toList (by decide) (.inl (by decide))

end SqlGateway
