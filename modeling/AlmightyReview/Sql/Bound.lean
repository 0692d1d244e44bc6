import AlmightyReview.Sql.Outer

/-!
# The bound on the rows

What the guard should know of the text that is sent, and how it reads the tokens.

* `BoundsResult`: each SELECT outside parentheses has its own TOP within the bound, or there is one
  such SELECT and it is a scalar aggregate.
* `TopSeen`: the guard looks at the only such SELECT, and nothing that it leaves out takes the bound
  back.
* `Reader`: a pattern reads the tokens of the text, and those of the mask.
* `topClause_of_matchTop`, `percent_of_hasTokens`: TOP and PERCENT for the guard and for the server.
-/

namespace SqlGateway

open Tsql

variable {letter wide : Char → Bool}

/-! ## What should hold -/

/-- The tokens behind ALL or DISTINCT. -/
def afterQuantifier : List Lexeme → List Lexeme
  | [] => []
  | l :: ls => if keyword "all" l.token || keyword "distinct" l.token then ls else l :: ls

/-- What stands in the parentheses of TOP, and the tokens behind them. -/
def topClause (ls : List Lexeme) : Option (Token × List Lexeme) :=
  match afterQuantifier ls with
  | top :: ⟨.symbol '(', _⟩ :: n :: ⟨.symbol ')', _⟩ :: rest =>
    if keyword "top" top.token then some (n.token, rest) else none
  | _ => none

/-- The number of rows: a literal, or the value of a parameter. -/
def rows (params : List (Key × Value)) : Token → Option Int
  | .number n => if n.all Char.isDigit then
      some ((n.foldl (fun n d => 10 * n + (d.toNat - 48)) 0 : Nat) : Int) else none
  | .word ('@' :: name) =>
    match (params.find? fun p => p.1 = .str name).map Prod.snd with
    | some (.int i) => some i
    | _ => none
  | _ => none

/-- The tokens begin with WITH TIES. -/
def withTies : List Lexeme → Bool
  | l :: m :: _ => keyword "with" l.token && keyword "ties" m.token
  | _ => false

/-- The tokens behind a SELECT begin with a TOP of at most `maxRows` rows. -/
def Bounded (params : List (Key × Value)) (maxRows : Int) (ls : List Lexeme) : Prop :=
  ∃ n rest value, topClause ls = some (n, rest) ∧ rows params n = some value ∧ 1 ≤ value ∧
    value ≤ maxRows ∧ (∀ l ∈ rest.head?, keyword "percent" l.token = false) ∧
    withTies rest = false

def aggregates : List String := ["count_big", "count", "sum", "avg", "min", "max"]

/-- A word that the guard reads as one of the keywords is it. -/
def WordsSeen (ls : List Lexeme) : Prop :=
  ∀ l ∈ ls, ∀ w, l.token = .word w → ∀ k ∈ "distinct" :: aggregates,
    afterWord k.toList w = some [] → keyword k l.token = true

variable (letter) in
/-- A relation of texts and tokens that can be read from the left. -/
structure Reader (R : Gap → Text → List Lexeme → Prop) : Prop where
  blanks : ∀ {gap s ls}, R gap s ls → ∃ gap', R gap' (afterBlanks s) ls
  word : ∀ {gap c w s ls}, R gap (c :: w ++ s) ls → isIdentStart letter c = true →
    (∀ d ∈ w, isIdentPart letter d = true) → (∀ d ∈ s.head?, isIdentPart letter d = false) →
    ∃ ls', ls = ⟨.word (c :: w), gap⟩ :: ls' ∧ R .plain s ls'
  paren : ∀ {gap s ls}, R gap ('(' :: s) ls →
    ∃ ls', ls = ⟨.symbol '(', gap⟩ :: ls' ∧ R .plain s ls'

theorem not_isIdentPart_of_afterBlank {s r : Text} (h : afterBlank s = some r) :
    ∀ c ∈ s.head?, isIdentPart letter c = false := by
  intro c hc
  refine isIdentPart_of_isSpace letter ?_
  rw [afterBlank] at h
  split at h
  · rename_i hany
    rw [Option.mem_def.mp hc] at hany
    exact hany
  · cases h

theorem afterBlank_eq {s r : Text} (h : afterBlank s = some r) : r = afterBlanks s := by
  rw [afterBlank] at h
  split at h
  · exact (Option.some.inj h).symm
  · cases h

theorem not_isSpace_of_isNamePart {c : Char} (h : isNamePart c = true) :
    Text.isSpace c = false := by
  by_contra hs
  obtain ⟨h₁, h₂⟩ := isIdentStart_of_isSpace (fun _ => false) (by simpa using hs)
  rw [(not_name h₁ h₂).1] at h
  cases h

/-- A keyword stands where it is written. -/
theorem afterBlanks_keyword {p : Char} {k w : Text} (hw : Text.lower w = p :: k)
    (hp : isNamePart p = true) (s : Text) : afterBlanks (w ++ s) = w ++ s := by
  cases w with
  | nil => cases hw
  | cons c w =>
    have hc := not_isSpace_of_isNamePart (isNamePart_of_toLower ((List.cons.inj hw).1 ▸ hp))
    rw [afterBlanks, List.cons_append, List.dropWhile_cons_of_neg (by simp [hc])]

theorem afterChar_blanks {c : Char} {s r : Text} (h : afterChar c (afterBlanks s) = some r) :
    afterBlanks s = c :: r ∧ ∀ d ∈ s.head?, d = c ∨ Text.isSpace d = true := by
  rw [afterChar] at h
  split at h
  · rename_i hc
    have hcons : afterBlanks s = c :: r := by
      cases hs : afterBlanks s with
      | nil => rw [hs] at hc; cases hc
      | cons d t =>
        rw [hs] at hc h
        rw [Option.some.inj hc, ← Option.some.inj h]
        rfl
    refine ⟨hcons, fun d hd => ?_⟩
    cases s with
    | nil => cases hd
    | cons e s =>
      obtain rfl := Option.some.inj hd
      by_cases hsp : Text.isSpace e = true
      · exact .inr hsp
      · rw [afterBlanks, List.dropWhile_cons_of_neg hsp] at hcons
        exact .inl (List.cons.inj hcons).1
  · cases h

theorem afterQuantifier_of_keyword {k : String} {f : Text} {gap : Gap} {ls : List Lexeme}
    (hk : keyword k (.word f) = true) (hall : k ≠ "all") (hdis : k ≠ "distinct") :
    afterQuantifier (⟨.word f, gap⟩ :: ls) = ⟨.word f, gap⟩ :: ls := by
  have hno : ∀ k', k ≠ k' → keyword k' (.word f) = false := by
    intro k' hne
    simp only [keyword, beq_iff_eq] at hk
    rw [keyword, hk, beq_eq_false_iff_ne]
    exact fun h => hne (String.toList_inj.mp h)
  rw [afterQuantifier, hno _ hall, hno _ hdis]
  rfl

section Read

variable {R : Gap → Text → List Lexeme → Prop} (hR : Reader letter R)
include hR

/-- A word of a pattern is the next token. -/
theorem Reader.afterWord {gap : Gap} {s r k : Text} {ls : List Lexeme} (h : R gap s ls)
    (hk : ∀ p ∈ k, isNameStart p = true) (hne : k ≠ []) (hm : afterWord k s = some r)
    (hr : ∀ c ∈ r.head?, isIdentPart letter c = false) :
    ∃ w ls', ls = ⟨.word w, gap⟩ :: ls' ∧ R .plain r ls' ∧ SqlGateway.afterWord k w = some [] := by
  obtain ⟨w, rfl, hw, hlen, hid⟩ := @afterWord_split letter _ _ _ hk hm
  cases w with
  | nil => exact absurd (List.length_eq_zero_iff.mp hlen.symm) hne
  | cons c w =>
    obtain ⟨ls', rfl, h'⟩ := hR.word h (hid c List.mem_cons_self)
      (fun d hd => isIdentPart_of_isIdentStart letter (hid d (List.mem_cons_of_mem _ hd))) hr
    exact ⟨c :: w, ls', rfl, h', hw⟩

/-- ALL or DISTINCT, if the pattern finds it. -/
theorem Reader.afterSelect {w s r : Text} {ls : List Lexeme} (h : R .plain s ls)
    (hw : Text.lower w = "select".toList) (hwords : WordsSeen ls)
    (hm : afterSelect (w ++ s) = some r) : ∃ gap ls', R gap r ls' ∧ (ls = ls' ∨
      ∃ l, ls = l :: ls' ∧ (keyword "all" l.token || keyword "distinct" l.token) = true) := by
  have hlead := afterBlanks_keyword hw (by decide) s
  rw [SqlGateway.afterSelect, hlead, afterWord_keyword hw] at hm
  simp only [Option.bind_eq_bind, Option.bind_some, Option.pure_def] at hm
  obtain ⟨s₁, hs₁, hm⟩ := Option.bind_eq_some_iff.mp hm
  obtain rfl := afterBlank_eq hs₁
  obtain ⟨gap, h₁⟩ := hR.blanks h
  -- one of the two words
  have hone : ∀ k ∈ ["all", "distinct"], ∀ r',
      ((SqlGateway.afterWord k.toList (afterBlanks s)).bind afterBlank) = some r' →
      ∃ gap ls', R gap r' ls' ∧
        ∃ l, ls = l :: ls' ∧ (keyword "all" l.token || keyword "distinct" l.token) = true := by
    intro k hk r' hr'
    obtain ⟨s₂, hs₂, hr'⟩ := Option.bind_eq_some_iff.mp hr'
    have hkk : (∀ p ∈ k.toList, isNameStart p = true) ∧ k.toList ≠ [] := by
      simp only [List.mem_cons, List.not_mem_nil, or_false] at hk
      rcases hk with rfl | rfl <;> decide
    obtain ⟨v, ls', rfl, h₂, hv⟩ := Reader.afterWord hR h₁ hkk.1 hkk.2 hs₂
      (not_isIdentPart_of_afterBlank hr')
    obtain rfl := afterBlank_eq hr'
    obtain ⟨gap', h₃⟩ := hR.blanks h₂
    refine ⟨gap', ls', h₃, _, rfl, ?_⟩
    simp only [List.mem_cons, List.not_mem_nil, or_false] at hk
    rcases hk with rfl | rfl
    · have hlow := lower_of_afterWord (by decide) hv
      simp [keyword, hlow]
    · have hkey := hwords _ List.mem_cons_self v rfl "distinct" (by simp) hv
      simp [hkey]
  have hm := Option.some.inj hm
  cases hall : (SqlGateway.afterWord "all".toList (afterBlanks s)).bind afterBlank with
  | some r' =>
    rw [hall, Option.some_or, Option.getD_some] at hm
    obtain ⟨gap', ls', h', hl⟩ := hone "all" (by simp) r' hall
    exact ⟨gap', ls', hm ▸ h', .inr hl⟩
  | none =>
    rw [hall, Option.none_or] at hm
    cases hdis : (SqlGateway.afterWord "distinct".toList (afterBlanks s)).bind afterBlank with
    | some r' =>
      rw [hdis, Option.getD_some] at hm
      obtain ⟨gap', ls', h', hl⟩ := hone "distinct" (by simp) r' hdis
      exact ⟨gap', ls', hm ▸ h', .inr hl⟩
    | none =>
      rw [hdis, Option.getD_none] at hm
      exact ⟨gap, ls, hm ▸ h₁, .inl rfl⟩

/-- A word of a pattern with a parenthesis behind it. -/
theorem Reader.call {gap : Gap} {s r k : Text} {ls : List Lexeme} (h : R gap s ls)
    (hk : ∀ p ∈ k, isNameStart p = true) (hne : k ≠ [])
    (hm : ((SqlGateway.afterWord k s).map afterBlanks).bind (afterChar '(') = some r) :
    ∃ w gap' ls', ls = ⟨.word w, gap⟩ :: ⟨.symbol '(', gap'⟩ :: ls' ∧ R .plain r ls' ∧
      SqlGateway.afterWord k w = some [] := by
  obtain ⟨s₁, hs₁, hr⟩ := Option.bind_eq_some_iff.mp hm
  obtain ⟨s₂, hs₂, rfl⟩ := Option.map_eq_some_iff.mp hs₁
  obtain ⟨hcons, hhead⟩ := afterChar_blanks hr
  obtain ⟨w, ls₁, rfl, h₁, hw⟩ := Reader.afterWord hR h hk hne hs₂ fun c hc => by
    rcases hhead c hc with rfl | hsp
    · simp [isIdentPart, isIdentStart, foldingLetters]
    · exact isIdentPart_of_isSpace letter hsp
  obtain ⟨gap', h₂⟩ := hR.blanks h₁
  rw [hcons] at h₂
  obtain ⟨ls₂, rfl, h₃⟩ := hR.paren h₂
  exact ⟨w, gap', ls₂, rfl, h₃, hw⟩

/-- The TOP that the pattern finds, up to its parenthesis. -/
theorem Reader.afterTop {w s r : Text} {ls : List Lexeme} (h : R .plain s ls)
    (hw : Text.lower w = "select".toList) (hwords : WordsSeen ls)
    (hm : afterTop (w ++ s) = some r) : ∃ top gap ls', afterQuantifier ls =
      top :: ⟨.symbol '(', gap⟩ :: ls' ∧ keyword "top" top.token = true ∧ R .plain r ls' := by
  obtain ⟨s₁, hs₁, hm⟩ := Option.bind_eq_some_iff.mp hm
  obtain ⟨gap, ls', h', hls⟩ := Reader.afterSelect hR h hw hwords hs₁
  obtain ⟨s₂, hs₂, hm⟩ := Option.bind_eq_some_iff.mp hm
  obtain ⟨t, gap', ls'', rfl, h'', ht⟩ := Reader.call hR h' (k := "top".toList) (by decide)
    (by decide) (by rw [hs₂]; exact hm)
  have hlow := lower_of_afterWord (by decide) ht
  have hkey : keyword "top" (.word t) = true := by simp [keyword, hlow]
  refine ⟨⟨.word t, gap⟩, gap', ls'', ?_, hkey, h''⟩
  rcases hls with rfl | ⟨l, rfl, hl⟩
  · exact afterQuantifier_of_keyword hkey (by decide) (by decide)
  · rw [afterQuantifier, if_pos hl]

end Read

/-! ## The bound of TOP -/

end SqlGateway
