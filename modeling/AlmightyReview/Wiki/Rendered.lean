import AlmightyReview.Context.Schema
import AlmightyReview.Db
import AlmightyReview.Lib.Decimal
import AlmightyReview.Wiki.Catalog

/-!
# Reading a rendered schema

How the reader of the catalog takes the statements of `render_schema`.

* `headerName_header`, `IsLine`: a header whose names have no `$`, and the line of a column.
* `parseTables_join`: the statements of the groups are found again (`ReadsAs`).
* `Runs`: a run of the machine that splits the items; runs of the parts of a line compose.
* `mem_catalogEntries`: the entries of the catalog, in terms of the rows.
-/

namespace DbCatalog

open Json (join)
open MssqlSchema

/-! ## Characters -/

theorem ascii_forall {p : Char → Prop} (h : ∀ n < 128, p (Char.ofNat n)) {c : Char}
    (hc : c.toNat < 128) : p c := by
  have := h c.toNat hc
  rwa [Char.ofNat_toNat] at this

theorem toNat_of_isPart {c : Char} (h : isPart c = true) : c.toNat < 128 := by
  have hZ : 'Z'.val.toNat = 90 := rfl
  have hz : 'z'.val.toNat = 122 := rfl
  have hc : c.val.toNat = c.toNat := rfl
  simp only [isPart, isStart, isLetter, Decimal.isDigit, Bool.or_eq_true, Bool.and_eq_true,
    decide_eq_true_eq, beq_iff_eq, Char.le_def, UInt32.le_iff_toNat_le] at h
  rcases h with (((h | h) | rfl) | h) | rfl
  · omega
  · omega
  · decide
  · omega
  · decide

theorem ne_of_isPart {c d : Char} (h : isPart c = true) (hd : isPart d = false) : c ≠ d := by
  rintro rfl
  rw [h] at hd
  cases hd

theorem isSpace_of_isPart {c : Char} (h : isPart c = true) : Text.isSpace c = false := by
  have key : ∀ n < 128, isPart (Char.ofNat n) = true → Text.isSpace (Char.ofNat n) = false := by
    decide
  exact ascii_forall (p := fun c => isPart c = true → Text.isSpace c = false) key
    (toNat_of_isPart h) h

theorem isLineBreak_of_isPart {c : Char} (h : isPart c = true) : Text.isLineBreak c = false := by
  have key : ∀ n < 128, isPart (Char.ofNat n) = true → Text.isLineBreak (Char.ofNat n) = false := by
    decide
  exact ascii_forall (p := fun c => isPart c = true → Text.isLineBreak c = false) key
    (toNat_of_isPart h) h

variable (u : Unicode)

theorem isWord_of_isPart {c : Char} (h : isPart c = true) (hc : c ≠ '$') : isWord u c = true := by
  have key : ∀ n < 128, isPart (Char.ofNat n) = true → Char.ofNat n ≠ '$' →
      ((Char.ofNat n).isAlphanum || Char.ofNat n == '_') = true := by
    decide
  have hn := toNat_of_isPart h
  rw [isWord, if_pos (by simpa [isAscii] using hn)]
  exact ascii_forall (p := fun c => isPart c = true → c ≠ '$' →
    (c.isAlphanum || c == '_') = true) key hn h hc

theorem isIdentifier_spec {s : Text} (h : isIdentifier s = true) :
    s ≠ [] ∧ ∀ c ∈ s, isPart c = true := by
  cases s with
  | nil => cases h
  | cons c s =>
    simp only [isIdentifier, Bool.and_eq_true, List.all_eq_true] at h
    refine ⟨List.cons_ne_nil _ _, fun d hd => ?_⟩
    rcases List.mem_cons.mp hd with rfl | hd
    · simp [isPart, h.1.1]
    · exact h.1.2 d hd

theorem isPart_of_isType {s : Text} (h : isType s = true) : ∀ c ∈ s, isPart c = true := by
  cases s with
  | nil => cases h
  | cons c s =>
    simp only [isType, Bool.and_eq_true, List.all_eq_true, Bool.or_eq_true] at h
    intro d hd
    rcases List.mem_cons.mp hd with rfl | hd
    · simp [isPart, isStart, h.1.1]
    · rcases h.1.2 d hd with hd | hd <;> simp [isPart, hd]

/-! ## Headers -/

theorem isWord_bracket : isWord u ']' = false := rfl

theorem segment_quoted {s : Text} (hs : s ≠ []) (hword : ∀ c ∈ s, isWord u c = true)
    (rest : Text) :
    segment u ('[' :: s ++ ']' :: rest) = some ('[' :: s ++ [']'], rest) := by
  have htake : (s ++ ']' :: rest).takeWhile (isWord u) = s := by
    rw [List.takeWhile_append_of_pos hword, List.takeWhile_cons_of_neg (by simp [isWord_bracket u]),
      List.append_nil]
  have hdrop : (s ++ ']' :: rest).dropWhile (isWord u) = ']' :: rest := by
    rw [List.dropWhile_append_of_pos hword, List.dropWhile_cons_of_neg (by simp [isWord_bracket u])]
  have hopening : optional ['`', '"', '['] ('[' :: s ++ ']' :: rest) = (['['], s ++ ']' :: rest) :=
    rfl
  have hclosing : optional ['`', '"', ']'] (']' :: rest) = ([']'], rest) := rfl
  unfold segment
  simp only [hopening, htake, hdrop, hclosing, if_neg hs]
  rfl

theorem qualified_quoted {s t : Text} (hs : s ≠ []) (hsw : ∀ c ∈ s, isWord u c = true)
    (ht : t ≠ []) (htw : ∀ c ∈ t, isWord u c = true) (rest : Text) :
    qualified u ('[' :: s ++ ']' :: '.' :: '[' :: t ++ ']' :: rest) =
      some ('[' :: s ++ ']' :: '.' :: '[' :: t ++ [']']) := by
  have hfirst : segment u ('[' :: s ++ ']' :: '.' :: '[' :: t ++ ']' :: rest) =
      some ('[' :: s ++ [']'], '.' :: ('[' :: t ++ ']' :: rest)) := by
    rw [← segment_quoted u hs hsw]
    simp
  unfold qualified
  simp only [hfirst, segment_quoted u ht htw]
  simp

/-- The name in the header of a table. -/
def headerGroup (schema table : Text) : Text :=
  '[' :: schema ++ ']' :: '.' :: '[' :: table ++ [']']

theorem headerName_header {s t : Text} (hs : s ≠ []) (hsw : ∀ c ∈ s, isWord u c = true)
    (ht : t ≠ []) (htw : ∀ c ∈ t, isWord u c = true) (rest : Text) :
    headerName u (header s t ++ rest) = some (headerGroup s t) := by
  have hcreate :
      "CREATE TABLE [".toList = "CREATE".toList ++ ' ' :: ("TABLE".toList ++ [' ', '[']) := by
    decide
  have hdot : "].[".toList = [']', '.', '['] := by decide
  have hopen : "] (\n".toList = ']' :: " (\n".toList := by decide
  have hshape : header s t ++ rest = "CREATE".toList ++ ' ' :: ("TABLE".toList ++ ' ' ::
      ('[' :: s ++ ']' :: '.' :: '[' :: t ++ ']' :: (" (\n".toList ++ rest))) := by
    unfold header
    rw [hcreate, hdot, hopen]
    simp only [List.append_assoc, List.cons_append, List.nil_append]
  rw [hshape]
  have hq := qualified_quoted u hs hsw ht htw (" (\n".toList ++ rest)
  have hw : ∃ v, ('[' :: s ++ ']' :: '.' :: '[' :: t ++ ']' :: (" (\n".toList ++ rest)) =
      '[' :: v :=
    ⟨_, rfl⟩
  generalize ('[' :: s ++ ']' :: '.' :: '[' :: t ++ ']' :: (" (\n".toList ++ rest)) = w at hq hw ⊢
  obtain ⟨v, rfl⟩ := hw
  have h₁ : keyword "create".toList (Text.lstrip ("CREATE".toList ++ ' ' ::
      ("TABLE".toList ++ ' ' :: '[' :: v))) =
        some (' ' :: ("TABLE".toList ++ ' ' :: '[' :: v)) := by
    rfl
  have h₂ :
      keyword "table".toList ("TABLE".toList ++ ' ' :: '[' :: v) = some (' ' :: '[' :: v) := by
    rfl
  have h₃ : ifNotExists ('[' :: v) = none := by
    rfl
  have h₄ : spaces (' ' :: ("TABLE".toList ++ ' ' :: '[' :: v)) =
      some ("TABLE".toList ++ ' ' :: '[' :: v) := rfl
  have h₅ : spaces (' ' :: '[' :: v) = some ('[' :: v) := rfl
  unfold headerName
  simp only [h₁, h₂, h₃, h₄, h₅, hq, Option.bind_eq_bind, Option.bind_some, Option.bind_none,
    Option.none_or]
  rfl

/-! ## Lines -/

/-- What stands behind the name of a type. -/
def Arguments (a : Text) : Prop :=
  a = [] ∨ ∃ inner, a = '(' :: inner ++ [')'] ∧ ∀ c ∈ inner, isPart c = true ∨ c = ','

theorem isPart_of_mem_ofNat {n : Nat} {c : Char} (hc : c ∈ Text.ofNat n) : isPart c = true := by
  have hd : Decimal.isDigit c = true := Decimal.isDigit_iff.mpr
    (Nat.isDigit_of_mem_toDigits (by decide) (by decide) hc)
  simp [isPart, hd]

theorem isPart_of_mem_ofInt {n : Int} (hn : 0 ≤ n) {c : Char} (hc : c ∈ Text.ofInt n) :
    isPart c = true := by
  obtain ⟨k, rfl⟩ := Int.eq_ofNat_of_zero_le hn
  exact isPart_of_mem_ofNat hc

theorem arguments_lengthText (length : Option Int) : Arguments (lengthText length) := by
  unfold lengthText
  split
  · rename_i n
    split
    · exact .inr ⟨"MAX".toList, rfl, by decide⟩
    · split
      · rename_i hn
        exact .inr ⟨Text.ofInt n, rfl, fun c hc => .inl (isPart_of_mem_ofInt hn.le hc)⟩
      · exact .inl rfl
  · exact .inl rfl

theorem boundedInt_ok {v : Json.Loaded} {minimum maximum : Int} {r : Option Int}
    (h : boundedInt v minimum maximum = .ok r) : ∀ n ∈ r, minimum ≤ n := by
  have hmap : ∀ {x : Except OverflowError (Option Int)},
      (x.map fun number => number.filter fun n => minimum ≤ n ∧ n ≤ maximum) = .ok r →
        ∀ n ∈ r, minimum ≤ n := by
    intro x hx n hn
    cases x with
    | error e => cases hx
    | ok number =>
      obtain rfl := Except.ok.inj hx
      rw [Option.mem_def, Option.filter_eq_some_iff] at hn
      simp only [decide_eq_true_eq] at hn
      exact hn.2.1
  unfold boundedInt at h
  split at h
  · obtain rfl := Except.ok.inj h
    intro n hn
    cases hn
  · exact hmap h

theorem arguments_precisionText {p s : Option Int} (hp : ∀ n ∈ p, 1 ≤ n) (hs : ∀ n ∈ s, 0 ≤ n) :
    Arguments (precisionText p s) := by
  unfold precisionText
  split
  · rename_i p s
    split
    · refine .inr ⟨Text.ofInt p ++ ',' :: Text.ofInt s, by simp, fun c hc => ?_⟩
      rcases List.mem_append.mp hc with hc | hc
      · exact .inl (isPart_of_mem_ofInt (by have := hp p rfl; omega) hc)
      · rcases List.mem_cons.mp hc with rfl | hc
        · exact .inr rfl
        · exact .inl (isPart_of_mem_ofInt (hs s rfl) hc)
    · exact .inl rfl
  · exact .inl rfl

theorem typeSql_ok {row : SchemaRow} {type : Text} (h : typeSql row = .ok type) :
    ∃ a, Arguments a ∧ type = row.dataType ++ a := by
  unfold typeSql at h
  dsimp only at h
  split at h
  · obtain ⟨length, -, h⟩ := Exc.bind_ok h
    exact ⟨_, arguments_lengthText length, (Except.ok.inj h).symm⟩
  split at h
  · obtain ⟨p, hp, h⟩ := Exc.bind_ok h
    obtain ⟨s, hs, h⟩ := Exc.bind_ok h
    exact ⟨_, arguments_precisionText (boundedInt_ok hp) (boundedInt_ok hs),
      (Except.ok.inj h).symm⟩
  · exact ⟨[], .inl rfl, by rw [List.append_nil, Except.ok.inj h]⟩

/-- The line of the column of a row. -/
def IsLine (row : SchemaRow) (line : Text) : Prop :=
  ∃ a null, Arguments a ∧ null ∈ [[], "NOT ".toList] ∧
    line = ' ' :: ' ' :: '[' :: row.column ++ ']' :: ' ' :: row.dataType ++ a ++ ' ' :: null ++
      "NULL".toList

theorem isLine_of_columnLine {row : SchemaRow} {line : Text} (h : columnLine row = .ok line) :
    IsLine row line := by
  obtain ⟨type, htype, h⟩ := Exc.bind_ok h
  obtain ⟨a, ha, rfl⟩ := typeSql_ok htype
  have hnull : (if row.nullable then "NULL" else "NOT NULL").toList =
      (if row.nullable then [] else "NOT ".toList) ++ "NULL".toList := by
    split <;> decide
  refine ⟨a, if row.nullable then [] else "NOT ".toList, ha, by split <;> simp, ?_⟩
  rw [← Except.ok.inj h, hnull]
  have h₁ : "  [".toList = [' ', ' ', '['] := by decide
  have h₂ : "] ".toList = [']', ' '] := by decide
  have h₃ : " ".toList = [' '] := by decide
  rw [h₁, h₂, h₃]
  simp only [List.append_assoc, List.cons_append, List.nil_append]

/-! ### The end of a statement -/

theorem removeComment_eq {s : Text} (h : '-' ∉ s) : removeComment s = s := by
  induction s with
  | nil => rfl
  | cons c s ih =>
    rw [List.mem_cons, not_or] at h
    rw [removeComment.eq_2 _ _ fun t hc _ => h.1 hc.symm, ih h.2]

theorem terminates_append {b t : Text} {d c : Char} (hb : ∀ e ∈ b, Text.isSpace e = true)
    (hd : Text.isSpace d = false) (hdp : d ≠ ')') (hdash : '-' ∉ b ++ d :: t ++ [c, '\n'])
    (hc : Text.isSpace c = false) (hcs : c ≠ ';') :
    terminates (b ++ d :: t ++ [c, '\n']) = false := by
  have hhead : (Text.lstrip (b ++ d :: t ++ [c, '\n'])).head? = some d := by
    rw [List.append_assoc, Text.lstrip, List.dropWhile_append_of_pos hb, List.cons_append,
      List.dropWhile_cons_of_neg (by simp [hd])]
    rfl
  have hlast : (Text.rstrip (b ++ d :: t ++ [c, '\n'])).getLast? = some c := by
    rw [Text.rstrip, List.getLast?_reverse, List.reverse_append]
    show (List.dropWhile Text.isSpace ('\n' :: c :: (b ++ d :: t).reverse)).head? = some c
    rw [List.dropWhile_cons_of_pos (by decide), List.dropWhile_cons_of_neg (by simp [hc])]
    rfl
  unfold terminates
  rw [removeComment_eq hdash, hhead, hlast]
  simp [hdp, hcs]

theorem terminates_close {t : Text} : terminates (')' :: t) = true := by
  have hhead : (Text.lstrip (')' :: t)).head? = some ')' := rfl
  unfold terminates
  rw [hhead]
  rfl

/-- What the reader of lines has to know of the line of a column. -/
theorem IsLine.shape {row : SchemaRow} {line : Text} (h : IsLine row line) :
    ∃ t, line = "  ".toList ++ '[' :: t ++ ['L'] ∧
      ∀ c ∈ t, isPart c = true ∨ c ∈ [' ', ']', '(', ')', ','] := by
  obtain ⟨a, null, ha, hnull, rfl⟩ := h
  refine ⟨row.column ++ ']' :: ' ' :: row.dataType ++ a ++ ' ' :: null ++ "NUL".toList, ?_,
    fun c hc => ?_⟩
  · have h₁ : "  ".toList = [' ', ' '] := by decide
    have h₂ : "NULL".toList = "NUL".toList ++ ['L'] := by decide
    rw [h₁, h₂]
    simp only [List.append_assoc, List.cons_append, List.nil_append]
  · have hcolumn := (isIdentifier_spec row.column_valid).2
    have htype := isPart_of_isType row.dataType_valid
    have harguments : ∀ c ∈ a, isPart c = true ∨ c ∈ [' ', ']', '(', ')', ','] := by
      rcases ha with rfl | ⟨inner, rfl, hinner⟩
      · simp
      · intro c hc
        simp only [List.mem_append, List.mem_cons, List.not_mem_nil, or_false] at hc
        rcases hc with (rfl | hc) | rfl
        · decide
        · rcases hinner c hc with hc | rfl
          · exact .inl hc
          · decide
        · decide
    have hwords : ∀ c ∈ ' ' :: null ++ "NUL".toList,
        isPart c = true ∨ c ∈ [' ', ']', '(', ')', ','] := by
      simp only [List.mem_cons, List.not_mem_nil, or_false] at hnull
      rcases hnull with rfl | rfl <;> decide
    have hshape : row.column ++ ']' :: ' ' :: row.dataType ++ a ++ ' ' :: null ++ "NUL".toList =
        row.column ++ ([']', ' '] ++ (row.dataType ++ (a ++ (' ' :: null ++ "NUL".toList)))) := by
      simp only [List.append_assoc, List.cons_append, List.nil_append]
    rw [hshape] at hc
    rcases List.mem_append.mp hc with hc | hc
    · exact .inl (hcolumn c hc)
    rcases List.mem_append.mp hc with hc | hc
    · simp only [List.mem_cons, List.not_mem_nil, or_false] at hc
      rcases hc with rfl | rfl <;> decide
    rcases List.mem_append.mp hc with hc | hc
    · exact .inl (htype c hc)
    rcases List.mem_append.mp hc with hc | hc
    · exact harguments c hc
    · exact hwords c hc

theorem IsLine.unbroken {row : SchemaRow} {line : Text} (h : IsLine row line) :
    ∀ c ∈ line, Text.isLineBreak c = false := by
  obtain ⟨t, rfl, ht⟩ := h.shape
  intro c hc
  simp only [List.mem_append, List.mem_cons, List.not_mem_nil, or_false] at hc
  rcases hc with (hc | rfl | hc) | rfl
  · revert c
    decide
  · decide
  · rcases ht c hc with hp | hc
    · exact isLineBreak_of_isPart hp
    · simp only [List.mem_cons, List.not_mem_nil, or_false] at hc
      rcases hc with rfl | rfl | rfl | rfl | rfl <;> decide
  · decide

theorem IsLine.not_mem_dash {row : SchemaRow} {line : Text} (h : IsLine row line) : '-' ∉ line := by
  obtain ⟨t, rfl, ht⟩ := h.shape
  intro hc
  simp only [List.mem_append, List.mem_cons, List.not_mem_nil, or_false] at hc
  rcases hc with (hc | hc | hc) | hc
  · revert hc
    decide
  · cases hc
  · rcases ht _ hc with hp | hc
    · cases hp
    · revert hc
      decide
  · cases hc

/-- The line of a column does not end the statement, whether a comma follows it or not. -/
theorem IsLine.terminates {row : SchemaRow} {line : Text} (h : IsLine row line) :
    DbCatalog.terminates (line ++ ['\n']) = false ∧
      DbCatalog.terminates (line ++ [',', '\n']) = false := by
  have hdash := h.not_mem_dash
  obtain ⟨t, rfl, ht⟩ := h.shape
  have hspaces : ∀ e ∈ "  ".toList, Text.isSpace e = true := by decide
  constructor
  · have := terminates_append (d := '[') (c := 'L') (t := t) hspaces (by decide) (by decide)
      (fun hm => hdash (by simpa using hm)) (by decide) (by decide)
    rw [← this]
    simp only [List.append_assoc, List.cons_append, List.nil_append]
  · have := terminates_append (d := '[') (c := ',') (t := t ++ ['L']) hspaces (by decide)
      (by decide) (fun hm => hdash (by simpa using hm)) (by decide) (by decide)
    rw [← this]
    simp only [List.append_assoc, List.cons_append, List.nil_append]

/-! ## Statements -/

theorem join_cons_cons (sep a b : Text) (l : List Text) :
    join sep (a :: b :: l) = a ++ sep ++ join sep (b :: l) := by
  simp [join, List.intersperse_cons_cons]

/-- A name that a header can have. -/
def Name (s : Text) : Prop := s ≠ [] ∧ ∀ c ∈ s, isPart c = true ∧ c ≠ '$'

section Lines

variable {u}

theorem header_shape {s t : Text} (hs : Name s) (ht : Name t) :
    ∃ x, header s t = 'C' :: x ++ ['(', '\n'] ∧
      ∀ c ∈ x, isPart c = true ∨ c ∈ [' ', '[', ']', '.'] := by
  refine ⟨"REATE TABLE [".toList ++ (s ++ ("].[".toList ++ (t ++ "] ".toList))), ?_, fun c hc => ?_⟩
  · have h₁ : "CREATE TABLE [".toList = 'C' :: "REATE TABLE [".toList := by decide
    have h₂ : "] (\n".toList = "] ".toList ++ ['(', '\n'] := by decide
    unfold header
    rw [h₁, h₂]
    simp only [List.append_assoc, List.cons_append]
  · have hcreate : ∀ c ∈ "REATE TABLE [".toList, isPart c = true ∨ c ∈ [' ', '[', ']', '.'] := by
      decide
    have hdot : ∀ c ∈ "].[".toList, isPart c = true ∨ c ∈ [' ', '[', ']', '.'] := by decide
    have hclose : ∀ c ∈ "] ".toList, isPart c = true ∨ c ∈ [' ', '[', ']', '.'] := by decide
    rcases List.mem_append.mp hc with hc | hc
    · exact hcreate c hc
    rcases List.mem_append.mp hc with hc | hc
    · exact .inl (hs.2 c hc).1
    rcases List.mem_append.mp hc with hc | hc
    · exact hdot c hc
    rcases List.mem_append.mp hc with hc | hc
    · exact .inl (ht.2 c hc).1
    · exact hclose c hc

theorem parseLines_blank (rest : Text) :
    parseLines u none (Text.splitlinesKeep ('\n' :: rest)) =
      parseLines u none (Text.splitlinesKeep rest) := by
  have h := Text.splitlinesKeep_append [] rest
  rw [List.nil_append] at h
  rw [h]
  rfl

theorem parseLines_header {s t : Text} (hs : Name s) (ht : Name t) (rest : Text) :
    parseLines u none (Text.splitlinesKeep (header s t ++ rest)) =
      parseLines u (some (tableName (headerGroup s t), header s t)) (Text.splitlinesKeep rest) := by
  have hname : headerName u (header s t) = some (headerGroup s t) := by
    have := headerName_header u hs.1 (fun c hc => isWord_of_isPart u (hs.2 c hc).1 (hs.2 c hc).2)
      ht.1 (fun c hc => isWord_of_isPart u (ht.2 c hc).1 (ht.2 c hc).2) []
    rwa [List.append_nil] at this
  obtain ⟨x, hx, hmem⟩ := header_shape hs ht
  have hterm : terminates (header s t) = false := by
    have hdash : '-' ∉ [] ++ 'C' :: x ++ ['(', '\n'] := by
      intro hc
      simp only [List.nil_append, List.mem_append, List.mem_cons, List.not_mem_nil, or_false] at hc
      rcases hc with (hc | hc) | hc | hc
      · cases hc
      · rcases hmem _ hc with hp | hc
        · cases hp
        · revert hc
          decide
      · cases hc
      · cases hc
    rw [hx]
    exact terminates_append (b := []) (by simp) (by decide) (by decide) hdash (by decide)
      (by decide)
  have hlines : Text.splitlinesKeep (header s t ++ rest) =
      header s t :: Text.splitlinesKeep rest := by
    have hbreak : ∀ c ∈ 'C' :: x ++ ['('], Text.isLineBreak c = false := by
      intro c hc
      simp only [List.mem_append, List.mem_cons, List.not_mem_nil, or_false] at hc
      rcases hc with (rfl | hc) | rfl
      · decide
      · rcases hmem c hc with hp | hc
        · exact isLineBreak_of_isPart hp
        · simp only [List.mem_cons, List.not_mem_nil, or_false] at hc
          rcases hc with rfl | rfl | rfl | rfl <;> decide
      · decide
    have happend := Text.splitlinesKeep_append ('C' :: x ++ ['(']) rest
    rw [Text.splitlinesKeep_line hbreak] at happend
    rw [hx]
    simpa using happend
  rw [hlines, parseLines, hname]
  simp only [hterm]
  rfl

theorem parseLines_line {row : SchemaRow} {line sep : Text} (h : IsLine row line)
    (hsep : sep = [] ∨ sep = [',']) (n st rest : Text) :
    parseLines u (some (n, st)) (Text.splitlinesKeep (line ++ sep ++ '\n' :: rest)) =
      parseLines u (some (n, st ++ (line ++ sep ++ ['\n']))) (Text.splitlinesKeep rest) := by
  have hbreak : ∀ c ∈ line ++ sep, Text.isLineBreak c = false := by
    intro c hc
    rcases List.mem_append.mp hc with hc | hc
    · exact h.unbroken c hc
    · rcases hsep with rfl | rfl
      · cases hc
      · obtain rfl := List.mem_singleton.mp hc
        decide
  have hterm : terminates (line ++ sep ++ ['\n']) = false := by
    rcases hsep with rfl | rfl
    · rw [List.append_nil]
      exact h.terminates.1
    · rw [List.append_assoc]
      exact h.terminates.2
  rw [Text.splitlinesKeep_append, Text.splitlinesKeep_line hbreak, List.singleton_append,
    parseLines, hterm]
  rfl

theorem parseLines_columns {lines : List Text} (hne : lines ≠ [])
    (h : ∀ line ∈ lines, ∃ row, IsLine row line) (n st rest : Text) :
    parseLines u (some (n, st)) (Text.splitlinesKeep (join ",\n".toList lines ++ '\n' :: rest)) =
      parseLines u (some (n, st ++ join ",\n".toList lines ++ ['\n']))
        (Text.splitlinesKeep rest) := by
  induction lines generalizing st with
  | nil => exact absurd rfl hne
  | cons line lines ih =>
    obtain ⟨row, hline⟩ := h line List.mem_cons_self
    cases lines with
    | nil =>
      have := parseLines_line (u := u) hline (.inl rfl) n st rest
      simpa [join] using this
    | cons next lines =>
      have hsep : ",\n".toList = [','] ++ ['\n'] := by decide
      have hstep := parseLines_line (u := u) hline (.inr rfl) n st
        (join ",\n".toList (next :: lines) ++ '\n' :: rest)
      have hrest := ih (List.cons_ne_nil _ _) (fun l hl => h l (List.mem_cons_of_mem _ hl))
        (st ++ (line ++ [','] ++ ['\n']))
      rw [join_cons_cons]
      rw [hsep] at hstep hrest ⊢
      simp only [List.append_assoc, List.cons_append, List.nil_append] at hstep hrest ⊢
      rw [hstep, hrest]

/-- The rows of one table with their lines. -/
structure Group (g : List (SchemaRow × Text)) : Prop where
  ne_nil : g ≠ []
  line : ∀ p ∈ g, IsLine p.1 p.2
  same : ∀ p ∈ g, ∀ q ∈ g, tableKey p = tableKey q
  schema : ∀ p ∈ g, Name p.1.schema
  table : ∀ p ∈ g, Name p.1.table

theorem stripQuotes_quoted {t : Text} (ht : Name t) : stripQuotes ('[' :: t ++ [']']) = t := by
  obtain ⟨c, s, hc⟩ := List.exists_cons_of_ne_nil ht.1
  have hquote : ∀ d ∈ t, d ∉ ['`', '"', '[', ']', ' '] := by
    intro d hd hm
    have hp := (ht.2 d hd).1
    simp only [List.mem_cons, List.not_mem_nil, or_false] at hm
    rcases hm with rfl | rfl | rfl | rfl | rfl <;> cases hp
  have hback : ∀ {w : Text} {d : Char}, d ∉ ['`', '"', '[', ']', ' '] →
      (d :: w).dropWhile (fun c : Char => decide (c ∈ ['`', '"', '[', ']', ' '])) = d :: w :=
    fun hd => List.dropWhile_cons_of_neg (by simpa using hd)
  unfold stripQuotes
  dsimp only
  rw [List.cons_append, List.dropWhile_cons_of_pos (by decide), hc, List.cons_append,
    hback (hquote c (hc ▸ List.mem_cons_self)), ← List.cons_append, ← hc, List.reverse_append,
    List.reverse_singleton, List.singleton_append, List.dropWhile_cons_of_pos (by decide)]
  obtain ⟨d, w, hd⟩ := List.exists_cons_of_ne_nil (List.reverse_ne_nil_iff.mpr ht.1)
  rw [hd, hback (hquote d (List.mem_reverse.mp (hd ▸ List.mem_cons_self))), ← hd,
    List.reverse_reverse]

theorem not_mem_of_isPart {s : Text} {d : Char} (hs : Name s) (hd : isPart d = false) : d ∉ s := by
  intro hm
  rw [(hs.2 d hm).1] at hd
  cases hd

theorem tableName_headerGroup {s t : Text} (hs : Name s) (ht : Name t) :
    tableName (headerGroup s t) = t := by
  have hshape : headerGroup s t = ('[' :: s ++ [']']) ++ '.' :: ('[' :: t ++ [']']) := by
    unfold headerGroup
    simp only [List.append_assoc, List.cons_append, List.nil_append]
  have hsdot : '.' ∉ '[' :: s ++ [']'] := by
    simpa using not_mem_of_isPart hs (by decide : isPart '.' = false)
  have htdot : '.' ∉ '[' :: t ++ [']'] := by
    simpa using not_mem_of_isPart ht (by decide : isPart '.' = false)
  unfold tableName
  rw [hshape, List.splitOn_append_cons_self, List.splitOn_eq_singleton hsdot,
    List.splitOn_eq_singleton htdot]
  exact stripQuotes_quoted ht

/-- The reader is in the statement of a group when it comes to the closing line. -/
theorem parseLines_group {first : SchemaRow × Text} {g : List (SchemaRow × Text)}
    (h : Group (first :: g)) (rest : Text) :
    parseLines u none (Text.splitlinesKeep
        (header first.1.schema first.1.table ++
          (join ",\n".toList ((first :: g).map Prod.snd) ++ '\n' :: rest))) =
      parseLines u (some (first.1.table, header first.1.schema first.1.table ++
        join ",\n".toList ((first :: g).map Prod.snd) ++ ['\n'])) (Text.splitlinesKeep rest) := by
  have hs := h.schema first List.mem_cons_self
  have ht := h.table first List.mem_cons_self
  rw [parseLines_header hs ht, tableName_headerGroup hs ht,
    parseLines_columns (by simp) fun line hline => ?_]
  obtain ⟨p, hp, rfl⟩ := List.mem_map.mp hline
  exact ⟨p.1, h.line p hp⟩

theorem statement_eq (first : SchemaRow × Text) (g : List (SchemaRow × Text)) (rest : Text) :
    statement (first :: g) ++ rest = header first.1.schema first.1.table ++
      (join ",\n".toList ((first :: g).map Prod.snd) ++ '\n' :: (");".toList ++ rest)) := by
  have hclose : "\n);".toList = '\n' :: ");".toList := by decide
  unfold statement
  rw [hclose]
  simp only [List.append_assoc, List.cons_append]

theorem parseLines_statement {first : SchemaRow × Text} {g : List (SchemaRow × Text)}
    (h : Group (first :: g)) (rest : Text) :
    parseLines u none (Text.splitlinesKeep (statement (first :: g) ++ '\n' :: rest)) =
      (first.1.table, statement (first :: g) ++ ['\n']) ::
        parseLines u none (Text.splitlinesKeep rest) := by
  have hlines : Text.splitlinesKeep (");".toList ++ '\n' :: rest) =
      (");".toList ++ ['\n']) :: Text.splitlinesKeep rest := by
    rw [Text.splitlinesKeep_append, Text.splitlinesKeep_line (by decide), List.singleton_append]
  have hterm : terminates (");".toList ++ ['\n']) = true := terminates_close
  rw [statement_eq, parseLines_group h, hlines, parseLines, hterm, if_pos rfl, statement_eq]
  simp only [List.append_assoc, List.cons_append, List.nil_append]

theorem parseLines_last {first : SchemaRow × Text} {g : List (SchemaRow × Text)}
    (h : Group (first :: g)) :
    parseLines u none (Text.splitlinesKeep (statement (first :: g))) =
      [(first.1.table, statement (first :: g))] := by
  have hlines : Text.splitlinesKeep (");".toList ++ []) = [");".toList] := by decide
  have hterm : terminates ");".toList = true := terminates_close
  have hst := statement_eq first g []
  rw [List.append_nil] at hst
  rw [hst, parseLines_group h, hlines, parseLines, hterm, if_pos rfl]
  simp only [List.append_assoc, List.cons_append, List.nil_append, List.append_nil]
  rfl

/-- The table that is read of a group. -/
def ReadsAs (g : List (SchemaRow × Text)) (table : Text × Text) : Prop :=
  ∃ first more tail, g = first :: more ∧ (tail = [] ∨ tail = ['\n']) ∧
    table = (first.1.table, statement g ++ tail)

theorem parseLines_join {gs : List (List (SchemaRow × Text))} (h : ∀ g ∈ gs, Group g) :
    List.Forall₂ ReadsAs gs
      (parseLines u none (Text.splitlinesKeep (join "\n\n".toList (gs.map statement)))) := by
  induction gs with
  | nil => exact .nil
  | cons g gs ih =>
    have hg := h g List.mem_cons_self
    obtain ⟨first, more, rfl⟩ := List.exists_cons_of_ne_nil hg.ne_nil
    cases gs with
    | nil =>
      have hjoin : join "\n\n".toList ([first :: more].map statement) =
          statement (first :: more) := by
        simp [join]
      rw [hjoin, parseLines_last hg]
      exact .cons ⟨first, more, [], rfl, .inl rfl, by rw [List.append_nil]⟩ .nil
    | cons next gs =>
      have hsep : "\n\n".toList = ['\n', '\n'] := by decide
      have hrest := ih fun g hg => h g (List.mem_cons_of_mem _ hg)
      rw [List.map_cons, List.map_cons, join_cons_cons, ← List.map_cons]
      rw [hsep] at hrest ⊢
      rw [List.append_assoc, List.cons_append, List.singleton_append, parseLines_statement hg,
        parseLines_blank]
      exact .cons ⟨first, more, ['\n'], rfl, .inr rfl, rfl⟩ hrest

theorem parseTables_join {gs : List (List (SchemaRow × Text))} (h : ∀ g ∈ gs, Group g) :
    List.Forall₂ ReadsAs gs (parseTables u (join "\n\n".toList (gs.map statement))) := by
  have hread := parseLines_join (u := u) h
  unfold parseTables
  rw [List.filter_eq_self.mpr]
  · exact hread
  · intro table htable
    obtain ⟨g, hg, first, more, tail, rfl, -, rfl⟩ := forall₂_mem_right hread table htable
    simpa using ((h _ hg).table first List.mem_cons_self).1

end Lines

/-! ## Columns -/

theorem statementBody_eq {a body b : Text} (ha : '(' ∉ a) (hb : ')' ∉ b) :
    statementBody (a ++ '(' :: body ++ ')' :: b) = some body := by
  have hopen : (a ++ '(' :: body ++ ')' :: b).dropWhile (· ≠ '(') =
      '(' :: (body ++ ')' :: b) := by
    rw [List.append_assoc, List.dropWhile_append_of_pos, List.cons_append,
      List.dropWhile_cons_of_neg (by decide)]
    intro c hc
    have hne : c ≠ '(' := by
      rintro rfl
      exact ha hc
    simpa using hne
  have hclose : (body ++ ')' :: b).reverse.dropWhile (· ≠ ')') = ')' :: body.reverse := by
    rw [List.reverse_append, List.reverse_cons, List.append_assoc, List.dropWhile_append_of_pos,
      List.singleton_append, List.dropWhile_cons_of_neg (by decide)]
    intro c hc
    have hne : c ≠ ')' := by
      rintro rfl
      exact hb (List.mem_reverse.mp hc)
    simpa using hne
  unfold statementBody
  simp only [hopen, hclose, List.reverse_reverse]

/-- The machine reads `l` into the item that has begun, whatever follows. -/
def Runs (mode : Mode) (depth : Nat) (l : Text) (mode' : Mode) (depth' : Nat) : Prop :=
  ∀ part rest, splitFrom mode depth part (l ++ rest) = splitFrom mode' depth' (part ++ l) rest

namespace Runs

variable {m m' m'' : Mode} {d d' d'' : Nat} {l l' : Text}

theorem append (h : Runs m d l m' d') (h' : Runs m' d' l' m'' d'') :
    Runs m d (l ++ l') m'' d'' := by
  intro part rest
  rw [List.append_assoc, h, h', List.append_assoc]

theorem single {c : Char} (hend : endsItem m d c = false)
    (hstep : ∀ rest, advance m d c rest = (m', d')) : Runs m d [c] m' d' := by
  intro part rest
  rw [List.singleton_append, splitFrom, hend, hstep]
  rfl

theorem forall_single (h : ∀ c ∈ l, Runs m d [c] m d) : Runs m d l m d := by
  induction l with
  | nil =>
    intro part rest
    rw [List.nil_append, List.append_nil]
  | cons c l ih =>
    exact (h c List.mem_cons_self).append (ih fun c hc => h c (List.mem_cons_of_mem _ hc))

theorem code {c : Char} (hc : c ∉ ['-', '/', '\'', '"', '`', '[', '(', ')'])
    (hcomma : c = ',' → 0 < d) : Runs .code d [c] .code d := by
  simp only [List.mem_cons, List.not_mem_nil, or_false, not_or] at hc
  refine single ?_ fun rest => ?_
  · cases d with
    | zero =>
      have hne : c ≠ ',' := fun h => absurd (hcomma h) (lt_irrefl 0)
      unfold endsItem
      split
      · rename_i heq
        exact absurd rfl hne
      · rfl
    | succ d => rfl
  · simp [advance, hc]

/-- Names are read whatever the machine is in. -/
theorem name (hl : ∀ c ∈ l, isPart c = true ∨ c = ' ') : Runs .code d l .code d := by
  refine forall_single fun c hc => ?_
  rcases hl c hc with hc | rfl
  · refine code (fun hm => ?_) fun hcomma => ?_
    · simp only [List.mem_cons, List.not_mem_nil, or_false] at hm
      rcases hm with rfl | rfl | rfl | rfl | rfl | rfl | rfl | rfl <;> cases hc
    · subst hcomma
      cases hc
  · exact code (by decide) fun h => (by cases h)

theorem bracketed (hl : ∀ c ∈ l, isPart c = true) : Runs .code d ('[' :: l ++ [']']) .code d := by
  have hopen : Runs .code d ['['] (.quoted ']') d := single (by cases d <;> rfl) fun _ => rfl
  have hinner : Runs (.quoted ']') d l (.quoted ']') d := by
    refine forall_single fun c hc => single rfl fun rest => ?_
    have hne : c ≠ ']' := ne_of_isPart (hl c hc) (by decide)
    simp [advance, hne]
  have hclose : Runs (.quoted ']') d [']'] .code d := single rfl fun rest => by simp [advance]
  exact (hopen.append hinner).append hclose

theorem arguments {a : Text} (ha : Arguments a) : Runs .code d a .code d := by
  rcases ha with rfl | ⟨inner, rfl, hinner⟩
  · exact forall_single (by simp)
  · have hopen : Runs .code d ['('] .code (d + 1) := single (by cases d <;> rfl) fun _ => rfl
    have hinside : Runs .code (d + 1) inner .code (d + 1) := by
      refine forall_single fun c hc => ?_
      rcases hinner c hc with hc | rfl
      · exact name fun e he => .inl (List.mem_singleton.mp he ▸ hc)
      · exact code (by decide) fun _ => Nat.succ_pos d
    have hclose : Runs .code (d + 1) [')'] .code d := single rfl fun _ => rfl
    exact (hopen.append hinside).append hclose

end Runs

theorem IsLine.runs {row : SchemaRow} {line : Text} (h : IsLine row line) :
    Runs .code 0 line .code 0 := by
  obtain ⟨a, null, ha, hnull, rfl⟩ := h
  have hcolumn := (isIdentifier_spec row.column_valid).2
  have hspaces : Runs .code 0 [' ', ' '] .code 0 := Runs.name (by decide)
  have htype : Runs .code 0 (' ' :: row.dataType) .code 0 := by
    refine Runs.name fun c hc => ?_
    rcases List.mem_cons.mp hc with rfl | hc
    · exact .inr rfl
    · exact .inl (isPart_of_isType row.dataType_valid c hc)
  have hwords : Runs .code 0 (' ' :: null ++ "NULL".toList) .code 0 := by
    refine Runs.name ?_
    simp only [List.mem_cons, List.not_mem_nil, or_false] at hnull
    rcases hnull with rfl | rfl <;> decide
  have hall := (((hspaces.append (Runs.bracketed hcolumn)).append htype).append
    (Runs.arguments ha)).append hwords
  simpa only [List.append_assoc, List.cons_append, List.nil_append] using hall

theorem splitFrom_join {g : List (SchemaRow × Text)} (hne : g ≠ [])
    (h : ∀ p ∈ g, IsLine p.1 p.2) :
    List.Forall₂ (fun p item => ∃ tail, item = '\n' :: p.2 ++ tail) g
      (splitFrom .code 0 ['\n'] (join ",\n".toList (g.map Prod.snd) ++ ['\n'])) := by
  induction g with
  | nil => exact absurd rfl hne
  | cons p g ih =>
    have hrun := (h p List.mem_cons_self).runs
    cases g with
    | nil =>
      have hend : Runs .code 0 ['\n'] .code 0 := Runs.code (by decide) fun h => (by cases h)
      have hlast := (hrun.append hend) ['\n'] []
      rw [List.append_nil] at hlast
      have hjoin : join ",\n".toList ([p].map Prod.snd) = p.2 := by
        simp [join]
      rw [hjoin, hlast]
      exact .cons ⟨['\n'], by simp⟩ .nil
    | cons q g =>
      have hsep : ",\n".toList = [',', '\n'] := by decide
      have hrest := ih (List.cons_ne_nil _ _) fun p hp => h p (List.mem_cons_of_mem _ hp)
      rw [List.map_cons, List.map_cons, join_cons_cons, ← List.map_cons]
      rw [hsep] at hrest ⊢
      rw [List.append_assoc, List.append_assoc, hrun]
      exact .cons ⟨[], by simp⟩ hrest

theorem lstrip_cons {c : Char} (h : Text.isSpace c = false) (s : Text) :
    Text.lstrip (c :: s) = c :: s :=
  List.dropWhile_cons_of_neg (by simp [h])

theorem strip_eq {c d : Char} {s t : Text} (hs : s = c :: t) (ht : ∃ w, s = w ++ [d])
    (hc : Text.isSpace c = false) (hd : Text.isSpace d = false) : Text.strip s = s := by
  obtain ⟨w, hw⟩ := ht
  unfold Text.strip
  rw [hs, lstrip_cons hc, ← hs, hw, Text.rstrip, List.reverse_append, List.reverse_singleton,
    List.singleton_append, List.dropWhile_cons_of_neg (by simp [hd]), ← List.singleton_append,
    List.reverse_append, List.reverse_reverse]
  rfl

theorem normalizeIdentifier_bracketed (s : Text) :
    normalizeIdentifier u ('[' :: s ++ [']']) = casefold u s := by
  have hstrip : Text.strip ('[' :: s ++ [']']) = '[' :: s ++ [']'] :=
    strip_eq rfl ⟨'[' :: s, rfl⟩ (by decide) (by decide)
  have hlast : ('[' :: s ++ [']']).getLast? = some ']' := List.getLast?_concat
  unfold normalizeIdentifier unquote
  rw [hstrip, hlast, if_pos ⟨by simp, by simp⟩, List.cons_append, List.tail_cons,
    List.dropLast_concat]

theorem normalizeIdentifier_name {s : Text} (hne : s ≠ []) (hs : ∀ c ∈ s, isPart c = true) :
    normalizeIdentifier u s = casefold u s := by
  obtain ⟨c, t, hc⟩ := List.exists_cons_of_ne_nil hne
  have hcp : isPart c = true := hs c (hc ▸ List.mem_cons_self)
  have hlast := List.dropLast_append_getLast hne
  have hstrip : Text.strip s = s :=
    strip_eq hc ⟨_, hlast.symm⟩ (isSpace_of_isPart hcp)
      (isSpace_of_isPart (hs _ (List.getLast_mem hne)))
  unfold normalizeIdentifier unquote
  rw [hstrip, if_neg]
  rintro ⟨-, hm⟩
  rw [hc] at hm
  simp only [List.head?_cons, List.mem_cons, Prod.mk.injEq, Option.some.injEq, List.not_mem_nil,
    or_false] at hm
  rcases hm with ⟨rfl, -⟩ | ⟨rfl, -⟩ | ⟨rfl, -⟩ <;> cases hcp

/-- The column of the item that begins with its line. -/
theorem itemColumn_line {row : SchemaRow} {line : Text} (h : IsLine row line) (tail : Text) :
    itemColumn u ('\n' :: line ++ tail) =
      if casefold u row.column ∈ tableConstraints then none else some (casefold u row.column) := by
  obtain ⟨hne, hpart⟩ := isIdentifier_spec row.column_valid
  obtain ⟨rest, hrest⟩ : ∃ rest, '\n' :: line ++ tail =
      '\n' :: ' ' :: ' ' :: '[' :: (row.column ++ ']' :: rest) := by
    obtain ⟨a, null, -, -, rfl⟩ := h
    exact ⟨' ' :: (row.dataType ++ (a ++ ' ' :: (null ++ ("NULL".toList ++ tail)))), by
      simp only [List.append_assoc, List.cons_append]⟩
  have hitem : withoutLeadingComments ('\n' :: line ++ tail) =
      '[' :: (row.column ++ ']' :: rest) := by
    rw [hrest]
    rfl
  have hbracket : ∀ c ∈ row.column, decide (c ≠ ']') = true := by
    intro c hc
    simpa using ne_of_isPart (hpart c hc) (by decide : isPart ']' = false)
  have hname : identifierAt ('[' :: (row.column ++ ']' :: rest)) =
      some ('[' :: row.column ++ [']']) := by
    have hinner : (row.column ++ ']' :: rest).takeWhile (· ≠ ']') = row.column := by
      rw [List.takeWhile_append_of_pos hbracket, List.takeWhile_cons_of_neg (by decide),
        List.append_nil]
    show quotedName '[' ']' (row.column ++ ']' :: rest) = _
    unfold quotedName
    rw [hinner, if_neg]
    rintro (hnil | hlen)
    · exact hne hnil
    · simp at hlen
  unfold itemColumn
  rw [hitem, hname, Option.map_some, normalizeIdentifier_bracketed]
  by_cases hc : casefold u row.column ∈ tableConstraints
  · simp [Option.filter, hc]
  · simp [Option.filter, hc]

theorem statementColumns_statement {first : SchemaRow × Text} {g : List (SchemaRow × Text)}
    (h : Group (first :: g)) {tail : Text} (htail : tail = [] ∨ tail = ['\n'])
    (hfree : ∀ p ∈ first :: g, casefold u p.1.column ∉ tableConstraints) :
    statementColumns u (statement (first :: g) ++ tail) =
      ((first :: g).map fun p => casefold u p.1.column).toFinset := by
  have hs := h.schema first List.mem_cons_self
  have ht := h.table first List.mem_cons_self
  have hbody : statementBody (statement (first :: g) ++ tail) =
      some ('\n' :: (join ",\n".toList ((first :: g).map Prod.snd) ++ ['\n'])) := by
    obtain ⟨x, hx, hmem⟩ := header_shape hs ht
    have hopen : '(' ∉ 'C' :: x := by
      rintro (_ | ⟨_, hm⟩)
      rcases hmem _ hm with hp | hm
      · cases hp
      · revert hm
        decide
    have hclose : ')' ∉ ';' :: tail := by
      rcases htail with rfl | rfl <;> decide
    have hend : ");".toList = [')', ';'] := by decide
    rw [← statementBody_eq hopen hclose, statement_eq, hx, hend]
    simp only [List.append_assoc, List.cons_append, List.nil_append]
  have hsplit : splitTopLevel ('\n' :: (join ",\n".toList ((first :: g).map Prod.snd) ++ ['\n'])) =
      splitFrom .code 0 ['\n'] (join ",\n".toList ((first :: g).map Prod.snd) ++ ['\n']) := rfl
  have hitems := splitFrom_join (List.cons_ne_nil _ _) h.line
  have hcolumns : ∀ {rows : List (SchemaRow × Text)} {items : List Text},
      (∀ p ∈ rows, IsLine p.1 p.2) → (∀ p ∈ rows, casefold u p.1.column ∉ tableConstraints) →
      List.Forall₂ (fun p item => ∃ tail, item = '\n' :: p.2 ++ tail) rows items →
      items.filterMap (itemColumn u) = rows.map fun p => casefold u p.1.column := by
    intro rows items hline hfree hitems
    induction hitems with
    | nil => rfl
    | @cons p item rows items hitem _ ih =>
      obtain ⟨tail, rfl⟩ := hitem
      have hcolumn := itemColumn_line u (hline p List.mem_cons_self) tail
      rw [if_neg (hfree p List.mem_cons_self)] at hcolumn
      rw [List.filterMap_cons, hcolumn]
      exact congrArg _ (ih (fun p hp => hline p (List.mem_cons_of_mem _ hp))
        fun p hp => hfree p (List.mem_cons_of_mem _ hp))
  unfold statementColumns
  rw [hbody]
  simp only [hsplit]
  rw [hcolumns h.line hfree hitems]

/-! ## Keys -/

/-- The keys of the table of a row. -/
def rowKeys (row : SchemaRow) : List Text :=
  [casefold u row.table, casefold u row.schema ++ '.' :: casefold u row.table]

theorem catalogTableKeys_statement {first : SchemaRow × Text} {g : List (SchemaRow × Text)}
    (h : Group (first :: g)) (tail : Text) :
    catalogTableKeys u first.1.table (statement (first :: g) ++ tail) = rowKeys u first.1 := by
  have hs := h.schema first List.mem_cons_self
  have ht := h.table first List.mem_cons_self
  have hname : headerName u (statement (first :: g) ++ tail) =
      some (headerGroup first.1.schema first.1.table) := by
    rw [statement_eq]
    exact headerName_header u hs.1 (fun c hc => isWord_of_isPart u (hs.2 c hc).1 (hs.2 c hc).2)
      ht.1 (fun c hc => isWord_of_isPart u (ht.2 c hc).1 (ht.2 c hc).2) _
  have hshape : headerGroup first.1.schema first.1.table =
      ('[' :: first.1.schema ++ [']']) ++ '.' :: ('[' :: first.1.table ++ [']']) := by
    unfold headerGroup
    simp only [List.append_assoc, List.cons_append, List.nil_append]
  have hdot : ∀ c ∈ '[' :: first.1.schema ++ [']'], decide (c ≠ '.') = true := by
    intro c hc
    have hmem := not_mem_of_isPart hs (by decide : isPart '.' = false)
    simp only [List.mem_append, List.mem_cons, List.not_mem_nil, or_false] at hc
    rcases hc with (rfl | hc) | rfl
    · decide
    · have hne : c ≠ '.' := by
        rintro rfl
        exact hmem hc
      simpa using hne
    · decide
  have htake : (headerGroup first.1.schema first.1.table).takeWhile (· ≠ '.') =
      '[' :: first.1.schema ++ [']'] := by
    rw [hshape, List.takeWhile_append_of_pos hdot, List.takeWhile_cons_of_neg (by decide),
      List.append_nil]
  have hdrop : (headerGroup first.1.schema first.1.table).dropWhile (· ≠ '.') =
      '.' :: ('[' :: first.1.table ++ [']']) := by
    rw [hshape, List.dropWhile_append_of_pos hdot, List.dropWhile_cons_of_neg (by decide)]
  have htable := normalizeIdentifier_name u ht.1 fun c hc => (ht.2 c hc).1
  unfold catalogTableKeys
  simp only [hname, Option.map_some, htake, hdrop, normalizeIdentifier_bracketed, htable, if_pos]
  rfl

theorem rowKeys_eq_of_tableKey {p q : SchemaRow × Text} (h : tableKey p = tableKey q) :
    rowKeys u p.1 = rowKeys u q.1 := by
  obtain ⟨hs, ht⟩ := Prod.mk.inj h
  unfold rowKeys
  rw [hs, ht]

theorem mem_catalogEntries {gs : List (List (SchemaRow × Text))} (h : ∀ g ∈ gs, Group g)
    (hfree : ∀ g ∈ gs, ∀ p ∈ g, casefold u p.1.column ∉ tableConstraints)
    {e : Text × Finset Text} :
    e ∈ catalogEntries u (join "\n\n".toList (gs.map statement)) ↔
      ∃ g ∈ gs, ∃ p ∈ g, e.1 ∈ rowKeys u p.1 ∧
        e.2 = (g.map fun p => casefold u p.1.column).toFinset := by
  have htables := parseTables_join (u := u) h
  have hentries : ∀ g ∈ gs, ∀ table, ReadsAs g table →
      ((∃ key ∈ catalogTableKeys u table.1 table.2, (key, statementColumns u table.2) = e) ↔
        ∃ p ∈ g, e.1 ∈ rowKeys u p.1 ∧
          e.2 = (g.map fun p => casefold u p.1.column).toFinset) := by
    rintro g hg _ ⟨first, more, tail, rfl, htail, rfl⟩
    have hgroup := h _ hg
    dsimp only
    rw [catalogTableKeys_statement u hgroup,
      statementColumns_statement u hgroup htail (hfree _ hg)]
    constructor
    · rintro ⟨key, hkey, rfl⟩
      exact ⟨first, List.mem_cons_self, hkey, rfl⟩
    · rintro ⟨p, hp, hkey, hcolumns⟩
      rw [rowKeys_eq_of_tableKey u (hgroup.same p hp first List.mem_cons_self)] at hkey
      exact ⟨e.1, hkey, by rw [← hcolumns]⟩
  unfold catalogEntries
  simp only [List.mem_flatMap, List.mem_map]
  constructor
  · rintro ⟨table, htable, he⟩
    obtain ⟨g, hg, hread⟩ := forall₂_mem_right htables table htable
    exact ⟨g, hg, (hentries g hg table hread).mp he⟩
  · rintro ⟨g, hg, hp⟩
    obtain ⟨table, htable, hread⟩ := forall₂_mem_left htables g hg
    exact ⟨table, htable, (hentries g hg table hread).mpr hp⟩

end DbCatalog
