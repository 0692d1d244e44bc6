import AlmightyReview.Db
import AlmightyReview.Wiki.Rendered
import Mathlib.Data.List.TakeWhile

/-!
# Whether a rendered schema is catalogued exactly

* `Exact`: the catalog has the keys of the rows and no others, each with the columns of its rows.
* `Clean`: a name that the pattern of a header can have read of an ASCII text. No key of such a
  text has a `$`.
* `catalog_exact_iff`: the catalog is exact unless a name has a `$`, a column is called like the
  beginning of a constraint, or a length is infinite.
-/

namespace DbCatalog

open Json (join)
open MssqlSchema

variable (u : Unicode)

/-! ## Types that can be written -/

theorem boundedInt_isOk {v : Json.Loaded} {minimum maximum : Int} :
    (∃ r, boundedInt v minimum maximum = .ok r) ↔ ¬IsInfinite v := by
  unfold boundedInt
  split
  · exact ⟨fun _ h => (by obtain ⟨_, h⟩ := h; cases h), fun _ => ⟨_, rfl⟩⟩
  · cases hv : int v with
    | ok number =>
      refine ⟨fun _ h => ?_, fun _ => ⟨_, rfl⟩⟩
      obtain ⟨negative, rfl⟩ := h
      cases hv
    | error e =>
      refine ⟨fun h => ?_, fun h => absurd ?_ h⟩
      · obtain ⟨r, h⟩ := h
        cases h
      · unfold int at hv
        split at hv
        · cases hv
        · next hoverflow => exact Convert.toInt_overflow.mp hoverflow
        · cases hv

theorem columnLine_isOk {row : SchemaRow} :
    (∃ line, columnLine row = .ok line) ↔ ¬Overflows row := by
  have htype : (∃ type, typeSql row = .ok type) ↔ ¬Overflows row := by
    unfold typeSql Overflows
    dsimp only
    by_cases hchar : row.dataType.lower ∈ charTypes
    · have hdecimal : row.dataType.lower ∉ decimalTypes := by
        intro hm
        have hdisjoint : ∀ t ∈ charTypes, t ∉ decimalTypes := by decide +kernel
        exact hdisjoint _ hchar hm
      simp only [hchar, hdecimal, true_and, false_and, or_false]
      rw [← @boundedInt_isOk _ (-1) 1000000]
      constructor
      · rintro ⟨type, h⟩
        obtain ⟨r, hr, -⟩ := Exc.bind_ok h
        exact ⟨r, hr⟩
      · rintro ⟨r, hr⟩
        rw [hr]
        exact ⟨_, rfl⟩
    by_cases hdecimal : row.dataType.lower ∈ decimalTypes
    · simp only [hchar, hdecimal, true_and, false_and, false_or, not_or]
      rw [← @boundedInt_isOk _ 1 38,
        ← @boundedInt_isOk _ 0 38]
      constructor
      · rintro ⟨type, h⟩
        obtain ⟨p, hp, h⟩ := Exc.bind_ok h
        obtain ⟨s, hs, -⟩ := Exc.bind_ok h
        exact ⟨⟨p, hp⟩, ⟨s, hs⟩⟩
      · rintro ⟨⟨p, hp⟩, ⟨s, hs⟩⟩
        rw [hp, hs]
        exact ⟨_, rfl⟩
    · simp only [hchar, hdecimal, false_and, or_false, not_false_eq_true, iff_true]
      exact ⟨_, rfl⟩
  rw [← htype]
  constructor
  · rintro ⟨line, h⟩
    obtain ⟨type, ht, -⟩ := Exc.bind_ok h
    exact ⟨type, ht⟩
  · rintro ⟨type, ht⟩
    unfold columnLine
    rw [ht]
    exact ⟨_, rfl⟩

/-- The lines of the rows, as `render_schema` puts them into its dictionary. -/
def lineOf (row : SchemaRow) : Except OverflowError (SchemaRow × Text) := do
  let line ← columnLine row
  pure (row, line)

theorem lineOf_ok {row : SchemaRow} {p : SchemaRow × Text} (h : lineOf row = .ok p) :
    p.1 = row ∧ IsLine p.1 p.2 := by
  obtain ⟨line, hline, h⟩ := Exc.bind_ok h
  obtain rfl := Except.ok.inj h
  exact ⟨rfl, isLine_of_columnLine hline⟩

/-- What is rendered, as the groups of the lines. -/
theorem renderSchema_ok {rows : List Json.Loaded} {ddl : Text} (h : renderSchema rows = .ok ddl) :
    ∃ lines : List (SchemaRow × Text), (∀ p ∈ lines, p.1 ∈ validRows rows ∧ IsLine p.1 p.2) ∧
      (∀ row ∈ validRows rows, ∃ p ∈ lines, p.1 = row) ∧
      ddl = join "\n\n".toList ((groups tableKey lines).map statement) := by
  obtain ⟨lines, hlines, h⟩ := Exc.bind_ok h
  have hrel : List.Forall₂ (fun row p => lineOf row = .ok p) (validRows rows) lines :=
    forall₂_of_mapM hlines
  refine ⟨lines, fun p hp => ?_, fun row hrow => ?_, (Except.ok.inj h).symm⟩
  · obtain ⟨row, hrow, hline⟩ := forall₂_mem_right hrel p hp
    obtain ⟨rfl, his⟩ := lineOf_ok hline
    exact ⟨hrow, his⟩
  · obtain ⟨p, hp, hline⟩ := forall₂_mem_left hrel row hrow
    exact ⟨p, hp, (lineOf_ok hline).1⟩

theorem renderSchema_isOk {rows : List Json.Loaded} :
    (∃ ddl, renderSchema rows = .ok ddl) ↔ ∀ row ∈ validRows rows, ¬Overflows row := by
  have hlines : (∃ lines, (validRows rows).mapM lineOf = .ok lines) ↔
      ∀ row ∈ validRows rows, ¬Overflows row := by
    rw [mapM_isOk]
    refine forall₂_congr fun row _ => ?_
    rw [← columnLine_isOk]
    constructor
    · rintro ⟨p, h⟩
      obtain ⟨line, hline, -⟩ := Exc.bind_ok h
      exact ⟨line, hline⟩
    · rintro ⟨line, h⟩
      exact ⟨(row, line), by unfold lineOf; rw [h]; rfl⟩
  rw [← hlines]
  constructor
  · rintro ⟨ddl, h⟩
    obtain ⟨lines, hl, -⟩ := Exc.bind_ok h
    exact ⟨lines, hl⟩
  · rintro ⟨lines, hl⟩
    have hl' : ((validRows rows).mapM fun row => do
      let line ← columnLine row
      pure (row, line)) = .ok lines := hl
    unfold renderSchema
    rw [hl']
    exact ⟨_, rfl⟩

/-! ## What a catalog cannot have -/

/-- ASCII characters, none of them a `$`. -/
def Clean (s : Text) : Prop := ∀ c ∈ s, isAscii c = true ∧ c ≠ '$'

theorem Clean.subset {s t : Text} (ht : Clean t) (h : s ⊆ t) : Clean s := fun c hc => ht c (h hc)

theorem Clean.append {s t : Text} (hs : Clean s) (ht : Clean t) : Clean (s ++ t) :=
  fun c hc => (List.mem_append.mp hc).elim (hs c) (ht c)

theorem Clean.casefold {s : Text} (h : Clean s) : Clean (casefold u s) := by
  have key : ∀ n < 128, Char.ofNat n ≠ '$' →
      isAscii (Char.ofNat n).toLower = true ∧ (Char.ofNat n).toLower ≠ '$' := by
    decide +kernel
  intro c hc
  obtain ⟨d, hd, hc⟩ := List.mem_flatMap.mp hc
  obtain ⟨hascii, hne⟩ := h d hd
  rw [if_pos hascii] at hc
  obtain rfl := List.mem_singleton.mp hc
  exact ascii_forall (p := fun c => c ≠ '$' → isAscii c.toLower = true ∧ c.toLower ≠ '$') key
    (by simpa [isAscii] using hascii) hne

theorem mem_casefold_dollar {s : Text} (h : '$' ∈ s) : '$' ∈ casefold u s :=
  List.mem_flatMap.mpr ⟨'$', h, List.mem_cons_self⟩

theorem clean_normalizeIdentifier {s : Text} (h : Clean s) : Clean (normalizeIdentifier u s) := by
  have hdrop : ∀ {w : Text}, w.dropWhile Text.isSpace ⊆ w := fun {w} =>
    (List.dropWhile_suffix Text.isSpace).subset
  have hstrip : Text.strip s ⊆ s := by
    intro c hc
    exact hdrop (List.mem_reverse.mp (hdrop (List.mem_reverse.mp hc)))
  have hunquote : unquote (Text.strip s) ⊆ Text.strip s := by
    unfold unquote
    split
    · exact fun c hc => List.mem_of_mem_tail (List.mem_of_mem_dropLast hc)
    · exact List.Subset.refl _
  exact (h.subset (List.Subset.trans hunquote hstrip)).casefold u

theorem optional_spec (quotes : List Char) (s : Text) :
    s = (optional quotes s).1 ++ (optional quotes s).2 ∧
      ∀ c ∈ (optional quotes s).1, c ∈ quotes := by
  cases s with
  | nil => exact ⟨rfl, fun c hc => (by cases hc)⟩
  | cons c s =>
    rw [optional]
    split
    · rename_i hc
      exact ⟨rfl, fun d hd => List.mem_singleton.mp hd ▸ hc⟩
    · exact ⟨rfl, fun c hc => (by cases hc)⟩

theorem segment_spec {s name rest : Text} (h : segment u s = some (name, rest)) :
    s = name ++ rest ∧ '$' ∉ name := by
  unfold segment at h
  dsimp only at h
  split at h
  · cases h
  · obtain ⟨rfl, rfl⟩ := Prod.mk.inj (Option.some.inj h)
    obtain ⟨hopening, hquotes⟩ := optional_spec ['`', '"', '['] s
    generalize optional ['`', '"', '['] s = opening at hopening hquotes ⊢
    obtain ⟨hclosing, hquotes'⟩ := optional_spec ['`', '"', ']'] (opening.2.dropWhile (isWord u))
    generalize optional ['`', '"', ']'] (opening.2.dropWhile (isWord u)) = closing
      at hclosing hquotes' ⊢
    constructor
    · calc s = opening.1 ++ (opening.2.takeWhile (isWord u) ++ opening.2.dropWhile (isWord u)) := by
            rw [List.takeWhile_append_dropWhile, ← hopening]
        _ = _ := by rw [hclosing]; simp only [List.append_assoc]
    · intro hm
      rcases List.mem_append.mp hm with hm | hm
      · rcases List.mem_append.mp hm with hm | hm
        · exact absurd (hquotes _ hm) (by decide)
        · have hword : isWord u '$' = true := List.mem_takeWhile_imp hm
          cases hword
      · exact absurd (hquotes' _ hm) (by decide)

theorem qualified_spec {s group : Text} (h : qualified u s = some group) :
    group ⊆ s ∧ '$' ∉ group := by
  unfold qualified at h
  split at h
  · cases h
  · rename_i first rest hfirst
    obtain ⟨rfl, hdollar⟩ := segment_spec u hfirst
    split at h
    · rename_i second tail hsecond
      obtain ⟨rfl, hdollar'⟩ := segment_spec u hsecond
      obtain rfl := Option.some.inj h
      refine ⟨fun c hc => ?_, fun hm => ?_⟩
      · rcases List.mem_append.mp hc with hc | hc
        · exact List.mem_append_left _ hc
        · rcases List.mem_cons.mp hc with rfl | hc
          · exact List.mem_append_right _ List.mem_cons_self
          · exact List.mem_append_right _ (List.mem_cons_of_mem _ (List.mem_append_left _ hc))
      · rcases List.mem_append.mp hm with hm | hm
        · exact hdollar hm
        · rcases List.mem_cons.mp hm with hm | hm
          · cases hm
          · exact hdollar' hm
    · obtain rfl := Option.some.inj h
      exact ⟨fun c hc => List.mem_append_left _ hc, hdollar⟩
  · rename_i first rest _ hfirst
    obtain ⟨rfl, hdollar⟩ := segment_spec u hfirst
    obtain rfl := Option.some.inj h
    exact ⟨fun c hc => List.mem_append_left _ hc, hdollar⟩

theorem keyword_suffix {word s rest : Text} (h : keyword word s = some rest) : rest <:+ s := by
  induction word generalizing s with
  | nil =>
    obtain rfl := Option.some.inj h
    exact List.suffix_refl _
  | cons w word ih =>
    cases s with
    | nil => cases h
    | cons c s =>
      rw [keyword] at h
      split at h
      · exact (ih h).trans (List.suffix_cons c s)
      · cases h

theorem spaces_suffix {s rest : Text} (h : spaces s = some rest) : rest <:+ s := by
  cases s with
  | nil => cases h
  | cons c s =>
    rw [spaces] at h
    split at h
    · obtain rfl := Option.some.inj h
      exact (List.dropWhile_suffix _).trans (List.suffix_cons c s)
    · cases h

theorem ifNotExists_suffix {s rest : Text} (h : ifNotExists s = some rest) : rest <:+ s := by
  simp only [ifNotExists, Option.bind_eq_bind, Option.bind_eq_some_iff] at h
  obtain ⟨a, ha, b, hb, c, hc, d, hd, e, he, h⟩ := h
  exact (spaces_suffix h).trans <| (keyword_suffix he).trans <| (spaces_suffix hd).trans <|
    (keyword_suffix hc).trans <| (spaces_suffix hb).trans <| keyword_suffix ha

theorem headerName_spec {line group : Text} (h : headerName u line = some group) :
    group ⊆ line ∧ '$' ∉ group := by
  simp only [headerName, Option.bind_eq_bind, Option.bind_eq_some_iff] at h
  obtain ⟨a, ha, b, hb, c, hc, s, hs, h⟩ := h
  have hsuffix : s <:+ line := (spaces_suffix hs).trans <| (keyword_suffix hc).trans <|
    (spaces_suffix hb).trans <| (keyword_suffix ha).trans <| List.dropWhile_suffix _
  rw [Option.or_eq_some_iff] at h
  rcases h with h | ⟨-, h⟩
  · obtain ⟨r, hr, h⟩ := Option.bind_eq_some_iff.mp h
    obtain ⟨hsub, hdollar⟩ := qualified_spec u h
    exact ⟨List.Subset.trans hsub ((ifNotExists_suffix hr).trans hsuffix).subset, hdollar⟩
  · obtain ⟨hsub, hdollar⟩ := qualified_spec u h
    exact ⟨List.Subset.trans hsub hsuffix.subset, hdollar⟩

theorem clean_headerName {line group : Text} (hline : ∀ c ∈ line, isAscii c = true)
    (h : headerName u line = some group) : Clean group := by
  obtain ⟨hsub, hdollar⟩ := headerName_spec u h
  exact fun c hc => ⟨hline c (hsub hc), fun he => hdollar (he ▸ hc)⟩

theorem clean_tableName {group : Text} (h : Clean group) : Clean (tableName group) := by
  have hdrop : ∀ (p : Char → Bool) (w : Text), w.dropWhile p ⊆ w := fun p w =>
    (List.dropWhile_suffix p).subset
  have hlast : (group.splitOn '.').getLast?.getD [] ⊆ group := by
    cases hl : (group.splitOn '.').getLast? with
    | none => exact List.nil_subset _
    | some part => exact (Text.mem_splitOn (List.mem_of_getLast? hl)).2
  refine h.subset (List.Subset.trans ?_ hlast)
  intro c hc
  exact hdrop _ _ (List.mem_reverse.mp (hdrop _ _ (List.mem_reverse.mp hc)))

/-- The names that are read of ASCII lines. -/
theorem clean_parseLines {lines : List Text} (hlines : ∀ l ∈ lines, ∀ c ∈ l, isAscii c = true)
    {open? : Option (Text × Text)}
    (hopen : ∀ table ∈ open?, Clean table.1 ∧ ∀ c ∈ table.2, isAscii c = true) :
    ∀ table ∈ parseLines u open? lines, Clean table.1 ∧ ∀ c ∈ table.2, isAscii c = true := by
  induction lines generalizing open? with
  | nil =>
    cases open? with
    | none => exact fun table ht => (by cases ht)
    | some table => exact fun t ht => hopen t (List.mem_singleton.mp ht ▸ rfl)
  | cons line lines ih =>
    have hline := hlines line List.mem_cons_self
    have hrest : ∀ l ∈ lines, ∀ c ∈ l, isAscii c = true :=
      fun l hl => hlines l (List.mem_cons_of_mem _ hl)
    have hnone : ∀ table ∈ parseLines u none lines,
        Clean table.1 ∧ ∀ c ∈ table.2, isAscii c = true := ih hrest fun table ht => (by cases ht)
    cases open? with
    | none =>
      rw [parseLines]
      cases hname : headerName u line with
      | none => exact hnone
      | some group =>
        have hclean := clean_tableName (clean_headerName u hline hname)
        dsimp only
        split
        · intro table ht
          rcases List.mem_cons.mp ht with rfl | ht
          · exact ⟨hclean, hline⟩
          · exact hnone table ht
        · refine ih hrest fun table ht => ?_
          cases ht
          exact ⟨hclean, hline⟩
    | some table =>
      obtain ⟨name, statement⟩ := table
      obtain ⟨hclean, hstatement⟩ := hopen _ rfl
      have happend : ∀ c ∈ statement ++ line, isAscii c = true := fun c hc =>
        (List.mem_append.mp hc).elim (hstatement c) (hline c)
      rw [parseLines]
      split
      · intro table ht
        rcases List.mem_cons.mp ht with rfl | ht
        · exact ⟨hclean, happend⟩
        · exact hnone table ht
      · refine ih hrest fun table ht => ?_
        cases ht
        exact ⟨hclean, happend⟩

/-- **No key has a `$`**, when the text is ASCII. -/
theorem clean_catalogEntries {ddl : Text} (h : ∀ c ∈ ddl, isAscii c = true) :
    ∀ e ∈ catalogEntries u ddl, Clean e.1 := by
  intro e he
  obtain ⟨table, htable, he⟩ := List.mem_flatMap.mp he
  obtain ⟨key, hkey, rfl⟩ := List.mem_map.mp he
  have hlines : ∀ l ∈ ddl.splitlinesKeep, ∀ c ∈ l, isAscii c = true := fun l hl c hc =>
    h c (Text.flatten_splitlinesKeep ddl ▸ List.mem_flatten.mpr ⟨l, hl, hc⟩)
  obtain ⟨hname, hstatement⟩ := @clean_parseLines u _ hlines none
    (fun table ht => (by cases ht)) table (List.mem_filter.mp htable).1
  have htableKey := clean_normalizeIdentifier u hname
  unfold catalogTableKeys at hkey
  split at hkey
  · rename_i schema d qualifiedTable hgroup
    obtain ⟨group, hheader, hparts⟩ := Option.map_eq_some_iff.mp hgroup
    obtain ⟨rfl, hdrop⟩ := Prod.mk.inj hparts
    have hclean := clean_headerName u hstatement hheader
    have hschema : Clean (group.takeWhile (· ≠ '.')) :=
      hclean.subset (List.takeWhile_prefix _).subset
    have hqualified : Clean qualifiedTable := hclean.subset fun c hc =>
      (List.dropWhile_suffix (· ≠ '.')).subset (hdrop ▸ List.mem_cons_of_mem _ hc)
    dsimp only at hkey
    split at hkey
    · simp only [List.mem_cons, List.not_mem_nil, or_false] at hkey
      rcases hkey with rfl | rfl
      · exact htableKey
      · refine (clean_normalizeIdentifier u hschema).append fun c hc => ?_
        rcases List.mem_cons.mp hc with rfl | hc
        · decide
        · exact clean_normalizeIdentifier u hqualified c hc
    · obtain rfl := List.mem_singleton.mp hkey
      exact htableKey
  · obtain rfl := List.mem_singleton.mp hkey
    exact htableKey

/-- No statement has a column that is called like the beginning of a constraint. -/
theorem not_mem_statementColumns {statement c : Text} (h : c ∈ statementColumns u statement) :
    c ∉ tableConstraints := by
  unfold statementColumns at h
  split at h
  · simp at h
  · rw [List.mem_toFinset, List.mem_filterMap] at h
    obtain ⟨item, -, h⟩ := h
    unfold itemColumn at h
    simpa using (Option.filter_eq_some_iff.mp h).2

/-! ## The catalog -/

/-- The catalog has the keys of the rows and no others, each with the columns of its rows. -/
structure Exact (rows : List SchemaRow) (catalog : SetDict Text Text) : Prop where
  keys : ∀ key, (catalog.get? key).isSome ↔ ∃ row ∈ rows, key ∈ rowKeys u row
  columns : ∀ key columns, catalog.get? key = some columns →
    ∀ c, c ∈ columns ↔ ∃ row ∈ rows, key ∈ rowKeys u row ∧ c = casefold u row.column

/-- The header and the line of the row are read back. -/
structure Readable (row : SchemaRow) : Prop where
  schema : '$' ∉ row.schema
  table : '$' ∉ row.table
  column : casefold u row.column ∉ tableConstraints
  type : ¬Overflows row

theorem name_of_isIdentifier {s : Text} (h : isIdentifier s = true) (hs : '$' ∉ s) : Name s :=
  ⟨(isIdentifier_spec h).1, fun c hc => ⟨(isIdentifier_spec h).2 c hc, fun he => hs (he ▸ hc)⟩⟩

/-- The groups of lines are what the reader expects. -/
theorem group_of_mem {rows : List SchemaRow} {lines g : List (SchemaRow × Text)}
    (hlines : ∀ p ∈ lines, p.1 ∈ rows ∧ IsLine p.1 p.2) (h : ∀ row ∈ rows, Readable u row)
    (hg : g ∈ groups tableKey lines) : Group g := by
  obtain ⟨p, hp, rfl⟩ := mem_groups.mp hg
  have hmem : ∀ q ∈ lines.filter (fun y => tableKey y = tableKey p),
      q ∈ lines ∧ tableKey q = tableKey p := by
    intro q hq
    simpa using List.mem_filter.mp hq
  exact
    { ne_nil := List.ne_nil_of_mem (List.mem_filter.mpr ⟨hp, by simp⟩)
      line := fun q hq => (hlines q (hmem q hq).1).2
      same := fun q hq r hr => (hmem q hq).2.trans (hmem r hr).2.symm
      schema := fun q hq => name_of_isIdentifier q.1.schema_valid
        (h q.1 (hlines q (hmem q hq).1).1).schema
      table := fun q hq => name_of_isIdentifier q.1.table_valid
        (h q.1 (hlines q (hmem q hq).1).1).table }

/-- What is catalogued of rows that can be read back. -/
theorem exact_of_readable {rows : List SchemaRow} {lines : List (SchemaRow × Text)}
    (hlines : ∀ p ∈ lines, p.1 ∈ rows ∧ IsLine p.1 p.2)
    (hrows : ∀ row ∈ rows, ∃ p ∈ lines, p.1 = row) (h : ∀ row ∈ rows, Readable u row) :
    Exact u rows (buildDatabaseCatalog u
      (join "\n\n".toList ((groups tableKey lines).map statement))) := by
  have hgroup : ∀ g ∈ groups tableKey lines, Group g := fun g hg => group_of_mem u hlines h hg
  have hmem : ∀ g ∈ groups tableKey lines, ∀ p ∈ g, p.1 ∈ rows := by
    intro g hg p hp
    obtain ⟨q, -, rfl⟩ := mem_groups.mp hg
    exact (hlines p (List.mem_filter.mp hp).1).1
  have hin : ∀ row ∈ rows, ∃ g ∈ groups tableKey lines, ∃ p ∈ g, p.1 = row := by
    intro row hrow
    obtain ⟨p, hp, rfl⟩ := hrows row hrow
    exact ⟨_, mem_groups.mpr ⟨p, hp, rfl⟩, p, List.mem_filter.mpr ⟨hp, by simp⟩, rfl⟩
  have hentries := @mem_catalogEntries u _ hgroup fun g hg p hp => (h p.1 (hmem g hg p hp)).column
  constructor
  · intro key
    unfold buildDatabaseCatalog
    rw [SetDict.isSome_get?_foldl_add, SetDict.get?_empty]
    constructor
    · rintro (hnone | ⟨e, he, rfl⟩)
      · cases hnone
      · obtain ⟨g, hg, p, hp, hkey, -⟩ := hentries.mp he
        exact ⟨p.1, hmem g hg p hp, hkey⟩
    · rintro ⟨row, hrow, hkey⟩
      obtain ⟨g, hg, p, hp, rfl⟩ := hin row hrow
      exact .inr ⟨(key, _), hentries.mpr ⟨g, hg, p, hp, hkey, rfl⟩, rfl⟩
  · intro key columns hget c
    have hc : c ∈ columns ↔ ∃ e ∈ catalogEntries u
        (join "\n\n".toList ((groups tableKey lines).map statement)), e.1 = key ∧ c ∈ e.2 := by
      have hfold := SetDict.mem_get?_foldl_add (catalogEntries u
        (join "\n\n".toList ((groups tableKey lines).map statement))) SetDict.empty key c
      unfold buildDatabaseCatalog at hget
      rw [hget, SetDict.get?_empty] at hfold
      simpa using hfold
    rw [hc]
    constructor
    · rintro ⟨e, he, rfl, hmemc⟩
      obtain ⟨g, hg, p, hp, hkey, hcolumns⟩ := hentries.mp he
      rw [hcolumns, List.mem_toFinset, List.mem_map] at hmemc
      obtain ⟨q, hq, rfl⟩ := hmemc
      rw [rowKeys_eq_of_tableKey u ((hgroup g hg).same p hp q hq)] at hkey
      exact ⟨q.1, hmem g hg q hq, hkey, rfl⟩
    · rintro ⟨row, hrow, hkey, rfl⟩
      obtain ⟨g, hg, p, hp, rfl⟩ := hin row hrow
      exact ⟨(key, _), hentries.mpr ⟨g, hg, p, hp, hkey, rfl⟩, rfl,
        List.mem_toFinset.mpr (List.mem_map.mpr ⟨p, hp, rfl⟩)⟩

/-- What is rendered is ASCII. -/
theorem isAscii_statement {g : List (SchemaRow × Text)} (h : ∀ p ∈ g, IsLine p.1 p.2) :
    ∀ c ∈ statement g, isAscii c = true := by
  have hpart : ∀ {c : Char}, isPart c = true → isAscii c = true := fun hc => by
    simpa [isAscii] using toNat_of_isPart hc
  have hidentifier : ∀ {s : Text}, isIdentifier s = true → ∀ c ∈ s, isAscii c = true :=
    fun hs c hc => hpart ((isIdentifier_spec hs).2 c hc)
  have happend : ∀ {s t : Text}, (∀ c ∈ s, isAscii c = true) → (∀ c ∈ t, isAscii c = true) →
      ∀ c ∈ s ++ t, isAscii c = true :=
    fun hs ht c hc => (List.mem_append.mp hc).elim (hs c) (ht c)
  cases g with
  | nil => exact fun c hc => (by cases hc)
  | cons first g =>
    have hline : ∀ p ∈ first :: g, ∀ c ∈ p.2, isAscii c = true := by
      intro p hp c hc
      obtain ⟨t, ht, hmem⟩ := (h p hp).shape
      rw [ht] at hc
      simp only [List.mem_append, List.mem_cons, List.not_mem_nil, or_false] at hc
      rcases hc with (hc | rfl | hc) | rfl
      · revert c
        decide
      · decide
      · rcases hmem c hc with hp | hc
        · exact hpart hp
        · simp only [List.mem_cons, List.not_mem_nil, or_false] at hc
          rcases hc with rfl | rfl | rfl | rfl | rfl <;> decide
      · decide
    have hjoin : ∀ c ∈ join ",\n".toList ((first :: g).map Prod.snd), isAscii c = true := by
      intro c hc
      have hsep : ∀ c ∈ ",\n".toList, isAscii c = true := by decide
      rcases Text.mem_join hc with hc | ⟨line, hl, hc⟩
      · exact hsep c hc
      · obtain ⟨p, hp, rfl⟩ := List.mem_map.mp hl
        exact hline p hp c hc
    unfold statement header
    refine happend (happend (happend (happend (happend (happend ?_ ?_) ?_) ?_) ?_) hjoin) ?_
    · decide
    · exact hidentifier first.1.schema_valid
    · decide
    · exact hidentifier first.1.table_valid
    · decide
    · decide

theorem isAscii_join {lines : List (SchemaRow × Text)} (h : ∀ p ∈ lines, IsLine p.1 p.2) :
    ∀ c ∈ join "\n\n".toList ((groups tableKey lines).map statement), isAscii c = true := by
  intro c hc
  have hsep : ∀ c ∈ "\n\n".toList, isAscii c = true := by decide
  rcases Text.mem_join hc with hc | ⟨s, hs, hc⟩
  · exact hsep c hc
  · obtain ⟨g, hg, rfl⟩ := List.mem_map.mp hs
    obtain ⟨p, -, rfl⟩ := mem_groups.mp hg
    exact isAscii_statement (fun q hq => h q (List.mem_filter.mp hq).1) c hc

/-- A row that is in an exact catalog of an ASCII text can be read back. -/
theorem Exact.readable {rows : List SchemaRow} {ddl : Text}
    (h : Exact u rows (buildDatabaseCatalog u ddl)) (hddl : ∀ c ∈ ddl, isAscii c = true)
    {row : SchemaRow} (hrow : row ∈ rows) (htype : ¬Overflows row) : Readable u row := by
  have hkey : ∀ key ∈ rowKeys u row, '$' ∉ key := by
    intro key hkey hm
    have hsome := (h.keys key).mpr ⟨row, hrow, hkey⟩
    unfold buildDatabaseCatalog at hsome
    rw [SetDict.isSome_get?_foldl_add] at hsome
    rcases hsome with hnone | ⟨e, he, rfl⟩
    · cases hnone
    · exact (clean_catalogEntries u hddl e he '$' hm).2 rfl
  refine ⟨fun hm => ?_, fun hm => ?_, fun hm => ?_, htype⟩
  · exact hkey _ (List.mem_cons_of_mem _ List.mem_cons_self)
      (List.mem_append_left _ (mem_casefold_dollar u hm))
  · exact hkey _ List.mem_cons_self (mem_casefold_dollar u hm)
  · have hfirst : casefold u row.table ∈ rowKeys u row := List.mem_cons_self
    obtain ⟨columns, hget⟩ := Option.isSome_iff_exists.mp
      ((h.keys _).mpr ⟨row, hrow, hfirst⟩)
    have hc := (h.columns _ columns hget (casefold u row.column)).mpr ⟨row, hrow, hfirst, rfl⟩
    have hfold := SetDict.mem_get?_foldl_add (catalogEntries u ddl) SetDict.empty
      (casefold u row.table) (casefold u row.column)
    unfold buildDatabaseCatalog at hget
    rw [hget, SetDict.get?_empty] at hfold
    obtain hempty | ⟨e, he, -, hce⟩ := hfold.mp hc
    · simp at hempty
    · obtain ⟨table, -, he⟩ := List.mem_flatMap.mp he
      obtain ⟨key, -, rfl⟩ := List.mem_map.mp he
      exact not_mem_statementColumns u hce hm

/-- **Rendering and cataloguing loses nothing** just when every row can be read back: its names have
no `$`, its column is not called like the beginning of a constraint, and its type can be
written. -/
theorem catalog_exact_iff (rows : List Json.Loaded) :
    (∃ ddl, renderSchema rows = .ok ddl ∧
        Exact u (validRows rows) (buildDatabaseCatalog u ddl)) ↔
      ∀ row ∈ validRows rows, Readable u row := by
  constructor
  · rintro ⟨ddl, hddl, hexact⟩ row hrow
    have htypes := renderSchema_isOk.mp ⟨ddl, hddl⟩
    obtain ⟨lines, hlines, -, rfl⟩ := renderSchema_ok hddl
    exact hexact.readable u (isAscii_join fun p hp => (hlines p hp).2) hrow (htypes row hrow)
  · intro h
    obtain ⟨ddl, hddl⟩ := renderSchema_isOk.mpr fun row hrow => (h row hrow).type
    refine ⟨ddl, hddl, ?_⟩
    obtain ⟨lines, hlines, hrows, rfl⟩ := renderSchema_ok hddl
    exact exact_of_readable u hlines hrows h

/-- No character beyond ASCII matters here. -/
def ascii : Unicode where
  word _ := false
  casefold c := [c]

/-- A table whose only column is called `key`. -/
def keyRow : Json.Loaded :=
  .obj [("table_schema".toList, .str "dbo".toList), ("table_name".toList, .str "t".toList),
    ("column_name".toList, .str "key".toList), ("data_type".toList, .str "int".toList)]

set_option maxRecDepth 100000 in
theorem key_column_is_lost :
    ¬∃ ddl, renderSchema [keyRow] = .ok ddl ∧
      Exact ascii (validRows [keyRow]) (buildDatabaseCatalog ascii ddl) := by
  rintro ⟨ddl, hddl, hexact⟩
  have hrender : renderSchema [keyRow] =
      .ok "CREATE TABLE [dbo].[t] (\n  [key] int NOT NULL\n);".toList := by decide +kernel
  rw [hrender] at hddl
  obtain rfl := Except.ok.inj hddl
  have hget : (buildDatabaseCatalog ascii
      "CREATE TABLE [dbo].[t] (\n  [key] int NOT NULL\n);".toList).get? "t".toList = some ∅ := by
    decide +kernel
  have hrow : ∃ row ∈ validRows [keyRow], "t".toList ∈ rowKeys ascii row ∧
      "key".toList = casefold ascii row.column := by
    decide +kernel
  exact absurd ((hexact.columns _ _ hget _).mpr hrow) (Finset.notMem_empty _)

end DbCatalog