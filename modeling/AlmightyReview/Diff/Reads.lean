import AlmightyReview.Diff.Quote
import AlmightyReview.Diff.Split

/-!
# What a reader of a piece finds

A piece of a file over the budget is a diff again, and `changed_lines` finds the added lines in it.

* `Reads text pairs`: the text is cut into blocks that add these lines. Texts that are put together
  add the lines of both (`Reads.append`).
* `reads_lines`: a text under a file header adds the lines that are found after the header.
* `reads_render`: the piece of some units adds the lines that they own, under the name in its file
  header (`displayName`).
* `truncate_reads`: a unit that is cut is read as it was, unless no room is left for it.
* `isRead_splitUnits`: the pieces of a block are read, when its units are `Ready`.
-/

namespace DiffFilter

open Unified

/-! ## Texts that are read -/

/-- **Read**: the text is made of blocks with readable headers, which add these lines. -/
def Reads (text : Text) (pairs : List (Text × Nat)) : Prop :=
  ∃ bs : List Block, Text.lines text = joinBlocks [] bs ∧ (∀ b ∈ bs, b.WellCut ∧ b.Readable) ∧
    pairs = bs.flatMap fun b => blockPairs (b.path, b.text)

/-- The last line of the text has its end. -/
def Ends (text : Text) : Prop := ∀ l ∈ Text.lines text, '\n' ∈ l

theorem lines_append_of_ends {s t : Text} (h : Ends s) :
    Text.lines (s ++ t) = Text.lines s ++ Text.lines t := by
  have hare := (Text.areLines_lines s).append h (Text.areLines_lines t)
  have hflat : s ++ t = (Text.lines s ++ Text.lines t).flatten := by
    rw [List.flatten_append, Text.flatten_lines, Text.flatten_lines]
  rw [hflat, Text.lines_flatten hare]

theorem Ends.append {s t : Text} (hs : Ends s) (ht : Ends t) : Ends (s ++ t) := by
  intro l hl
  rw [lines_append_of_ends hs, List.mem_append] at hl
  exact hl.elim (hs l) (ht l)

theorem reads_nil : Reads [] [] := ⟨[], rfl, by simp, rfl⟩

/-- **Texts that are put together** add the lines of both. -/
theorem Reads.append {s t : Text} {ps qs : List (Text × Nat)} (hs : Reads s ps) (hends : Ends s)
    (ht : Reads t qs) : Reads (s ++ t) (ps ++ qs) := by
  obtain ⟨bs, hbs, hb, rfl⟩ := hs
  obtain ⟨cs, hcs, hc, rfl⟩ := ht
  refine ⟨bs ++ cs, ?_, fun b hm => ?_, List.flatMap_append.symm⟩
  · rw [lines_append_of_ends hends, hbs, hcs, joinBlocks, joinBlocks, joinBlocks,
      List.flatMap_append]
    simp only [List.nil_append]
  · exact (List.mem_append.mp hm).elim (hb b) (hc b)

/-- What `changed_lines` finds in a text that is read. -/
theorem Reads.changedLines {text : Text} {pairs : List (Text × Nat)} (h : Reads text pairs) :
    ∃ d, changedLines text = .ok d ∧ d.pairs = pairs.toFinset := by
  obtain ⟨bs, hbs, hb, rfl⟩ := h
  have hcut : cutBlocks (Text.lines text) = ([], bs) := by
    rw [hbs]
    exact cutBlocks_joinBlocks (by simp) fun b hm => (hb b hm).1
  have hdec : Decodes text := by
    intro b hm
    rw [blocksOf, hcut] at hm
    exact (hb b hm).2
  obtain ⟨d, hd, hpairs⟩ := changedLines_ok hdec
  refine ⟨d, hd, ?_⟩
  rw [hpairs, addedPairs, pathBlocks, blocksOf, hcut, List.flatMap_append, flatMap_preamble,
    List.nil_append, List.flatMap_map]

/-! ## One line at a time -/

/-- `splitlines` finds one line in the text. -/
def SingleLine (t : Text) : Prop := Text.splitlinesKeep t = [t]

theorem splitlinesKeep_flatten_lines {ts : List Text} (hare : Text.AreLines ts)
    (h : ∀ t ∈ ts, SingleLine t) : Text.splitlinesKeep ts.flatten = ts := by
  induction ts with
  | nil => rfl
  | cons t ts ih =>
    obtain ⟨⟨s, -, hl⟩, hrest⟩ := hare
    have ht := h t List.mem_cons_self
    have hts := ih hrest fun t ht => h t (List.mem_cons_of_mem _ ht)
    rcases hl with rfl | ⟨rfl, -, rfl⟩
    · rw [List.flatten_cons, List.append_assoc, List.singleton_append,
        Text.splitlinesKeep_append, hts, ht]
      rfl
    · rw [List.flatten_singleton]
      exact ht

theorem singleLine_ended {s : Text} (h : Unbroken s) : SingleLine (ended s) := h.splitlinesKeep

/-- A text without boundaries is a line without its end. -/
theorem singleLine_of_unbroken {s : Text} (h : Unbroken s) (hne : s ≠ []) : SingleLine s := by
  induction s with
  | nil => exact absurd rfl hne
  | cons c s ih =>
    have hc := h c List.mem_cons_self
    have hcr : ¬(c = '\r' ∧ s.head? = some '\n') := by
      rintro ⟨rfl, -⟩
      cases hc
    unfold SingleLine
    rw [Text.splitlinesKeep_cons hcr, if_neg (by simp [hc])]
    cases s with
    | nil => rfl
    | cons d s =>
      have hrest : Text.splitlinesKeep (d :: s) = [d :: s] :=
        ih (fun c hc => h c (List.mem_cons_of_mem _ hc)) (List.cons_ne_nil _ _)
      rw [hrest]
      rfl

/-! ## Headers of pieces -/

/-- The name in the file headers of the pieces of a block. -/
def displayName (path : Text) (budget : Nat) : Text :=
  if (fileHeader (displayPath path)).length + 32 > budget then
    "oversized-".toList ++ (Sha256.hexdigest (Text.encode (displayPath path))).take 8
  else displayPath path

theorem syntheticDiffPrefix_eq (path : Text) (budget : Nat) :
    syntheticDiffPrefix path budget = fileHeader (displayName path budget) := by
  unfold syntheticDiffPrefix displayName
  split <;> rfl

/-- A name that a file header can have without quotes. -/
structure PlainName (name : Text) : Prop where
  ne_nil : name ≠ []
  bare : Bare name
  unbroken : Unbroken name

/-- The file header without its end. -/
def headerOf (name : Text) : Text := "diff --git a/".toList ++ name ++ " b/".toList ++ name

theorem fileHeader_eq (name : Text) : fileHeader name = ended (headerOf name) := rfl

theorem headerTarget_headerOf {name : Text} (h : PlainName name) :
    headerTarget (headerOf name) = .ok name := by
  have ha : Bare ('a' :: '/' :: name) := Bare.cons (by decide) (.cons (by decide) h.bare)
  have hb : Bare ('b' :: '/' :: name) := Bare.cons (by decide) (.cons (by decide) h.bare)
  have hheader : headerOf name = 'd' :: "iff".toList ++ ' ' :: ('-' :: "-git".toList ++ ' ' ::
      ('a' :: '/' :: name ++ ' ' :: ('b' :: '/' :: name ++ []))) := by
    have h₁ : "diff --git a/".toList =
        'd' :: "iff".toList ++ ' ' :: ('-' :: "-git".toList ++ ' ' :: ['a', '/']) := by
      decide +kernel
    have h₂ : " b/".toList = [' ', 'b', '/'] := by decide +kernel
    unfold headerOf
    rw [h₁, h₂]
    simp only [List.append_assoc, List.cons_append, List.nil_append, List.append_nil]
  have hslash : '\\' ∉ name := fun hm => (h.bare _ hm).2.2 rfl
  unfold headerTarget
  rw [hheader, shlexSplit_words (by decide) (by decide) ha hb]
  simp only
  rw [if_pos ⟨rfl, rfl⟩, decodeGitPath_cons_ascii (by decide) (by decide),
    decodeGitPath_cons_ascii (by decide) (by decide),
    decodeGitPath_of_not_hasEscape (not_mem_of_hasEscape hslash)]
  exact congrArg Except.ok (if_pos rfl)

theorem unbroken_headerOf {name : Text} (h : Unbroken name) : Unbroken (headerOf name) := by
  have h₁ : Unbroken "diff --git a/".toList := by decide +kernel
  have h₂ : Unbroken " b/".toList := by decide +kernel
  exact ((h₁.append h).append h₂).append h

theorem isFileHeader_headerOf (name : Text) : isFileHeader (ended (headerOf name)) = true := by
  have hsplit : ended (headerOf name) = "diff --git ".toList ++
      ('a' :: '/' :: (name ++ " b/".toList ++ name ++ ['\n'])) := by
    have h₁ : "diff --git a/".toList = "diff --git ".toList ++ ['a', '/'] := by decide +kernel
    unfold ended headerOf
    rw [h₁]
    simp only [List.append_assoc, List.cons_append, List.nil_append]
  have hlen : "diff --git ".toList.length = 11 := by decide +kernel
  rw [hsplit, isFileHeader, ← hlen, List.drop_left, Bool.and_eq_true]
  exact ⟨List.isPrefixOf_iff_prefix.mpr (List.prefix_append _ _), rfl⟩

/-- **A text with a header of its own** adds the lines that are found after the header. -/
theorem reads_lines {name : Text} (hname : PlainName name) (ts : List Text)
    (hare : Text.AreLines ts) (hone : ∀ t ∈ ts, SingleLine t)
    (hbody : ∀ t ∈ ts, isFileHeader t = false) :
    Reads (fileHeader name ++ ts.flatten)
      ((addedFrom none (ts.map Text.chomp)).map (Prod.mk name)) := by
  have hun := unbroken_headerOf hname.unbroken
  have hall : Text.AreLines (fileHeader name :: ts) :=
    ⟨⟨headerOf name, hun.not_mem, .inl rfl⟩, hare⟩
  have hones : ∀ t ∈ fileHeader name :: ts, SingleLine t := by
    intro t ht
    rcases List.mem_cons.mp ht with rfl | ht
    · exact singleLine_ended hun
    · exact hone t ht
  have hread : headerTarget (headerText (fileHeader name)) = .ok name := by
    rw [fileHeader_eq, headerText_ended hun.not_mem, headerTarget_headerOf hname]
  have hpath : (⟨fileHeader name, ts⟩ : Block).path = name := by
    rw [Block.path]
    simp only [hread]
  refine ⟨[⟨fileHeader name, ts⟩], ?_, ?_, ?_⟩
  · rw [← List.flatten_cons, Text.lines_flatten hall]
    simp [joinBlocks, Block.lines]
  · intro b hb
    obtain rfl := List.mem_singleton.mp hb
    exact ⟨⟨isFileHeader_headerOf name, hbody⟩, (headerTarget_ok_iff _).mp ⟨name, hread⟩⟩
  · have hsplit : Text.splitlines (fileHeader name :: ts).flatten =
        Text.chomp (fileHeader name) :: ts.map Text.chomp := by
      rw [Text.splitlines, splitlinesKeep_flatten_lines hall hones]
      rfl
    have hstart : (Text.chomp (fileHeader name)).startsWith "@@".toList = false := by
      rw [Text.startsWith_chomp (by decide)]
      rfl
    have hadded : addedLines (fileHeader name :: ts).flatten =
        addedFrom none (ts.map Text.chomp) := by
      rw [addedLines, hsplit, addedFrom.eq_def]
      simp only [hstart, Bool.false_eq_true, if_false]
    rw [List.flatMap_singleton, hpath, blockPairs, if_neg hname.ne_nil]
    show _ = (addedLines (fileHeader name :: ts).flatten).map (Prod.mk name)
    rw [hadded]

/-- The hunk header of a piece gives the number of its first unit. -/
theorem hunkHeader_hunkHeaderText (first : HunkLine) (units : List HunkLine) :
    hunkHeader (hunkHeaderText first units) = some first.newNo := by
  have hnum : ∀ (n : Nat) {c : Char} (t : Text), Text.digit? c = none →
      Text.number (Text.ofNat n ++ c :: t) = some (n, c :: t) := by
    intro n c t hc
    refine Text.number_ofNat n fun d hd => ?_
    obtain rfl := Option.mem_some_iff.mp hd
    exact hc
  have hcount : ∀ (n : Nat) (t : Text),
      dropCount (',' :: (Text.ofNat n ++ ' ' :: t)) = ' ' :: t := by
    intro n t
    rw [dropCount, hnum n t (by decide)]
  have hsplit : ∀ a b c d : Nat, "@@ -".toList ++ Text.ofNat a ++ ",".toList ++ Text.ofNat b ++
      " +".toList ++ Text.ofNat c ++ ",".toList ++ Text.ofNat d ++ " @@ continued\n".toList =
      "@@ -".toList ++ (Text.ofNat a ++ ',' :: (Text.ofNat b ++ ' ' :: ("+".toList ++
        (Text.ofNat c ++ ',' :: (Text.ofNat d ++ ' ' :: "@@ continued\n".toList))))) := by
    intro a b c d
    simp only [List.append_assoc]
    rfl
  have hplus : ∀ t : Text, Text.dropStart? " +".toList (' ' :: ("+".toList ++ t)) = some t :=
    fun t => Text.dropStart?_append " +".toList t
  have hend : Text.dropStart? " @@".toList (' ' :: "@@ continued\n".toList) =
      some " continued\n".toList := by decide +kernel
  unfold hunkHeader fullHunkHeader hunkHeaderText
  simp only [hsplit, Text.dropStart?_append, hnum _ _ (show Text.digit? ',' = none by decide),
    hcount, hplus, hend, bind, Option.bind, pure, Option.map]

/-! ## Units that are read -/

/-- The unit counts as the text says. -/
inductive Counts (u : HunkLine) : Text → Prop
  | added {t : Text} : t.startsWith "++".toList = false → u.newCount = 1 →
      u.ownedLine = some u.newNo → Counts u ('+' :: t)
  | deleted {t : Text} : u.newCount = 0 → u.ownedLine = none → Counts u ('-' :: t)
  | context {t : Text} : u.newCount = 1 → u.ownedLine = none → Counts u (' ' :: t)

/-- **A unit that is read** as it is counted. -/
structure Told (u : HunkLine) : Prop where
  line : SingleLine u.text
  counts : Counts u u.text

/-- The units follow one another. -/
def Follow (us : List HunkLine) : Prop :=
  List.IsChain (fun u v => v.newNo = u.newNo + u.newCount) us

theorem Counts.startsWith {u : HunkLine} {text : Text} (h : Counts u text) :
    text.startsWith "@@".toList = false ∧ isFileHeader text = false := by
  cases h with
  | added => exact ⟨rfl, rfl⟩
  | deleted => exact ⟨rfl, rfl⟩
  | context => exact ⟨rfl, rfl⟩

theorem addedFrom_counts {u : HunkLine} {text : Text} (h : Counts u text) (ls : List Text) :
    addedFrom (some u.newNo) (Text.chomp text :: ls) =
      u.ownedLine.toList ++ addedFrom (some (u.newNo + u.newCount)) ls := by
  rw [addedFrom.eq_def]
  simp only
  rw [Text.startsWith_chomp (by decide), h.startsWith.1, isAdded_chomp,
    Text.startsWith_chomp (by decide)]
  cases h with
  | @added t ht hc ho =>
    have hadded : isAdded ('+' :: t) = true := by
      have hplus : Text.startsWith ('+' :: t) "+++".toList = t.startsWith "++".toList := rfl
      rw [isAdded, hplus, ht]
      rfl
    rw [hadded, hc, ho]
    rfl
  | deleted hc ho =>
    rw [hc, ho]
    rfl
  | context hc ho =>
    rw [hc, ho]
    rfl

theorem addedFrom_units {us : List HunkLine} (h : ∀ u ∈ us, Told u) (hf : Follow us) {n : Nat}
    (hn : ∀ u ∈ us.head?, u.newNo = n) :
    addedFrom (some n) (us.map fun u => Text.chomp u.text) = us.filterMap HunkLine.ownedLine := by
  induction us generalizing n with
  | nil => rfl
  | cons u us ih =>
    obtain rfl : u.newNo = n := hn u rfl
    rw [List.map_cons, addedFrom_counts (h u List.mem_cons_self).counts]
    have hrest := ih (fun v hv => h v (List.mem_cons_of_mem _ hv)) (List.IsChain.tail hf)
      (n := u.newNo + u.newCount) fun v hv => List.IsChain.rel_head? hf hv
    rw [hrest]
    cases ho : u.ownedLine with
    | none => rw [List.filterMap_cons_none ho]; rfl
    | some k => rw [List.filterMap_cons_some ho]; rfl

theorem singleLine_of_mem {s l : Text} (h : l ∈ Text.splitlinesKeep s) : SingleLine l := by
  fun_induction Text.splitlinesKeep s generalizing l with
  | case1 => cases h
  | case2 s ih =>
    rcases List.mem_cons.mp h with rfl | h
    · rfl
    · exact ih h
  | case3 c s hne hc ih =>
    rcases List.mem_cons.mp h with rfl | h
    · unfold SingleLine
      rw [Text.splitlinesKeep_cons (by simp), if_pos hc]
      rfl
    · exact ih h
  | case4 c s hne hc hs ih =>
    obtain rfl := List.mem_singleton.mp h
    unfold SingleLine
    rw [Text.splitlinesKeep_cons (by simp), if_neg hc]
    rfl
  | case5 c s hne hc l' ls hs ih =>
    rcases List.mem_cons.mp h with rfl | h
    · have hl : SingleLine l' := ih (hs ▸ List.mem_cons_self)
      have hcr : ¬(c = '\r' ∧ l'.head? = some '\n') := by
        rintro ⟨rfl, -⟩
        exact hc rfl
      unfold SingleLine
      rw [Text.splitlinesKeep_cons hcr, if_neg hc, hl]
      rfl
    · exact ih (hs ▸ List.mem_cons_of_mem _ h)

theorem told_unitsFrom {no : Option (Nat × Nat)} {ls : List Text} (h : ∀ l ∈ ls, SingleLine l) :
    ∀ u ∈ unitsFrom no ls, Told u := by
  have hl : ∀ {line : Text} {ls : List Text}, (∀ l ∈ line :: ls, SingleLine l) →
      ∀ l ∈ ls, SingleLine l := fun h l hl => h l (List.mem_cons_of_mem _ hl)
  have hcons : ∀ {line : Text} {a : Char} {p : Text}, line.startsWith (a :: p) = true →
      ∃ t, line = a :: t := by
    intro line a p hs
    obtain ⟨t, rfl⟩ := List.isPrefixOf_iff_prefix.mp hs
    exact ⟨p ++ t, rfl⟩
  fun_induction unitsFrom no ls with
  | case1 => simp
  | case2 no line ls hh ih => exact ih (hl h)
  | case3 line ls hh ih => exact ih (hl h)
  | case4 line ls hh o n ha ih =>
    intro u hu
    rcases List.mem_cons.mp hu with rfl | hu
    · refine ⟨h line List.mem_cons_self, ?_⟩
      rw [isAdded, Bool.and_eq_true, Bool.not_eq_true'] at ha
      obtain ⟨t, rfl⟩ := hcons ha.1
      exact .added ha.2 rfl rfl
    · exact ih (hl h) u hu
  | case5 line ls hh o n ha hd ih =>
    intro u hu
    rcases List.mem_cons.mp hu with rfl | hu
    · refine ⟨h line List.mem_cons_self, ?_⟩
      rw [isDeleted, Bool.and_eq_true] at hd
      obtain ⟨t, rfl⟩ := hcons hd.1
      exact .deleted rfl rfl
    · exact ih (hl h) u hu
  | case6 line ls hh o n ha hd hs ih =>
    intro u hu
    rcases List.mem_cons.mp hu with rfl | hu
    · refine ⟨h line List.mem_cons_self, ?_⟩
      obtain ⟨t, rfl⟩ := hcons hs
      exact .context rfl rfl
    · exact ih (hl h) u hu
  | case7 line ls hh o n ha hd hs ih => exact ih (hl h)

theorem told_hunkLineUnits (text : Text) : ∀ u ∈ hunkLineUnits text, Told u :=
  told_unitsFrom fun _ hl => singleLine_of_mem hl

/-! ## Pieces -/

section Piece

variable {path head : Text} {name : Text} {budget : Nat}

/-- The texts of units have their ends. -/
def Terminated (us : List HunkLine) : Prop := ∀ u ∈ us, ∃ s, '\n' ∉ s ∧ u.text = ended s

theorem Terminated.areLines {us : List HunkLine} (h : Terminated us) :
    Text.AreLines (us.map HunkLine.text) := by
  induction us with
  | nil => trivial
  | cons u us ih =>
    obtain ⟨s, hn, hs⟩ := h u List.mem_cons_self
    exact ⟨⟨s, hn, .inl hs⟩, ih fun v hv => h v (List.mem_cons_of_mem _ hv)⟩

theorem hunkHeaderText_ended (first : HunkLine) (units : List HunkLine) :
    ∃ s, Unbroken s ∧ hunkHeaderText first units = ended s := by
  have h₁ : Unbroken "@@ -".toList := by decide +kernel
  have h₂ : Unbroken ",".toList := by decide +kernel
  have h₃ : Unbroken " +".toList := by decide +kernel
  have h₄ : Unbroken " @@ continued".toList := by decide +kernel
  have hend : " @@ continued\n".toList = " @@ continued".toList ++ ['\n'] := by decide +kernel
  refine ⟨_, (((((((h₁.append (unbroken_ofNat first.oldNo)).append h₂).append
    (unbroken_ofNat (units.map HunkLine.oldCount).sum)).append h₃).append
      (unbroken_ofNat first.newNo)).append h₂).append
        (unbroken_ofNat (units.map HunkLine.newCount).sum)).append h₄, ?_⟩
  unfold hunkHeaderText ended
  rw [hend]
  simp only [List.append_assoc]

theorem renderHunkPiece_cons (head : Text) (first : HunkLine) (rest : List HunkLine) :
    renderHunkPiece head (first :: rest) = head ++
      (hunkHeaderText first (first :: rest) :: (first :: rest).map HunkLine.text).flatten := by
  show head ++ hunkHeaderText first (first :: rest) ++ _ = _
  rw [List.flatten_cons, List.append_assoc]

/-- **A piece is read** as the lines that its units own. -/
theorem reads_render (hname : PlainName name) {us : List HunkLine} (hne : us ≠ [])
    (ht : ∀ u ∈ us, Told u) (hf : Follow us) (hare : Text.AreLines (us.map HunkLine.text)) :
    Reads (renderHunkPiece (fileHeader name) us)
      ((us.filterMap HunkLine.ownedLine).map (Prod.mk name)) := by
  obtain ⟨first, rest, rfl⟩ := List.exists_cons_of_ne_nil hne
  obtain ⟨s, hs, hhunk⟩ := hunkHeaderText_ended first (first :: rest)
  have hreads := reads_lines hname
    (hunkHeaderText first (first :: rest) :: (first :: rest).map HunkLine.text)
    ⟨⟨s, hs.not_mem, .inl hhunk⟩, hare⟩ (by
      intro t ht'
      rcases List.mem_cons.mp ht' with rfl | ht'
      · rw [hhunk]
        exact singleLine_ended hs
      · obtain ⟨u, hu, rfl⟩ := List.mem_map.mp ht'
        exact (ht u hu).line) (by
      intro t ht'
      rcases List.mem_cons.mp ht' with rfl | ht'
      · rfl
      · obtain ⟨u, hu, rfl⟩ := List.mem_map.mp ht'
        exact (ht u hu).counts.startsWith.2)
  have hadded : addedFrom none ((hunkHeaderText first (first :: rest) ::
      (first :: rest).map HunkLine.text).map Text.chomp) =
        (first :: rest).filterMap HunkLine.ownedLine := by
    have hstart : (Text.chomp (hunkHeaderText first (first :: rest))).startsWith "@@".toList =
        true := by
      rw [Text.startsWith_chomp (by decide)]
      rfl
    have hnum : hunkHeader (Text.chomp (hunkHeaderText first (first :: rest))) =
        some first.newNo := by
      rw [hunkHeader, fullHunkHeader_chomp]
      exact hunkHeader_hunkHeaderText first _
    rw [List.map_cons, addedFrom.eq_def]
    simp only [hstart, if_true, hnum, List.map_map]
    exact addedFrom_units ht hf fun u hu => by
      obtain rfl := Option.mem_some_iff.mp hu
      rfl
  rw [hadded] at hreads
  rw [renderHunkPiece_cons]
  exact hreads

/-! ### A unit that is cut -/

/-- All but the boundary of a line has none. -/
theorem unbroken_of_singleLine {t : Text} (h : SingleLine t) :
    Unbroken (t.take (t.length - 2)) := by
  induction t with
  | nil =>
    intro c hc
    cases hc
  | cons c s ih =>
    have hshort : s.length ≤ 1 → Unbroken ((c :: s).take ((c :: s).length - 2)) := by
      intro hs
      rw [List.length_cons, show s.length + 1 - 2 = 0 by omega, List.take_zero]
      intro c hc
      cases hc
    by_cases hcr : c = '\r' ∧ s.head? = some '\n'
    · obtain ⟨rfl, hhead⟩ := hcr
      cases s with
      | nil => cases hhead
      | cons d s =>
        obtain rfl : d = '\n' := Option.some.inj hhead
        have hsplit : Text.splitlinesKeep ('\r' :: '\n' :: s) =
            ['\r', '\n'] :: Text.splitlinesKeep s := by
          rw [Text.splitlinesKeep]
        rw [SingleLine, hsplit, List.cons.injEq] at h
        obtain rfl : s = [] := by simpa using h.1.symm
        exact hshort le_rfl
    · unfold SingleLine at h
      rw [Text.splitlinesKeep_cons hcr] at h
      split at h
      · obtain rfl : s = [] := by simpa using (List.cons.inj h).1.symm
        exact hshort (Nat.zero_le 1)
      · rename_i hc
        by_cases hs : s.length ≤ 1
        · exact hshort hs
        have hone : SingleLine s := by
          obtain ⟨l, ls, hl⟩ := List.exists_cons_of_ne_nil
            (Text.splitlinesKeep_ne_nil (s := s) (by rintro rfl; exact hs (Nat.zero_le 1)))
          rw [hl, Text.consLine] at h
          obtain ⟨hfirst, rfl⟩ := List.cons.inj h
          rw [SingleLine, hl, (List.cons.inj hfirst).2]
        rw [List.length_cons, show s.length + 1 - 2 = (s.length - 2) + 1 by omega,
          List.take_succ_cons]
        intro d hd
        rcases List.mem_cons.mp hd with rfl | hd
        · simpa using hc
        · exact ih hone d hd

/-- A text that begins like the counted one counts the same. -/
theorem Counts.cut {u v : HunkLine} {c : Char} {s t : Text} (h : Counts u (c :: s))
    (hv : v.newNo = u.newNo ∧ v.newCount = u.newCount ∧ v.ownedLine = u.ownedLine)
    (ht : t.startsWith "++".toList = true → s.startsWith "++".toList = true) :
    Counts v (c :: t) := by
  obtain ⟨hno, hcount, howned⟩ := hv
  cases h with
  | added hs hc ho =>
    refine .added ?_ (hcount.trans hc) (by rw [howned, ho, hno])
    by_contra hne
    rw [ht (by simpa using hne)] at hs
    cases hs
  | deleted hc ho => exact .deleted (hcount.trans hc) (howned.trans ho)
  | context hc ho => exact .context (hcount.trans hc) (howned.trans ho)

theorem Counts.exists_cons {u : HunkLine} {text : Text} (h : Counts u text) :
    ∃ c s, text = c :: s ∧ sigil text = [c] ∧ Text.isLineBreak c = false := by
  cases h with
  | added => exact ⟨_, _, rfl, rfl, by decide⟩
  | deleted => exact ⟨_, _, rfl, rfl, by decide⟩
  | context => exact ⟨_, _, rfl, rfl, by decide⟩

/-- The units that were gathered can be read, and others can follow them. -/
structure Gathering (us : List HunkLine) : Prop where
  told : ∀ u ∈ us, Told u
  follow : Follow us
  terminated : Terminated us

/-- The piece of the units can be read, and it fills the budget. -/
structure Filled (name : Text) (budget : Nat) (us : List HunkLine) : Prop where
  reads : Reads (renderHunkPiece (fileHeader name) us)
    ((us.filterMap HunkLine.ownedLine).map (Prod.mk name))
  full : budget ≤ (renderHunkPiece (fileHeader name) us).length

theorem unbroken_cons {c : Char} {s : Text} (hc : Text.isLineBreak c = false) (hs : Unbroken s) :
    Unbroken (c :: s) := by
  intro d hd
  rcases List.mem_cons.mp hd with rfl | hd
  · exact hc
  · exact hs d hd

theorem gathering_single {u : HunkLine} (hu : Told u) (he : ∃ s, '\n' ∉ s ∧ u.text = ended s) :
    Gathering [u] := by
  refine ⟨fun v hv => ?_, .singleton u, fun v hv => ?_⟩
  · rwa [List.mem_singleton.mp hv]
  · rwa [List.mem_singleton.mp hv]

/-- A unit without its end that fills the budget. -/
theorem filled_single (hname : PlainName name) {u : HunkLine} (hu : Told u) (hn : '\n' ∉ u.text)
    (hfull : budget ≤ (renderHunkPiece (fileHeader name) [u]).length) :
    Filled name budget [u] := by
  have hne : u.text ≠ [] := by
    obtain ⟨c, s, hcs, -⟩ := hu.counts.exists_cons
    rw [hcs]
    exact List.cons_ne_nil _ _
  refine ⟨reads_render hname (List.cons_ne_nil _ _) (fun v hv => ?_) (.singleton u)
    ⟨⟨u.text, hn, .inr ⟨rfl, hne, rfl⟩⟩, trivial⟩, hfull⟩
  rwa [List.mem_singleton.mp hv]

/-- A unit of which nothing is left. -/
theorem filled_empty (hname : PlainName name) {u : HunkLine} (ht : u.text = [])
    (ho : u.ownedLine = none)
    (hfull : budget ≤ (renderHunkPiece (fileHeader name) [u]).length) :
    Filled name budget [u] := by
  obtain ⟨s, hs, hhunk⟩ := hunkHeaderText_ended u [u]
  have hreads := reads_lines hname [hunkHeaderText u [u]] ⟨⟨s, hs.not_mem, .inl hhunk⟩, trivial⟩
    (by
      intro t ht'
      rw [List.mem_singleton.mp ht', hhunk]
      exact singleLine_ended hs)
    (by
      intro t ht'
      rw [List.mem_singleton.mp ht']
      rfl)
  have hnone : addedFrom none ([hunkHeaderText u [u]].map Text.chomp) = [] := by
    rw [List.map_singleton, addedFrom.eq_def]
    simp only
    split
    · rw [addedFrom]
    · rfl
  rw [hnone] at hreads
  refine ⟨?_, hfull⟩
  rw [renderHunkPiece_cons, List.map_singleton, ht, List.filterMap_cons_none ho]
  simpa using hreads

/-- **A unit that is cut** is read as it was, unless its line is added and no room is left. -/
theorem truncate_reads (hname : PlainName name) {u : HunkLine} (hu : Told u) (hsingle : u.Single)
    (hlong : TooLong (fileHeader name) budget u)
    (hroom : u.ownedLine ≠ none → (fileHeader name).length + u.headerWidth < budget) :
    Gathering [truncateUnitToBudget (fileHeader name) u budget] ∨
      Filled name budget [truncateUnitToBudget (fileHeader name) u budget] := by
  obtain ⟨c, s, hcs, hsigil, hbreak⟩ := hu.counts.exists_cons
  have hcn : c ≠ '\n' := by
    rintro rfl
    cases hbreak
  have hmarker : truncationMarker.length = 33 := by decide +kernel
  have hdots : "…\n".toList = ['…', '\n'] := by decide +kernel
  have htext := @text_truncate (fileHeader name) budget u hsingle
  have hlen := @length_render_truncate (fileHeader name) budget u hsingle
  have hroomFor : roomFor (fileHeader name) budget u =
      budget - ((fileHeader name).length + u.headerWidth) := rfl
  have hsame : (truncateUnitToBudget (fileHeader name) u budget).newNo = u.newNo ∧
      (truncateUnitToBudget (fileHeader name) u budget).newCount = u.newCount ∧
      (truncateUnitToBudget (fileHeader name) u budget).ownedLine = u.ownedLine := ⟨rfl, rfl, rfl⟩
  rw [hsigil, hdots, hmarker] at htext
  unfold TooLong at hlong
  generalize truncateUnitToBudget (fileHeader name) u budget = v at htext hlen hsame ⊢
  generalize roomFor (fileHeader name) budget u = r at htext hroomFor
  have htold : ∀ t : Text, v.text = c :: t → SingleLine (c :: t) →
      (t.startsWith "++".toList = true → Text.startsWith s "++".toList = true) → Told v := by
    intro t hv hline hstart
    refine ⟨hv ▸ hline, ?_⟩
    rw [hv]
    exact (hcs ▸ hu.counts : Counts u (c :: s)).cut hsame hstart
  by_cases h0 : r = 0
  · rw [if_pos (by omega), h0, List.take_zero] at htext
    refine .inr (filled_empty hname htext ?_ (by omega))
    by_contra ho
    rw [hsame.2.2] at ho
    have := hroom ho
    omega
  by_cases h1 : r = 1
  · rw [if_pos (by omega), h1] at htext
    have hv : v.text = [c] := htext
    have := htold [] hv (singleLine_of_unbroken (unbroken_cons hbreak (by simp [Unbroken]))
      (List.cons_ne_nil _ _)) (fun h => by cases h)
    rw [hv, List.length_singleton] at hlen
    exact .inr (filled_single hname this (by rw [hv]; simpa using hcn.symm) (by omega))
  rw [if_neg (by omega)] at htext
  by_cases h2 : r = 2
  · rw [if_pos (by omega), h2] at htext
    have hv : v.text = [c, '…'] := htext
    have := htold ['…'] hv (singleLine_of_unbroken (unbroken_cons hbreak (by decide))
      (List.cons_ne_nil _ _)) (fun h => by cases h)
    rw [hv] at hlen
    simp only [List.length_cons, List.length_nil] at hlen
    refine .inr (filled_single hname this ?_ (by omega))
    rw [hv]
    simpa using hcn.symm
  refine .inl ?_
  by_cases h34 : r ≤ 1 + 33
  · rw [if_pos h34, List.take_of_length_le (by simp; omega)] at htext
    have hv : v.text = ended [c, '…'] := htext
    have hun : Unbroken [c, '…'] := unbroken_cons hbreak (by decide)
    refine gathering_single (htold ['…', '\n'] hv (singleLine_ended hun) (fun h => by cases h))
      ⟨[c, '…'], ?_, hv⟩
    simpa using hcn.symm
  · rw [if_neg h34, hcs, List.drop_one, List.tail_cons] at htext
    obtain ⟨mark, hmark, hmarkEnd⟩ : ∃ m, Unbroken (' ' :: m) ∧
        truncationMarker = ended (' ' :: m) :=
      ⟨"… [truncated; inspect snapshot]".toList, by decide +kernel, by decide +kernel⟩
    have hkeptStart := rstripNewline_isPrefixOf (s.take (r - 1 - 33))
    generalize rstripNewline (s.take (r - 1 - 33)) = kept at htext hkeptStart
    have hkept : Unbroken kept := by
      have hun := unbroken_of_singleLine hu.line
      have hlength : u.text.length = s.length + 1 := by rw [hcs, List.length_cons]
      rw [hcs, List.length_cons, show s.length + 1 - 2 = (s.length - 2) + 1 by omega,
        List.take_succ_cons] at hun
      intro d hd
      refine hun d (List.mem_cons_of_mem _ ?_)
      exact (List.take_prefix_take_left (by omega)).subset (hkeptStart.subset hd)
    have hv : v.text = ended (c :: (kept ++ ' ' :: mark)) := by
      rw [htext, hmarkEnd]
      simp [ended]
    have hun : Unbroken (c :: (kept ++ ' ' :: mark)) := unbroken_cons hbreak (hkept.append hmark)
    refine gathering_single (htold _ hv (singleLine_ended hun) fun hstart => ?_)
      ⟨_, hun.not_mem, hv⟩
    obtain ⟨tail, htail⟩ := hkeptStart.trans (List.take_prefix _ s)
    rcases kept with _ | ⟨a, _ | ⟨b, kept⟩⟩
    · cases hstart
    · exact absurd hstart (by simp [Text.startsWith])
    · simpa [Text.startsWith, ← htail] using hstart

/-! ### The pieces of a block -/

/-- A unit of a block whose lines can be read. -/
structure Ready (name : Text) (budget : Nat) (u : HunkLine) : Prop where
  told : Told u
  single : u.Single
  terminated : ∃ s, '\n' ∉ s ∧ u.text = ended s
  room : u.ownedLine ≠ none → (fileHeader name).length + u.headerWidth < budget

/-- What was gathered can be read, and when others cannot follow it fills the budget. -/
def Collected (name : Text) (budget : Nat) (us : List HunkLine) : Prop :=
  Gathering us ∨ us ≠ [] ∧ Filled name budget us

theorem gathering_nil : Gathering [] :=
  ⟨by simp, .nil, by simp [Terminated]⟩

theorem collected_single {u : HunkLine} (hu : Ready name budget u) : Collected name budget [u] :=
  .inl (gathering_single hu.told hu.terminated)

theorem collected_fit (hname : PlainName name) {u : HunkLine} (hu : Ready name budget u) :
    Collected name budget [fitUnit (fileHeader name) budget u] := by
  have hr := length_render_single hu.single.oldCount hu.single.newCount (fileHeader name)
  unfold fitUnit
  split
  · rcases truncate_reads hname hu.told hu.single (by unfold TooLong; omega) hu.room with h | h
    · exact .inl h
    · exact .inr ⟨List.cons_ne_nil _ _, h⟩
  · exact collected_single hu

theorem collected_append {current : List HunkLine} {u : HunkLine}
    (hc : Collected name budget current) (hu : Ready name budget u)
    (hcont : contiguous current u = true)
    (hle : (renderHunkPiece (fileHeader name) (current ++ [u])).length ≤ budget) :
    Collected name budget (current ++ [u]) := by
  rcases hc with hc | ⟨hne, hfilled⟩
  · refine .inl ⟨fun v hv => ?_, ?_, fun v hv => ?_⟩
    · rcases List.mem_append.mp hv with hv | hv
      · exact hc.told v hv
      · rw [List.mem_singleton.mp hv]
        exact hu.told
    · refine List.isChain_append.mpr ⟨hc.follow, .singleton u, fun x hx y hy => ?_⟩
      obtain rfl := Option.mem_some_iff.mp hy
      simp only [contiguous, Option.mem_def.mp hx, Bool.and_eq_true, beq_iff_eq] at hcont
      exact hcont.2
    · rcases List.mem_append.mp hv with hv | hv
      · exact hc.terminated v hv
      · rw [List.mem_singleton.mp hv]
        exact hu.terminated
  · -- the piece is full already
    have hlen : (renderHunkPiece (fileHeader name) current).length + u.text.length ≤ _ :=
      length_render_append hne u
    have hpos := List.length_pos_iff.mpr hu.single.text
    have := hfilled.full
    omega

/-- The piece is that of units that are read. -/
def IsRead (path name : Text) (budget : Nat) (piece : Text × SetDict Text Nat) : Prop :=
  ∃ us, us ≠ [] ∧ Collected name budget us ∧
    piece = (renderHunkPiece (fileHeader name) us, ownedBy path us)

theorem isRead_flushUnits {current : List HunkLine} (hc : Collected name budget current) :
    ∀ piece ∈ flushUnits path (fileHeader name) current, IsRead path name budget piece := by
  intro piece hp
  cases current with
  | nil => cases hp
  | cons u us =>
    obtain rfl := List.mem_singleton.mp hp
    exact ⟨u :: us, List.cons_ne_nil _ _, hc, rfl⟩

theorem isRead_splitUnits (hname : PlainName name) {current units : List HunkLine}
    (hc : Collected name budget current) (hu : ∀ u ∈ units, Ready name budget u) :
    ∀ piece ∈ splitUnits path (fileHeader name) budget current units,
      IsRead path name budget piece := by
  have htail : ∀ {u : HunkLine} {us : List HunkLine}, (∀ v ∈ u :: us, Ready name budget v) →
      ∀ v ∈ us, Ready name budget v := fun h v hv => h v (List.mem_cons_of_mem _ hv)
  have hflush : ∀ {current : List HunkLine} {pieces : List (Text × SetDict Text Nat)},
      Collected name budget current → (∀ piece ∈ pieces, IsRead path name budget piece) →
      ∀ piece ∈ flushUnits path (fileHeader name) current ++ pieces,
        IsRead path name budget piece := fun hc hp piece hm =>
    (List.mem_append.mp hm).elim (isRead_flushUnits hc piece) (hp piece)
  generalize hhead : fileHeader name = head at *
  fun_induction splitUnits path head budget current units with
  | case1 current => exact hhead ▸ isRead_flushUnits hc
  | case2 current u units hcont hle ih =>
    subst hhead
    exact ih (collected_append hc (hu u List.mem_cons_self) hcont hle) (htail hu)
  | case3 current u units hcont hle ih =>
    subst hhead
    exact hflush hc (ih (collected_fit hname (hu u List.mem_cons_self)) (htail hu))
  | case4 current u units hcont hle ih =>
    subst hhead
    exact hflush hc (ih (collected_single (hu u List.mem_cons_self)) (htail hu))
  | case5 current u units hcont hle ih =>
    subst hhead
    exact hflush hc (ih (collected_fit hname (hu u List.mem_cons_self)) (htail hu))

end Piece

end DiffFilter
