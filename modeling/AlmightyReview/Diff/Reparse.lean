import AlmightyReview.Diff.Reads

/-!
# What a reader of a chunk finds

* `Part`: lines of one piece, with the path they are owned under and the name they are shown under.
  A chunk is made of parts (`packFrom_parts`).
* `SplitReads`: a file over the budget whose pieces are read.
* `chunks_reparse`: the chunks of a diff are read as they are owned, up to the names of files over
  the budget.
-/

namespace DiffFilter

open Unified

/-! ## Parts of chunks -/

/-- Added lines of one piece, with the path they are owned under and the name in the text. -/
structure Part where
  path : Text
  name : Text
  lines : List Nat

def Part.owned (x : Part) : List (Text × Nat) := x.lines.map (Prod.mk x.path)

def Part.shown (x : Part) : List (Text × Nat) := x.lines.map (Prod.mk x.name)

/-- The text says what the parts show, and what they own is owned. -/
structure MadeOf (chunk : Text × SetDict Text Nat) (xs : List Part) : Prop where
  owned : chunk.2.pairs = (xs.flatMap Part.owned).toFinset
  reads : Reads chunk.1 (xs.flatMap Part.shown)

/-- A piece of one part. Where its last line has no end it fills the budget. -/
structure PieceOf (budget : Nat) (piece : Text × SetDict Text Nat) (x : Part) : Prop where
  made : MadeOf piece [x]
  ends : Ends piece.1 ∨ budget ≤ piece.1.length

theorem MadeOf.append {text : Text} {owned : SetDict Text Nat} {piece : Text × SetDict Text Nat}
    {xs : List Part} {x : Part} (h : MadeOf (text, owned) xs) (hends : Ends text)
    (hp : MadeOf piece [x]) : MadeOf (text ++ piece.1, owned.addAll piece.2) (xs ++ [x]) := by
  refine ⟨?_, ?_⟩
  · rw [SetDict.pairs_addAll, h.owned, hp.owned, List.flatMap_append, List.toFinset_append]
  · rw [List.flatMap_append]
    exact h.reads.append hends hp.reads

theorem madeOf_nil : MadeOf ([], SetDict.empty) [] := ⟨rfl, reads_nil⟩

theorem madeOf_flushChunk {text : Text} {owned : SetDict Text Nat} {xs : List Part}
    (h : MadeOf (text, owned) xs) : ∀ chunk ∈ flushChunk text owned, MadeOf chunk xs := by
  intro chunk hc
  unfold flushChunk at hc
  split at hc
  · cases hc
  · rwa [List.mem_singleton.mp hc]

/-- **Packing.** A chunk is made of parts of its pieces. -/
theorem packFrom_parts {budget : Nat} {pieces : List (Text × SetDict Text Nat)}
    {parts : List Part} (h : List.Forall₂ (PieceOf budget) pieces parts) {text : Text}
    {owned : SetDict Text Nat} {xs : List Part} (hm : MadeOf (text, owned) xs)
    (hends : Ends text) : ∀ chunk ∈ packFrom budget text owned pieces,
      ∃ ys, (∀ y ∈ ys, y ∈ xs ++ parts) ∧ MadeOf chunk ys := by
  induction h generalizing text owned xs with
  | nil =>
    intro chunk hc
    exact ⟨xs, fun y hy => List.mem_append_left _ hy, madeOf_flushChunk hm chunk hc⟩
  | @cons piece x pieces parts hp _ ih =>
    intro chunk hc
    -- what the piece is added to
    obtain ⟨text', owned', xs', flushed, hm', hsub, hflushed, hends', hpack⟩ :
        ∃ text' owned' xs' flushed, MadeOf (text', owned') xs' ∧ (∀ y ∈ xs', y ∈ xs ++ [x]) ∧
          (∀ chunk ∈ flushed, MadeOf chunk xs) ∧ (Ends text' ∨ budget ≤ text'.length) ∧
          packFrom budget text owned (piece :: pieces) =
            if text'.length ≥ budget then
              flushed ++ flushChunk text' owned' ++ packFrom budget [] .empty pieces
            else flushed ++ packFrom budget text' owned' pieces := by
      by_cases hfull : text ≠ [] ∧ text.length + piece.1.length > budget
      · refine ⟨piece.1, SetDict.empty.addAll piece.2, [x], flushChunk text owned, ?_,
          fun y hy => List.mem_append_right _ hy, madeOf_flushChunk hm, hp.ends, ?_⟩
        · exact madeOf_nil.append (by simp [Ends, Text.lines]) hp.made
        · rw [packFrom]
          simp only [if_pos hfull]
      · refine ⟨text ++ piece.1, owned.addAll piece.2, xs ++ [x], [], hm.append hends hp.made,
          fun y hy => hy, by simp, ?_, ?_⟩
        · refine hp.ends.imp hends.append fun hlen => ?_
          rw [List.length_append]
          omega
        · rw [packFrom]
          simp only [if_neg hfull, List.nil_append]
    have hold : ∀ {y : Part}, y ∈ xs ++ [x] → y ∈ xs ++ x :: parts := by
      intro y hy
      simp only [List.mem_append, List.mem_cons, List.not_mem_nil, or_false] at hy ⊢
      tauto
    rw [hpack] at hc
    split at hc
    · rcases List.mem_append.mp hc with hc | hc
      · rcases List.mem_append.mp hc with hc | hc
        · exact ⟨xs, fun y hy => List.mem_append_left _ hy, hflushed chunk hc⟩
        · exact ⟨xs', fun y hy => hold (hsub y hy), madeOf_flushChunk hm' chunk hc⟩
      · obtain ⟨ys, hys, hmade⟩ := ih madeOf_nil (by simp [Ends, Text.lines]) chunk hc
        refine ⟨ys, fun y hy => ?_, hmade⟩
        exact List.mem_append_right _ (List.mem_cons_of_mem _ (hys y hy))
    · rename_i hlen
      rcases List.mem_append.mp hc with hc | hc
      · exact ⟨xs, fun y hy => List.mem_append_left _ hy, hflushed chunk hc⟩
      · obtain ⟨ys, hys, hmade⟩ := ih hm' (hends'.resolve_right hlen) chunk hc
        refine ⟨ys, fun y hy => ?_, hmade⟩
        rcases List.mem_append.mp (hys y hy) with hy | hy
        · exact hold (hsub y hy)
        · exact List.mem_append_right _ (List.mem_cons_of_mem _ hy)

/-! ## The parts of a diff -/

theorem ends_of_lines {ts : List Text} (hare : Text.AreLines ts) (h : ∀ t ∈ ts, '\n' ∈ t) :
    Ends ts.flatten := by
  intro l hl
  rw [Text.lines_flatten hare] at hl
  exact h l hl

theorem mem_ended (s : Text) : '\n' ∈ ended s := List.mem_append_right _ List.mem_cons_self

theorem ends_fileHeader_append {name : Text} (hname : PlainName name) {ts : List Text}
    (hare : Text.AreLines ts) (h : ∀ t ∈ ts, '\n' ∈ t) : Ends (fileHeader name ++ ts.flatten) := by
  rw [← List.flatten_cons]
  refine ends_of_lines ⟨⟨headerOf name, (unbroken_headerOf hname.unbroken).not_mem, .inl rfl⟩, hare⟩
    fun t ht => ?_
  rcases List.mem_cons.mp ht with rfl | ht
  · exact mem_ended _
  · exact h t ht

theorem ends_render {name : Text} (hname : PlainName name) {us : List HunkLine} (hne : us ≠ [])
    (ht : Terminated us) : Ends (renderHunkPiece (fileHeader name) us) := by
  obtain ⟨first, rest, rfl⟩ := List.exists_cons_of_ne_nil hne
  obtain ⟨s, hs, hhunk⟩ := hunkHeaderText_ended first (first :: rest)
  rw [renderHunkPiece_cons]
  refine ends_fileHeader_append hname ⟨⟨s, hs.not_mem, .inl hhunk⟩, ht.areLines⟩ fun t ht' => ?_
  rcases List.mem_cons.mp ht' with rfl | ht'
  · rw [hhunk]
    exact mem_ended _
  · obtain ⟨u, hu, rfl⟩ := List.mem_map.mp ht'
    obtain ⟨s, -, hs⟩ := ht u hu
    rw [hs]
    exact mem_ended _

theorem pieceOf_isRead {path name : Text} {budget : Nat} (hname : PlainName name)
    (hpath : path ≠ []) {piece : Text × SetDict Text Nat} (h : IsRead path name budget piece) :
    ∃ lines, PieceOf budget piece ⟨path, name, lines⟩ := by
  obtain ⟨us, hne, hus, rfl⟩ := h
  refine ⟨us.filterMap HunkLine.ownedLine, ⟨?_, ?_⟩, ?_⟩
  · rw [pairs_ownedBy, unitPairs, if_neg hpath, List.flatMap_singleton]
    rfl
  · rw [List.flatMap_singleton]
    rcases hus with hus | ⟨-, hus⟩
    · exact reads_render hname hne hus.told hus.follow hus.terminated.areLines
    · exact hus.reads
  · exact hus.imp (fun hus => ends_render hname hne hus.terminated) fun hus => hus.2.full

theorem plainName_displayName {path : Text} (h : PlainName path) (budget : Nat) :
    PlainName (displayName path budget) := by
  have hdisplay : displayPath path = path := if_neg h.ne_nil
  unfold displayName
  rw [hdisplay]
  split
  · have hstart : Bare "oversized-".toList ∧ Unbroken "oversized-".toList := by decide +kernel
    have hhex : Bare Sha256.hexDigits ∧ Unbroken Sha256.hexDigits := by decide +kernel
    have hmem : ∀ c ∈ (Sha256.hexdigest (Text.encode path)).take 8, c ∈ Sha256.hexDigits :=
      fun c hc => Sha256.mem_hexdigest (List.mem_of_mem_take hc)
    refine ⟨by simp, fun c hc => ?_, fun c hc => ?_⟩
    · exact (List.mem_append.mp hc).elim (hstart.1 c) fun hc => hhex.1 c (hmem c hc)
    · exact (List.mem_append.mp hc).elim (hstart.2 c) fun hc => hhex.2 c (hmem c hc)
  · exact h

/-- What the code says of a block over the budget that has no lines. -/
theorem pieceOf_metadata {path name : Text} {budget : Nat} (hname : PlainName name)
    (hpath : PlainName path) (hlen : (fileHeader name).length + 28 < budget) :
    PieceOf budget ((fileHeader name ++ ("# oversized diff metadata: ".toList ++ displayPath path ++
      "\n".toList)).take budget, .empty) ⟨path, name, []⟩ := by
  obtain ⟨s, hs, hcomment⟩ : ∃ s, Unbroken ('#' :: s) ∧
      "# oversized diff metadata: ".toList ++ displayPath path ++ "\n".toList =
        ended ('#' :: s) := by
    have h₁ : "# oversized diff metadata: ".toList =
        '#' :: " oversized diff metadata: ".toList := by
      decide +kernel
    have h₂ : Unbroken ('#' :: " oversized diff metadata: ".toList) := by decide +kernel
    rw [displayPath, if_neg hpath.ne_nil, h₁]
    exact ⟨_, h₂.append hpath.unbroken, rfl⟩
  rw [hcomment, List.take_append, List.take_of_length_le (by omega)]
  generalize hk : budget - (fileHeader name).length = k
  have hk28 : 28 < k := by omega
  have hreads : ∀ t : Text, (∃ u, t = '#' :: u) → SingleLine t → Text.AreLines [t] →
      Reads (fileHeader name ++ t) [] := by
    rintro t ⟨u, rfl⟩ hone hare
    have := reads_lines hname ['#' :: u] hare (by simpa using hone)
      (by simp [isFileHeader, Text.startsWith])
    have hnone : addedFrom none (['#' :: u].map Text.chomp) = [] := by
      rw [List.map_singleton, addedFrom.eq_def]
      simp only
      rw [Text.startsWith_chomp (by decide)]
      rfl
    rwa [hnone, List.flatten_singleton] at this
  by_cases hcut : (ended ('#' :: s)).length ≤ k
  · rw [List.take_of_length_le hcut]
    refine ⟨⟨rfl, ?_⟩, .inl ?_⟩
    · exact hreads _ ⟨_, rfl⟩ (singleLine_ended hs) ⟨⟨_, hs.not_mem, .inl rfl⟩, trivial⟩
    · rw [← List.flatten_singleton (l := ended ('#' :: s))]
      exact ends_fileHeader_append hname ⟨⟨_, hs.not_mem, .inl rfl⟩, trivial⟩ (by
        simpa using mem_ended _)
  · obtain ⟨m, rfl⟩ : ∃ m, k = m + 1 := ⟨k - 1, by omega⟩
    have htake : (ended ('#' :: s)).take (m + 1) = '#' :: s.take m := by
      have hle : m ≤ s.length := by
        simp only [ended, List.length_append, List.length_cons, List.length_nil] at hcut
        omega
      show '#' :: (s ++ ['\n']).take m = _
      rw [List.take_append_of_le_length hle]
    have hun : Unbroken ('#' :: s.take m) := fun c hc => hs c (by
      rcases List.mem_cons.mp hc with rfl | hc
      · exact List.mem_cons_self
      · exact List.mem_cons_of_mem _ (List.mem_of_mem_take hc))
    rw [htake]
    refine ⟨⟨rfl, ?_⟩, .inr ?_⟩
    · exact hreads _ ⟨_, rfl⟩ (singleLine_of_unbroken hun (List.cons_ne_nil _ _))
        ⟨⟨_, hun.not_mem, .inr ⟨rfl, List.cons_ne_nil _ _, rfl⟩⟩, trivial⟩
    · show budget ≤ (fileHeader name ++ '#' :: s.take m).length
      have hle : m ≤ s.length := by
        simp only [ended, List.length_append, List.length_cons, List.length_nil] at hcut
        omega
      rw [List.length_append, List.length_cons, List.length_take]
      omega

/-- **A file that is read in pieces**: its header is read as its path, the path needs no quotes in
a header, no line of it has a boundary for `splitlines` inside, and there is room for the sigil of
an added line after the headers of a piece. -/
structure SplitReads (f : File) (budget : Nat) : Prop where
  header : f.HeaderRead
  bare : Bare f.newPath
  unbroken : Unbroken f.newPath
  lines : ∀ s ∈ f.bodies, SingleLine (ended s)
  room : ∀ u ∈ hunkLineUnits f.block.text, u.ownedLine ≠ none →
    (syntheticDiffPrefix f.newPath budget).length + u.headerWidth < budget

theorem SplitReads.plainName {f : File} {budget : Nat} (h : SplitReads f budget) :
    PlainName f.newPath := ⟨f.newPath_ok, h.bare, h.unbroken⟩

theorem path_block {f : File} (h : f.HeaderRead) : f.block.path = f.newPath := by
  have hread : headerTarget (headerText f.block.header) = .ok f.newPath := by
    rw [File.block, headerText_header]
    exact h
  rw [Block.path]
  simp only [hread]

theorem text_mem_unitsFrom {no : Option (Nat × Nat)} {ls : List Text} :
    ∀ u ∈ unitsFrom no ls, u.text ∈ ls := by
  fun_induction unitsFrom no ls with
  | case1 => simp
  | case2 no line ls hh ih => exact fun u hu => List.mem_cons_of_mem _ (ih u hu)
  | case3 line ls hh ih => exact fun u hu => List.mem_cons_of_mem _ (ih u hu)
  | case4 line ls hh o n ha ih =>
    intro u hu
    rcases List.mem_cons.mp hu with rfl | hu
    · exact List.mem_cons_self
    · exact List.mem_cons_of_mem _ (ih u hu)
  | case5 line ls hh o n ha hd ih =>
    intro u hu
    rcases List.mem_cons.mp hu with rfl | hu
    · exact List.mem_cons_self
    · exact List.mem_cons_of_mem _ (ih u hu)
  | case6 line ls hh o n ha hd hs ih =>
    intro u hu
    rcases List.mem_cons.mp hu with rfl | hu
    · exact List.mem_cons_self
    · exact List.mem_cons_of_mem _ (ih u hu)
  | case7 line ls hh o n ha hd hs ih => exact fun u hu => List.mem_cons_of_mem _ (ih u hu)

theorem SplitReads.ready {f : File} {budget : Nat} (h : SplitReads f budget) :
    ∀ u ∈ hunkLineUnits f.block.text, Ready (displayName f.newPath budget) budget u := by
  intro u hu
  have hlines : Text.splitlinesKeep f.block.text = (f.header :: f.bodies).map ended := by
    rw [text_block]
    refine splitlinesKeep_flatten_lines (areLines_map_ended fun s hs => ?_) fun t ht => ?_
    · rcases List.mem_cons.mp hs with rfl | hs
      · exact (printable_header f).unbroken.not_mem
      · exact (bodies_ok hs).1
    · obtain ⟨s, hs, rfl⟩ := List.mem_map.mp ht
      rcases List.mem_cons.mp hs with rfl | hs
      · exact singleLine_ended (printable_header f).unbroken
      · exact h.lines s hs
  refine ⟨told_hunkLineUnits _ u hu, single_hunkLineUnits _ u hu, ?_, fun ho => ?_⟩
  · have hm := text_mem_unitsFrom u hu
    rw [hlines] at hm
    obtain ⟨s, hs, he⟩ := List.mem_map.mp hm
    refine ⟨s, ?_, he.symm⟩
    rcases List.mem_cons.mp hs with rfl | hs
    · exact (printable_header f).unbroken.not_mem
    · exact (bodies_ok hs).1
  · rw [← syntheticDiffPrefix_eq]
    exact h.room u hu ho

/-- **A block over the budget**: each of its pieces shows lines of the path, under its name. -/
theorem splitOversizedBlock_parts {f : File} {budget : Nat} (hb : 82 ≤ budget)
    (h : SplitReads f budget) : ∃ parts,
      List.Forall₂ (PieceOf budget) (splitOversizedBlock f.newPath f.block.text budget) parts ∧
        ∀ x ∈ parts, x.path = f.newPath ∧ x.name = displayName f.newPath budget := by
  have hname := plainName_displayName h.plainName budget
  have hpieces : ∀ piece ∈ splitOversizedBlock f.newPath f.block.text budget,
      ∃ lines, PieceOf budget piece ⟨f.newPath, displayName f.newPath budget, lines⟩ := by
    by_cases hne : hunkLineUnits f.block.text = []
    · intro piece hp
      unfold splitOversizedBlock at hp
      simp only at hp
      rw [if_pos (.inl (by rw [hne]; rfl)), List.mem_singleton] at hp
      have hlen := length_syntheticDiffPrefix_lt f.newPath hb
      subst hp
      rw [syntheticDiffPrefix_eq] at hlen ⊢
      exact ⟨[], pieceOf_metadata hname h.plainName hlen⟩
    · rw [splitOversizedBlock_eq hb hne, syntheticDiffPrefix_eq]
      intro piece hp
      exact pieceOf_isRead hname f.newPath_ok
        (isRead_splitUnits hname (.inl gathering_nil) h.ready piece hp)
  generalize splitOversizedBlock f.newPath f.block.text budget = pieces at hpieces
  induction pieces with
  | nil => exact ⟨[], .nil, by simp⟩
  | cons piece pieces ih =>
    obtain ⟨lines, hp⟩ := hpieces piece List.mem_cons_self
    obtain ⟨parts, hparts, hsame⟩ := ih fun q hq => hpieces q (List.mem_cons_of_mem _ hq)
    refine ⟨_ :: parts, .cons hp hparts, fun x hx => ?_⟩
    rcases List.mem_cons.mp hx with rfl | hx
    · exact ⟨rfl, rfl⟩
    · exact hsame x hx

theorem lines_text_block (f : File) :
    Text.lines f.block.text = (f.header :: f.bodies).map ended := by
  have htext : f.block.text = render [f] := by
    rw [render, List.map_singleton, List.flatten_singleton]
  rw [htext, lines_render, List.flatMap_singleton]

/-- A block is read as its added lines. -/
theorem reads_block {f : File} (hread : f.block.Readable) :
    Reads f.block.text (blockPairs (f.block.path, f.block.text)) := by
  refine ⟨[f.block], ?_, fun b hb => ?_, (List.flatMap_singleton _ _).symm⟩
  · rw [lines_text_block]
    simp [joinBlocks, lines_block]
  · obtain rfl := List.mem_singleton.mp hb
    exact ⟨wellCut_block f, hread⟩

/-- A block within the budget is a piece that shows what it owns. -/
theorem pieceOf_block {f : File} {budget : Nat} {owned : SetDict Text Nat}
    (hread : f.block.Readable)
    (ho : owned.pairs = (blockPairs (f.block.path, f.block.text)).toFinset) :
    ∃ lines, PieceOf budget (f.block.text, owned) ⟨f.block.path, f.block.path, lines⟩ := by
  obtain ⟨lines, hlines⟩ : ∃ lines : List Nat,
      blockPairs (f.block.path, f.block.text) = lines.map (Prod.mk f.block.path) := by
    unfold blockPairs
    split
    · exact ⟨[], rfl⟩
    · exact ⟨_, rfl⟩
  have hreads := reads_block hread
  rw [hlines] at ho hreads
  refine ⟨lines, ⟨?_, ?_⟩, .inl fun l hm => ?_⟩
  · rw [ho, List.flatMap_singleton]
    rfl
  · rw [List.flatMap_singleton]
    exact hreads
  · rw [lines_text_block] at hm
    obtain ⟨s, -, rfl⟩ := List.mem_map.mp hm
    exact mem_ended s

/-- The part shows its lines under the path that owns them, or it comes from a file over the budget
and shows them under the name of its pieces. -/
def NamedAs (files : List File) (budget : Nat) (x : Part) : Prop :=
  x.name = x.path ∨ ∃ f ∈ files, budget < f.block.text.length ∧ x.path = f.newPath ∧
    x.name = displayName f.newPath budget

/-- The pieces of the blocks of files. -/
theorem parts_mapM {files : List File} {budget : Nat} (hb : 82 ≤ budget)
    (hread : ∀ f ∈ files, f.block.Readable)
    (h : ∀ f ∈ files, budget < f.block.text.length → SplitReads f budget) :
    ∃ pieces parts,
      (files.map fun f => (f.block.path, f.block.text)).mapM (piecesOf budget) = .ok pieces ∧
        List.Forall₂ (PieceOf budget) pieces.flatten parts ∧
          ∀ x ∈ parts, NamedAs files budget x := by
  induction files with
  | nil => exact ⟨[], [], rfl, .nil, by simp⟩
  | cons f files ih =>
    obtain ⟨pieces, parts, hp, hparts, hnamed⟩ :=
      ih (fun g hg => hread g (List.mem_cons_of_mem _ hg))
        fun g hg => h g (List.mem_cons_of_mem _ hg)
    have hrest : ∀ x ∈ parts, NamedAs (f :: files) budget x := fun x hx =>
      (hnamed x hx).imp_right fun ⟨g, hg, hx⟩ => ⟨g, List.mem_cons_of_mem _ hg, hx⟩
    have hf := hread f List.mem_cons_self
    rw [List.map_cons, List.mapM_cons, hp]
    by_cases hbig : f.block.text.length > budget
    · have hsplit := h f List.mem_cons_self hbig
      obtain ⟨ys, hys, hsame⟩ := splitOversizedBlock_parts hb hsplit
      refine ⟨splitOversizedBlock f.newPath f.block.text budget :: pieces, ys ++ parts, ?_,
        List.rel_append hys hparts, fun x hx => ?_⟩
      · rw [piecesOf, if_pos hbig, path_block hsplit.header]
        rfl
      · rcases List.mem_append.mp hx with hx | hx
        · exact .inr ⟨f, List.mem_cons_self, hbig, hsame x hx⟩
        · exact hrest x hx
    · obtain ⟨owned, ho, hpairs⟩ := (reads_block hf).changedLines
      obtain ⟨lines, hpiece⟩ := pieceOf_block hf hpairs
      refine ⟨[(f.block.text, owned)] :: pieces, ⟨f.block.path, f.block.path, lines⟩ :: parts, ?_,
        .cons hpiece hparts, fun x hx => ?_⟩
      · rw [piecesOf, if_neg hbig, ho]
        rfl
      · rcases List.mem_cons.mp hx with rfl | hx
        · exact .inl rfl
        · exact hrest x hx

/-- The records of chunks own what the chunks own. -/
theorem mem_recordsFrom {chunks : List (Text × SetDict Text Nat)} {i : Nat}
    {seen seen' : Finset (Text × Nat)} {records : List DiffChunk}
    (h : recordsFrom i seen chunks = .ok (records, seen')) :
    ∀ c ∈ records, ∃ chunk ∈ chunks, c.text = chunk.1 ∧
      c.ownedChangedLines.pairs = chunk.2.pairs := by
  induction chunks generalizing i seen records with
  | nil =>
    simp only [recordsFrom, Except.ok.injEq, Prod.mk.injEq] at h
    simp [← h.1]
  | cons chunk chunks ih =>
    rw [recordsFrom] at h
    split at h
    · obtain ⟨r, hr, he⟩ := Exc.map_ok h
      obtain ⟨rfl, rfl⟩ := Prod.mk.inj he
      intro c hc
      rcases List.mem_cons.mp hc with rfl | hc
      · exact ⟨chunk, List.mem_cons_self, rfl, SetDict.pairs_freeze chunk.2⟩
      · obtain ⟨chunk', hm, hsame⟩ := ih hr c hc
        exact ⟨chunk', List.mem_cons_of_mem _ hm, hsame⟩
    · cases h

/-- **Chunks are made of parts.** -/
theorem chunks_madeOf {files : List File} {budget : Nat} {chunks : List DiffChunk}
    (hb : 82 ≤ budget) (hchunks : chunkRecordsByBudget (render files) budget = .ok chunks)
    (h : ∀ f ∈ files, budget < f.block.text.length → SplitReads f budget) :
    ∀ c ∈ chunks, ∃ parts : List Part, (∀ x ∈ parts, NamedAs files budget x) ∧
      c.ownedChangedLines.pairs = (parts.flatMap Part.owned).toFinset ∧
        Reads c.text (parts.flatMap Part.shown) := by
  unfold chunkRecordsByBudget at hchunks
  rw [if_neg (by omega)] at hchunks
  split at hchunks
  · obtain rfl := Except.ok.inj hchunks
    simp
  obtain ⟨blocks, hblocks, hchunks⟩ := Exc.bind_ok hchunks
  obtain ⟨pieces, hpieces, hchunks⟩ := Exc.bind_ok hchunks
  obtain ⟨⟨records, seen⟩, hrecords, hchunks⟩ := Exc.bind_ok hchunks
  obtain ⟨expected, -, hchunks⟩ := Exc.bind_ok hchunks
  split at hchunks
  · obtain rfl := Except.ok.inj hchunks
    have hdec := (splitFileBlocks_ok_iff _).mp ⟨blocks, hblocks⟩
    have hcut : cutBlocks (Text.lines (render files)) = ([], files.map File.block) :=
      cutBlocks_render files
    have hread : ∀ f ∈ files, f.block.Readable := fun f hf => hdec _ (by
      rw [blocksOf, hcut]
      exact List.mem_map_of_mem hf)
    have heq : blocks = files.map fun f => (f.block.path, f.block.text) := by
      rw [splitFileBlocks_ok hdec, Except.ok.injEq] at hblocks
      rw [← hblocks, pathBlocks, blocksOf, hcut, List.map_map]
      rfl
    obtain ⟨pieces', parts, hp, hparts, hnamed⟩ := parts_mapM hb hread h
    rw [heq, hp, Except.ok.injEq] at hpieces
    subst hpieces
    intro c hc
    obtain ⟨chunk, hm, htext, howned⟩ := mem_recordsFrom hrecords c hc
    obtain ⟨ys, hys, hmade⟩ :=
      packFrom_parts hparts madeOf_nil (by simp [Ends, Text.lines]) chunk hm
    refine ⟨ys, fun y hy => hnamed y (hys y hy), ?_, ?_⟩
    · rw [howned, hmade.owned]
    · rw [htext]
      exact hmade.reads
  · cases hchunks

theorem displayName_eq {path : Text} {budget : Nat} (hp : path ≠ [])
    (h : 2 * path.length + 49 ≤ budget) : displayName path budget = path := by
  have hlen := length_fileHeader path
  rw [displayName, displayPath, if_neg hp, if_neg (by omega)]

/-- **Chunks.** For a budget of at least 82 characters and a diff whose files over the budget are
read in pieces, `changed_lines` finds in the text of a chunk the lines that the chunk owns, each
under the name that its piece shows. Where the paths of these files fit their headers these are the
paths, and the lines are the owned ones. -/
theorem chunks_reparse {files : List File} {budget : Nat} {chunks : List DiffChunk}
    (hb : 82 ≤ budget) (hchunks : chunkRecordsByBudget (render files) budget = .ok chunks)
    (h : ∀ f ∈ files, budget < f.block.text.length → SplitReads f budget) :
    ∀ c ∈ chunks, ∃ (d : SetDict Text Nat) (parts : List Part), changedLines c.text = .ok d ∧
      c.ownedChangedLines.pairs = (parts.flatMap Part.owned).toFinset ∧
      d.pairs = (parts.flatMap Part.shown).toFinset ∧ (∀ x ∈ parts, NamedAs files budget x) ∧
      ((∀ f ∈ files, budget < f.block.text.length → 2 * f.newPath.length + 49 ≤ budget) →
        d.pairs = c.ownedChangedLines.pairs) := by
  intro c hc
  obtain ⟨parts, hnamed, howned, hreads⟩ := chunks_madeOf hb hchunks h c hc
  obtain ⟨d, hd, hpairs⟩ := hreads.changedLines
  refine ⟨d, parts, hd, howned, hpairs, hnamed, fun hfit => ?_⟩
  have hsame : ∀ x ∈ parts, x.shown = x.owned := by
    intro x hx
    have hname : x.name = x.path := by
      rcases hnamed x hx with hx | ⟨f, hf, hbig, hp, hn⟩
      · exact hx
      · rw [hn, hp, displayName_eq f.newPath_ok (hfit f hf hbig)]
    rw [Part.shown, Part.owned, hname]
  rw [hpairs, howned]
  congr 1
  exact List.flatMap_congr hsame

theorem not_mem_nil_newline : '\n' ∉ ([] : Text) := List.not_mem_nil

/-- A new file of two lines. -/
def twoLines (path : Text) (h : path ≠ []) : File :=
  ⟨path, path, [], [⟨0, 1, [], [⟨.added, "the first of two added lines".toList, false, by decide⟩,
    ⟨.added, "the second of two added lines".toList, false, by decide⟩], not_mem_nil_newline⟩], h⟩

theorem chunks_reparse_twoLines : ∃ chunks,
    chunkRecordsByBudget (render [twoLines "x.py".toList (by decide)]) 82 = .ok chunks ∧
      ∀ c ∈ chunks, ∃ d, changedLines c.text = .ok d ∧ d.pairs = c.ownedChangedLines.pairs := by
  have hok : ∃ chunks,
      chunkRecordsByBudget (render [twoLines "x.py".toList (by decide)]) 82 = .ok chunks := by
    have : (chunkRecordsByBudget (render [twoLines "x.py".toList (by decide)]) 82).isOk = true := by
      decide +kernel
    revert this
    generalize chunkRecordsByBudget (render [twoLines "x.py".toList (by decide)]) 82 = r
    cases r with
    | ok chunks => exact fun _ => ⟨chunks, rfl⟩
    | error e => exact fun h => nomatch h
  have hreads : SplitReads (twoLines "x.py".toList (by decide)) 82 :=
    ⟨by unfold File.HeaderRead; decide +kernel, by decide +kernel, by decide +kernel,
      by unfold SingleLine; decide +kernel, by decide +kernel⟩
  obtain ⟨chunks, hchunks⟩ := hok
  refine ⟨chunks, hchunks, fun c hc => ?_⟩
  obtain ⟨d, -, hd, -, -, -, hfit⟩ := chunks_reparse (by decide) hchunks
    (fun f hf _ => List.mem_singleton.mp hf ▸ hreads) c hc
  exact ⟨d, hd, hfit fun f hf _ => List.mem_singleton.mp hf ▸ by decide +kernel⟩

/-- **A long path.** The pieces of its file show a short name in place of the path. -/
theorem chunk_renamed : ¬∀ files budget chunks, 82 ≤ budget →
    chunkRecordsByBudget (render files) budget = .ok chunks → ∀ c ∈ chunks,
      ∃ d, changedLines c.text = .ok d ∧ d.pairs = c.ownedChangedLines.pairs := by
  intro h
  have hcheck : (match chunkRecordsByBudget
      (render [twoLines "src/server/review.py".toList (by decide)]) 82 with
    | .ok chunks => chunks.all fun c => match changedLines c.text with
      | .ok d => d.pairs = c.ownedChangedLines.pairs
      | .error _ => false
    | .error _ => true) = false := by
    decide +kernel
  have hrun := h [twoLines "src/server/review.py".toList (by decide)] 82
  revert hcheck hrun
  generalize chunkRecordsByBudget
    (render [twoLines "src/server/review.py".toList (by decide)]) 82 = r
  cases r with
  | error e => exact fun hcheck => nomatch hcheck
  | ok chunks =>
    intro hcheck hrun
    refine absurd (List.all_eq_true.mpr fun c hc => ?_) (Bool.eq_false_iff.mp hcheck)
    obtain ⟨d, hd, hpairs⟩ := hrun chunks (by decide) rfl c hc
    simp only [hd, hpairs, decide_true]

end DiffFilter
