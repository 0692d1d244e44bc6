import AlmightyReview.Diff.Unified

/-!
# Lines of the new side

`commentable_lines` and `changed_lines` against what a diff says.

* `commentableLines`: the lines that a review can comment on, by path. It and `changedLines` count
  lines in the same way (`numbersFrom`), and differ in which of them they keep and count.
* `RightLines`: for each file the two give exactly the numbers of its added lines, and of its added
  and context lines.
* `rightLines_plain`: they do when the headers are read as they are meant and each line is read as
  one line of its kind (`Plain`). An added line that begins with `++` is not, nor is one in which
  `splitlines` sees another line that counts. Nothing else goes well, unless such a line looks like
  a hunk header.
-/

namespace DiffFilter

open Unified

/-! ## Commentable lines -/

/-- The line stands on the new side. -/
def isRight (line : Text) : Bool := line.startsWith "+".toList || line.startsWith " ".toList

/-- The numbers of the lines of the new side, in order. -/
def commentableFrom : Option Nat → List Text → List Nat
  | _, [] => []
  | newNo, line :: ls =>
    if line.startsWith "@@".toList then commentableFrom (hunkHeader line) ls
    else
      match newNo with
      | none => commentableFrom none ls
      | some n =>
        if isRight line then n :: commentableFrom (some (n + 1)) ls
        else commentableFrom (some n) ls

/-- The step of `commentable_lines`. -/
def commentBlock (out : SetDict Text Nat) (b : Text × Text) : SetDict Text Nat :=
  if b.1 = [] then out else out.add b.1 (commentableFrom none b.2.splitlines).toFinset

/-- The lines that a review can comment on, by path. -/
def commentableLines (diff : Text) : Except Exc (SetDict Text Nat) :=
  (splitFileBlocks diff).map fun blocks => blocks.foldl commentBlock .empty

/-! ## Counting -/

/-- The line counts for `changed_lines`. -/
def isCounted (line : Text) : Bool := isAdded line || line.startsWith " ".toList

/-- The numbers of the lines that are kept, where the lines that count are counted. -/
def numbersFrom (keep count : Text → Bool) : Option Nat → List Text → List Nat
  | _, [] => []
  | newNo, line :: ls =>
    if line.startsWith "@@".toList then numbersFrom keep count (hunkHeader line) ls
    else
      match newNo with
      | none => numbersFrom keep count none ls
      | some n =>
        (if keep line then [n] else []) ++
          numbersFrom keep count (some (if count line then n + 1 else n)) ls

theorem addedFrom_eq (newNo : Option Nat) (ls : List Text) :
    addedFrom newNo ls = numbersFrom isAdded isCounted newNo ls := by
  induction ls generalizing newNo with
  | nil => simp [addedFrom, numbersFrom]
  | cons line ls ih =>
    rw [addedFrom.eq_def, numbersFrom.eq_def]
    simp only [isCounted, Bool.or_eq_true]
    split
    · exact ih _
    cases newNo with
    | none => exact ih none
    | some n =>
      by_cases ha : isAdded line = true
      · simp only [ha, true_or, if_true, ih]
        rfl
      · by_cases hb : line.startsWith " ".toList = true
        · simp only [ha, hb, if_true, ih]
          rfl
        · simp only [ha, hb, ih]
          rfl

theorem commentableFrom_eq (newNo : Option Nat) (ls : List Text) :
    commentableFrom newNo ls = numbersFrom isRight isRight newNo ls := by
  induction ls generalizing newNo with
  | nil => simp [commentableFrom, numbersFrom]
  | cons line ls ih =>
    rw [commentableFrom.eq_def, numbersFrom.eq_def]
    simp only
    split
    · exact ih _
    cases newNo with
    | none => exact ih none
    | some n =>
      by_cases hr : isRight line = true
      · simp only [hr, if_true, ih]
        rfl
      · simp only [hr, ih]
        rfl

/-- No line begins a hunk. -/
def NoHunk (ls : List Text) : Prop := ∀ l ∈ ls, l.startsWith "@@".toList = false

section Numbers

variable {keep count : Text → Bool}

theorem numbersFrom_hunk {l : Text} (h : l.startsWith "@@".toList = true) (no : Option Nat)
    (ls : List Text) :
    numbersFrom keep count no (l :: ls) = numbersFrom keep count (hunkHeader l) ls := by
  rw [numbersFrom.eq_def]
  simp only
  rw [if_pos h]

theorem numbersFrom_cons_none {l : Text} (h : l.startsWith "@@".toList = false)
    (ls : List Text) :
    numbersFrom keep count none (l :: ls) = numbersFrom keep count none ls := by
  rw [numbersFrom.eq_def]
  simp only
  rw [if_neg (Bool.not_eq_true _ ▸ h)]

theorem numbersFrom_cons_some {l : Text} (h : l.startsWith "@@".toList = false) (n : Nat)
    (ls : List Text) :
    numbersFrom keep count (some n) (l :: ls) = (if keep l then [n] else []) ++
      numbersFrom keep count (some (if count l then n + 1 else n)) ls := by
  rw [numbersFrom.eq_def]
  simp only
  rw [if_neg (Bool.not_eq_true _ ▸ h)]

/-- Before the first hunk nothing is kept. -/
theorem numbersFrom_none {ls : List Text} (h : NoHunk ls) (ms : List Text) :
    numbersFrom keep count none (ls ++ ms) = numbersFrom keep count none ms := by
  induction ls with
  | nil => rfl
  | cons l ls ih =>
    rw [List.cons_append, numbersFrom_cons_none (h l List.mem_cons_self)]
    exact ih fun l hl => h l (List.mem_cons_of_mem _ hl)

/-- Within a hunk the lines that count are counted. -/
theorem numbersFrom_some {ls : List Text} (h : NoHunk ls) (n : Nat) (ms : List Text) :
    numbersFrom keep count (some n) (ls ++ ms) = numbersFrom keep count (some n) ls ++
      numbersFrom keep count (some (n + ls.countP count)) ms := by
  induction ls generalizing n with
  | nil => rfl
  | cons l ls ih =>
    have hl := h l List.mem_cons_self
    have hn : (if count l = true then n + 1 else n) + ls.countP count =
        n + (l :: ls).countP count := by
      rw [List.countP_cons]
      split <;> omega
    rw [List.cons_append, numbersFrom_cons_some hl, numbersFrom_cons_some hl,
      ih fun l hl => h l (List.mem_cons_of_mem _ hl), hn, List.append_assoc]

theorem length_numbersFrom {ls : List Text} (h : NoHunk ls) (n : Nat) :
    (numbersFrom keep count (some n) ls).length = ls.countP keep := by
  induction ls generalizing n with
  | nil => rfl
  | cons l ls ih =>
    rw [numbersFrom_cons_some (h l List.mem_cons_self), List.length_append,
      ih fun l hl => h l (List.mem_cons_of_mem _ hl), List.countP_cons]
    split
    · exact Nat.add_comm _ _
    · exact Nat.zero_add _

/-- When all lines that count are kept, their numbers are consecutive. -/
theorem numbersFrom_same {ls : List Text} (h : NoHunk ls) (n : Nat) :
    numbersFrom keep keep (some n) ls = List.range' n (ls.countP keep) := by
  induction ls generalizing n with
  | nil => rfl
  | cons l ls ih =>
    rw [numbersFrom_cons_some (h l List.mem_cons_self),
      ih fun l hl => h l (List.mem_cons_of_mem _ hl), List.countP_cons]
    by_cases hk : keep l = true
    · rw [if_pos hk, if_pos hk, if_pos hk, List.range'_succ]
      rfl
    · rw [if_neg hk, if_neg hk, if_neg hk]
      rfl

/-- A hunk begins anew, whatever stands before it. -/
theorem numbersFrom_append_hunk {l : Text} (h : l.startsWith "@@".toList = true)
    (no : Option Nat) (ls ms : List Text) :
    numbersFrom keep count no (ls ++ l :: ms) =
      numbersFrom keep count no ls ++ numbersFrom keep count (hunkHeader l) ms := by
  induction ls generalizing no with
  | nil =>
    rw [List.nil_append, numbersFrom_hunk h, numbersFrom]
    rfl
  | cons k ls ih =>
    rw [List.cons_append]
    by_cases hk : k.startsWith "@@".toList = true
    · rw [numbersFrom_hunk hk, numbersFrom_hunk hk, ih]
    rw [Bool.not_eq_true] at hk
    cases no with
    | none => rw [numbersFrom_cons_none hk, numbersFrom_cons_none hk, ih]
    | some n =>
      rw [numbersFrom_cons_some hk, numbersFrom_cons_some hk, ih, List.append_assoc]

end Numbers

/-! ## The lines of a block -/

/-- What the code sees of these lines. -/
def seen (bodies : List Text) : List Text := bodies.flatMap fun s => Text.splitlines (ended s)

/-- What it sees of a hunk after the line of its header. -/
def seenOf (h : Hunk) : List Text := inner h.header ++ seen (h.lines.flatMap Line.bodies)

theorem seen_append (ss ts : List Text) : seen (ss ++ ts) = seen ss ++ seen ts :=
  List.flatMap_append

theorem seen_cons (s : Text) (ss : List Text) :
    seen (s :: ss) = Text.chomp s :: (inner s ++ seen ss) := by
  rw [seen, List.flatMap_cons, splitlines_ended]
  rfl

theorem hunkHeader_chomp_header (h : Hunk) :
    hunkHeader (Text.chomp h.header) = some h.newStart := by
  rw [hunkHeader, fullHunkHeader_chomp, fullHunkHeader_header]
  rfl

theorem seen_unbroken {ss : List Text} (h : ∀ s ∈ ss, Unbroken s) :
    seen ss = ss.map Text.chomp := by
  induction ss with
  | nil => rfl
  | cons s ss ih =>
    rw [seen_cons, (h s List.mem_cons_self).inner_eq, List.nil_append,
      ih fun s hs => h s (List.mem_cons_of_mem _ hs)]
    rfl

theorem noHunk_map_chomp {ss : List Text} (h : NoHunk ss) : NoHunk (ss.map Text.chomp) := by
  intro l hl
  obtain ⟨s, hs, rfl⟩ := List.mem_map.mp hl
  rw [Text.startsWith_chomp (by decide)]
  exact h s hs

theorem numbersFrom_hunks (keep count : Text → Bool) (hunks : List Hunk) (no : Option Nat)
    (ls : List Text) :
    numbersFrom keep count no (ls ++ seen (hunks.flatMap Hunk.bodies)) =
      numbersFrom keep count no ls ++
        hunks.flatMap fun h => numbersFrom keep count (some h.newStart) (seenOf h) := by
  induction hunks generalizing no ls with
  | nil => simp [seen]
  | cons h hunks ih =>
    have hhead : Text.startsWith (Text.chomp h.header) "@@".toList = true := by
      rw [Text.startsWith_chomp (by decide), startsWith_header]
    have hseen : seen ((h :: hunks).flatMap Hunk.bodies) =
        Text.chomp h.header :: (seenOf h ++ seen (hunks.flatMap Hunk.bodies)) := by
      rw [List.flatMap_cons, Hunk.bodies, List.cons_append, seen_cons, seen_append, seenOf,
        List.append_assoc]
    rw [hseen, numbersFrom_append_hunk hhead, hunkHeader_chomp_header, ih, List.flatMap_cons]

/-- The header of a file and its extended lines are read line by line, and none begins a hunk. -/
theorem unbroken_headers (f : File) :
    ∀ s ∈ f.header :: f.extended.map Extended.text, Unbroken s := by
  intro s hs
  rcases List.mem_cons.mp hs with rfl | hs
  · exact (printable_header f).unbroken
  · obtain ⟨e, -, rfl⟩ := List.mem_map.mp hs
    exact e.unbroken

theorem noHunk_headers (f : File) : NoHunk (f.header :: f.extended.map Extended.text) := by
  intro s hs
  rcases List.mem_cons.mp hs with rfl | hs
  · rfl
  · obtain ⟨e, -, rfl⟩ := List.mem_map.mp hs
    exact e.noHunk

/-- **The numbers of a block** are those of its hunks, each from its own start. -/
theorem numbersFrom_block (keep count : Text → Bool) (f : File) :
    numbersFrom keep count none f.block.text.splitlines =
      f.hunks.flatMap fun h => numbersFrom keep count (some h.newStart) (seenOf h) := by
  have hsplit : f.block.text.splitlines =
      (f.header :: f.extended.map Extended.text).map Text.chomp ++
        ([] ++ seen (f.hunks.flatMap Hunk.bodies)) := by
    rw [splitlines_block, File.bodies, ← List.cons_append, ← seen_unbroken (unbroken_headers f),
      List.nil_append]
    exact seen_append _ _
  rw [hsplit, numbersFrom_none (noHunk_map_chomp (noHunk_headers f)), numbersFrom_hunks]
  rfl

/-! ## Lines that are read as they are meant -/

/-- For the code none of the lines is one of the new side or begins a hunk. -/
def Quiet (ls : List Text) : Prop :=
  ∀ s ∈ ls, s.startsWith "@@".toList = false ∧ isRight s = false

/-- The line is read as one line of its kind. -/
structure PlainLine (l : Line) : Prop where
  quiet : Quiet (inner l.body)
  added : l.side = .added → l.text.startsWith "++".toList = false

/-- The header of the hunk is read as one line, and so are its lines. -/
structure PlainHunk (h : Hunk) : Prop where
  quiet : Quiet (inner h.header)
  lines : ∀ l ∈ h.lines, PlainLine l

theorem isRight_chomp (line : Text) : isRight (Text.chomp line) = isRight line := by
  rw [isRight, isRight, Text.startsWith_chomp (by decide), Text.startsWith_chomp (by decide)]

theorem isCounted_chomp (line : Text) : isCounted (Text.chomp line) = isCounted line := by
  rw [isCounted, isCounted, isAdded_chomp, Text.startsWith_chomp (by decide)]

theorem isRight_body (l : Line) : isRight l.body = isRightSide l.side := by
  unfold Line.body
  cases l.side <;> rfl

theorem isAdded_body (l : Line) : isAdded l.body =
    (isAddedSide l.side && !l.text.startsWith "++".toList) := by
  unfold Line.body
  cases l.side <;> rfl

theorem isCounted_of_isRight {line : Text} (h : isRight line = false) :
    isCounted line = false ∧ isAdded line = false := by
  simp only [isRight, Bool.or_eq_false_iff] at h
  simp only [isCounted, isAdded, h.1, h.2, Bool.false_and, Bool.or_self, and_self]

theorem startsWith_body (l : Line) : l.body.startsWith "@@".toList = false := by
  unfold Line.body
  cases l.side <;> rfl

/-- The lines that the code sees in a hunk besides its header and its lines. -/
def extra (h : Hunk) : List Text := inner h.header ++ h.lines.flatMap fun l => inner l.body

theorem plainHunk_iff {h : Hunk} : PlainHunk h ↔
    Quiet (extra h) ∧ ∀ l ∈ h.lines, l.side = .added → l.text.startsWith "++".toList = false := by
  have hq : Quiet (extra h) ↔ Quiet (inner h.header) ∧ ∀ l ∈ h.lines, Quiet (inner l.body) := by
    unfold extra Quiet
    rw [List.forall_mem_append]
    refine and_congr_right fun _ => ?_
    simp only [List.mem_flatMap]
    grind
  rw [hq]
  exact ⟨fun ⟨hh, hl⟩ => ⟨⟨hh, fun l hm => (hl l hm).quiet⟩, fun l hm => (hl l hm).added⟩,
    fun ⟨⟨hh, hl⟩, ha⟩ => ⟨hh, fun l hm => ⟨hl l hm, ha l hm⟩⟩⟩

theorem seen_bodies (l : Line) : seen l.bodies =
    Text.chomp l.body :: (inner l.body ++ if l.noNewline then [noNewlineText] else []) := by
  rw [Line.bodies, seen_cons]
  split
  · rfl
  · rfl

/-- How many of the seen lines have a property that does not depend on the boundary of a line. -/
theorem countP_seenOf {P : Text → Bool} (hchomp : ∀ s, P (Text.chomp s) = P s)
    (hmarker : P noNewlineText = false) (h : Hunk) :
    (seenOf h).countP P = h.lines.countP (fun l => P l.body) + (extra h).countP P := by
  have hlines : ∀ ls : List Line, (seen (ls.flatMap Line.bodies)).countP P =
      ls.countP (fun l => P l.body) + (ls.flatMap fun l => inner l.body).countP P := by
    intro ls
    induction ls with
    | nil => rfl
    | cons l ls ih =>
      have hmark : (if l.noNewline then [noNewlineText] else []).countP P = 0 := by
        split
        · rw [List.countP_singleton, hmarker]
          rfl
        · rfl
      rw [List.flatMap_cons, seen_append, seen_bodies, List.flatMap_cons, List.countP_append,
        List.countP_append, List.countP_cons, List.countP_append, List.countP_cons, hmark, hchomp,
        ih]
      omega
  rw [seenOf, extra, List.countP_append, List.countP_append, hlines]
  omega

theorem noHunk_seenOf {h : Hunk} (hx : NoHunk (extra h)) : NoHunk (seenOf h) := by
  intro s hs
  rcases List.mem_append.mp hs with hs | hs
  · exact hx s (List.mem_append_left _ hs)
  rw [seen, List.flatMap_assoc] at hs
  obtain ⟨l, hl, hs⟩ := List.mem_flatMap.mp hs
  have hs' : s ∈ seen l.bodies := hs
  rw [seen_bodies, List.mem_cons, List.mem_append] at hs'
  rcases hs' with rfl | hs' | hs'
  · rw [Text.startsWith_chomp (by decide), startsWith_body]
  · exact hx s (List.mem_append_right _ (List.mem_flatMap.mpr ⟨l, hl, hs'⟩))
  · split at hs'
    · rw [List.mem_singleton.mp hs']
      rfl
    · cases hs'

theorem newCount_eq (h : Hunk) : h.lines.countP (fun l => isRight l.body) = h.newCount := by
  unfold Hunk.newCount
  induction h.lines with
  | nil => rfl
  | cons l ls ih =>
    rw [List.countP_cons, ih, List.map_cons, List.sum_cons, isRight_body, Nat.add_comm]
    cases l.side <;> rfl

/-- The numbers of the lines of the new side of a hunk are consecutive. -/
theorem numbersOf_isRightSide (h : Hunk) :
    numbersOf isRightSide h.placed = List.range' h.newStart h.newCount := by
  unfold Hunk.placed Hunk.newCount
  generalize h.oldStart = o
  generalize h.newStart = n
  induction h.lines generalizing o n with
  | nil => rfl
  | cons l ls ih =>
    rw [placeFrom, numbersOf, List.filter_cons, List.map_cons, List.sum_cons]
    have hls := ih (o + l.side.old) (n + l.side.new)
    unfold numbersOf at hls
    cases hs : l.side with
    | deleted =>
      rw [hs] at hls
      simpa [isRightSide, hs, Side.new] using hls
    | context =>
      rw [hs] at hls
      simpa [isRightSide, hs, Side.new, Nat.add_comm 1, List.range'_succ] using hls
    | added =>
      rw [hs] at hls
      simpa [isRightSide, hs, Side.new, Nat.add_comm 1, List.range'_succ] using hls

/-- The numbers that `commentable_lines` finds in a hunk. -/
theorem numbersFrom_isRight {h : Hunk} (hx : NoHunk (extra h)) :
    numbersFrom isRight isRight (some h.newStart) (seenOf h) =
      List.range' h.newStart (h.newCount + (extra h).countP isRight) := by
  rw [numbersFrom_same (noHunk_seenOf hx), countP_seenOf isRight_chomp rfl, newCount_eq]

theorem numbersFrom_quiet {ls : List Text} (h : Quiet ls) (n : Nat) (ms : List Text) :
    numbersFrom isAdded isCounted (some n) (ls ++ ms) =
      numbersFrom isAdded isCounted (some n) ms := by
  have hcount : ls.countP isCounted = 0 := by
    rw [List.countP_eq_zero]
    intro l hl
    rw [(isCounted_of_isRight (h l hl).2).1]
    decide
  have hnone : numbersFrom isAdded isCounted (some n) ls = [] := by
    rw [← List.length_eq_zero_iff, length_numbersFrom fun l hl => (h l hl).1, List.countP_eq_zero]
    intro l hl
    rw [(isCounted_of_isRight (h l hl).2).2]
    decide
  rw [numbersFrom_some fun l hl => (h l hl).1, hnone, hcount]
  rfl

/-- The numbers that `changed_lines` finds in a hunk that is read as it is meant. -/
theorem numbersFrom_isAdded {h : Hunk} (hp : PlainHunk h) :
    numbersFrom isAdded isCounted (some h.newStart) (seenOf h) =
      numbersOf isAddedSide h.placed := by
  unfold seenOf Hunk.placed
  rw [numbersFrom_quiet hp.quiet]
  have hlines := hp.lines
  generalize h.lines = ls at hlines ⊢
  generalize h.oldStart = o
  generalize h.newStart = n
  induction ls generalizing o n with
  | nil => rfl
  | cons l ls ih =>
    have hl := hlines l List.mem_cons_self
    have hmark : Quiet (if l.noNewline then [noNewlineText] else []) := by
      intro s hs
      split at hs
      · rw [List.mem_singleton.mp hs]
        exact ⟨rfl, rfl⟩
      · cases hs
    have hhunk : (Text.chomp l.body).startsWith "@@".toList = false := by
      rw [Text.startsWith_chomp (by decide), startsWith_body]
    have hadded : isAdded (Text.chomp l.body) = isAddedSide l.side := by
      rw [isAdded_chomp, isAdded_body]
      cases hs : l.side with
      | added => rw [hl.added hs]; rfl
      | context => rfl
      | deleted => rfl
    have hcounted : (if isCounted (Text.chomp l.body) = true then n + 1 else n) =
        n + l.side.new := by
      have hb : (Text.chomp l.body).startsWith " ".toList = (l.side == .context) := by
        rw [Text.startsWith_chomp (by decide), Line.body]
        cases l.side <;> rfl
      rw [isCounted, hadded, hb]
      cases l.side <;> rfl
    rw [List.flatMap_cons, seen_append, seen_bodies, List.cons_append, List.append_assoc,
      numbersFrom_cons_some hhunk, numbersFrom_quiet hl.quiet, numbersFrom_quiet hmark, hcounted,
      ih (fun k hk => hlines k (List.mem_cons_of_mem _ hk)) (o + l.side.old), hadded, placeFrom,
      numbersOf, numbersOf, List.filter_cons]
    simp only
    split
    · rfl
    · rfl

/-! ## What the two should give -/

/-- The numbers of the lines of these kinds, for each path of a file. -/
def expected (want : Side → Bool) (files : List File) (path : Text) : Option (Finset Nat) :=
  if path ∈ files.map File.newPath then
    some ((files.filter fun f => f.newPath = path).flatMap fun f =>
      numbersOf want f.placed).toFinset
  else none

/-- `changed_lines` gives the added lines of each file, and `commentable_lines` the added and the
context lines. -/
structure RightLines (files : List File) : Prop where
  changed : ∃ d, changedLines (render files) = .ok d ∧
    ∀ path, d.get? path = expected isAddedSide files path
  commentable : ∃ d, commentableLines (render files) = .ok d ∧
    ∀ path, d.get? path = expected isRightSide files path

/-- The diff is read as it is meant: the path in each header, and each line. -/
structure Plain (files : List File) : Prop where
  header : ∀ f ∈ files, f.HeaderRead
  hunk : ∀ f ∈ files, ∀ h ∈ f.hunks, PlainHunk h

/-- The dictionary of the lines that `lines` finds in the blocks. -/
theorem get?_foldl (lines : Text → List Nat) {bs : List (Text × Text)} (h : ∀ b ∈ bs, b.1 ≠ [])
    (path : Text) (d : SetDict Text Nat) :
    (bs.foldl (fun out b => if b.1 = [] then out else out.add b.1 (lines b.2).toFinset) d).get?
      path = if path ∈ bs.map Prod.fst then
        some ((d.get? path).getD ∅ ∪
          ((bs.filter fun b => b.1 = path).flatMap fun b => lines b.2).toFinset)
      else d.get? path := by
  induction bs generalizing d with
  | nil => simp
  | cons b bs ih =>
    rw [List.foldl_cons, if_neg (h b List.mem_cons_self),
      ih fun b hb => h b (List.mem_cons_of_mem _ hb), SetDict.get?_add]
    by_cases hp : path = b.1
    · subst hp
      by_cases hm : b.1 ∈ bs.map Prod.fst
      · simp [hm, Finset.union_assoc]
      · have hf : bs.filter (fun b' => decide (b'.1 = b.1)) = [] := by
          rw [List.filter_eq_nil_iff]
          intro b' hb' he
          exact hm (List.mem_map.mpr ⟨b', hb', by simpa using he⟩)
        simp [hm, hf]
    · have hp' : ¬b.1 = path := Ne.symm hp
      by_cases hm : path ∈ bs.map Prod.fst
      · rw [List.map_cons, if_pos hm, if_pos (List.mem_cons_of_mem _ hm), if_neg hp,
          List.filter_cons, if_neg (by simpa using hp')]
      · rw [if_neg hm, if_neg hp, if_neg (by simpa [hp] using hm)]

/-- The same, for the blocks of a diff whose headers are read as they are meant. -/
theorem get?_blocks (lines : Text → List Nat) (files : List File) (path : Text) :
    ((files.map fun f => (f.newPath, f.block.text)).foldl
      (fun out b => if b.1 = [] then out else out.add b.1 (lines b.2).toFinset)
      SetDict.empty).get? path =
      if path ∈ files.map File.newPath then
        some ((files.filter fun f => f.newPath = path).flatMap fun f =>
          lines f.block.text).toFinset
      else none := by
  have hne : ∀ b ∈ files.map fun f => (f.newPath, f.block.text), b.1 ≠ [] := by
    intro b hb
    obtain ⟨f, -, rfl⟩ := List.mem_map.mp hb
    exact f.newPath_ok
  rw [get?_foldl lines hne, List.map_map, List.filter_map, List.flatMap_map]
  simp only [SetDict.get?_empty, Option.getD_none, Finset.empty_union]
  rfl

/-- What `changed_lines` finds in a file, and what `commentable_lines` does. -/
def changedOf (f : File) : List Nat :=
  f.hunks.flatMap fun h => numbersFrom isAdded isCounted (some h.newStart) (seenOf h)

def commentableOf (f : File) : List Nat :=
  f.hunks.flatMap fun h => numbersFrom isRight isRight (some h.newStart) (seenOf h)

theorem changedLines_render {files : List File} (h : ∀ f ∈ files, f.HeaderRead) :
    ∃ d, changedLines (render files) = .ok d ∧ ∀ path, d.get? path =
      if path ∈ files.map File.newPath then
        some ((files.filter fun f => f.newPath = path).flatMap changedOf).toFinset else none := by
  rw [changedLines, splitFileBlocks_render h]
  refine ⟨_, rfl, fun path => ?_⟩
  refine (get?_blocks addedLines files path).trans ?_
  congr! 5 with _ f
  rw [addedLines, addedFrom_eq, numbersFrom_block]
  rfl

theorem commentableLines_render {files : List File} (h : ∀ f ∈ files, f.HeaderRead) :
    ∃ d, commentableLines (render files) = .ok d ∧ ∀ path, d.get? path =
      if path ∈ files.map File.newPath then
        some ((files.filter fun f => f.newPath = path).flatMap commentableOf).toFinset
      else none := by
  rw [commentableLines, splitFileBlocks_render h]
  refine ⟨_, rfl, fun path => ?_⟩
  refine (get?_blocks (fun t => commentableFrom none t.splitlines) files path).trans ?_
  congr! 5 with _ f
  rw [commentableFrom_eq, numbersFrom_block]
  rfl

theorem numbersOf_placed (want : Side → Bool) (f : File) :
    numbersOf want f.placed = f.hunks.flatMap fun h => numbersOf want h.placed := by
  unfold numbersOf File.placed
  rw [List.filter_flatMap, List.map_flatMap]

/-- **Lines that are read as they are meant** have their numbers. -/
theorem rightLines_of_plain {files : List File} (h : Plain files) : RightLines files := by
  have hf : ∀ {path : Text} {f : File}, f ∈ files.filter (fun f => f.newPath = path) →
      f ∈ files := fun hf => (List.mem_filter.mp hf).1
  constructor
  · obtain ⟨d, hd, hget⟩ := changedLines_render h.header
    refine ⟨d, hd, fun path => ?_⟩
    rw [hget, expected]
    congr 3
    refine List.flatMap_congr fun f hm => ?_
    rw [changedOf, numbersOf_placed]
    exact List.flatMap_congr fun k hk => numbersFrom_isAdded (h.hunk f (hf hm) k hk)
  · obtain ⟨d, hd, hget⟩ := commentableLines_render h.header
    refine ⟨d, hd, fun path => ?_⟩
    rw [hget, expected]
    congr 3
    refine List.flatMap_congr fun f hm => ?_
    rw [commentableOf, numbersOf_placed]
    refine List.flatMap_congr fun k hk => ?_
    have hq := (plainHunk_iff.mp (h.hunk f (hf hm) k hk)).1
    have hzero : (extra k).countP isRight = 0 := by
      rw [List.countP_eq_zero]
      intro s hs
      rw [(hq s hs).2]
      decide
    rw [numbersFrom_isRight fun s hs => (hq s hs).1, numbersOf_isRightSide, hzero]
    rfl

/-! ## Nothing else goes well -/

/-- The hunks of a file do not touch on the new side: git makes one of two that do. -/
structure Spaced (f : File) : Prop where
  nodup : (numbersOf isRightSide f.placed).Nodup
  apart : ∀ h ∈ f.hunks, h.newStart + h.newCount ∉ numbersOf isRightSide f.placed

theorem filter_newPath {files : List File} (hn : (files.map File.newPath).Nodup) {f : File}
    (hf : f ∈ files) : files.filter (fun g => g.newPath = f.newPath) = [f] := by
  induction files with
  | nil => cases hf
  | cons g files ih =>
    rw [List.map_cons, List.nodup_cons] at hn
    rw [List.filter_cons]
    rcases List.mem_cons.mp hf with rfl | hf
    · rw [if_pos (by simp), List.filter_eq_nil_iff.mpr fun g hg he => hn.1 ?_]
      exact List.mem_map.mpr ⟨g, hg, by simpa using he⟩
    · rw [if_neg, ih hn.2 hf]
      intro he
      exact hn.1 (List.mem_map.mpr ⟨f, hf, (by simpa using he : g.newPath = f.newPath).symm⟩)

theorem length_numbersOf (want : Side → Bool) (o n : Nat) (ls : List Line) :
    (numbersOf want (placeFrom o n ls)).length = ls.countP fun l => want l.side := by
  induction ls generalizing o n with
  | nil => rfl
  | cons l ls ih =>
    have hls := ih (o + l.side.old) (n + l.side.new)
    rw [numbersOf, List.length_map] at hls ⊢
    rw [placeFrom, List.filter_cons, List.countP_cons, ← hls]
    split
    · rfl
    · rfl

/-- Two counts that are equal although one property is stronger. -/
theorem of_countP_le {α : Type} {p q : α → Bool} {ls : List α}
    (hpq : ∀ a ∈ ls, p a = true → q a = true)
    (h : ls.countP q ≤ ls.countP p) : ∀ a ∈ ls, q a = true → p a = true := by
  induction ls with
  | nil => simp
  | cons a ls ih =>
    have hrest := List.countP_mono_left fun b hb => hpq b (List.mem_cons_of_mem _ hb)
    have ha := hpq a List.mem_cons_self
    rw [List.countP_cons, List.countP_cons] at h
    intro b hb hq
    rcases List.mem_cons.mp hb with rfl | hb
    · by_contra hp
      rw [if_pos hq, if_neg hp] at h
      omega
    · refine ih (fun b hb => hpq b (List.mem_cons_of_mem _ hb)) ?_ b hb hq
      by_cases hp : p a = true
      · rw [if_pos hp, if_pos (ha hp)] at h
        omega
      · rw [if_neg hp] at h
        omega

/-- A file whose commentable lines are right has no extra line of the new side. -/
theorem quiet_of_commentableOf {f : File} (hs : Spaced f) (hx : ∀ h ∈ f.hunks, NoHunk (extra h))
    (heq : ∀ n, n ∈ commentableOf f ↔ n ∈ numbersOf isRightSide f.placed) :
    ∀ h ∈ f.hunks, Quiet (extra h) := by
  intro h hh s hm
  refine ⟨hx h hh s hm, ?_⟩
  by_contra hright
  rw [Bool.not_eq_false] at hright
  have hpos : 0 < (extra h).countP isRight := List.countP_pos_iff.mpr ⟨s, hm, hright⟩
  -- the line after the hunk is taken for one of it
  refine hs.apart h hh ((heq _).mp ?_)
  rw [commentableOf, List.mem_flatMap]
  refine ⟨h, hh, ?_⟩
  rw [numbersFrom_isRight (hx h hh), List.mem_range'_1]
  omega

theorem length_changedOf {f : File} (hq : ∀ h ∈ f.hunks, Quiet (extra h)) :
    (changedOf f).length = (f.hunks.flatMap Hunk.lines).countP fun l => isAdded l.body := by
  unfold changedOf
  rw [List.length_flatMap, List.countP_flatMap]
  congr 1
  refine List.map_congr_left fun h hh => ?_
  have hnone : (extra h).countP isAdded = 0 := by
    rw [List.countP_eq_zero]
    intro s hs
    rw [(isCounted_of_isRight (hq h hh s hs).2).2]
    decide
  rw [length_numbersFrom (noHunk_seenOf fun s hs => (hq h hh s hs).1),
    countP_seenOf isAdded_chomp rfl, hnone]
  rfl

/-- A file whose added lines are right has no added line that begins with `++`. -/
theorem noPlus_of_changedOf {f : File} (hs : Spaced f) (hq : ∀ h ∈ f.hunks, Quiet (extra h))
    (heq : (changedOf f).toFinset = (numbersOf isAddedSide f.placed).toFinset) :
    ∀ h ∈ f.hunks, ∀ l ∈ h.lines, l.side = .added → l.text.startsWith "++".toList = false := by
  have hsub : (numbersOf isAddedSide f.placed).Sublist (numbersOf isRightSide f.placed) := by
    refine List.Sublist.map _ (List.monotone_filter_right _ fun p hp => ?_)
    simp only [isAddedSide, beq_iff_eq] at hp
    rw [hp]
    rfl
  have hlength : (numbersOf isAddedSide f.placed).length =
      (f.hunks.flatMap Hunk.lines).countP fun l => isAddedSide l.side := by
    rw [numbersOf_placed, List.length_flatMap, List.countP_flatMap]
    congr 1
    exact List.map_congr_left fun h _ => length_numbersOf _ _ _ _
  have hle : (numbersOf isAddedSide f.placed).length ≤ (changedOf f).length := by
    calc (numbersOf isAddedSide f.placed).length
        = (numbersOf isAddedSide f.placed).toFinset.card :=
          (List.toFinset_card_of_nodup (hs.nodup.sublist hsub)).symm
      _ = (changedOf f).toFinset.card := by rw [heq]
      _ ≤ (changedOf f).length := List.toFinset_card_le _
  rw [hlength, length_changedOf hq] at hle
  have hadded : ∀ l : Line, isAdded l.body = true → isAddedSide l.side = true := by
    intro l hl
    rw [isAdded_body, Bool.and_eq_true] at hl
    exact hl.1
  intro h hh l hl hside
  have := of_countP_le (fun l _ => hadded l) hle l (List.mem_flatMap.mpr ⟨h, hh, hl⟩) (by
    rw [hside]
    rfl)
  rw [isAdded_body, Bool.and_eq_true, Bool.not_eq_true'] at this
  exact this.2

/-- **Nothing else goes well** where the headers are read as they are meant and no extra line looks
like a hunk header. -/
theorem plain_of_rightLines {files : List File} (hn : (files.map File.newPath).Nodup)
    (hs : ∀ f ∈ files, Spaced f) (hh : ∀ f ∈ files, f.HeaderRead)
    (hx : ∀ f ∈ files, ∀ h ∈ f.hunks, NoHunk (extra h)) (hr : RightLines files) : Plain files := by
  refine ⟨hh, fun f hf => ?_⟩
  have hmem : f.newPath ∈ files.map File.newPath := List.mem_map_of_mem hf
  have hcomment : (commentableOf f).toFinset = (numbersOf isRightSide f.placed).toFinset := by
    obtain ⟨d, hd, hget⟩ := hr.commentable
    obtain ⟨d', hd', hget'⟩ := commentableLines_render hh
    obtain rfl : d = d' := Except.ok.inj (hd.symm.trans hd')
    have h := (hget' f.newPath).symm.trans (hget f.newPath)
    rw [expected, if_pos hmem, if_pos hmem, filter_newPath hn hf] at h
    simpa using h
  have hchange : (changedOf f).toFinset = (numbersOf isAddedSide f.placed).toFinset := by
    obtain ⟨d, hd, hget⟩ := hr.changed
    obtain ⟨d', hd', hget'⟩ := changedLines_render hh
    obtain rfl : d = d' := Except.ok.inj (hd.symm.trans hd')
    have h := (hget' f.newPath).symm.trans (hget f.newPath)
    rw [expected, if_pos hmem, if_pos hmem, filter_newPath hn hf] at h
    simpa using h
  have hq := quiet_of_commentableOf (hs f hf) (hx f hf) fun n => by
    rw [← List.mem_toFinset, hcomment, List.mem_toFinset]
  intro h hm
  exact plainHunk_iff.mpr ⟨hq h hm, noPlus_of_changedOf (hs f hf) hq hchange h hm⟩

/-- What git makes sure of (one entry for a path, hunks that do not touch), headers that are read as
they are meant, and no extra line that looks like a hunk header. -/
structure Decided (files : List File) : Prop where
  nodup : (files.map File.newPath).Nodup
  spaced : ∀ f ∈ files, Spaced f
  header : ∀ f ∈ files, f.HeaderRead
  noHunk : ∀ f ∈ files, ∀ h ∈ f.hunks, NoHunk (extra h)

/-- **Lines of the new side.** They are right when the diff is read as it is meant, and only then
where this can be told. -/
theorem rightLines_plain (files : List File) :
    (Plain files → RightLines files) ∧
      (Decided files → RightLines files → Plain files) :=
  ⟨rightLines_of_plain, fun h => plain_of_rightLines h.nodup h.spaced h.header h.noHunk⟩

/-- A new file `x` with these lines. -/
def newFileOf (lines : List Line) : File where
  oldPath := ['x']
  newPath := ['x']
  extended := []
  hunks := [⟨0, 1, [], lines, by simp⟩]
  newPath_ok := by simp

/-- The added line `++ x`. -/
def plusLine : Line := ⟨.added, "++ x".toList, false, by decide⟩

/-- **An added line that begins with `++`** is taken for a file header. -/
theorem plusLine_lost : ¬∀ files, RightLines files := by
  intro h
  obtain ⟨d, hd, hget⟩ := (h [newFileOf [plusLine]]).changed
  have hlost : ((changedLines (render [newFileOf [plusLine]])).map
      fun d => d.get? ['x']) = .ok (some ∅) := by decide +kernel
  rw [hd] at hlost
  have hnone := (hget ['x']).symm.trans (Except.ok.inj hlost)
  have hone : expected isAddedSide [newFileOf [plusLine]] ['x'] =
      some {1} := by decide +kernel
  rw [hone] at hnone
  exact absurd (Option.some.inj hnone) (by decide)

theorem rightLines_x : RightLines [newFileOf [⟨.added, "x".toList, false, by decide⟩]] := by
  refine (rightLines_plain _).1 ⟨fun f hf => ?_, fun f hf h hh => ?_⟩
  · rw [List.mem_singleton.mp hf]
    exact headerRead_of_simpleName (by decide) (by decide)
  · rw [List.mem_singleton.mp hf] at hh
    rw [List.mem_singleton.mp hh]
    have hempty : ∀ s, Unbroken s → Quiet (inner s) := by
      intro s hs
      rw [hs.inner_eq]
      simp [Quiet]
    refine ⟨hempty _ (by decide), fun l hl => ?_⟩
    rw [List.mem_singleton.mp hl]
    exact ⟨hempty _ (by decide), fun _ => rfl⟩

end DiffFilter
