import AlmightyReview.Lib.Lists
import AlmightyReview.Diff.Cap
import AlmightyReview.Diff.Sides

/-!
# Lines of a block that is split

What becomes of the lines of a file when `splitOversizedBlock` cuts its block into pieces.

* `LinesKept`: each line is shown in exactly one piece, in order, whole or cut with a mark, and the
  hunk header of a piece gives the numbers of its first line and counts its lines.
* `hunkLineUnits_block`: the units of the block are its lines, but for those that look like a file
  header (`isLost`).
* `splitUnits_groups`: each piece shows a group of the units, of which only the first can be cut.
* `linesKept_keptLines`: the lines are kept when none is lost, no line that fits has a boundary for
  `splitlines` in it, and a line that does not fit has room for its sigil and a mark (`KeptLines`).
  Where no line has such a boundary, they are kept only then.
-/

namespace DiffFilter

open Unified

/-! ## What the pieces should show -/

/-- The ends of a line that was cut. -/
def cutMarks : List Text := ["…".toList, "…\n".toList, truncationMarker]

/-- A line as a piece may show it: whole, or the beginning of it with a mark. -/
inductive Shown (l : Line) : Text → Prop
  | whole : Shown l (ended l.body)
  | cut {kept mark : Text} : kept <+: l.text → mark ∈ cutMarks →
      Shown l (l.side.sigil :: kept ++ mark)

/-- The header of a hunk that begins with these numbers and has so many lines. -/
def continuedHeader (oldNo oldCount newNo newCount : Nat) : Text :=
  "@@ -".toList ++ Text.ofNat oldNo ++ ",".toList ++ Text.ofNat oldCount ++ " +".toList ++
    Text.ofNat newNo ++ ",".toList ++ Text.ofNat newCount ++ " @@ continued\n".toList

/-- The piece of these lines. -/
def IsPiece (head : Text) (ps : List Placed) (piece : Text) : Prop :=
  ∃ first rest texts, ps = first :: rest ∧
    List.Forall₂ (fun p t => Shown p.line t) ps texts ∧
    piece = head ++ continuedHeader first.oldNo (ps.map fun p => p.line.side.old).sum first.newNo
      (ps.map fun p => p.line.side.new).sum ++ texts.flatten

/-- The lines of the file are kept in the pieces of its block. -/
def LinesKept (f : File) (path : Text) (budget : Nat) : Prop :=
  f.placed ≠ [] → ∃ groups, groups.flatten = f.placed ∧
    List.Forall₂ (IsPiece (syntheticDiffPrefix path budget)) groups
      ((splitOversizedBlock path f.block.text budget).map Prod.fst)

/-! ## The units of a block -/

/-- The line looks like the header of one side of a file. -/
def isLost (l : Line) : Bool :=
  (l.side == .added && l.text.startsWith "++".toList) ||
    (l.side == .deleted && l.text.startsWith "--".toList)

/-- The line up to its first boundary, with the boundary. -/
def firstPart (l : Line) : Text := (Text.splitlinesKeep (ended l.body)).headD []

/-- The unit of a line. -/
def unitOf (p : Placed) : HunkLine where
  text := firstPart p.line
  oldNo := p.oldNo
  newNo := p.newNo
  oldCount := p.line.side.old
  newCount := p.line.side.new
  ownedLine := if p.line.side = .added then some p.newNo else none

/-- The units of the lines of a hunk. A lost line does not count. -/
def unitsOf : Nat → Nat → List Line → List HunkLine
  | _, _, [] => []
  | o, n, l :: ls =>
    if isLost l then unitsOf o n ls
    else unitOf ⟨l, o, n⟩ :: unitsOf (o + l.side.old) (n + l.side.new) ls

/-- No unit begins in the lines, and no hunk. -/
def Silent (ls : List Text) : Prop :=
  ∀ s ∈ ls, s.startsWith "@@".toList = false ∧ isAdded s = false ∧ isDeleted s = false ∧
    s.startsWith " ".toList = false

theorem unitsFrom_none {ls : List Text} (h : NoHunk ls) (ms : List Text) :
    unitsFrom none (ls ++ ms) = unitsFrom none ms := by
  induction ls with
  | nil => rfl
  | cons l ls ih =>
    rw [List.cons_append, unitsFrom.eq_def]
    simp only
    rw [if_neg (Bool.not_eq_true _ ▸ h l List.mem_cons_self)]
    exact ih fun l hl => h l (List.mem_cons_of_mem _ hl)

theorem unitsFrom_hunk {l : Text} (h : l.startsWith "@@".toList = true) (no : Option (Nat × Nat))
    (ls : List Text) : unitsFrom no (l :: ls) = unitsFrom (fullHunkHeader l) ls := by
  rw [unitsFrom.eq_def]
  simp only
  rw [if_pos h]

theorem unitsFrom_silent {ls : List Text} (h : Silent ls) (o n : Nat) (ms : List Text) :
    unitsFrom (some (o, n)) (ls ++ ms) = unitsFrom (some (o, n)) ms := by
  induction ls with
  | nil => rfl
  | cons l ls ih =>
    obtain ⟨h₁, h₂, h₃, h₄⟩ := h l List.mem_cons_self
    rw [List.cons_append, unitsFrom.eq_def]
    simp only [h₁, h₂, h₃, h₄, Bool.false_eq_true, if_false]
    exact ih fun l hl => h l (List.mem_cons_of_mem _ hl)

theorem silent_of_map_chomp {ls : List Text} (h : Silent (ls.map Text.chomp)) : Silent ls := by
  intro s hs
  obtain ⟨h₁, h₂, h₃, h₄⟩ := h _ (List.mem_map_of_mem hs)
  rw [Text.startsWith_chomp (by decide)] at h₁ h₄
  rw [isAdded_chomp] at h₂
  rw [isDeleted, Text.startsWith_chomp (by decide), Text.startsWith_chomp (by decide)] at h₃
  exact ⟨h₁, h₂, h₃, h₄⟩

/-- What `splitlines` finds in an ended text, with the boundaries. -/
theorem splitlinesKeep_ended (s : Text) : ∃ first rest,
    Text.splitlinesKeep (ended s) = first :: rest ∧ Text.chomp first = Text.chomp s ∧
      rest.map Text.chomp = inner s := by
  obtain ⟨first, rest, h⟩ := List.exists_cons_of_ne_nil
    (Text.splitlinesKeep_ne_nil (s := ended s) (by simp [ended]))
  refine ⟨first, rest, h, ?_, ?_⟩
  · rw [Text.chomp_head_splitlinesKeep h, chomp_ended]
  · rw [Unified.inner, Text.afterFirst, Text.splitlines, h]
    rfl

/-- What the first part of a line starts with. -/
theorem startsWith_of_chomp {s t p : Text} (h : Text.chomp t = Text.chomp s) (hp : Unbroken p) :
    t.startsWith p = s.startsWith p := by
  rw [← Text.startsWith_chomp hp, h, Text.startsWith_chomp hp]

theorem isDeleted_body (l : Line) : isDeleted l.body =
    (l.side == .deleted && !l.text.startsWith "--".toList) := by
  unfold Line.body
  cases l.side <;> rfl

theorem startsWith_blank_body (l : Line) :
    l.body.startsWith " ".toList = (l.side == .context) := by
  unfold Line.body
  cases l.side <;> rfl

/-- A line gives its unit, or none when it is lost. -/
theorem unitsFrom_line (l : Line) (h : Silent (inner l.body)) (o n : Nat) (ms : List Text) :
    unitsFrom (some (o, n)) (Text.splitlinesKeep (ended l.body) ++ ms) =
      if isLost l then unitsFrom (some (o, n)) ms
      else unitOf ⟨l, o, n⟩ :: unitsFrom (some (o + l.side.old, n + l.side.new)) ms := by
  obtain ⟨first, rest, hsplit, hchomp, hrest⟩ := splitlinesKeep_ended l.body
  have hfirst : firstPart l = first := by rw [firstPart, hsplit, List.headD_cons]
  have hsilent : Silent rest := silent_of_map_chomp (hrest ▸ h)
  have hhunk : first.startsWith "@@".toList = false := by
    rw [startsWith_of_chomp hchomp (by decide), startsWith_body]
  have hadded : isAdded first = isAdded l.body := by
    rw [← isAdded_chomp, hchomp, isAdded_chomp]
  have hdeleted : isDeleted first = isDeleted l.body := by
    rw [isDeleted, isDeleted, startsWith_of_chomp hchomp (by decide),
      startsWith_of_chomp hchomp (by decide)]
  have hblank : first.startsWith " ".toList = l.body.startsWith " ".toList :=
    startsWith_of_chomp hchomp (by decide)
  rw [hsplit, List.cons_append, unitsFrom.eq_def]
  simp only [hhunk, hadded, hdeleted, hblank, Bool.false_eq_true, if_false,
    unitsFrom_silent hsilent, isAdded_body, isDeleted_body, startsWith_blank_body]
  unfold unitOf isLost
  rw [hfirst]
  cases hs : l.side with
  | context => rfl
  | deleted => cases l.text.startsWith "--".toList <;> rfl
  | added => cases l.text.startsWith "++".toList <;> rfl

/-- The text of lines as the code cuts it into lines. -/
def seenKeep (bodies : List Text) : List Text :=
  bodies.flatMap fun s => Text.splitlinesKeep (ended s)

theorem seenKeep_append (ss ts : List Text) : seenKeep (ss ++ ts) = seenKeep ss ++ seenKeep ts :=
  List.flatMap_append

theorem seenKeep_cons (s : Text) (ss : List Text) :
    seenKeep (s :: ss) = Text.splitlinesKeep (ended s) ++ seenKeep ss := List.flatMap_cons

theorem seenKeep_unbroken {ss : List Text} (h : ∀ s ∈ ss, Unbroken s) :
    seenKeep ss = ss.map ended := by
  induction ss with
  | nil => rfl
  | cons s ss ih =>
    rw [seenKeep_cons, (h s List.mem_cons_self).splitlinesKeep]
    exact congrArg (ended s :: ·) (ih fun s hs => h s (List.mem_cons_of_mem _ hs))

/-- The lines of a hunk give their units. -/
theorem unitsFrom_lines {ls : List Line} (h : ∀ l ∈ ls, Silent (inner l.body)) (o n : Nat) :
    ∃ no, ∀ ms, unitsFrom (some (o, n)) (seenKeep (ls.flatMap Line.bodies) ++ ms) =
      unitsOf o n ls ++ unitsFrom no ms := by
  induction ls generalizing o n with
  | nil => exact ⟨some (o, n), fun _ => rfl⟩
  | cons l ls ih =>
    have hrest := ih fun l hl => h l (List.mem_cons_of_mem _ hl)
    have hmark : Silent (seenKeep (if l.noNewline then [noNewlineText] else [])) := by
      intro s hs
      split at hs
      · rw [seenKeep_unbroken (by decide)] at hs
        rw [List.mem_singleton.mp hs]
        exact ⟨rfl, rfl, rfl, rfl⟩
      · cases hs
    have hsplit : ∀ ms, seenKeep ((l :: ls).flatMap Line.bodies) ++ ms =
        Text.splitlinesKeep (ended l.body) ++
          (seenKeep (if l.noNewline then [noNewlineText] else []) ++
            (seenKeep (ls.flatMap Line.bodies) ++ ms)) := by
      intro ms
      rw [List.flatMap_cons, Line.bodies, seenKeep_append, seenKeep_cons, List.append_assoc,
        List.append_assoc]
    rw [unitsOf]
    by_cases hl : isLost l = true
    · obtain ⟨no, hno⟩ := hrest o n
      refine ⟨no, fun ms => ?_⟩
      rw [hsplit, unitsFrom_line l (h l List.mem_cons_self), if_pos hl, if_pos hl,
        unitsFrom_silent hmark, hno]
    · obtain ⟨no, hno⟩ := hrest (o + l.side.old) (n + l.side.new)
      refine ⟨no, fun ms => ?_⟩
      rw [hsplit, unitsFrom_line l (h l List.mem_cons_self), if_neg hl, if_neg hl,
        unitsFrom_silent hmark, hno]
      rfl

/-- No unit and no hunk begins in the extra lines of the file. -/
def SilentFile (f : File) : Prop := ∀ h ∈ f.hunks, Silent (extra h)

theorem unitsFrom_hunks {hunks : List Hunk} (h : ∀ k ∈ hunks, Silent (extra k))
    (no : Option (Nat × Nat)) :
    unitsFrom no (seenKeep (hunks.flatMap Hunk.bodies)) =
      hunks.flatMap fun k => unitsOf k.oldStart k.newStart k.lines := by
  induction hunks generalizing no with
  | nil => rfl
  | cons k hunks ih =>
    have hk := h k List.mem_cons_self
    obtain ⟨first, rest, hsplit, hchomp, hrest⟩ := splitlinesKeep_ended k.header
    have hsilent : Silent rest := silent_of_map_chomp (hrest ▸ fun s hs =>
      hk s (List.mem_append_left _ hs))
    have hlines : ∀ l ∈ k.lines, Silent (inner l.body) := fun l hl s hs =>
      hk s (List.mem_append_right _ (List.mem_flatMap.mpr ⟨l, hl, hs⟩))
    have hhead : first.startsWith "@@".toList = true := by
      rw [startsWith_of_chomp hchomp (by decide), startsWith_header]
    have hfull : fullHunkHeader first = some (k.oldStart, k.newStart) := by
      rw [← fullHunkHeader_chomp, hchomp, fullHunkHeader_chomp, fullHunkHeader_header]
    have hseen : seenKeep ((k :: hunks).flatMap Hunk.bodies) = first :: (rest ++
        (seenKeep (k.lines.flatMap Line.bodies) ++ seenKeep (hunks.flatMap Hunk.bodies))) := by
      rw [List.flatMap_cons, Hunk.bodies, List.cons_append, seenKeep_cons, hsplit, seenKeep_append]
      rfl
    obtain ⟨no', hno'⟩ := unitsFrom_lines hlines k.oldStart k.newStart
    rw [hseen, unitsFrom_hunk hhead, hfull, unitsFrom_silent hsilent, hno',
      ih fun k hk => h k (List.mem_cons_of_mem _ hk), List.flatMap_cons]

/-- **The units of a block** are its lines, but for the lost ones. -/
theorem hunkLineUnits_block {f : File} (h : SilentFile f) :
    hunkLineUnits f.block.text =
      f.hunks.flatMap fun k => unitsOf k.oldStart k.newStart k.lines := by
  have hsplit : f.block.text.splitlinesKeep =
      (f.header :: f.extended.map Extended.text).map ended ++
        seenKeep (f.hunks.flatMap Hunk.bodies) := by
    rw [text_block, splitlinesKeep_flatten, File.bodies, ← List.cons_append,
      ← seenKeep_unbroken (unbroken_headers f)]
    exact seenKeep_append _ _
  have hno : NoHunk ((f.header :: f.extended.map Extended.text).map ended) := by
    intro s hs
    obtain ⟨t, ht, rfl⟩ := List.mem_map.mp hs
    rw [startsWith_ended (by decide)]
    exact noHunk_headers f t ht
  rw [hunkLineUnits, hsplit, unitsFrom_none hno, unitsFrom_hunks h]

/-! ## Groups of units -/

section Groups

variable {head : Text} {budget : Nat}

/-- The unit does not fit alone. -/
def TooLong (head : Text) (budget : Nat) (u : HunkLine) : Prop :=
  budget < head.length + u.headerWidth + u.text.length

/-- A group of units and what its piece shows of them. -/
inductive ShownGroup (head : Text) (budget : Nat) : List HunkLine → List HunkLine → Prop
  | whole {us : List HunkLine} : (∀ u ∈ us, ¬TooLong head budget u) → ShownGroup head budget us us
  | cut {u : HunkLine} {us : List HunkLine} : TooLong head budget u →
      (∀ v ∈ us, ¬TooLong head budget v) →
      ShownGroup head budget (u :: us) (truncateUnitToBudget head u budget :: us)

/-- The piece of a group of units. -/
def GroupPiece (head : Text) (budget : Nat) (us : List HunkLine) (piece : Text) : Prop :=
  ∃ g, ShownGroup head budget us g ∧ g ≠ [] ∧
    (2 ≤ g.length → (renderHunkPiece head g).length ≤ budget) ∧ piece = renderHunkPiece head g

/-- A unit of a line that ends: its text has a sigil and a boundary. -/
structure HunkLine.Ended (u : HunkLine) : Prop where
  oldCount : u.oldCount ≤ 1
  newCount : u.newCount ≤ 1
  text : 2 ≤ u.text.length

theorem HunkLine.Ended.single {u : HunkLine} (h : u.Ended) : u.Single :=
  ⟨h.oldCount, h.newCount, fun h0 => by
    have := h.text
    rw [h0] at this
    cases this⟩

/-- What holds of a group that was gathered. -/
structure GatheredGroup (head : Text) (budget : Nat) (orig current : List HunkLine) : Prop where
  group : ShownGroup head budget orig current
  fits : 2 ≤ current.length → (renderHunkPiece head current).length ≤ budget
  linked : Linked current
  filled : current ≠ [] → 2 ≤ (current.map HunkLine.text).flatten.length ∨
    budget ≤ (renderHunkPiece head current).length

theorem gatheredGroup_nil : GatheredGroup head budget [] [] :=
  ⟨.whole (by simp), by simp, linked_nil, fun h => absurd rfl h⟩

theorem gatheredGroup_single {u : HunkLine} (h : u.Ended) (hu : ¬TooLong head budget u) :
    GatheredGroup head budget [u] [u] :=
  ⟨.whole (by simpa using hu), by simp, linked_single u, fun _ => .inl (by simpa using h.text)⟩

theorem length_truncate_ge {u : HunkLine} (h : u.Ended) :
    min 2 (roomFor head budget u) ≤ (truncateUnitToBudget head u budget).text.length := by
  have hs := length_sigil h.single.text
  have hm : truncationMarker.length = 33 := by decide
  have he : "…\n".toList.length = 2 := by decide
  rw [text_truncate h.single]
  split
  · rw [List.length_take, hs]
    omega
  split
  · rw [List.length_take, List.length_append, hs, he]
    omega
  · rw [List.length_append, List.length_append, hs, hm]
    omega

theorem gatheredGroup_fitUnit {u : HunkLine} (h : u.Ended) :
    GatheredGroup head budget [u] [fitUnit head budget u] := by
  have hr := length_render_single h.oldCount h.newCount head
  unfold fitUnit
  split
  · refine ⟨.cut (by unfold TooLong; omega) (by simp), by simp, linked_single _, fun _ => ?_⟩
    have hge : min 2 (roomFor head budget u) ≤ _ := length_truncate_ge h
    rw [length_render_truncate h.single]
    unfold roomFor at hge
    simp only [List.map_cons, List.map_nil, List.flatten_singleton]
    omega
  · exact gatheredGroup_single h (by unfold TooLong; omega)

theorem GatheredGroup.append {orig current : List HunkLine} {u : HunkLine}
    (hg : GatheredGroup head budget orig current) (hc : contiguous current u = true)
    (h : u.Ended) (hle : (renderHunkPiece head (current ++ [u])).length ≤ budget) :
    GatheredGroup head budget (orig ++ [u]) (current ++ [u]) := by
  have hu : ¬TooLong head budget u := by
    unfold TooLong
    by_cases hne : current = []
    · subst hne
      rw [List.nil_append, length_render_single h.oldCount h.newCount] at hle
      omega
    · have happ : (renderHunkPiece head current).length + u.text.length ≤ _ :=
        length_render_append hne u
      have hlen : head.length + u.headerWidth + _ ≤ _ := hg.linked.length_le hne hc
      have htext := h.text
      rw [List.map_append, List.flatten_append, List.length_append, List.map_singleton,
        List.flatten_singleton] at hlen
      rcases hg.filled hne with hf | hf
      · omega
      · omega
  refine ⟨?_, fun _ => hle, hg.linked.append hc, fun _ => .inl ?_⟩
  · cases hg.group with
    | whole hall =>
      refine .whole fun v hv => ?_
      rcases List.mem_append.mp hv with hv | hv
      · exact hall v hv
      · rwa [List.mem_singleton.mp hv]
    | cut hlong hall =>
      refine .cut hlong fun v hv => ?_
      rcases List.mem_append.mp hv with hv | hv
      · exact hall v hv
      · rwa [List.mem_singleton.mp hv]
  · rw [List.map_append, List.flatten_append, List.length_append, List.map_singleton,
      List.flatten_singleton]
    have := h.text
    omega

theorem flushUnits_groups (path : Text) {orig current : List HunkLine}
    (hg : GatheredGroup head budget orig current) :
    ∃ uss, uss.flatten = orig ∧
      List.Forall₂ (GroupPiece head budget) uss ((flushUnits path head current).map Prod.fst) := by
  cases hcur : current with
  | nil =>
    have horig : orig = [] := by
      have hgroup := hg.group
      rw [hcur] at hgroup
      cases hgroup
      rfl
    exact ⟨[], by rw [horig]; rfl, .nil⟩
  | cons u us =>
    rw [← hcur]
    have hflush : flushUnits path head current =
        [(renderHunkPiece head current, ownedBy path current)] := by
      rw [hcur]
      rfl
    rw [hflush]
    refine ⟨[orig], List.flatten_singleton, .cons ⟨current, hg.group, ?_, hg.fits, rfl⟩ .nil⟩
    rw [hcur]
    exact List.cons_ne_nil _ _

/-- **Groups.** The pieces show the units in groups, in order. -/
theorem splitUnits_groups (path : Text) {orig current units : List HunkLine}
    (hg : GatheredGroup head budget orig current) (hu : ∀ u ∈ units, u.Ended) :
    ∃ uss, uss.flatten = orig ++ units ∧ List.Forall₂ (GroupPiece head budget) uss
      ((splitUnits path head budget current units).map Prod.fst) := by
  have hflush : ∀ {orig current units : List HunkLine} {u : HunkLine}
      {pieces : List (Text × SetDict Text Nat)}, GatheredGroup head budget orig current →
      (∃ uss, uss.flatten = [u] ++ units ∧
        List.Forall₂ (GroupPiece head budget) uss (pieces.map Prod.fst)) →
      ∃ uss, uss.flatten = orig ++ u :: units ∧ List.Forall₂ (GroupPiece head budget) uss
        ((flushUnits path head current ++ pieces).map Prod.fst) := by
    rintro orig current units u pieces hg ⟨uss, hflat, hall⟩
    obtain ⟨vss, hvflat, hvall⟩ := flushUnits_groups path hg
    refine ⟨vss ++ uss, ?_, ?_⟩
    · rw [List.flatten_append, hvflat, hflat]
      rfl
    · rw [List.map_append]
      exact List.rel_append hvall hall
  fun_induction splitUnits path head budget current units generalizing orig with
  | case1 current =>
    rw [List.append_nil]
    exact flushUnits_groups path hg
  | case2 current u units hc hle ih =>
    obtain ⟨uss, hflat, hall⟩ := ih (hg.append hc (hu u List.mem_cons_self) hle)
      fun v hv => hu v (List.mem_cons_of_mem _ hv)
    exact ⟨uss, by rw [hflat, List.append_assoc]; rfl, hall⟩
  | case3 current u units hc hle ih =>
    exact hflush hg (ih (gatheredGroup_fitUnit (hu u List.mem_cons_self))
      fun v hv => hu v (List.mem_cons_of_mem _ hv))
  | case4 current u units hc hle ih =>
    have h := hu u List.mem_cons_self
    refine hflush hg (ih (gatheredGroup_single h ?_) fun v hv => hu v (List.mem_cons_of_mem _ hv))
    rw [length_render_single h.oldCount h.newCount] at hle
    unfold TooLong
    omega
  | case5 current u units hc hle ih =>
    exact hflush hg (ih (gatheredGroup_fitUnit (hu u List.mem_cons_self))
      fun v hv => hu v (List.mem_cons_of_mem _ hv))

end Groups

/-! ## Lines that are kept -/

/-- The line is kept in a piece: it does not look like a file header, all of it is one line for the
code when it fits alone, and there is room for its sigil and a mark when it does not. -/
structure KeptLine (head : Text) (budget : Nat) (p : Placed) : Prop where
  notLost : isLost p.line = false
  whole : ¬TooLong head budget (unitOf p) → firstPart p.line = ended p.line.body
  room : TooLong head budget (unitOf p) → 2 ≤ roomFor head budget (unitOf p)

/-- All lines of the file are kept, and the code sees no others. -/
structure KeptLines (f : File) (path : Text) (budget : Nat) : Prop where
  silent : SilentFile f
  line : ∀ p ∈ f.placed, KeptLine (syntheticDiffPrefix path budget) budget p

/-- The first part of a line is its sigil and something more. -/
theorem firstPart_eq (l : Line) : ∃ t, firstPart l = l.side.sigil :: t ∧ t ≠ [] ∧
    t <+: ended l.text := by
  have hsigil : Text.isLineBreak l.side.sigil = false := by cases l.side <;> rfl
  have hr : ¬(l.side.sigil = '\r' ∧ (ended l.text).head? = some '\n') := by
    rintro ⟨h, -⟩
    rw [h] at hsigil
    cases hsigil
  obtain ⟨t, rest, hsplit⟩ := List.exists_cons_of_ne_nil
    (Text.splitlinesKeep_ne_nil (s := ended l.text) (by simp [ended]))
  have hbody : Text.splitlinesKeep (ended l.body) = (l.side.sigil :: t) :: rest := by
    rw [ended, Line.body, List.cons_append, ← ended, Text.splitlinesKeep_cons hr, hsplit, hsigil]
    rfl
  refine ⟨t, by rw [firstPart, hbody, List.headD_cons], ?_, ?_⟩
  · exact Text.ne_nil_of_mem_splitlinesKeep (s := ended l.text) (hsplit ▸ List.mem_cons_self)
  · have hflat := Text.flatten_splitlinesKeep (ended l.text)
    rw [hsplit, List.flatten_cons] at hflat
    exact ⟨rest.flatten, hflat⟩

theorem ended_unitOf (p : Placed) : (unitOf p).Ended := by
  obtain ⟨t, ht, hne, -⟩ := firstPart_eq p.line
  have hside : ∀ s : Side, s.old ≤ 1 ∧ s.new ≤ 1 := by
    intro s
    cases s <;> decide
  refine ⟨(hside p.line.side).1, (hside p.line.side).2, ?_⟩
  show 2 ≤ (firstPart p.line).length
  have := List.length_pos_iff.mpr hne
  rw [ht, List.length_cons]
  omega

theorem rstripNewline_isPrefixOf (s : Text) : rstripNewline s <+: s := by
  have h := List.dropWhile_suffix (fun c : Char => c == '\n') (l := s.reverse)
  rw [rstripNewline, ← List.reverse_suffix, List.reverse_reverse]
  exact h

/-- A line that is cut shows that it is. -/
theorem shown_truncate {head : Text} {budget : Nat} {p : Placed}
    (hlong : TooLong head budget (unitOf p)) (hroom : 2 ≤ roomFor head budget (unitOf p)) :
    Shown p.line (truncateUnitToBudget head (unitOf p) budget).text := by
  obtain ⟨t, ht, hne, hprefix⟩ := firstPart_eq p.line
  have htext : (unitOf p).text = p.line.side.sigil :: t := ht
  have hsigil : sigil (unitOf p).text = [p.line.side.sigil] := by
    rw [htext]
    unfold sigil
    cases p.line.side <;> rfl
  have hm : truncationMarker.length = 33 := by decide
  rw [text_truncate (ended_unitOf p).single, hsigil, if_neg (by omega)]
  split
  · obtain ⟨k, hk⟩ := Nat.exists_eq_add_of_le' hroom
    rw [hk]
    cases k with
    | zero =>
      have hcut : Shown p.line (p.line.side.sigil :: [] ++ "…".toList) :=
        .cut List.nil_prefix (by simp [cutMarks])
      exact hcut
    | succ k =>
      have htake : ([p.line.side.sigil] ++ "…\n".toList).take (k + 1 + 2) =
          p.line.side.sigil :: [] ++ "…\n".toList :=
        List.take_of_length_le (by
          rw [List.length_append]
          have : "…\n".toList.length = 2 := by decide
          simp only [List.length_singleton, this]
          omega)
      rw [htake]
      exact .cut List.nil_prefix (by simp [cutMarks])
  · refine .cut ((rstripNewline_isPrefixOf _).trans ?_) (by simp [cutMarks])
    -- what is kept ends before the boundary of the line
    rw [htext]
    show t.take _ <+: _
    have hlen : (unitOf p).text.length = t.length + 1 := by rw [htext]; rfl
    have hle := hprefix.length_le
    unfold TooLong at hlong
    unfold roomFor at hroom ⊢
    rw [ended, List.length_append, List.length_singleton] at hle
    have hpre : t.take (budget - (head.length + (unitOf p).headerWidth) - 1 -
        truncationMarker.length) <+: ended p.line.text := (List.take_prefix _ _).trans hprefix
    refine List.prefix_of_prefix_length_le hpre (List.prefix_append _ _) ?_
    rw [List.length_take, hm]
    omega

theorem isPiece_of_groupPiece {head : Text} {budget : Nat} {ps : List Placed} {piece : Text}
    (hk : ∀ p ∈ ps, KeptLine head budget p)
    (h : GroupPiece head budget (ps.map unitOf) piece) : IsPiece head ps piece := by
  obtain ⟨g, hg, hne, -, rfl⟩ := h
  have hwhole : ∀ {p : Placed}, KeptLine head budget p → ¬TooLong head budget (unitOf p) →
      Shown p.line (unitOf p).text := by
    intro p hp hlong
    have : (unitOf p).text = ended p.line.body := hp.whole hlong
    rw [this]
    exact .whole
  have hwholes : ∀ {ps : List Placed}, (∀ p ∈ ps, KeptLine head budget p) →
      (∀ u ∈ ps.map unitOf, ¬TooLong head budget u) →
      List.Forall₂ (fun p t => Shown p.line t) ps ((ps.map unitOf).map HunkLine.text) := by
    intro ps hk hall
    rw [List.forall₂_map_right_iff, List.forall₂_map_right_iff, List.forall₂_same]
    exact fun p hp => hwhole (hk p hp) (hall _ (List.mem_map_of_mem hp))
  cases ps with
  | nil =>
    cases hg
    exact absurd rfl hne
  | cons p ps =>
    have hsums : ∀ us : List HunkLine, us = (p :: ps).map unitOf →
        (us.map HunkLine.oldCount).sum = ((p :: ps).map fun p => p.line.side.old).sum ∧
        (us.map HunkLine.newCount).sum = ((p :: ps).map fun p => p.line.side.new).sum := by
      rintro us rfl
      rw [List.map_map, List.map_map]
      exact ⟨rfl, rfl⟩
    obtain ⟨hold, hnew⟩ := hsums _ rfl
    generalize hus : (p :: ps).map unitOf = us at hg
    cases hg with
    | whole hall =>
      subst hus
      refine ⟨p, ps, _, rfl, hwholes hk hall, ?_⟩
      rw [← hold, ← hnew]
      rfl
    | @cut u us hlong hall =>
      obtain ⟨rfl, rfl⟩ := List.cons.inj hus
      refine ⟨p, ps, (truncateUnitToBudget head (unitOf p) budget).text ::
        (ps.map unitOf).map HunkLine.text, rfl, .cons ?_ ?_, ?_⟩
      · exact shown_truncate hlong ((hk p List.mem_cons_self).room hlong)
      · exact hwholes (fun q hq => hk q (List.mem_cons_of_mem _ hq)) hall
      · rw [← hold, ← hnew]
        rfl

theorem unitsOf_of_not_lost {ls : List Line} (h : ∀ l ∈ ls, isLost l = false) (o n : Nat) :
    unitsOf o n ls = (placeFrom o n ls).map unitOf := by
  induction ls generalizing o n with
  | nil => rfl
  | cons l ls ih =>
    rw [unitsOf, if_neg (by rw [h l List.mem_cons_self]; decide),
      ih fun l hl => h l (List.mem_cons_of_mem _ hl)]
    rfl

theorem line_mem_of_placed {o n : Nat} {ls : List Line} {p : Placed}
    (h : p ∈ placeFrom o n ls) : p.line ∈ ls := by
  induction ls generalizing o n with
  | nil => cases h
  | cons l ls ih =>
    rcases List.mem_cons.mp h with rfl | h
    · exact List.mem_cons_self
    · exact List.mem_cons_of_mem _ (ih h)

theorem placed_mem_of_line {o n : Nat} {ls : List Line} {l : Line} (h : l ∈ ls) :
    ∃ p ∈ placeFrom o n ls, p.line = l := by
  induction ls generalizing o n with
  | nil => cases h
  | cons k ls ih =>
    rcases List.mem_cons.mp h with rfl | h
    · exact ⟨_, List.mem_cons_self, rfl⟩
    · obtain ⟨p, hp, he⟩ := ih (o := o + k.side.old) (n := n + k.side.new) h
      exact ⟨p, List.mem_cons_of_mem _ hp, he⟩

theorem hunkLineUnits_of_not_lost {f : File} (hs : SilentFile f)
    (h : ∀ p ∈ f.placed, isLost p.line = false) :
    hunkLineUnits f.block.text = f.placed.map unitOf := by
  rw [hunkLineUnits_block hs, File.placed, List.map_flatMap]
  refine List.flatMap_congr fun k hk => unitsOf_of_not_lost (fun l hl => ?_) _ _
  obtain ⟨p, hp, rfl⟩ := placed_mem_of_line (o := k.oldStart) (n := k.newStart) hl
  exact h p (List.mem_flatMap.mpr ⟨k, hk, hp⟩)

/-- A list whose images come in groups comes in groups. -/
theorem exists_groups {α β : Type} (f : α → β) {xs : List α} {yss : List (List β)}
    (h : yss.flatten = xs.map f) :
    ∃ xss : List (List α), xss.flatten = xs ∧ xss.map (List.map f) = yss := by
  induction yss generalizing xs with
  | nil =>
    obtain rfl : xs = [] := List.map_eq_nil_iff.mp h.symm
    exact ⟨[], rfl, rfl⟩
  | cons ys yss ih =>
    rw [List.flatten_cons] at h
    obtain ⟨us, vs, rfl, hu, hv⟩ := List.map_eq_append_iff.mp h.symm
    obtain ⟨xss, hflat, hmap⟩ := ih hv.symm
    exact ⟨us :: xss, by rw [List.flatten_cons, hflat], by rw [List.map_cons, hu, hmap]⟩

/-- The block is split into the pieces of its units. -/
theorem splitOversizedBlock_eq {path text : Text} {budget : Nat} (hb : 82 ≤ budget)
    (hne : hunkLineUnits text ≠ []) :
    splitOversizedBlock path text budget =
      splitUnits path (syntheticDiffPrefix path budget) budget [] (hunkLineUnits text) := by
  have hlen := length_syntheticDiffPrefix_lt path hb
  unfold splitOversizedBlock
  simp only
  rw [if_neg]
  rw [not_or]
  exact ⟨by simpa using hne, by omega⟩

/-- **Lines that are kept.** -/
theorem linesKept_of_keptLines {f : File} {path : Text} {budget : Nat} (hb : 82 ≤ budget)
    (h : KeptLines f path budget) : LinesKept f path budget := by
  intro hne
  have hunits := hunkLineUnits_of_not_lost h.silent fun p hp => (h.line p hp).notLost
  have hunits_ne : hunkLineUnits f.block.text ≠ [] := by
    rw [hunits]
    exact fun h0 => hne (List.map_eq_nil_iff.mp h0)
  have hended : ∀ u ∈ hunkLineUnits f.block.text, u.Ended := by
    rw [hunits]
    intro u hu
    obtain ⟨p, -, rfl⟩ := List.mem_map.mp hu
    exact ended_unitOf p
  have hnil : GatheredGroup (syntheticDiffPrefix path budget) budget [] [] := gatheredGroup_nil
  obtain ⟨uss, hflat, hall⟩ := splitUnits_groups path hnil hended
  rw [List.nil_append, hunits] at hflat
  obtain ⟨groups, hgroups, hmap⟩ := exists_groups unitOf hflat
  rw [splitOversizedBlock_eq hb hunits_ne]
  rw [← hmap, List.forall₂_map_left_iff] at hall
  refine ⟨groups, hgroups, ?_⟩
  have hk : ∀ g ∈ groups, ∀ p ∈ g, KeptLine (syntheticDiffPrefix path budget) budget p :=
    fun g hg p hp => h.line p (hgroups ▸ List.mem_flatten.mpr ⟨g, hg, hp⟩)
  clear hgroups hmap hflat
  generalize (splitUnits path (syntheticDiffPrefix path budget) budget []
    (hunkLineUnits f.block.text)).map Prod.fst = pieces at hall ⊢
  revert hk
  induction hall with
  | nil => exact fun _ => .nil
  | cons hpiece _ ih =>
    intro hk
    exact .cons (isPiece_of_groupPiece (hk _ List.mem_cons_self) hpiece)
      (ih fun g hg => hk g (List.mem_cons_of_mem _ hg))

/-! ## Lines that are not kept -/

theorem append_ofNat_inj {m n : Nat} {c d : Char} {s t : Text}
    (hc : Text.digit? c = none) (hd : Text.digit? d = none)
    (h : Text.ofNat m ++ c :: s = Text.ofNat n ++ d :: t) : m = n ∧ c :: s = d :: t := by
  have hm := Text.number_ofNat m (t := c :: s) fun e he => by
    obtain rfl := Option.mem_some_iff.mp he
    exact hc
  have hn := Text.number_ofNat n (t := d :: t) fun e he => by
    obtain rfl := Option.mem_some_iff.mp he
    exact hd
  rw [h, hn] at hm
  simp only [Option.some.injEq, Prod.mk.injEq] at hm
  exact ⟨hm.1.symm, hm.2.symm⟩

/-- A hunk header of a piece is read in one way. -/
theorem continuedHeader_inj {a b c d a' b' c' d' : Nat} {s t : Text}
    (h : continuedHeader a b c d ++ s = continuedHeader a' b' c' d' ++ t) :
    b = b' ∧ d = d' ∧ s = t := by
  have hsplit : ∀ (a b c d : Nat) (s : Text), continuedHeader a b c d ++ s = "@@ -".toList ++
      (Text.ofNat a ++ ',' :: (Text.ofNat b ++ ' ' :: ("+".toList ++ (Text.ofNat c ++ ',' ::
        (Text.ofNat d ++ ' ' :: ("@@ continued\n".toList ++ s)))))) := by
    intro a b c d s
    unfold continuedHeader
    simp only [List.append_assoc]
    rfl
  rw [hsplit, hsplit] at h
  obtain ⟨-, h⟩ := append_ofNat_inj (by decide) (by decide) (List.append_cancel_left h)
  obtain ⟨hb, h⟩ := append_ofNat_inj (by decide) (by decide) (List.cons.inj h).2
  obtain ⟨-, h⟩ := append_ofNat_inj (by decide) (by decide)
    (List.append_cancel_left (List.cons.inj h).2)
  obtain ⟨hd, h⟩ := append_ofNat_inj (by decide) (by decide) (List.cons.inj h).2
  exact ⟨hb, hd, List.append_cancel_left (List.cons.inj h).2⟩

theorem length_shown {l : Line} {t : Text} (h : Shown l t) : 2 ≤ t.length := by
  cases h with
  | whole => simp [ended, Line.body]
  | @cut kept mark _ hm =>
    have hmarks : ∀ m ∈ cutMarks, 1 ≤ m.length := by decide
    have := hmarks mark hm
    rw [List.length_append, List.length_cons]
    omega

/-- What the two readings of a piece agree on, and what they say about its units. -/
theorem groupPiece_agree {head : Text} {budget : Nat} {ps : List Placed} {us : List HunkLine}
    {piece : Text} (hu : ∀ u ∈ us, u.Ended) (hp : IsPiece head ps piece)
    (hg : GroupPiece head budget us piece) :
    (ps.map fun p => p.line.side.old).sum = (us.map HunkLine.oldCount).sum ∧
      (ps.map fun p => p.line.side.new).sum = (us.map HunkLine.newCount).sum ∧
      ∀ u ∈ us, TooLong head budget u → 2 ≤ roomFor head budget u := by
  obtain ⟨first, rest, texts, rfl, hshown, rfl⟩ := hp
  obtain ⟨g, hgroup, hne, hfits, hpiece⟩ := hg
  obtain ⟨v, vs, rfl⟩ := List.exists_cons_of_ne_nil hne
  have hrender : renderHunkPiece head (v :: vs) = head ++
      continuedHeader v.oldNo ((v :: vs).map HunkLine.oldCount).sum v.newNo
        ((v :: vs).map HunkLine.newCount).sum ++ ((v :: vs).map HunkLine.text).flatten := rfl
  rw [hrender, List.append_assoc, List.append_assoc] at hpiece
  obtain ⟨hold, hnew, htexts⟩ := continuedHeader_inj (List.append_cancel_left hpiece)
  have htwo : 2 ≤ texts.flatten.length := by
    cases hshown with
    | @cons _ t _ ts ht _ =>
      have := length_shown ht
      rw [List.flatten_cons, List.length_append]
      omega
  generalize hgs : v :: vs = g at hgroup hold hnew htexts hfits
  cases hgroup with
  | whole hall => exact ⟨hold, hnew, fun u hm hlong => absurd hlong (hall u hm)⟩
  | @cut u us hlong hall =>
    refine ⟨hold, hnew, fun w hw hwlong => ?_⟩
    rcases List.mem_cons.mp hw with rfl | hw
    · by_contra hroom
      have hended := hu w List.mem_cons_self
      have hle : _ ≤ roomFor head budget w := length_truncate_le hended.single
      have hge : min 2 (roomFor head budget w) ≤ _ := length_truncate_ge hended
      cases us with
      | nil =>
        -- the cut line stands alone, and shows one character at most
        rw [htexts, List.map_singleton, List.flatten_singleton] at htwo
        omega
      | cons x us =>
        have hx := (hu x (List.mem_cons_of_mem _ List.mem_cons_self)).text
        have hlen := length_render_cons head (truncateUnitToBudget head w budget) (x :: us)
        have hbudget := hfits (by simp)
        have hw₁ := width_pos (((truncateUnitToBudget head w budget :: x :: us).map
          HunkLine.oldCount).sum)
        have hw₂ := width_pos (((truncateUnitToBudget head w budget :: x :: us).map
          HunkLine.newCount).sum)
        have htext : (truncateUnitToBudget head w budget).text.length + x.text.length ≤
            ((truncateUnitToBudget head w budget :: x :: us).map
              HunkLine.text).flatten.length := by
          simp only [List.map_cons, List.flatten_cons, List.length_append]
          omega
        have hwidth : (truncateUnitToBudget head w budget).oldNo = w.oldNo ∧
            (truncateUnitToBudget head w budget).newNo = w.newNo := ⟨rfl, rfl⟩
        rw [hwidth.1, hwidth.2] at hlen
        unfold roomFor HunkLine.headerWidth at *
        omega
    · exact absurd hwlong (hall w hw)

theorem forall₂_common {α β γ : Type} {R : α → γ → Prop} {S : β → γ → Prop} {as : List α}
    {bs : List β} {cs : List γ} (h : List.Forall₂ R as cs) (h' : List.Forall₂ S bs cs) :
    List.Forall₂ (fun a b => ∃ c, R a c ∧ S b c) as bs := by
  induction h generalizing bs with
  | nil =>
    cases h'
    exact .nil
  | cons hr _ ih =>
    cases h' with
    | cons hs hrest => exact .cons ⟨_, hr, hs⟩ (ih hrest)

theorem sum_flatten {α β : Type} {f : α → Nat} {g : β → Nat} {xss : List (List α)}
    {yss : List (List β)}
    (h : List.Forall₂ (fun xs ys => (xs.map f).sum = (ys.map g).sum) xss yss) :
    (xss.flatten.map f).sum = (yss.flatten.map g).sum := by
  induction h with
  | nil => rfl
  | cons hx _ ih =>
    rw [List.flatten_cons, List.flatten_cons, List.map_append, List.map_append, List.sum_append,
      List.sum_append, hx, ih]

/-- How often the line counts on both sides. -/
def weight (l : Line) : Nat := l.side.old + l.side.new

theorem weight_pos (l : Line) : 0 < weight l := by
  unfold weight
  cases l.side <;> decide

theorem sum_placeFrom (o n : Nat) (ls : List Line) :
    ((placeFrom o n ls).map fun p => weight p.line).sum = (ls.map weight).sum := by
  induction ls generalizing o n with
  | nil => rfl
  | cons l ls ih => rw [placeFrom, List.map_cons, List.sum_cons, ih, List.map_cons, List.sum_cons]

theorem sum_unitsOf (o n : Nat) (ls : List Line) :
    ((unitsOf o n ls).map fun u => u.oldCount + u.newCount).sum =
      (ls.map fun l => if isLost l then 0 else weight l).sum := by
  induction ls generalizing o n with
  | nil => rfl
  | cons l ls ih =>
    rw [unitsOf, List.map_cons, List.sum_cons]
    split
    · rw [ih, Nat.zero_add]
    · rw [List.map_cons, List.sum_cons, ih]
      rfl

/-- When nothing is missing from the sum, no line is lost. -/
theorem not_lost_of_sum {ls : List Line}
    (h : (ls.map weight).sum = (ls.map fun l => if isLost l then 0 else weight l).sum) :
    ∀ l ∈ ls, isLost l = false := by
  have hle : ∀ ls : List Line,
      (ls.map fun l => if isLost l then 0 else weight l).sum ≤ (ls.map weight).sum := by
    intro ls
    induction ls with
    | nil => exact le_rfl
    | cons l ls ih =>
      rw [List.map_cons, List.sum_cons, List.map_cons, List.sum_cons]
      split
      · omega
      · omega
  induction ls with
  | nil => simp
  | cons l ls ih =>
    rw [List.map_cons, List.sum_cons, List.map_cons, List.sum_cons] at h
    have hrest := hle ls
    have hpos := weight_pos l
    have hl : isLost l = false := by
      by_contra hlost
      rw [Bool.not_eq_false] at hlost
      rw [if_pos hlost] at h
      omega
    rw [hl, if_neg (by decide)] at h
    intro k hk
    rcases List.mem_cons.mp hk with rfl | hk
    · exact hl
    · exact ih (by omega) k hk

/-- No header and no line of a hunk has a boundary for `splitlines` in it. -/
structure OneLine (f : File) : Prop where
  header : ∀ h ∈ f.hunks, Text.splitlinesKeep (ended h.header) = [ended h.header]
  line : ∀ h ∈ f.hunks, ∀ l ∈ h.lines, Text.splitlinesKeep (ended l.body) = [ended l.body]

theorem OneLine.silent {f : File} (h : OneLine f) : SilentFile f := by
  have hinner : ∀ {s : Text}, Text.splitlinesKeep (ended s) = [ended s] → inner s = [] := by
    intro s hs
    rw [Unified.inner, Text.afterFirst, Text.splitlines, hs]
    rfl
  intro k hk s hs
  rcases List.mem_append.mp hs with hs | hs
  · rw [hinner (h.header k hk)] at hs
    cases hs
  · obtain ⟨l, hl, hs⟩ := List.mem_flatMap.mp hs
    rw [hinner (h.line k hk l hl)] at hs
    cases hs

theorem ended_unitsOf (o n : Nat) (ls : List Line) : ∀ u ∈ unitsOf o n ls, u.Ended := by
  induction ls generalizing o n with
  | nil => intro u hu; cases hu
  | cons l ls ih =>
    intro u hu
    rw [unitsOf] at hu
    split at hu
    · exact ih o n u hu
    · rcases List.mem_cons.mp hu with rfl | hu
      · exact ended_unitOf _
      · exact ih _ _ u hu

/-- A block without units becomes a piece that is no hunk. -/
theorem not_isPiece_metadata {head : Text} {path : Text} {budget : Nat}
    (hlen : head.length < budget)
    (ps : List Placed) :
    ¬IsPiece head ps ((head ++ ("# oversized diff metadata: ".toList ++ displayPath path ++
      "\n".toList)).take budget) := by
  rintro ⟨first, rest, texts, -, -, h⟩
  obtain ⟨k, hk⟩ : ∃ k, budget - head.length = k + 1 := ⟨budget - head.length - 1, by omega⟩
  rw [List.take_append, List.take_of_length_le (by omega), hk, List.append_assoc,
    List.append_assoc] at h
  have hcons := List.append_cancel_left h
  exact absurd (List.cons.inj hcons).1 (by decide)

/-- **Nothing else is kept** of a file whose lines are each one line for the code. -/
theorem keptLines_of_linesKept {f : File} {path : Text} {budget : Nat} (hb : 82 ≤ budget)
    (hone : OneLine f) (h : LinesKept f path budget) : KeptLines f path budget := by
  refine ⟨hone.silent, ?_⟩
  by_cases hne : f.placed = []
  · rw [hne]
    simp
  obtain ⟨groups, hgroups, hpieces⟩ := h hne
  have hlen := length_syntheticDiffPrefix_lt path hb
  have hunits := hunkLineUnits_block hone.silent
  have hended : ∀ u ∈ hunkLineUnits f.block.text, u.Ended := by
    rw [hunits]
    intro u hu
    obtain ⟨k, -, hu⟩ := List.mem_flatMap.mp hu
    exact ended_unitsOf _ _ _ u hu
  by_cases hnil : hunkLineUnits f.block.text = []
  · -- all lines are lost
    have hsplit : (splitOversizedBlock path f.block.text budget).map Prod.fst =
        [(syntheticDiffPrefix path budget ++ ("# oversized diff metadata: ".toList ++
          displayPath path ++ "\n".toList)).take budget] := by
      unfold splitOversizedBlock
      simp only
      rw [if_pos (.inl (by rw [hnil]; rfl))]
      rfl
    rw [hsplit] at hpieces
    cases hpieces with
    | cons hpiece _ => exact absurd hpiece (not_isPiece_metadata (by omega) _)
  have hg : GatheredGroup (syntheticDiffPrefix path budget) budget [] [] := gatheredGroup_nil
  obtain ⟨uss, hflat, hall⟩ := splitUnits_groups path hg hended
  rw [splitOversizedBlock_eq hb hnil] at hpieces
  rw [List.nil_append] at hflat
  have huss : ∀ us ∈ uss, ∀ u ∈ us, u.Ended := fun us hus u hu =>
    hended u (hflat ▸ List.mem_flatten.mpr ⟨us, hus, hu⟩)
  have hagree : List.Forall₂ (fun ps us =>
      ((ps.map fun p => weight p.line).sum = (us.map fun u => u.oldCount + u.newCount).sum) ∧
        ∀ u ∈ us, TooLong (syntheticDiffPrefix path budget) budget u →
          2 ≤ roomFor (syntheticDiffPrefix path budget) budget u) groups uss := by
    have hboth := forall₂_common hpieces hall
    refine (List.forall₂_iff_get.mpr ⟨hboth.length_eq, fun i hi hi' => ?_⟩)
    obtain ⟨piece, hp, hg⟩ := hboth.get hi hi'
    obtain ⟨hold, hnew, hroom⟩ := groupPiece_agree (huss _ (List.get_mem _ _)) hp hg
    refine ⟨?_, hroom⟩
    have hw : (fun p : Placed => weight p.line) = fun p => p.line.side.old + p.line.side.new := rfl
    rw [hw, List.sum_map_add, List.sum_map_add, hold, hnew]
  have hlines : ∀ l ∈ f.hunks.flatMap Hunk.lines, isLost l = false := by
    refine not_lost_of_sum ?_
    have hsum := sum_flatten (hagree.imp fun _ _ h => h.1)
    have hplaced : (f.placed.map fun p => weight p.line).sum =
        ((f.hunks.flatMap Hunk.lines).map weight).sum := by
      unfold File.placed
      induction f.hunks with
      | nil => rfl
      | cons k ks ih =>
        rw [List.flatMap_cons, List.map_append, List.sum_append, ih, List.flatMap_cons,
          List.map_append, List.sum_append, Hunk.placed, sum_placeFrom]
    have hread : ((hunkLineUnits f.block.text).map fun u => u.oldCount + u.newCount).sum =
        ((f.hunks.flatMap Hunk.lines).map fun l => if isLost l then 0 else weight l).sum := by
      rw [hunits]
      induction f.hunks with
      | nil => rfl
      | cons k ks ih =>
        rw [List.flatMap_cons, List.map_append, List.sum_append, ih, List.flatMap_cons,
          List.map_append, List.sum_append, sum_unitsOf]
    rw [hgroups, hflat, hplaced, hread] at hsum
    exact hsum
  intro p hp
  obtain ⟨k, hk, hpk⟩ := List.mem_flatMap.mp hp
  have hl : p.line ∈ k.lines := line_mem_of_placed hpk
  have hnot : ∀ q ∈ f.placed, isLost q.line = false := by
    intro q hq
    obtain ⟨k, hk, hqk⟩ := List.mem_flatMap.mp hq
    exact hlines _ (List.mem_flatMap.mpr ⟨k, hk, line_mem_of_placed hqk⟩)
  refine ⟨hnot p hp, fun _ => ?_, fun hlong => ?_⟩
  · rw [firstPart, hone.line k hk _ hl]
    rfl
  · have hmem : unitOf p ∈ uss.flatten := by
      rw [hflat, hunkLineUnits_of_not_lost hone.silent hnot]
      exact List.mem_map_of_mem hp
    obtain ⟨us, hus, hu⟩ := List.mem_flatten.mp hmem
    obtain ⟨ps, -, hps⟩ := forall₂_mem_right hagree us hus
    exact hps.2 _ hu hlong

/-- **Lines of a split block.** All are kept when none is lost, each is one line for the code and
there is room to show where it is cut; and only then, if each is one line for the code. -/
theorem linesKept_keptLines (f : File) (path : Text) (budget : Nat) (hb : 82 ≤ budget) :
    (KeptLines f path budget → LinesKept f path budget) ∧
      (OneLine f → LinesKept f path budget → KeptLines f path budget) :=
  ⟨linesKept_of_keptLines hb, keptLines_of_linesKept hb⟩

/-- A line of eighty letters. -/
def longLine : Line := ⟨.added, List.replicate 80 'y', false, by decide⟩

theorem oneLine_newFileOf {ls : List Line} (h : ∀ l ∈ ls, Unbroken l.body)
    (hheader : ∀ k ∈ (newFileOf ls).hunks, Unbroken k.header) : OneLine (newFileOf ls) := by
  refine ⟨fun k hk => (hheader k hk).splitlinesKeep, fun k hk l hl => ?_⟩
  obtain rfl := List.mem_singleton.mp hk
  exact (h l hl).splitlinesKeep

/-- **A line that is lost**: an added one that begins with `++`. -/
theorem plusLine_not_kept : ¬∀ f path budget, 82 ≤ budget → budget < f.block.text.length →
    LinesKept f path budget := by
  intro h
  have hone : OneLine (newFileOf [plusLine, longLine]) :=
    oneLine_newFileOf (by decide +kernel) (by decide +kernel)
  have hkept := keptLines_of_linesKept (by decide) hone
    (h (newFileOf [plusLine, longLine]) ['x'] 82 (by decide) (by decide +kernel))
  have hlost := (hkept.line ⟨plusLine, 0, 1⟩ List.mem_cons_self).notLost
  exact absurd hlost (by decide)

theorem longLine_kept : 82 < (newFileOf [longLine]).block.text.length ∧
    LinesKept (newFileOf [longLine]) ['x'] 82 := by
  refine ⟨by decide +kernel, (linesKept_keptLines _ _ 82 (by decide)).1 ⟨?_, fun p hp => ?_⟩⟩
  · exact (oneLine_newFileOf (by decide +kernel) (by decide +kernel)).silent
  · obtain rfl : p = ⟨longLine, 0, 1⟩ := List.mem_singleton.mp hp
    refine ⟨by decide +kernel, fun _ => by decide +kernel, fun _ => by decide +kernel⟩

end DiffFilter
