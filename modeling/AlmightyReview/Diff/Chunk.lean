import AlmightyReview.Diff.Blocks
import AlmightyReview.Lib.Sha256

/-!
# Chunks of a diff

The second part of `diff_filter`: a diff is packed into chunks of at most `budget` characters, and
each chunk owns the added lines that its reviewer answers for.

* `splitOversizedBlock`: a block over the budget becomes several pieces, each a hunk of its own
  with a header made for it. The units of a piece are lines (`hunkLineUnits`).
* `packFrom`: pieces are put together as long as the budget allows it.
* `chunkRecordsByBudget`: the chunks; it raises when a line has two owners or none.
* `chunks_partition_iff`: for a budget of at least 82 the chunks partition the added lines, exactly
  when the headers of the diff are readable. An escape that git did not write, but that a file's
  name contains, can make a header unreadable (`chunk_unreadable`).
-/

namespace DiffFilter

/-! ## Units -/

/-- A line of a hunk, with its place and the added line that it owns. -/
structure HunkLine where
  text : Text
  oldNo : Nat
  newNo : Nat
  oldCount : Nat
  newCount : Nat
  ownedLine : Option Nat

def isDeleted (line : Text) : Bool :=
  line.startsWith "-".toList && !line.startsWith "---".toList

/-- The units of the lines, from the next line numbers of the two sides. -/
def unitsFrom : Option (Nat × Nat) → List Text → List HunkLine
  | _, [] => []
  | no, line :: ls =>
    if line.startsWith "@@".toList then unitsFrom (fullHunkHeader line) ls
    else
      match no with
      | none => unitsFrom none ls
      | some (o, n) =>
        if isAdded line then ⟨line, o, n, 0, 1, some n⟩ :: unitsFrom (some (o, n + 1)) ls
        else if isDeleted line then ⟨line, o, n, 1, 0, none⟩ :: unitsFrom (some (o + 1, n)) ls
        else if line.startsWith " ".toList then
          ⟨line, o, n, 1, 1, none⟩ :: unitsFrom (some (o + 1, n + 1)) ls
        else unitsFrom (some (o, n)) ls

def hunkLineUnits (text : Text) : List HunkLine := unitsFrom none text.splitlinesKeep

/-! ## Oversized blocks -/

/-- The file header of a piece. -/
def fileHeader (display : Text) : Text :=
  "diff --git a/".toList ++ display ++ " b/".toList ++ display ++ "\n".toList

/-- `path or "unknown"`. -/
def displayPath (path : Text) : Text := if path = [] then "unknown".toList else path

/-- The file header of the pieces of a block: with its path, or with a short name when the budget
leaves no room for it. -/
def syntheticDiffPrefix (path : Text) (budget : Nat) : Text :=
  if (fileHeader (displayPath path)).length + 32 > budget then
    fileHeader ("oversized-".toList ++
      (Sha256.hexdigest (Text.encode (displayPath path))).take 8)
  else fileHeader (displayPath path)

/-- The hunk header of a piece that begins with `first`. -/
def hunkHeaderText (first : HunkLine) (units : List HunkLine) : Text :=
  "@@ -".toList ++ Text.ofNat first.oldNo ++ ",".toList ++
    Text.ofNat (units.map HunkLine.oldCount).sum ++ " +".toList ++ Text.ofNat first.newNo ++
    ",".toList ++ Text.ofNat (units.map HunkLine.newCount).sum ++ " @@ continued\n".toList

/-- A piece of these units. -/
def renderHunkPiece (head : Text) (units : List HunkLine) : Text :=
  match units with
  | [] => head
  | first :: _ => head ++ hunkHeaderText first units ++ (units.map HunkLine.text).flatten

/-- `s[:-n]`. -/
def dropEnd (s : Text) (n : Nat) : Text := if n = 0 then [] else s.take (s.length - n)

/-- `s.rstrip("\n")`. -/
def rstripNewline (s : Text) : Text := (s.reverse.dropWhile (· == '\n')).reverse

def truncationMarker : Text := " … [truncated; inspect snapshot]\n".toList

/-- The first character of the line, when it says what kind of line this is. -/
def sigil (text : Text) : Text :=
  if ["+".toList, "-".toList, " ".toList].contains (text.take 1) then text.take 1 else " ".toList

def truncateUnitToBudget (head : Text) (unit : HunkLine) (budget : Nat) : HunkLine :=
  let header := dropEnd (renderHunkPiece head [unit]) unit.text.length
  let available := budget - header.length
  let first := sigil unit.text
  let shortened :=
    if available ≤ first.length then first.take available
    else if available ≤ first.length + truncationMarker.length then
      (first ++ "…\n".toList).take available
    else
      first ++ rstripNewline ((unit.text.drop 1).take
        (available - first.length - truncationMarker.length)) ++ truncationMarker
  { unit with text := shortened }

/-- The added lines that the units own, under the path of their block. -/
def ownedBy (path : Text) (units : List HunkLine) : SetDict Text Nat :=
  let owned := (units.filterMap HunkLine.ownedLine).toFinset
  if path ≠ [] ∧ owned ≠ ∅ then SetDict.empty.add path owned else .empty

/-- The piece of the units that were gathered, if there are any. -/
def flushUnits (path head : Text) (current : List HunkLine) : List (Text × SetDict Text Nat) :=
  match current with
  | [] => []
  | _ => [(renderHunkPiece head current, ownedBy path current)]

/-- The unit comes right after the ones gathered. -/
def contiguous (current : List HunkLine) (unit : HunkLine) : Bool :=
  match current.getLast? with
  | none => true
  | some previous =>
    unit.oldNo == previous.oldNo + previous.oldCount &&
      unit.newNo == previous.newNo + previous.newCount

/-- The unit, cut when it does not fit alone. -/
def fitUnit (head : Text) (budget : Nat) (unit : HunkLine) : HunkLine :=
  if (renderHunkPiece head [unit]).length > budget then truncateUnitToBudget head unit budget
  else unit

/-- The pieces of the units that were gathered and of those to come. -/
def splitUnits (path head : Text) (budget : Nat) :
    List HunkLine → List HunkLine → List (Text × SetDict Text Nat)
  | current, [] => flushUnits path head current
  | current, unit :: units =>
    if contiguous current unit then
      if (renderHunkPiece head (current ++ [unit])).length ≤ budget then
        splitUnits path head budget (current ++ [unit]) units
      else flushUnits path head current ++
        splitUnits path head budget [fitUnit head budget unit] units
    else if (renderHunkPiece head [unit]).length ≤ budget then
      flushUnits path head current ++ splitUnits path head budget [unit] units
    else flushUnits path head current ++
      splitUnits path head budget [fitUnit head budget unit] units

/-- The pieces of a block over the budget. -/
def splitOversizedBlock (path text : Text) (budget : Nat) : List (Text × SetDict Text Nat) :=
  let units := hunkLineUnits text
  let head := syntheticDiffPrefix path budget
  if units.isEmpty ∨ head.length + 28 ≥ budget then
    [((head ++ ("# oversized diff metadata: ".toList ++ displayPath path ++ "\n".toList)).take
      budget, .empty)]
  else splitUnits path head budget [] units

/-! ## Packing -/

/-- The chunk that was gathered, if there is one. -/
def flushChunk (text : Text) (owned : SetDict Text Nat) : List (Text × SetDict Text Nat) :=
  if text = [] then [] else [(text, owned)]

/-- The chunks of what was gathered and of the pieces to come. -/
def packFrom (budget : Nat) :
    Text → SetDict Text Nat → List (Text × SetDict Text Nat) → List (Text × SetDict Text Nat)
  | text, owned, [] => flushChunk text owned
  | text, owned, piece :: pieces =>
    -- the first `flush` of the loop body decides what the piece is added to
    let full := text ≠ [] ∧ text.length + piece.1.length > budget
    let text' := if full then piece.1 else text ++ piece.1
    let owned' := (if full then SetDict.empty else owned).addAll piece.2
    let flushed := if full then flushChunk text owned else []
    if text'.length ≥ budget then
      flushed ++ flushChunk text' owned' ++ packFrom budget [] .empty pieces
    else flushed ++ packFrom budget text' owned' pieces

structure DiffChunk where
  index : Nat
  text : Text
  ownedChangedLines : SetDict Text Nat
  diffHash : Text

/-- The records of the chunks from index `i` on, and the lines that have an owner after them. -/
def recordsFrom : Nat → Finset (Text × Nat) → List (Text × SetDict Text Nat) →
    Except Exc (List DiffChunk × Finset (Text × Nat))
  | _, seen, [] => .ok ([], seen)
  | i, seen, chunk :: chunks =>
    let frozen := chunk.2.freeze
    if Disjoint frozen.pairs seen then
      (recordsFrom (i + 1) (seen ∪ frozen.pairs) chunks).map fun r =>
        (⟨i, chunk.1, frozen, Sha256.hexdigest (Text.encode chunk.1)⟩ :: r.1, r.2)
    else .error (.valueError "changed line belongs to multiple diff chunks".toList)

/-- The pieces of a block. -/
def piecesOf (budget : Nat) (block : Text × Text) :
    Except Exc (List (Text × SetDict Text Nat)) :=
  if block.2.length > budget then .ok (splitOversizedBlock block.1 block.2 budget)
  else (changedLines block.2).map fun owned => [(block.2, owned)]

def chunkRecordsByBudget (diff : Text) (budget : Nat) : Except Exc (List DiffChunk) :=
  if budget = 0 then .error (.valueError "diff chunk budget must be positive".toList)
  else if diff = [] then .ok []
  else do
    let pieces ← (← splitFileBlocks diff).mapM (piecesOf budget)
    let (records, seen) ← recordsFrom 0 ∅ (packFrom budget [] .empty pieces.flatten)
    let expected ← changedLines diff
    if seen = expected.pairs then .ok records
    else .error (.valueError "diff chunk ownership lost changed lines".toList)

def chunkByBudget (diff : Text) (budget : Nat) : Except Exc (List Text) :=
  (chunkRecordsByBudget diff budget).map fun records => records.map DiffChunk.text

/-! ## Units and added lines -/

theorem dropCount_chomp (s : Text) : dropCount (Text.chomp s) = Text.chomp (dropCount s) := by
  cases s with
  | nil => rfl
  | cons c s =>
    by_cases hc : Text.isLineBreak c = true
    · have hne : c ≠ ',' := by
        rintro rfl
        exact absurd hc (by decide)
      rw [Text.chomp_cons_of_lineBreak hc]
      have hd : dropCount (c :: s) = c :: s := by
        unfold dropCount
        split
        · rename_i he
          exact absurd (List.cons.inj he).1 hne
        · rfl
      rw [hd, Text.chomp_cons_of_lineBreak hc]
      rfl
    · rw [Bool.not_eq_true] at hc
      rw [Text.chomp_cons_of_not hc]
      by_cases hne : c = ','
      · subst hne
        simp only [dropCount, Text.number_chomp]
        cases Text.number s with
        | none => exact (Text.chomp_cons_of_not hc).symm
        | some r => rfl
      · have hd : ∀ t, dropCount (c :: t) = c :: t := by
          intro t
          unfold dropCount
          split
          · rename_i he
            exact absurd (List.cons.inj he).1 hne
          · rfl
        rw [hd, hd, Text.chomp_cons_of_not hc]

/-- A hunk header does not depend on the boundary of its line. -/
theorem fullHunkHeader_chomp (line : Text) :
    fullHunkHeader (Text.chomp line) = fullHunkHeader line := by
  unfold fullHunkHeader
  rw [Text.dropStart?_chomp (by decide)]
  cases Text.dropStart? "@@ -".toList line with
  | none => rfl
  | some s =>
    simp only [Option.map_some, Option.bind_eq_bind, Option.bind_some, Text.number_chomp]
    cases Text.number s with
    | none => rfl
    | some r =>
      simp only [Option.map_some, Option.bind_some, dropCount_chomp]
      rw [Text.dropStart?_chomp (by decide)]
      cases Text.dropStart? " +".toList (dropCount r.2) with
      | none => rfl
      | some s =>
        simp only [Option.map_some, Option.bind_some, Text.number_chomp]
        cases Text.number s with
        | none => rfl
        | some r =>
          simp only [Option.map_some, Option.bind_some, dropCount_chomp]
          rw [Text.dropStart?_chomp (by decide)]
          cases Text.dropStart? " @@".toList (dropCount r.2) <;> rfl

theorem isAdded_chomp (line : Text) : isAdded (Text.chomp line) = isAdded line := by
  rw [isAdded, isAdded, Text.startsWith_chomp (by decide), Text.startsWith_chomp (by decide)]

/-- The units of a hunk own its added lines. -/
theorem ownedLine_unitsFrom (no : Option (Nat × Nat)) (ls : List Text) :
    (unitsFrom no ls).filterMap HunkLine.ownedLine =
      addedFrom (no.map Prod.snd) (ls.map Text.chomp) := by
  induction ls generalizing no with
  | nil => simp [unitsFrom, addedFrom]
  | cons line ls ih =>
    rw [List.map_cons, unitsFrom.eq_def, addedFrom.eq_def]
    simp only
    rw [Text.startsWith_chomp (by decide), hunkHeader,
      fullHunkHeader_chomp, isAdded_chomp, Text.startsWith_chomp (by decide)]
    by_cases hh : line.startsWith "@@".toList = true
    · rw [if_pos hh, if_pos hh, ih]
    · rw [if_neg hh, if_neg hh]
      cases no with
      | none => exact ih none
      | some p =>
        obtain ⟨o, n⟩ := p
        simp only [Option.map_some]
        by_cases ha : isAdded line = true
        · rw [if_pos ha, if_pos ha]
          exact congrArg (n :: ·) (ih (some (o, n + 1)))
        · rw [if_neg ha, if_neg ha]
          by_cases hd : isDeleted line = true
          · -- a deleted line is neither added nor context, so `changed_lines` passes it too
            have hs : line.startsWith " ".toList = false := by
              cases line with
              | nil => rfl
              | cons c line =>
                simp only [isDeleted, Text.startsWith, Bool.and_eq_true] at hd ⊢
                have hc : '-' = c := by
                  have := hd.1
                  simpa using this
                subst hc
                rfl
            rw [if_pos hd, hs]
            exact ih (some (o + 1, n))
          · rw [if_neg hd]
            by_cases hs : line.startsWith " ".toList = true
            · rw [if_pos hs, if_pos hs]
              exact ih (some (o + 1, n + 1))
            · rw [if_neg hs, if_neg hs]
              exact ih (some (o, n))

theorem ownedLine_hunkLineUnits (text : Text) :
    (hunkLineUnits text).filterMap HunkLine.ownedLine = addedLines text :=
  ownedLine_unitsFrom none text.splitlinesKeep

/-! ## Pieces and their lines -/

/-- The pieces own these lines, piece by piece, and none of them is empty. -/
def Own (pieces : List (Text × SetDict Text Nat)) (lists : List (List (Text × Nat))) : Prop :=
  List.Forall₂ (fun piece l => piece.1 ≠ [] ∧ piece.2.pairs = l.toFinset) pieces lists

theorem Own.append {ps qs : List (Text × SetDict Text Nat)} {ls ms : List (List (Text × Nat))}
    (h : Own ps ls) (h' : Own qs ms) : Own (ps ++ qs) (ls ++ ms) :=
  List.rel_append h h'

theorem own_single {text : Text} {owned : SetDict Text Nat} {l : List (Text × Nat)}
    (ht : text ≠ []) (ho : owned.pairs = l.toFinset) : Own [(text, owned)] [l] :=
  .cons ⟨ht, ho⟩ .nil

/-- The lines that the units own, under a path. -/
def unitPairs (path : Text) (units : List HunkLine) : List (Text × Nat) :=
  if path = [] then [] else (units.filterMap HunkLine.ownedLine).map (Prod.mk path)

theorem unitPairs_append (path : Text) (us vs : List HunkLine) :
    unitPairs path (us ++ vs) = unitPairs path us ++ unitPairs path vs := by
  unfold unitPairs
  split
  · rfl
  · rw [List.filterMap_append, List.map_append]

theorem pairs_ownedBy (path : Text) (units : List HunkLine) :
    (ownedBy path units).pairs = (unitPairs path units).toFinset := by
  ext p
  unfold ownedBy unitPairs
  by_cases hp : path = []
  · simp [hp]
  · by_cases ho : (units.filterMap HunkLine.ownedLine).toFinset = ∅
    · have hn : units.filterMap HunkLine.ownedLine = [] := by simpa using ho
      simp [hp, hn]
    · rw [if_pos ⟨hp, ho⟩, if_neg hp]
      simp only [SetDict.mem_pairs_add, SetDict.pairs_empty, Finset.notMem_empty, false_or,
        List.mem_toFinset, List.mem_map, Prod.ext_iff]
      grind

section Split

variable {path head : Text} {budget : Nat}

theorem renderHunkPiece_ne_nil (hh : head ≠ []) (units : List HunkLine) :
    renderHunkPiece head units ≠ [] := by
  cases units with
  | nil => exact hh
  | cons u us => simp [renderHunkPiece, hh]

theorem own_flushUnits (path : Text) (hh : head ≠ []) (current : List HunkLine) :
    ∃ lists, Own (flushUnits path head current) lists ∧
      lists.flatten = unitPairs path current := by
  cases current with
  | nil => exact ⟨[], .nil, by simp [unitPairs]⟩
  | cons u us =>
    exact ⟨[unitPairs path (u :: us)],
      own_single (renderHunkPiece_ne_nil hh _) (pairs_ownedBy path _), by simp⟩

/-- Cutting a unit leaves the line that it owns. -/
theorem unitPairs_fitUnit (u : HunkLine) :
    unitPairs path [fitUnit head budget u] = unitPairs path [u] := by
  unfold fitUnit
  split <;> rfl

/-- **Splitting.** The pieces own the lines of the units, each line once and in order. -/
theorem own_splitUnits (hh : head ≠ []) (current units : List HunkLine) :
    ∃ lists, Own (splitUnits path head budget current units) lists ∧
      lists.flatten = unitPairs path (current ++ units) := by
  have hflush : ∀ {current next units : List HunkLine}
      {pieces : List (Text × SetDict Text Nat)} {u : HunkLine},
      unitPairs path next = unitPairs path [u] →
      (∃ lists, Own pieces lists ∧ lists.flatten = unitPairs path (next ++ units)) →
      ∃ lists, Own (flushUnits path head current ++ pieces) lists ∧
        lists.flatten = unitPairs path (current ++ u :: units) := by
    rintro current next units pieces u hn ⟨ls, hls, hf⟩
    obtain ⟨ms, hms, hg⟩ := own_flushUnits path hh current
    refine ⟨ms ++ ls, hms.append hls, ?_⟩
    rw [List.flatten_append, hg, hf, unitPairs_append, hn, ← unitPairs_append,
      ← unitPairs_append]
    rfl
  fun_induction splitUnits path head budget current units with
  | case1 current =>
    rw [List.append_nil]
    exact own_flushUnits path hh current
  | case2 current u units hc hle ih =>
    simpa using ih
  | case3 current u units hc hle ih => exact hflush (unitPairs_fitUnit u) ih
  | case4 current u units hc hle ih => exact hflush rfl ih
  | case5 current u units hc hle ih => exact hflush (unitPairs_fitUnit u) ih

theorem length_fileHeader (display : Text) :
    (fileHeader display).length = 17 + 2 * display.length := by
  have h₁ : "diff --git a/".toList.length = 13 := by decide
  have h₂ : " b/".toList.length = 3 := by decide
  have h₃ : "\n".toList.length = 1 := by decide
  unfold fileHeader
  generalize "diff --git a/".toList = a at h₁ ⊢
  generalize " b/".toList = b at h₂ ⊢
  generalize "\n".toList = c at h₃ ⊢
  simp only [List.length_append, h₁, h₂, h₃]
  omega

/-- Whatever the path, a budget of at least 82 leaves room for a hunk. -/
theorem length_syntheticDiffPrefix_lt (path : Text) (h : 82 ≤ budget) :
    (syntheticDiffPrefix path budget).length + 28 < budget := by
  have h₁ : "oversized-".toList.length = 10 := by decide
  have h₂ := Sha256.length_hexdigest (Text.encode (displayPath path))
  have h₃ := length_fileHeader ("oversized-".toList ++
    (Sha256.hexdigest (Text.encode (displayPath path))).take 8)
  rw [List.length_append, List.length_take, h₁, h₂] at h₃
  unfold syntheticDiffPrefix
  by_cases hc : (fileHeader (displayPath path)).length + 32 > budget
  · rw [if_pos hc, h₃]
    omega
  · rw [if_neg hc]
    omega
theorem syntheticDiffPrefix_ne_nil : syntheticDiffPrefix path budget ≠ [] := by
  unfold syntheticDiffPrefix fileHeader
  split <;> simp

/-- The pieces of an oversized block own its added lines. -/
theorem own_splitOversizedBlock (path text : Text) (h : 82 ≤ budget) :
    ∃ lists, Own (splitOversizedBlock path text budget) lists ∧
      lists.flatten = blockPairs (path, text) := by
  have hpairs : blockPairs (path, text) = unitPairs path (hunkLineUnits text) := by
    rw [unitPairs, ownedLine_hunkLineUnits]
    rfl
  have hlen := length_syntheticDiffPrefix_lt path h
  unfold splitOversizedBlock
  simp only
  by_cases he : (hunkLineUnits text).isEmpty = true
  · rw [if_pos (.inl he), hpairs, List.isEmpty_iff.mp he]
    refine ⟨[[]], own_single ?_ rfl, by simp [unitPairs]⟩
    intro hnil
    rw [List.take_eq_nil_iff] at hnil
    rcases hnil with h0 | hnil
    · omega
    · exact syntheticDiffPrefix_ne_nil (List.append_eq_nil_iff.mp hnil).1
  · rw [if_neg (by simp only [not_or]; exact ⟨he, by omega⟩), hpairs]
    exact own_splitUnits syntheticDiffPrefix_ne_nil [] _

end Split
/-! ## Packing keeps the lines -/

section Pack

variable {budget : Nat}

theorem own_flushChunk {text : Text} {owned : SetDict Text Nat} {l : List (Text × Nat)}
    (ho : owned.pairs = l.toFinset) (hl : text = [] → l = []) :
    ∃ lists, Own (flushChunk text owned) lists ∧ lists.flatten = l := by
  unfold flushChunk
  split
  · rename_i ht
    exact ⟨[], .nil, (hl ht).symm⟩
  · rename_i ht
    exact ⟨[l], own_single ht ho, by simp⟩

/-- **Packing.** The chunks own the lines of the pieces, each line once and in order. -/
theorem own_packFrom (budget : Nat) {pieces : List (Text × SetDict Text Nat)}
    {lists : List (List (Text × Nat))} (h : Own pieces lists) (text : Text)
    (owned : SetDict Text Nat) (l : List (Text × Nat)) (ho : owned.pairs = l.toFinset)
    (hl : text = [] → l = []) :
    ∃ ms, Own (packFrom budget text owned pieces) ms ∧ ms.flatten = l ++ lists.flatten := by
  induction h generalizing text owned l with
  | nil =>
    rw [List.flatten_nil, List.append_nil]
    exact own_flushChunk ho hl
  | @cons piece l' pieces lists hp _ ih =>
    obtain ⟨hne, hpairs⟩ := hp
    rw [List.flatten_cons]
    -- what is flushed before the piece, and what the piece is added to
    obtain ⟨flushed, rest, text', owned', ms, hms, hf, ho', hne', heq⟩ :
        ∃ flushed rest text' owned' ms, Own flushed ms ∧ ms.flatten ++ rest = l ++ l' ∧
          SetDict.pairs owned' = rest.toFinset ∧ text' ≠ [] ∧
          packFrom budget text owned (piece :: pieces) =
            if text'.length ≥ budget then
              flushed ++ flushChunk text' owned' ++ packFrom budget [] .empty pieces
            else flushed ++ packFrom budget text' owned' pieces := by
      by_cases hfull : text ≠ [] ∧ text.length + piece.1.length > budget
      · obtain ⟨ms, hms, hf⟩ := own_flushChunk ho hl
        refine ⟨flushChunk text owned, l', piece.1, SetDict.empty.addAll piece.2, ms, hms,
          by rw [hf], by simpa using hpairs, hne, ?_⟩
        rw [packFrom]
        simp only [if_pos hfull]
      · refine ⟨[], l ++ l', text ++ piece.1, owned.addAll piece.2, [], .nil, by simp, ?_,
          by simp [hne], ?_⟩
        · rw [SetDict.pairs_addAll, ho, hpairs, List.toFinset_append]
        · rw [packFrom]
          simp only [if_neg hfull, List.nil_append]
    rw [heq]
    split
    · obtain ⟨ks, hks, hk⟩ := own_flushChunk (l := rest) ho' fun h => absurd h hne'
      obtain ⟨ns, hns, hn⟩ := ih [] .empty [] rfl fun _ => rfl
      refine ⟨ms ++ ks ++ ns, (hms.append hks).append hns, ?_⟩
      rw [List.flatten_append, List.flatten_append, hk, hf, hn, List.nil_append,
        List.append_assoc]
    · obtain ⟨ns, hns, hn⟩ := ih text' owned' rest ho' fun h => absurd h hne'
      refine ⟨ms ++ ns, hms.append hns, ?_⟩
      rw [List.flatten_append, hn, ← List.append_assoc, hf, List.append_assoc]

theorem flatten_flushChunk (text : Text) (owned : SetDict Text Nat) :
    ((flushChunk text owned).map Prod.fst).flatten = text := by
  unfold flushChunk
  split
  · rename_i h
    rw [h]
    rfl
  · simp

/-- Packing keeps the text. -/
theorem flatten_packFrom (text : Text) (owned : SetDict Text Nat)
    (pieces : List (Text × SetDict Text Nat)) :
    ((packFrom budget text owned pieces).map Prod.fst).flatten =
      text ++ (pieces.map Prod.fst).flatten := by
  induction pieces generalizing text owned with
  | nil => simpa [packFrom] using flatten_flushChunk text owned
  | cons piece pieces ih =>
    rw [packFrom]
    by_cases hfull : text ≠ [] ∧ text.length + piece.1.length > budget
    · simp only [if_pos hfull]
      split <;> simp [flatten_flushChunk, ih]
    · simp only [if_neg hfull]
      split <;> simp [flatten_flushChunk, ih]

end Pack

/-! ## Records -/

/-- The records own these lines, record by record. -/
def OwnLines (records : List DiffChunk) (lists : List (List (Text × Nat))) : Prop :=
  List.Forall₂ (fun r l => r.ownedChangedLines.pairs = l.toFinset) records lists

theorem mem_flatten_iff {records : List DiffChunk} {lists : List (List (Text × Nat))}
    (h : OwnLines records lists) {p : Text × Nat} :
    p ∈ lists.flatten ↔ ∃ c ∈ records, p ∈ c.ownedChangedLines.pairs := by
  induction h with
  | nil => simp
  | cons hr _ ih =>
    rw [List.flatten_cons, List.mem_append, ih]
    simp [hr]

/-- The records of chunks whose lines are distinct. -/
theorem recordsFrom_ok {chunks : List (Text × SetDict Text Nat)}
    {lists : List (List (Text × Nat))} (h : Own chunks lists) (i : Nat)
    (seen : Finset (Text × Nat)) (hn : lists.flatten.Nodup)
    (hd : ∀ p ∈ lists.flatten, p ∉ seen) :
    ∃ records, recordsFrom i seen chunks = .ok (records, seen ∪ lists.flatten.toFinset) ∧
      OwnLines records lists ∧
      records.map DiffChunk.text = chunks.map Prod.fst ∧
      records.map DiffChunk.index = List.range' i records.length := by
  induction h generalizing i seen with
  | nil => exact ⟨[], by simp [recordsFrom], .nil, rfl, rfl⟩
  | @cons chunk l chunks lists hc _ ih =>
    rw [List.flatten_cons, List.nodup_append] at hn
    have hfz : chunk.2.freeze.pairs = l.toFinset := by rw [SetDict.pairs_freeze, hc.2]
    have hdis : Disjoint chunk.2.freeze.pairs seen := by
      rw [hfz, Finset.disjoint_left]
      intro p hp
      exact hd p (by simp [List.mem_toFinset.mp hp])
    obtain ⟨records, hr, hown, htext, hindex⟩ := ih (i + 1)
      (seen ∪ chunk.2.freeze.pairs) hn.2.1 (by
        intro p hp
        rw [hfz, Finset.mem_union, not_or, List.mem_toFinset]
        refine ⟨hd p (by simp [hp]), fun hl => hn.2.2 p hl p hp rfl⟩)
    refine ⟨⟨i, chunk.1, chunk.2.freeze, Sha256.hexdigest (Text.encode chunk.1)⟩ :: records,
      ?_, .cons hfz hown, by rw [List.map_cons, htext]; rfl,
      by rw [List.map_cons, hindex]; rfl⟩
    rw [recordsFrom]
    simp only [if_pos hdis, hr, Except.map]
    rw [hfz, List.flatten_cons, List.toFinset_append, Finset.union_assoc]

/-! ## The partition -/

/-- The pieces of the blocks. -/
theorem own_piecesOf {diff : Text} {budget : Nat} (hb : 82 ≤ budget) (h : Decodes diff)
    {blocks : List (Text × Text)} (hsub : ∀ b ∈ blocks, b ∈ pathBlocks diff) :
    ∃ pieces lists, blocks.mapM (piecesOf budget) = .ok pieces ∧ Own pieces.flatten lists ∧
      lists.flatten = blocks.flatMap blockPairs ∧
      ((∀ b ∈ blocks, b.2.length ≤ budget) →
        pieces.flatten.map Prod.fst = blocks.map Prod.snd) := by
  induction blocks with
  | nil => exact ⟨[], [], rfl, .nil, rfl, fun _ => rfl⟩
  | cons b blocks ih =>
    obtain ⟨pieces, lists, hp, hown, hflat, htext⟩ :=
      ih fun b hb => hsub b (List.mem_cons_of_mem _ hb)
    have hmem := hsub b List.mem_cons_self
    rw [List.mapM_cons, hp]
    by_cases hbig : b.2.length > budget
    · obtain ⟨ls, hls, hl⟩ := own_splitOversizedBlock b.1 b.2 hb
      refine ⟨splitOversizedBlock b.1 b.2 budget :: pieces, ls ++ lists, ?_,
        hls.append hown, by rw [List.flatten_append, hl, hflat]; rfl, fun hfit => ?_⟩
      · rw [piecesOf, if_pos hbig]
        rfl
      · exact absurd (hfit b List.mem_cons_self) (by omega)
    · obtain ⟨owned, ho, hpairs⟩ := changedLines_block h hmem
      refine ⟨[(b.2, owned)] :: pieces, [blockPairs b] ++ lists, ?_,
        (own_single (text_ne_nil hmem) hpairs).append hown,
        by rw [List.flatten_append, hflat]; simp, fun hfit => ?_⟩
      · rw [piecesOf, if_neg hbig, ho]
        rfl
      · rw [List.flatten_cons, List.map_append, htext fun b hb =>
          hfit b (List.mem_cons_of_mem _ hb)]
        rfl

/-- The chunks partition the added lines of the diff. -/
structure IsPartition (diff : Text) (budget : Nat) (chunks : List DiffChunk) : Prop where
  disjoint : chunks.Pairwise fun c d =>
    Disjoint c.ownedChangedLines.pairs d.ownedChangedLines.pairs
  union : ∃ changed, changedLines diff = .ok changed ∧
    ∀ p, p ∈ changed.pairs ↔ ∃ c ∈ chunks, p ∈ c.ownedChangedLines.pairs
  index : chunks.map DiffChunk.index = List.range chunks.length
  /-- When every block fits, no text is lost or changed. -/
  text : ∀ blocks, splitFileBlocks diff = .ok blocks → (∀ b ∈ blocks, b.2.length ≤ budget) →
    (chunks.map DiffChunk.text).flatten = diff

/-- Records of distinct lines share none. -/
theorem pairwise_disjoint {records : List DiffChunk} {lists : List (List (Text × Nat))}
    (h : OwnLines records lists) (hn : lists.flatten.Nodup) :
    records.Pairwise fun c d => Disjoint c.ownedChangedLines.pairs d.ownedChangedLines.pairs := by
  induction h with
  | nil => exact .nil
  | @cons r l records lists hr hrest ih =>
    rw [List.flatten_cons, List.nodup_append] at hn
    refine .cons (fun d hd => ?_) (ih hn.2.1)
    rw [hr, Finset.disjoint_left]
    intro p hp hpd
    exact hn.2.2 p (List.mem_toFinset.mp hp) p ((mem_flatten_iff hrest).mpr ⟨d, hd, hpd⟩) rfl

theorem chunkRecordsByBudget_ok {diff : Text} {budget : Nat} (hb : 82 ≤ budget)
    (hn : (addedPairs diff).Nodup) (h : Decodes diff) :
    ∃ chunks, chunkRecordsByBudget diff budget = .ok chunks ∧ IsPartition diff budget chunks := by
  obtain ⟨changed, hchanged, hpairs⟩ := changedLines_ok h
  unfold chunkRecordsByBudget
  rw [if_neg (by omega)]
  by_cases hd : diff = []
  · subst hd
    rw [if_pos rfl]
    refine ⟨[], rfl, .nil, ⟨changed, hchanged, fun p => ?_⟩, rfl, fun _ _ _ => rfl⟩
    rw [hpairs]
    simp [addedPairs, pathBlocks, blocksOf, Text.lines, cutBlocks, preamble]
  · obtain ⟨pieces, lists, hp, hown, hflat, htext⟩ := own_piecesOf hb h fun _ hb => hb
    obtain ⟨ms, hms, hm⟩ := own_packFrom budget hown [] .empty [] rfl fun _ => rfl
    have hlines : ms.flatten = addedPairs diff := by rw [hm, List.nil_append, hflat]; rfl
    obtain ⟨records, hr, howned, hrt, hri⟩ := recordsFrom_ok hms 0 ∅ (hlines ▸ hn) (by simp)
    rw [if_neg hd, splitFileBlocks_ok h]
    refine ⟨records, ?_, ?_, ⟨changed, hchanged, fun p => ?_⟩, ?_, ?_⟩
    · simp only [bind, Except.bind, hp, hr, hchanged, hpairs, hlines, Finset.empty_union, if_true]
    · exact pairwise_disjoint howned (hlines ▸ hn)
    · rw [hpairs, List.mem_toFinset, ← hlines, mem_flatten_iff howned]
    · rw [hri, List.range_eq_range']
    · intro blocks hblocks hfit
      rw [splitFileBlocks_ok h] at hblocks
      have he : pathBlocks diff = blocks := Except.ok.inj hblocks
      rw [hrt, flatten_packFrom, List.nil_append, htext (he ▸ hfit), flatten_pathBlocks]

/-- **Chunks.** For a budget of at least 82 characters and a diff that adds no line twice, the
chunks partition the added lines exactly when the headers of the diff are readable. -/
theorem chunks_partition_iff {diff : Text} {budget : Nat} (hb : 82 ≤ budget)
    (hn : (addedPairs diff).Nodup) :
    (∃ chunks, chunkRecordsByBudget diff budget = .ok chunks ∧
      IsPartition diff budget chunks) ↔ Decodes diff := by
  refine ⟨fun ⟨chunks, _, hpart⟩ => ?_, chunkRecordsByBudget_ok hb hn⟩
  obtain ⟨changed, hc, -⟩ := hpart.union
  by_contra h
  obtain ⟨e, he⟩ := changedLines_error h
  rw [he] at hc
  cases hc

/-- The diff of a new file, under its header. -/
def newFile (header : String) : Text := (header ++ "\n@@ -0,0 +1 @@\n+x\n").toList

theorem chunks_partition_newFile :
    ∃ chunks, chunkRecordsByBudget (newFile "diff --git a/x.py b/x.py") 100 = .ok chunks ∧
      IsPartition (newFile "diff --git a/x.py b/x.py") 100 chunks :=
  (chunks_partition_iff (by decide) (by decide +kernel)).mpr
    ((splitFileBlocks_ok_iff _).mp ⟨_, rfl⟩)

/-- **A file name that is read as an escape.** Git writes the backslash of the name `a\777b` as
two; `shlex.split` makes one of them, and what it leaves is decoded as the byte 511. -/
theorem chunk_unreadable : ¬∀ diff budget, 82 ≤ budget → (addedPairs diff).Nodup →
    ∃ chunks, chunkRecordsByBudget diff budget = .ok chunks ∧ IsPartition diff budget chunks := by
  intro h
  obtain ⟨chunks, hc, -⟩ := h (newFile "diff --git \"a/a\\\\777b\" \"b/a\\\\777b\"") 100
    (by decide) (by decide +kernel)
  have he : chunkRecordsByBudget (newFile "diff --git \"a/a\\\\777b\" \"b/a\\\\777b\"") 100 =
    .error (.valueError "byte must be in range(0, 256)".toList) := rfl
  rw [he] at hc
  cases hc

end DiffFilter
