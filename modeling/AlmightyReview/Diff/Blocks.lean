import AlmightyReview.Db
import AlmightyReview.Lib.Scan
import AlmightyReview.Lib.SetDict

/-!
# File blocks of a diff

The first part of `diff_filter`: a unified diff is cut into the blocks of its files, and the added
lines of a block are counted.

* `splitFileBlocks`: the blocks, each with the path of its file. The path of a block whose header
  does not parse is empty, and so is that of what stands before the first header.
* `headerTarget`, `decodeGitPath`: the path in a header. `decodeGitPath` raises on an octal escape
  of more than one byte.
* `changedLines`: the added lines, by path; `filterReviewable`: the diff without the files that
  are not worth a review (`isNoise`).
* `cutBlocks` and `joinBlocks` are inverse to each other (`joinBlocks_cutBlocks`,
  `cutBlocks_joinBlocks`), so a block that is cut again is one block (`blocksOf_text`).
* `Decodes diff`: the headers are readable. Then the blocks are `pathBlocks diff`, and the added
  lines of the diff are those of its blocks (`changedLines_ok`); else `splitFileBlocks` raises.
-/

namespace DiffFilter

/-! ## Paths -/

def isOctal (c : Char) : Bool := '0' ≤ c && c ≤ '7'

/-- `int(abc, 8)`. -/
def octal (a b c : Char) : Nat :=
  64 * (a.toNat - '0'.toNat) + 8 * (b.toNat - '0'.toNat) + (c.toNat - '0'.toNat)

/-- The bytes of a path that git wrote with octal escapes. -/
def decodeGitBytes : Text → Except Exc (List Nat)
  | [] => .ok []
  | '\\' :: a :: b :: c :: s =>
    if isOctal a && isOctal b && isOctal c then
      if octal a b c < 256 then (decodeGitBytes s).map (octal a b c :: ·)
      else .error (.valueError "byte must be in range(0, 256)".toList)
    else (decodeGitBytes (a :: b :: c :: s)).map (Text.utf8 '\\' ++ ·)
  | c :: s => (decodeGitBytes s).map (Text.utf8 c ++ ·)

def decodeGitPath (value : Text) : Except Exc Text := (decodeGitBytes value).map Text.decodeUtf8

/-- The path in a file header; empty when the header does not parse. -/
def headerTarget (header : Text) : Except Exc Text :=
  match Text.shlexSplit header with
  | some [diff, git, _, target] =>
    if diff = "diff".toList ∧ git = "--git".toList then
      (decodeGitPath target).map fun target =>
        if target.startsWith "b/".toList then target.drop 2 else target
    else .ok []
  | _ => .ok []

example : headerTarget "diff --git \"a/caf\\303\\251 f.py\" \"b/caf\\303\\251 f.py\"".toList =
    .ok "café f.py".toList := by decide +kernel

/-! ## Blocks -/

/-- The line matches `^diff --git .+$`. -/
def isFileHeader (line : Text) : Bool :=
  line.startsWith "diff --git ".toList && (line.drop 11).head?.any (· != '\n')

/-- What the pattern matches of the line. -/
def headerText (line : Text) : Text := line.takeWhile (· != '\n')

/-- A block: its header line and the lines after it. -/
structure Block where
  header : Text
  body : List Text

def Block.lines (b : Block) : List Text := b.header :: b.body

def Block.text (b : Block) : Text := b.lines.flatten

/-- The lines before the first header, and the blocks. -/
def cutBlocks : List Text → List Text × List Block
  | [] => ([], [])
  | l :: ls =>
    if isFileHeader l then ([], ⟨l, (cutBlocks ls).1⟩ :: (cutBlocks ls).2)
    else (l :: (cutBlocks ls).1, (cutBlocks ls).2)

/-- What stands before the first header, as a block without a path. -/
def preamble (ls : List Text) : List (Text × Text) :=
  if ls.flatten = [] then [] else [([], ls.flatten)]

/-- The blocks with the paths in their headers. -/
def withTargets (bs : List Block) : Except Exc (List (Text × Text)) :=
  bs.mapM fun b => (headerTarget (headerText b.header)).map fun target => (target, b.text)

def splitFileBlocks (diff : Text) : Except Exc (List (Text × Text)) :=
  (withTargets (cutBlocks (Text.lines diff)).2).map fun blocks =>
    preamble (cutBlocks (Text.lines diff)).1 ++ blocks

/-! ## Added lines -/

/-- `(?:,\d+)?` at the beginning of the text: the rest. -/
def dropCount (s : Text) : Text :=
  match s with
  | ',' :: t =>
    match Text.number t with
    | some (_, rest) => rest
    | none => s
  | _ => s

/-- `_FULL_HUNK_HEADER`: the first line of the old and of the new side. -/
def fullHunkHeader (line : Text) : Option (Nat × Nat) := do
  let s ← Text.dropStart? "@@ -".toList line
  let (old, s) ← Text.number s
  let s ← Text.dropStart? " +".toList (dropCount s)
  let (new, s) ← Text.number s
  let _ ← Text.dropStart? " @@".toList (dropCount s)
  pure (old, new)

/-- `_HUNK_HEADER`, which captures the new side only. -/
def hunkHeader (line : Text) : Option Nat := (fullHunkHeader line).map Prod.snd

/-- The line is an added one. -/
def isAdded (line : Text) : Bool :=
  line.startsWith "+".toList && !line.startsWith "+++".toList

/-- The numbers of the added lines, in order. `newNo` is the number of the next line of the new
side; there is none before the first hunk. -/
def addedFrom : Option Nat → List Text → List Nat
  | _, [] => []
  | newNo, line :: ls =>
    if line.startsWith "@@".toList then addedFrom (hunkHeader line) ls
    else
      match newNo with
      | none => addedFrom none ls
      | some n =>
        if isAdded line then n :: addedFrom (some (n + 1)) ls
        else if line.startsWith " ".toList then addedFrom (some (n + 1)) ls
        else addedFrom (some n) ls

/-- The added lines of a block. -/
def addedLines (block : Text) : List Nat := addedFrom none block.splitlines

/-- The step of `changed_lines`. -/
def addBlock (out : SetDict Text Nat) (b : Text × Text) : SetDict Text Nat :=
  if b.1 = [] then out else out.add b.1 (addedLines b.2).toFinset

/-- The added lines of the diff, by path. -/
def changedLines (diff : Text) : Except Exc (SetDict Text Nat) :=
  (splitFileBlocks diff).map fun blocks => blocks.foldl addBlock .empty

/-! ## Noise -/

def defaultIgnore : List Text :=
  ["package-lock.json", "yarn.lock", "pnpm-lock.yaml", "npm-shrinkwrap.json", "poetry.lock",
    "Pipfile.lock", "composer.lock", "Gemfile.lock", "Cargo.lock", "go.sum"].map String.toList

def ignoreSuffix : List Text :=
  [".min.js", ".min.css", ".map", ".snap", ".lock"].map String.toList

def ignoreDir : List Text :=
  ["node_modules/", "vendor/", "dist/", "build/", ".next/", "__snapshots__/"].map String.toList

/-- `path.rsplit("/", 1)[-1]`. -/
def baseName (path : Text) : Text := (path.reverse.takeWhile (· != '/')).reverse

/-- The file is generated, vendored, a lock file, .. . A block without a path is kept. -/
def isNoise (path : Text) : Bool :=
  path != [] && (defaultIgnore.contains (baseName path) ||
    ignoreSuffix.any (fun suffix => suffix.isSuffixOf path) ||
    ignoreDir.any fun seg => path.startsWith seg || path.contains ('/' :: seg))

def filterReviewable (diff : Text) : Except Exc Text :=
  (splitFileBlocks diff).map fun blocks =>
    ((blocks.filter fun b => !isNoise b.1).map Prod.snd).flatten

/-! ## Cutting and joining -/

/-- The lines of the preamble and of the blocks. -/
def joinBlocks (pre : List Text) (bs : List Block) : List Text := pre ++ bs.flatMap Block.lines

/-- The header of the block is one, and no other line of it is. -/
def Block.WellCut (b : Block) : Prop :=
  isFileHeader b.header = true ∧ ∀ l ∈ b.body, isFileHeader l = false

theorem joinBlocks_cutBlocks (ls : List Text) :
    joinBlocks (cutBlocks ls).1 (cutBlocks ls).2 = ls := by
  induction ls with
  | nil => rfl
  | cons l ls ih =>
    unfold cutBlocks
    split
    · rw [joinBlocks, List.nil_append, List.flatMap_cons]
      exact congrArg (l :: ·) ih
    · exact congrArg (l :: ·) ih

theorem cutBlocks_wellCut (ls : List Text) :
    (∀ l ∈ (cutBlocks ls).1, isFileHeader l = false) ∧ ∀ b ∈ (cutBlocks ls).2, b.WellCut := by
  induction ls with
  | nil => exact ⟨by simp [cutBlocks], by simp [cutBlocks]⟩
  | cons l ls ih =>
    unfold cutBlocks
    split
    · rename_i hl
      refine ⟨by simp, fun b hb => ?_⟩
      rcases List.mem_cons.mp hb with rfl | hb
      · exact ⟨hl, ih.1⟩
      · exact ih.2 b hb
    · rename_i hl
      refine ⟨fun l' hl' => ?_, ih.2⟩
      rcases List.mem_cons.mp hl' with rfl | hl'
      · simpa using hl
      · exact ih.1 l' hl'

theorem cutBlocks_append {pre : List Text} (h : ∀ l ∈ pre, isFileHeader l = false)
    (ls : List Text) :
    cutBlocks (pre ++ ls) = (pre ++ (cutBlocks ls).1, (cutBlocks ls).2) := by
  induction pre with
  | nil => rfl
  | cons l pre ih =>
    have hl := h l List.mem_cons_self
    rw [List.cons_append, cutBlocks, ih fun l hl => h l (List.mem_cons_of_mem _ hl)]
    simp [hl]

theorem cutBlocks_joinBlocks {pre : List Text} {bs : List Block}
    (hpre : ∀ l ∈ pre, isFileHeader l = false) (hbs : ∀ b ∈ bs, b.WellCut) :
    cutBlocks (joinBlocks pre bs) = (pre, bs) := by
  rw [joinBlocks, cutBlocks_append hpre]
  suffices h : cutBlocks (bs.flatMap Block.lines) = ([], bs) by rw [h, List.append_nil]
  clear hpre
  induction bs with
  | nil => rfl
  | cons b bs ih =>
    obtain ⟨hh, hb⟩ := hbs b List.mem_cons_self
    rw [List.flatMap_cons, Block.lines, List.cons_append, cutBlocks, if_pos hh,
      cutBlocks_append hb, ih fun b hb => hbs b (List.mem_cons_of_mem _ hb)]
    simp

/-- Some of the blocks of a diff are the blocks of a diff. -/
theorem cutBlocks_sublist (diff : Text) (pre : List Text) (bs : List Block)
    (hpre : pre.Sublist (cutBlocks diff.lines).1) (hbs : bs.Sublist (cutBlocks diff.lines).2) :
    cutBlocks (Text.lines (joinBlocks pre bs).flatten) = (pre, bs) := by
  obtain ⟨hp, hb⟩ := cutBlocks_wellCut diff.lines
  have hsub : (joinBlocks pre bs).Sublist diff.lines := by
    rw [← joinBlocks_cutBlocks diff.lines]
    exact hpre.append (hbs.flatMap _)
  rw [Text.lines_flatten (Text.areLines_lines diff |>.sublist hsub),
    cutBlocks_joinBlocks (fun l hl => hp l (hpre.subset hl)) fun b h => hb b (hbs.subset h)]

/-! ## Which diffs are cut -/

/-- The path is written with an octal escape of more than one byte. -/
def LargeEscape (path : Text) : Prop :=
  ∃ l a b c r, path = l ++ '\\' :: a :: b :: c :: r ∧
    isOctal a = true ∧ isOctal b = true ∧ isOctal c = true ∧ 256 ≤ octal a b c

theorem largeEscape_cons {c : Char} {s : Text} (hc : c ≠ '\\') :
    LargeEscape (c :: s) ↔ LargeEscape s := by
  constructor
  · rintro ⟨l, a, b, d, r, he, h⟩
    cases l with
    | nil => exact absurd (List.cons.inj he).1 hc
    | cons x l => exact ⟨l, a, b, d, r, (List.cons.inj he).2, h⟩
  · rintro ⟨l, a, b, d, r, rfl, h⟩
    exact ⟨c :: l, a, b, d, r, rfl, h⟩

theorem ne_backslash_of_isOctal {c : Char} (h : isOctal c = true) : c ≠ '\\' := by
  rintro rfl
  exact absurd h (by decide)

/-- A backslash that begins no escape. -/
theorem largeEscape_backslash {s : Text}
    (h : ∀ a b c r, s = a :: b :: c :: r → (isOctal a && isOctal b && isOctal c) = false) :
    LargeEscape ('\\' :: s) ↔ LargeEscape s := by
  constructor
  · rintro ⟨l, a, b, d, r, he, ha, hb, hd, hlt⟩
    cases l with
    | nil =>
      have := h a b d r (List.cons.inj he).2
      simp [ha, hb, hd] at this
    | cons x l => exact ⟨l, a, b, d, r, (List.cons.inj he).2, ha, hb, hd, hlt⟩
  · rintro ⟨l, a, b, d, r, rfl, hlarge⟩
    exact ⟨'\\' :: l, a, b, d, r, rfl, hlarge⟩

/-- `decodeGitPath` raises exactly on an octal escape of more than one byte. -/
theorem decodeGitBytes_ok_iff (s : Text) :
    (∃ bytes, decodeGitBytes s = .ok bytes) ↔ ¬LargeEscape s := by
  fun_induction decodeGitBytes s with
  | case1 =>
    refine iff_of_true ⟨_, rfl⟩ ?_
    rintro ⟨l, a, b, c, r, he, -⟩
    simp at he
  | case2 a b c s ho hlt ih =>
    simp only [Bool.and_eq_true] at ho
    have hs : LargeEscape ('\\' :: a :: b :: c :: s) ↔ LargeEscape s := by
      refine Iff.trans ⟨?_, ?_⟩ (((largeEscape_cons (ne_backslash_of_isOctal ho.1.1)).trans
        (largeEscape_cons (ne_backslash_of_isOctal ho.1.2))).trans
        (largeEscape_cons (ne_backslash_of_isOctal ho.2)))
      · rintro ⟨l, a', b', c', r, he, h⟩
        cases l with
        | nil =>
          simp only [List.nil_append, List.cons.injEq, true_and] at he
          obtain ⟨rfl, rfl, rfl, rfl⟩ := he
          omega
        | cons x l => exact ⟨l, a', b', c', r, (List.cons.inj he).2, h⟩
      · rintro ⟨l, a', b', c', r, he, h⟩
        exact ⟨'\\' :: l, a', b', c', r, by rw [he]; rfl, h⟩
    rw [hs, ← ih]
    cases decodeGitBytes s <;> simp [Except.map]
  | case3 a b c s ho hlt =>
    simp only [Bool.and_eq_true] at ho
    refine iff_of_false (by rintro ⟨_, h⟩; cases h) (not_not_intro ?_)
    exact ⟨[], a, b, c, s, rfl, ho.1.1, ho.1.2, ho.2, by omega⟩
  | case4 a b c s ho ih =>
    have hb : LargeEscape ('\\' :: a :: b :: c :: s) ↔ LargeEscape (a :: b :: c :: s) := by
      refine largeEscape_backslash fun a' b' c' r he => ?_
      simp only [List.cons.injEq] at he
      obtain ⟨rfl, rfl, rfl, -⟩ := he
      simpa using ho
    rw [hb, ← ih]
    cases decodeGitBytes (a :: b :: c :: s) <;> simp [Except.map]
  | case5 c s hne ih =>
    have hc : LargeEscape (c :: s) ↔ LargeEscape s := by
      by_cases hb : c = '\\'
      · subst hb
        exact largeEscape_backslash fun a b d r he => (hne a b d r rfl he).elim
      · exact largeEscape_cons hb
    rw [hc, ← ih]
    cases decodeGitBytes s <;> simp [Except.map]

/-- The header is not one whose path has an octal escape of more than one byte. -/
def Readable (header : Text) : Prop :=
  ∀ source target, Text.shlexSplit header = some ["diff".toList, "--git".toList, source, target] →
    ¬LargeEscape target

theorem headerTarget_ok_iff (header : Text) :
    (∃ path, headerTarget header = .ok path) ↔ Readable header := by
  unfold headerTarget
  split
  · rename_i diff git source target hs
    by_cases hd : diff = "diff".toList ∧ git = "--git".toList
    · obtain ⟨rfl, rfl⟩ := hd
      have hr : Readable header ↔ ¬LargeEscape target := by
        constructor
        · exact fun h => h source target hs
        · intro h s' t' ht
          rw [hs] at ht
          simp only [Option.some.injEq, List.cons.injEq, true_and, and_true] at ht
          rwa [← ht.2]
      rw [if_pos ⟨rfl, rfl⟩, hr, ← decodeGitBytes_ok_iff, decodeGitPath]
      cases decodeGitBytes target <;> simp [Except.map]
    · rw [if_neg hd]
      refine iff_of_true ⟨_, rfl⟩ fun s' t' ht => absurd ?_ hd
      rw [hs] at ht
      simp only [Option.some.injEq, List.cons.injEq] at ht
      exact ⟨ht.1, ht.2.1⟩
  · rename_i hne
    exact iff_of_true ⟨_, rfl⟩ fun s' t' ht => (hne _ _ _ _ ht).elim

/-- The path in the header of the block, when the header is readable. -/
def Block.path (b : Block) : Text :=
  match headerTarget (headerText b.header) with
  | .ok path => path
  | .error _ => []

def Block.Readable (b : Block) : Prop := DiffFilter.Readable (headerText b.header)

theorem Block.headerTarget_eq {b : Block} (h : b.Readable) :
    headerTarget (headerText b.header) = .ok b.path := by
  obtain ⟨path, hp⟩ := (headerTarget_ok_iff _).mpr h
  rw [Block.path, hp]

theorem withTargets_ok {bs : List Block} (h : ∀ b ∈ bs, b.Readable) :
    withTargets bs = .ok (bs.map fun b => (b.path, b.text)) := by
  unfold withTargets
  induction bs with
  | nil => rfl
  | cons b bs ih =>
    rw [List.mapM_cons, ih fun b hb => h b (List.mem_cons_of_mem _ hb),
      Block.headerTarget_eq (h b List.mem_cons_self)]
    rfl

theorem withTargets_error {bs : List Block} {b : Block} (hb : b ∈ bs) (h : ¬b.Readable) :
    ∃ e, withTargets bs = .error e := by
  unfold withTargets
  induction bs with
  | nil => cases hb
  | cons b' bs ih =>
    rw [List.mapM_cons]
    cases hh : headerTarget (headerText b'.header) with
    | error e => exact ⟨e, rfl⟩
    | ok path =>
      rcases List.mem_cons.mp hb with rfl | hb
      · exact absurd ((headerTarget_ok_iff _).mp ⟨path, hh⟩) h
      · obtain ⟨e, he⟩ := ih hb
        exact ⟨e, by rw [he]; rfl⟩

/-- The blocks of the diff. -/
def blocksOf (diff : Text) : List Block := (cutBlocks (Text.lines diff)).2

/-- The headers of all blocks are readable. -/
def Decodes (diff : Text) : Prop := ∀ b ∈ blocksOf diff, b.Readable

/-- The blocks with their paths, when all headers are readable. -/
def pathBlocks (diff : Text) : List (Text × Text) :=
  preamble (cutBlocks (Text.lines diff)).1 ++ (blocksOf diff).map fun b => (b.path, b.text)

theorem splitFileBlocks_ok {diff : Text} (h : Decodes diff) :
    splitFileBlocks diff = .ok (pathBlocks diff) := by
  have ht : withTargets (cutBlocks (Text.lines diff)).2 = _ := withTargets_ok h
  rw [splitFileBlocks, ht]
  rfl

/-- A diff is cut into blocks exactly when its headers are readable. -/
theorem splitFileBlocks_ok_iff (diff : Text) :
    (∃ blocks, splitFileBlocks diff = .ok blocks) ↔ Decodes diff := by
  refine ⟨fun ⟨blocks, h⟩ b hb => ?_, fun h => ⟨_, splitFileBlocks_ok h⟩⟩
  by_contra hr
  obtain ⟨e, he⟩ := withTargets_error hb hr
  rw [blocksOf] at he
  rw [splitFileBlocks, he] at h
  cases h

/-- A block of a diff is cut into itself. -/
theorem blocksOf_text {diff : Text} {b : Block} (hb : b ∈ blocksOf diff) :
    cutBlocks (Text.lines b.text) = ([], [b]) := by
  have h := cutBlocks_sublist diff [] [b] (List.nil_sublist _)
    (List.singleton_sublist.mpr hb)
  have ht : (joinBlocks [] [b]).flatten = b.text := by simp [joinBlocks, Block.text]
  rwa [ht] at h

theorem preamble_text (diff : Text) :
    cutBlocks (Text.lines (cutBlocks (Text.lines diff)).1.flatten) =
      ((cutBlocks (Text.lines diff)).1, []) := by
  have h := cutBlocks_sublist diff _ [] (List.Sublist.refl _) (List.nil_sublist _)
  rwa [joinBlocks, List.flatMap_nil, List.append_nil] at h

theorem flatten_pathBlocks (diff : Text) : ((pathBlocks diff).map Prod.snd).flatten = diff := by
  have hp : ((preamble (cutBlocks (Text.lines diff)).1).map Prod.snd).flatten =
      (cutBlocks (Text.lines diff)).1.flatten := by
    unfold preamble
    split
    · rename_i h
      rw [h]
      rfl
    · simp
  have hb : ((blocksOf diff).map fun b => b.text).flatten =
      ((blocksOf diff).flatMap Block.lines).flatten := by
    rw [List.flatMap_def, List.flatten_flatten, List.map_map]
    rfl
  rw [pathBlocks, List.map_append, List.flatten_append, hp, List.map_map]
  calc (cutBlocks (Text.lines diff)).1.flatten ++ ((blocksOf diff).map fun b => b.text).flatten
      = (joinBlocks (cutBlocks (Text.lines diff)).1 (blocksOf diff)).flatten := by
        rw [hb, joinBlocks, List.flatten_append]
    _ = diff := by rw [blocksOf, joinBlocks_cutBlocks, Text.flatten_lines]

theorem text_ne_nil {diff : Text} {b : Text × Text} (hb : b ∈ pathBlocks diff) : b.2 ≠ [] := by
  rcases List.mem_append.mp hb with h | h
  · unfold preamble at h
    split at h
    · cases h
    · rw [List.mem_singleton.mp h]
      assumption
  · obtain ⟨c, hc, rfl⟩ := List.mem_map.mp h
    intro ht
    have hh := ((cutBlocks_wellCut (Text.lines diff)).2 c hc).1
    have : c.header = [] := List.append_eq_nil_iff.mp ht |>.1
    rw [this] at hh
    cases hh

/-! ## Pairs of a path and an added line -/

/-- The added lines of a block with its path. -/
def blockPairs (b : Text × Text) : List (Text × Nat) :=
  if b.1 = [] then [] else (addedLines b.2).map (Prod.mk b.1)

/-- The added lines of a diff, each as often as it is added. -/
def addedPairs (diff : Text) : List (Text × Nat) := (pathBlocks diff).flatMap blockPairs

theorem pairs_foldl_addBlock (blocks : List (Text × Text)) (d : SetDict Text Nat) :
    (blocks.foldl addBlock d).pairs = d.pairs ∪ (blocks.flatMap blockPairs).toFinset := by
  induction blocks generalizing d with
  | nil => simp
  | cons b blocks ih =>
    rw [List.foldl_cons, ih, List.flatMap_cons, List.toFinset_append, ← Finset.union_assoc]
    congr 1
    ext p
    unfold addBlock blockPairs
    split
    · simp
    · simp only [SetDict.mem_pairs_add, List.mem_toFinset, Finset.mem_union, List.mem_map,
        Prod.ext_iff]
      grind

/-- No line before the first header counts as added. -/
theorem flatMap_preamble (ls : List Text) : (preamble ls).flatMap blockPairs = [] := by
  unfold preamble
  split <;> rfl

/-- **Added lines.** They are the added lines of the blocks. -/
theorem changedLines_ok {diff : Text} (h : Decodes diff) :
    ∃ d, changedLines diff = .ok d ∧ d.pairs = (addedPairs diff).toFinset := by
  rw [changedLines, splitFileBlocks_ok h]
  refine ⟨_, rfl, ?_⟩
  rw [pairs_foldl_addBlock, SetDict.pairs_empty, Finset.empty_union]
  rfl

theorem changedLines_error {diff : Text} (h : ¬Decodes diff) :
    ∃ e, changedLines diff = .error e := by
  rw [changedLines]
  cases hs : splitFileBlocks diff with
  | ok blocks => exact absurd ((splitFileBlocks_ok_iff diff).mp ⟨blocks, hs⟩) h
  | error e => exact ⟨e, rfl⟩

/-- The added lines of a block, counted on its own. -/
theorem changedLines_block {diff : Text} (h : Decodes diff) {b : Text × Text}
    (hb : b ∈ pathBlocks diff) :
    ∃ d, changedLines b.2 = .ok d ∧ d.pairs = (blockPairs b).toFinset := by
  rcases List.mem_append.mp hb with hp | hp
  · unfold preamble at hp
    split at hp
    · cases hp
    · rw [List.mem_singleton.mp hp, changedLines, splitFileBlocks, preamble_text,
        show withTargets [] = _ from withTargets_ok (by simp)]
      refine ⟨_, rfl, ?_⟩
      simp only [List.map_nil, pairs_foldl_addBlock, List.append_nil, flatMap_preamble]
      rfl
  · obtain ⟨c, hc, rfl⟩ := List.mem_map.mp hp
    rw [changedLines, splitFileBlocks, blocksOf_text hc,
      withTargets_ok (by simpa using h c hc)]
    refine ⟨_, rfl, ?_⟩
    rw [pairs_foldl_addBlock]
    simp [preamble]

end DiffFilter
