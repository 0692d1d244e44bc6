import AlmightyReview.Diff.Chunk

/-!
# Unified diffs

What the texts that `diff_filter` reads stand for: files with hunks of lines, and the text that git
writes for them. A line of a hunk is any text without `\n`.

* `File`, `Hunk`, `Line`: the diff of a file. Its numbers on both sides are those of `Placed`.
* `File.block`, `render`: what git writes, with the escapes of `quotePath` in the headers.
* `splitFileBlocks_render`: the blocks of the diff are those of its files, whatever their lines say,
  when the headers are read as they are meant (`File.HeaderRead`). Those of `SimpleName`s are.
* `splitlines_block`: `str.splitlines` also ends a line at other characters than `\n`. What comes
  after the first of them is `inner`, which the code reads as lines of their own.
-/

namespace Unified

/-! ## Files, hunks and lines -/

inductive Side where
  | context
  | deleted
  | added
  deriving DecidableEq

/-- The character that a line of this kind begins with. -/
def Side.sigil : Side → Char
  | .context => ' '
  | .deleted => '-'
  | .added => '+'

/-- How often a line counts on the old side, and on the new one. -/
def Side.old : Side → Nat
  | .added => 0
  | _ => 1

def Side.new : Side → Nat
  | .deleted => 0
  | _ => 1

/-- A line of a hunk. `noNewline`: it is the last one of its file and has no `\n` there. -/
structure Line where
  side : Side
  text : Text
  noNewline : Bool
  text_ok : '\n' ∉ text

structure Hunk where
  oldStart : Nat
  newStart : Nat
  heading : Text
  lines : List Line
  heading_ok : '\n' ∉ heading

/-- A line between the header of a file and its first hunk: modes, hashes and the names of the two
sides, in which git escapes what is not printable. -/
structure Extended where
  text : Text
  unbroken : ∀ c ∈ text, Text.isLineBreak c = false
  noHunk : text.startsWith "@@".toList = false
  noHeader : text.startsWith "diff --git ".toList = false

structure File where
  oldPath : Text
  newPath : Text
  extended : List Extended
  hunks : List Hunk
  newPath_ok : newPath ≠ []

/-! ## Numbers -/

/-- A line with the numbers of the next line of both sides. -/
structure Placed where
  line : Line
  oldNo : Nat
  newNo : Nat

def placeFrom : Nat → Nat → List Line → List Placed
  | _, _, [] => []
  | o, n, l :: ls => ⟨l, o, n⟩ :: placeFrom (o + l.side.old) (n + l.side.new) ls

def Hunk.placed (h : Hunk) : List Placed := placeFrom h.oldStart h.newStart h.lines

def File.placed (f : File) : List Placed := f.hunks.flatMap Hunk.placed

/-- The numbers of the lines of these kinds on the new side. -/
def numbersOf (want : Side → Bool) (ps : List Placed) : List Nat :=
  (ps.filter fun p => want p.line.side).map Placed.newNo

def isAddedSide (s : Side) : Bool := s == .added

def isRightSide (s : Side) : Bool := s != .deleted

/-! ## What git writes -/

/-- The bytes with an escape of one letter. -/
def letterEscapes : List (Nat × Char) :=
  [(7, 'a'), (8, 'b'), (9, 't'), (10, 'n'), (11, 'v'), (12, 'f'), (13, 'r'), (34, '"'), (92, '\\')]

/-- A byte in a quoted path. -/
def escapeByte (b : Nat) : Text :=
  match letterEscapes.find? fun e => e.1 = b with
  | some e => ['\\', e.2]
  | none =>
    if 32 ≤ b ∧ b < 127 then [Char.ofNat b]
    else ['\\', Nat.digitChar (b / 64 % 8), Nat.digitChar (b / 8 % 8), Nat.digitChar (b % 8)]

/-- The character is written as it is in a path without quotes. -/
def isPlainPathChar (c : Char) : Bool :=
  32 ≤ c.toNat && c.toNat < 127 && c != '"' && c != '\\'

/-- A path in a header: in quotes when it has a character that needs an escape. A blank does not
need one. -/
def quotePath (path : Text) : Text :=
  if path.all isPlainPathChar then path
  else '"' :: (Text.encode path).flatMap escapeByte ++ ['"']

/-- The count of one line is left out. -/
def range (start count : Nat) : Text :=
  if count = 1 then Text.ofNat start else Text.ofNat start ++ ',' :: Text.ofNat count

def Hunk.oldCount (h : Hunk) : Nat := (h.lines.map fun l => l.side.old).sum

def Hunk.newCount (h : Hunk) : Nat := (h.lines.map fun l => l.side.new).sum

/-- What comes before the heading of a hunk. -/
def Hunk.ranges (h : Hunk) : Text :=
  "@@ -".toList ++ range h.oldStart h.oldCount ++ " +".toList ++
    range h.newStart h.newCount ++ " @@".toList

/-- The header of a hunk, without its `\n`. -/
def Hunk.header (h : Hunk) : Text :=
  h.ranges ++ (if h.heading = [] then [] else ' ' :: h.heading)

def noNewlineText : Text := "\\ No newline at end of file".toList

/-- The line with its sigil, without its `\n`. -/
def Line.body (l : Line) : Text := l.side.sigil :: l.text

def Line.bodies (l : Line) : List Text :=
  l.body :: if l.noNewline then [noNewlineText] else []

def Hunk.bodies (h : Hunk) : List Text := h.header :: h.lines.flatMap Line.bodies

def File.header (f : File) : Text :=
  "diff --git ".toList ++ quotePath ("a/".toList ++ f.oldPath) ++ ' ' ::
    quotePath ("b/".toList ++ f.newPath)

/-- The lines after the header, without their `\n`. -/
def File.bodies (f : File) : List Text :=
  f.extended.map Extended.text ++ f.hunks.flatMap Hunk.bodies

/-- A line is ended. -/
def ended (s : Text) : Text := s ++ ['\n']

/-- What git writes for the file. -/
def File.block (f : File) : DiffFilter.Block := ⟨ended f.header, f.bodies.map ended⟩

/-- What git writes for the files. -/
def render (files : List File) : Text := (files.map fun f => f.block.text).flatten

/-! ## Escapes -/

/-- The text is printable ASCII. -/
def Printable (s : Text) : Prop := ∀ c ∈ s, 32 ≤ c.toNat ∧ c.toNat < 127

/-- The text has no character at which `splitlines` ends a line. -/
def Unbroken (s : Text) : Prop := ∀ c ∈ s, Text.isLineBreak c = false

instance (s : Text) : Decidable (Printable s) :=
  inferInstanceAs (Decidable (∀ c ∈ s, 32 ≤ c.toNat ∧ c.toNat < 127))

instance (s : Text) : Decidable (Unbroken s) :=
  inferInstanceAs (Decidable (∀ c ∈ s, Text.isLineBreak c = false))

theorem Printable.append {s t : Text} (hs : Printable s) (ht : Printable t) :
    Printable (s ++ t) := fun c hc => (List.mem_append.mp hc).elim (hs c) (ht c)

theorem Printable.unbroken {s : Text} (h : Printable s) : Unbroken s := by
  intro c hc
  obtain ⟨h₁, h₂⟩ := h c hc
  simp only [Text.isLineBreak, Bool.or_eq_false_iff, Bool.and_eq_false_iff,
    decide_eq_false_iff_not, beq_eq_false_iff_ne]
  omega

theorem Unbroken.append {s t : Text} (hs : Unbroken s) (ht : Unbroken t) : Unbroken (s ++ t) :=
  fun c hc => (List.mem_append.mp hc).elim (hs c) (ht c)

theorem Unbroken.not_mem {s : Text} (h : Unbroken s) : '\n' ∉ s := by
  intro hm
  have := h _ hm
  cases this

theorem printable_escapeByte (b : Nat) : Printable (escapeByte b) := by
  have hslash : 32 ≤ '\\'.toNat ∧ '\\'.toNat < 127 := by decide
  have hdigit : ∀ n : Nat, 32 ≤ (Nat.digitChar (n % 8)).toNat ∧
      (Nat.digitChar (n % 8)).toNat < 127 := by
    intro n
    rw [Nat.toNat_digitChar_of_lt_ten (by omega)]
    omega
  unfold escapeByte
  split
  · rename_i e he
    have hletter : ∀ e ∈ letterEscapes, 32 ≤ e.2.toNat ∧ e.2.toNat < 127 := by decide
    intro c hc
    simp only [List.mem_cons, List.not_mem_nil, or_false] at hc
    rcases hc with rfl | rfl
    · exact hslash
    · exact hletter e (List.mem_of_find?_eq_some he)
  split
  · rename_i hb
    have hv : b.isValidChar := .inl (by omega)
    have hnat : (Char.ofNat b).toNat = b := by
      unfold Char.ofNat
      rw [dif_pos hv]
      rfl
    intro c hc
    obtain rfl := List.mem_singleton.mp hc
    rw [hnat]
    exact hb
  · intro c hc
    simp only [List.mem_cons, List.not_mem_nil, or_false] at hc
    rcases hc with rfl | rfl | rfl | rfl
    · exact hslash
    · exact hdigit _
    · exact hdigit _
    · exact hdigit _

theorem printable_quotePath (path : Text) : Printable (quotePath path) := by
  have hquote : 32 ≤ '"'.toNat ∧ '"'.toNat < 127 := by decide
  unfold quotePath
  split
  · rename_i hall
    intro c hc
    have := List.all_eq_true.mp hall c hc
    simp only [isPlainPathChar, Bool.and_eq_true, decide_eq_true_eq] at this
    exact this.1.1
  · intro c hc
    rw [List.cons_append, List.mem_cons, List.mem_append, List.mem_flatMap,
      List.mem_singleton] at hc
    rcases hc with rfl | ⟨b, -, hc⟩ | rfl
    · exact hquote
    · exact printable_escapeByte b c hc
    · exact hquote

theorem printable_header (f : File) : Printable f.header := by
  have hdiff : Printable "diff --git ".toList := by decide
  have hblank : Printable [' '] := by decide
  exact (hdiff.append (printable_quotePath _)).append (hblank.append (printable_quotePath _))

/-! ## Lines -/

theorem startsWith_cons {c a : Char} {s p : Text} :
    Text.startsWith (c :: s) (a :: p) = (a == c && Text.startsWith s p) := by
  unfold Text.startsWith
  rw [List.isPrefixOf_cons_cons]

theorem startsWith_ended {s p : Text} (hp : '\n' ∉ p) :
    (ended s).startsWith p = s.startsWith p := by
  unfold ended
  induction p generalizing s with
  | nil => cases s <;> rfl
  | cons a p ih =>
    rw [List.mem_cons, not_or] at hp
    cases s with
    | nil =>
      rw [List.nil_append, startsWith_cons, beq_eq_false_iff_ne.mpr (Ne.symm hp.1)]
      rfl
    | cons c s => rw [List.cons_append, startsWith_cons, startsWith_cons, ih hp.2]

theorem chomp_ended (s : Text) : Text.chomp (ended s) = Text.chomp s := by
  unfold ended
  induction s with
  | nil => rfl
  | cons c s ih =>
    rw [List.cons_append]
    by_cases hc : Text.isLineBreak c = true
    · rw [Text.chomp_cons_of_lineBreak hc, Text.chomp_cons_of_lineBreak hc]
    · rw [Bool.not_eq_true] at hc
      rw [Text.chomp_cons_of_not hc, Text.chomp_cons_of_not hc, ih]

/-- What `splitlines` sees of a line after the first of its boundaries. -/
def inner (s : Text) : List Text := Text.afterFirst (ended s)

theorem splitlines_ended (s : Text) : Text.splitlines (ended s) = Text.chomp s :: inner s := by
  rw [Text.splitlines_eq_cons (by simp [ended]), chomp_ended]
  rfl

theorem splitlines_flatten (ls : List Text) :
    Text.splitlines (ls.map ended).flatten = ls.flatMap fun s => Text.splitlines (ended s) := by
  induction ls with
  | nil => rfl
  | cons s ls ih =>
    rw [List.map_cons, List.flatten_cons, ended, List.append_assoc, List.singleton_append,
      Text.splitlines_append, ih]
    rfl

theorem splitlinesKeep_flatten (ls : List Text) :
    Text.splitlinesKeep (ls.map ended).flatten =
      ls.flatMap fun s => Text.splitlinesKeep (ended s) := by
  induction ls with
  | nil => rfl
  | cons s ls ih =>
    rw [List.map_cons, List.flatten_cons, ended, List.append_assoc, List.singleton_append,
      Text.splitlinesKeep_append, ih]
    rfl

theorem Unbroken.splitlinesKeep {s : Text} (h : Unbroken s) :
    Text.splitlinesKeep (ended s) = [ended s] := Text.splitlinesKeep_line h

theorem Unbroken.inner_eq {s : Text} (h : Unbroken s) : inner s = [] := by
  rw [Unified.inner, Text.afterFirst, Text.splitlines, h.splitlinesKeep]
  rfl

/-! ## Blocks -/

theorem not_mem_ofNat {c : Char} (hc : c.isDigit = false) (n : Nat) : c ∉ Text.ofNat n := by
  intro hm
  rw [Nat.isDigit_of_mem_toDigits (by decide) (by decide) hm] at hc
  cases hc

theorem unbroken_ofNat (n : Nat) : Unbroken (Text.ofNat n) := by
  intro c hc
  have hd : c.isDigit = true := Nat.isDigit_of_mem_toDigits (by decide) (by decide) hc
  refine Printable.unbroken (s := [c]) ?_ c List.mem_cons_self
  simp only [Char.isDigit, Bool.and_eq_true, decide_eq_true_eq, ge_iff_le,
    UInt32.le_iff_toNat_le] at hd
  have hn : c.val.toNat = c.toNat := rfl
  have h48 : '0'.val.toNat = 48 := rfl
  have h57 : '9'.val.toNat = 57 := rfl
  intro d hd'
  obtain rfl := List.mem_singleton.mp hd'
  omega

theorem unbroken_range (start count : Nat) : Unbroken (range start count) := by
  have hcomma : Unbroken [','] := by decide
  unfold range
  split
  · exact unbroken_ofNat start
  · exact (unbroken_ofNat start).append (hcomma.append (unbroken_ofNat count))

theorem unbroken_ranges (h : Hunk) : Unbroken h.ranges := by
  have h₁ : Unbroken "@@ -".toList := by decide
  have h₂ : Unbroken " +".toList := by decide
  have h₃ : Unbroken " @@".toList := by decide
  exact (((h₁.append (unbroken_range _ _)).append h₂).append (unbroken_range _ _)).append h₃

/-- The lines after the header of a file have no `\n`, and none of them is a header. -/
theorem bodies_ok {f : File} {s : Text} (h : s ∈ f.bodies) :
    '\n' ∉ s ∧ s.startsWith "diff --git ".toList = false := by
  rcases List.mem_append.mp h with h | h
  · obtain ⟨e, -, rfl⟩ := List.mem_map.mp h
    exact ⟨Unbroken.not_mem e.unbroken, e.noHeader⟩
  obtain ⟨k, -, h⟩ := List.mem_flatMap.mp h
  rcases List.mem_cons.mp h with rfl | h
  · refine ⟨fun hm => ?_, rfl⟩
    rcases List.mem_append.mp hm with hm | hm
    · exact (unbroken_ranges k).not_mem hm
    · split at hm
      · cases hm
      · rcases List.mem_cons.mp hm with hm | hm
        · cases hm
        · exact k.heading_ok hm
  obtain ⟨l, -, h⟩ := List.mem_flatMap.mp h
  rcases List.mem_cons.mp h with rfl | h
  · refine ⟨fun hm => ?_, ?_⟩
    · rcases List.mem_cons.mp hm with hm | hm
      · cases hs : l.side <;> rw [hs] at hm <;> cases hm
      · exact l.text_ok hm
    · unfold Line.body
      cases l.side <;> rfl
  · split at h
    · rw [List.mem_singleton.mp h]
      exact ⟨by decide, rfl⟩
    · cases h

theorem isFileHeader_header (f : File) : DiffFilter.isFileHeader (ended f.header) = true := by
  obtain ⟨c, s, hs⟩ : ∃ c s, quotePath ("a/".toList ++ f.oldPath) = c :: s := by
    unfold quotePath
    split
    · exact ⟨'a', _, rfl⟩
    · exact ⟨'"', _, rfl⟩
  have hc : c ≠ '\n' := by
    rintro rfl
    have := (printable_quotePath ("a/".toList ++ f.oldPath)) '\n' (hs ▸ List.mem_cons_self)
    exact absurd this (by decide)
  unfold DiffFilter.isFileHeader ended File.header
  rw [hs]
  simpa [Text.startsWith] using hc

theorem headerText_ended {s : Text} (h : '\n' ∉ s) : DiffFilter.headerText (ended s) = s := by
  rw [DiffFilter.headerText, ended, List.takeWhile_append_of_pos fun c hc => by
    rw [bne_iff_ne]
    rintro rfl
    exact h hc]
  simp

theorem headerText_header (f : File) : DiffFilter.headerText (ended f.header) = f.header :=
  headerText_ended (printable_header f).unbroken.not_mem

theorem wellCut_block (f : File) : f.block.WellCut := by
  refine ⟨isFileHeader_header f, fun l hl => ?_⟩
  obtain ⟨s, hs, rfl⟩ := List.mem_map.mp hl
  unfold DiffFilter.isFileHeader
  rw [startsWith_ended (by decide), (bodies_ok hs).2]
  rfl

theorem areLines_map_ended {ls : List Text} (h : ∀ s ∈ ls, '\n' ∉ s) :
    Text.AreLines (ls.map ended) := by
  induction ls with
  | nil => trivial
  | cons s ls ih =>
    exact ⟨⟨s, h s List.mem_cons_self, .inl rfl⟩, ih fun s hs => h s (List.mem_cons_of_mem _ hs)⟩

theorem lines_block (f : File) : f.block.lines = (f.header :: f.bodies).map ended := rfl

theorem render_eq (files : List File) :
    render files = ((files.flatMap fun f => f.header :: f.bodies).map ended).flatten := by
  rw [render, List.map_flatMap, List.flatMap_def, List.flatten_flatten, List.map_map]
  rfl

theorem areLines_render (files : List File) :
    Text.AreLines ((files.flatMap fun f => f.header :: f.bodies).map ended) := by
  refine areLines_map_ended fun s hs => ?_
  obtain ⟨f, -, hs⟩ := List.mem_flatMap.mp hs
  rcases List.mem_cons.mp hs with rfl | hs
  · exact (printable_header f).unbroken.not_mem
  · exact (bodies_ok hs).1

/-- The lines of a diff are those of its files. -/
theorem lines_render (files : List File) :
    Text.lines (render files) = (files.flatMap fun f => f.header :: f.bodies).map ended := by
  rw [render_eq, Text.lines_flatten (areLines_render files)]

theorem cutBlocks_render (files : List File) :
    DiffFilter.cutBlocks (Text.lines (render files)) = ([], files.map File.block) := by
  have hlines : (files.flatMap fun f => f.header :: f.bodies).map ended =
      DiffFilter.joinBlocks [] (files.map File.block) := by
    rw [DiffFilter.joinBlocks, List.nil_append, List.map_flatMap, List.flatMap_map]
    rfl
  rw [lines_render, hlines]
  refine DiffFilter.cutBlocks_joinBlocks (by simp) fun b hb => ?_
  obtain ⟨f, -, rfl⟩ := List.mem_map.mp hb
  exact wellCut_block f

/-- The path in the header of the file is read as it is meant. -/
def File.HeaderRead (f : File) : Prop := DiffFilter.headerTarget f.header = .ok f.newPath

/-- **The blocks of a diff** are those of its files, whatever their lines say. -/
theorem splitFileBlocks_render {files : List File} (h : ∀ f ∈ files, f.HeaderRead) :
    DiffFilter.splitFileBlocks (render files) =
      .ok (files.map fun f => (f.newPath, f.block.text)) := by
  have ht : DiffFilter.withTargets (files.map File.block) =
      .ok (files.map fun f => (f.newPath, f.block.text)) := by
    unfold DiffFilter.withTargets
    induction files with
    | nil => rfl
    | cons f files ih =>
      have hf : DiffFilter.headerTarget (DiffFilter.headerText f.block.header) = .ok f.newPath := by
        rw [File.block, headerText_header]
        exact h f List.mem_cons_self
      rw [List.map_cons, List.mapM_cons, hf, ih fun f hf => h f (List.mem_cons_of_mem _ hf)]
      rfl
  rw [DiffFilter.splitFileBlocks, cutBlocks_render, ht]
  rfl

theorem text_block (f : File) : f.block.text = ((f.header :: f.bodies).map ended).flatten := rfl

/-- The lines of a block as the code sees them. -/
theorem splitlines_block (f : File) : f.block.text.splitlines =
    (f.header :: f.bodies).flatMap fun s => Text.splitlines (ended s) := by
  rw [text_block, splitlines_flatten]

/-! ## Names without special characters -/

/-- The name has printable ASCII characters only, and no blank, quote or backslash. -/
def SimpleName (path : Text) : Prop :=
  ∀ c ∈ path, 33 ≤ c.toNat ∧ c.toNat < 127 ∧ c ≠ '\'' ∧ c ≠ '"' ∧ c ≠ '\\'

instance (path : Text) : Decidable (SimpleName path) :=
  inferInstanceAs (Decidable (∀ c ∈ path, _))

theorem SimpleName.quotePath_eq {path : Text} (h : SimpleName path) : quotePath path = path := by
  have hall : path.all isPlainPathChar = true := by
    rw [List.all_eq_true]
    intro c hc
    obtain ⟨h₁, h₂, -, h₄, h₅⟩ := h c hc
    simp only [isPlainPathChar, Bool.and_eq_true, decide_eq_true_eq, bne_iff_ne]
    exact ⟨⟨⟨by omega, h₂⟩, h₄⟩, h₅⟩
  rw [quotePath, if_pos hall]

/-- The text is one word for `shlex`, and stays as it is. -/
def Bare (s : Text) : Prop :=
  ∀ c ∈ s, Text.isShlexSpace c = false ∧ Text.isQuote c = false ∧ c ≠ '\\'

instance (s : Text) : Decidable (Bare s) := inferInstanceAs (Decidable (∀ c ∈ s, _))

theorem Bare.cons {c : Char} {s : Text} (hc : Bare [c]) (h : Bare s) : Bare (c :: s) := by
  intro d hd
  rcases List.mem_cons.mp hd with rfl | hd
  · exact hc d List.mem_cons_self
  · exact h d hd

theorem Bare.tail {c : Char} {s : Text} (h : Bare (c :: s)) : Bare s :=
  fun d hd => h d (List.mem_cons_of_mem _ hd)

theorem SimpleName.bare {s : Text} (h : SimpleName s) : Bare s := by
  intro c hc
  obtain ⟨h₁, h₂, h₃, h₄, h₅⟩ := h c hc
  refine ⟨?_, by simp [Text.isQuote, h₃, h₄], h₅⟩
  have hne : ∀ d : Char, d.toNat < 33 → c ≠ d := by
    rintro d hd rfl
    omega
  simp [Text.isShlexSpace, hne ' ' (by decide), hne '\t' (by decide), hne '\r' (by decide),
    hne '\n' (by decide)]

theorem SimpleName.tail {c : Char} {s : Text} (h : SimpleName (c :: s)) : SimpleName s :=
  fun d hd => h d (List.mem_cons_of_mem _ hd)

theorem Bare.shlexFrom_word {s : Text} (h : Bare s) (token rest : Text) :
    Text.shlexFrom .word token false (s ++ rest) =
      Text.shlexFrom .word (token ++ s) false rest := by
  induction s generalizing token with
  | nil => rw [List.nil_append, List.append_nil]
  | cons c s ih =>
    obtain ⟨hspace, hquote, hslash⟩ := h c List.mem_cons_self
    rw [List.cons_append, Text.shlexFrom, if_neg (by simp [hspace]), if_neg (by simp [hquote]),
      if_neg hslash, ih h.tail, List.append_assoc]
    rfl

/-- A word, and the rest of the words. -/
theorem Bare.shlexFrom_blank {c : Char} {s : Text} (h : Bare (c :: s)) (rest : Text) :
    Text.shlexFrom .blank [] false (c :: s ++ rest) = Text.shlexFrom .word (c :: s) false rest := by
  obtain ⟨hspace, hquote, hslash⟩ := h c List.mem_cons_self
  rw [List.cons_append, Text.shlexFrom, if_neg (by simp [hspace]), if_neg hslash,
    if_neg (by simp [hquote]), h.tail.shlexFrom_word]
  rfl

theorem shlexFrom_blank_after {token : Text} (h : token ≠ []) (rest : Text) :
    Text.shlexFrom .word token false (' ' :: rest) =
      (Text.shlexFrom .blank [] false rest).map (token :: ·) := by
  rw [Text.shlexFrom, if_pos (by decide), if_pos (.inl h)]

theorem SimpleName.decodeGitPath_eq {path : Text} (h : SimpleName path) :
    DiffFilter.decodeGitPath path = .ok path := by
  have hbytes : ∀ s : Text, SimpleName s →
      DiffFilter.decodeGitBytes s = .ok (s.map Char.toNat) := by
    intro s hs
    fun_induction DiffFilter.decodeGitBytes s with
    | case1 => rfl
    | case2 a b c s ho hlt ih => exact absurd rfl (hs '\\' List.mem_cons_self).2.2.2.2
    | case3 a b c s ho hlt => exact absurd rfl (hs '\\' List.mem_cons_self).2.2.2.2
    | case4 a b c s ho ih => exact absurd rfl (hs '\\' List.mem_cons_self).2.2.2.2
    | case5 c s hne ih =>
      have hc := (hs c List.mem_cons_self).2.1
      have hutf : Text.utf8 c = [c.toNat] := by
        unfold Text.utf8
        dsimp only
        rw [if_pos (by omega)]
      rw [ih hs.tail, hutf]
      rfl
  have hdecode : ∀ s : Text, SimpleName s → Text.decodeUtf8 (s.map Char.toNat) = s := by
    intro s hs
    induction s with
    | nil => rfl
    | cons c s ih =>
      have hc := (hs c List.mem_cons_self).2.1
      have hstart : Text.startSequence c.toNat = ([c], none) := by
        unfold Text.startSequence
        rw [if_pos (by omega), Char.ofNat_toNat]
      rw [List.map_cons, Text.decodeUtf8, Text.decodeFrom, Text.nextByte, hstart]
      exact congrArg (c :: ·) (ih hs.tail)
  rw [DiffFilter.decodeGitPath, hbytes path h]
  exact congrArg Except.ok (hdecode path h)

theorem SimpleName.cons {c : Char} {path : Text} (hc : SimpleName [c]) (h : SimpleName path) :
    SimpleName (c :: path) := by
  intro d hd
  rcases List.mem_cons.mp hd with rfl | hd
  · exact hc d List.mem_cons_self
  · exact h d hd

/-- Four words, with blanks between them. -/
theorem shlexSplit_words {a b c d : Char} {s t u v : Text} (hs : Bare (a :: s))
    (ht : Bare (b :: t)) (hu : Bare (c :: u)) (hv : Bare (d :: v)) :
    Text.shlexSplit (a :: s ++ ' ' :: (b :: t ++ ' ' :: (c :: u ++ ' ' :: (d :: v ++ [])))) =
      some [a :: s, b :: t, c :: u, d :: v] := by
  have hlast : Text.shlexFrom .word (d :: v) false [] = some [d :: v] := by
    rw [Text.shlexFrom, if_pos (.inl (List.cons_ne_nil _ _))]
  rw [Text.shlexSplit, hs.shlexFrom_blank, shlexFrom_blank_after (List.cons_ne_nil _ _),
    ht.shlexFrom_blank, shlexFrom_blank_after (List.cons_ne_nil _ _), hu.shlexFrom_blank,
    shlexFrom_blank_after (List.cons_ne_nil _ _), hv.shlexFrom_blank, hlast]
  rfl

/-- **Simple names** are read as they are meant. -/
theorem headerRead_of_simpleName {f : File} (ho : SimpleName f.oldPath)
    (hn : SimpleName f.newPath) :
    f.HeaderRead := by
  have ha : SimpleName ('a' :: '/' :: f.oldPath) :=
    SimpleName.cons (by decide) (.cons (by decide) ho)
  have hb : SimpleName ('b' :: '/' :: f.newPath) :=
    SimpleName.cons (by decide) (.cons (by decide) hn)
  have hheader : f.header = 'd' :: "iff".toList ++ ' ' :: ('-' :: "-git".toList ++ ' ' ::
      ('a' :: '/' :: f.oldPath ++ ' ' :: ('b' :: '/' :: f.newPath ++ []))) := by
    have hsplit : f.header = "diff --git ".toList ++ (quotePath ('a' :: '/' :: f.oldPath) ++ ' ' ::
        quotePath ('b' :: '/' :: f.newPath)) := List.append_assoc _ _ _
    rw [hsplit, ha.quotePath_eq, hb.quotePath_eq, List.append_nil]
    rfl
  have hwords : Text.shlexSplit f.header = some ['d' :: "iff".toList, '-' :: "-git".toList,
      'a' :: '/' :: f.oldPath, 'b' :: '/' :: f.newPath] :=
    hheader ▸ shlexSplit_words (by decide) (by decide) ha.bare hb.bare
  have htarget : Text.startsWith ('b' :: '/' :: f.newPath) "b/".toList = true := by
    rw [Text.startsWith]
    rfl
  unfold File.HeaderRead DiffFilter.headerTarget
  rw [hwords]
  simp only
  rw [if_pos ⟨rfl, rfl⟩, hb.decodeGitPath_eq]
  simp only [Except.map, htarget, if_true]
  rfl

/-! ## Hunk headers -/

/-- The start of a range is read, and its count is passed. -/
theorem number_range (start count : Nat) (t : Text) :
    ∃ rest, Text.number (range start count ++ ' ' :: t) = some (start, rest) ∧
      DiffFilter.dropCount rest = ' ' :: t := by
  have hblank : ∀ c ∈ (' ' :: t).head?, Text.digit? c = none := by
    intro c hc
    obtain rfl := Option.mem_some_iff.mp hc
    rfl
  unfold range
  split
  · exact ⟨' ' :: t, Text.number_ofNat start hblank, rfl⟩
  · refine ⟨',' :: (Text.ofNat count ++ ' ' :: t), ?_, ?_⟩
    · rw [List.append_assoc, List.cons_append]
      refine Text.number_ofNat start fun c hc => ?_
      obtain rfl := Option.mem_some_iff.mp hc
      rfl
    · rw [DiffFilter.dropCount, Text.number_ofNat count hblank]

/-- **A hunk header** gives the numbers that the hunk starts with, whatever its heading says. -/
theorem fullHunkHeader_header (h : Hunk) :
    DiffFilter.fullHunkHeader h.header = some (h.oldStart, h.newStart) := by
  obtain ⟨heading, hheading⟩ : ∃ t, h.header = h.ranges ++ t := ⟨_, rfl⟩
  have hold : h.header = "@@ -".toList ++ (range h.oldStart h.oldCount ++ ' ' :: ("+".toList ++
      (range h.newStart h.newCount ++ ' ' :: ("@@".toList ++ heading)))) := by
    rw [hheading, Hunk.ranges]
    simp only [List.append_assoc]
    rfl
  obtain ⟨r, hr, hc⟩ := number_range h.oldStart h.oldCount
    ("+".toList ++ (range h.newStart h.newCount ++ ' ' :: ("@@".toList ++ heading)))
  obtain ⟨r', hr', hc'⟩ := number_range h.newStart h.newCount ("@@".toList ++ heading)
  have hplus : ∀ t : Text, Text.dropStart? " +".toList (' ' :: ("+".toList ++ t)) = some t :=
    fun t => Text.dropStart?_append " +".toList t
  have hat : ∀ t : Text, Text.dropStart? " @@".toList (' ' :: ("@@".toList ++ t)) = some t :=
    fun t => Text.dropStart?_append " @@".toList t
  unfold DiffFilter.fullHunkHeader
  simp only [hold, Text.dropStart?_append, hr, hc, hplus, hr', hc', hat, bind, Option.bind, pure]

theorem startsWith_header (h : Hunk) : h.header.startsWith "@@".toList = true := rfl

end Unified
