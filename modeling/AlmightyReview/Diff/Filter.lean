import AlmightyReview.Diff.Blocks

/-!
# Filtering a diff

What `filter_reviewable` leaves of a diff is again a diff, whose blocks are the ones that were
kept.

* `filteredText`: the text that is left. It is cut into the kept blocks (`pathBlocks_filtered`),
  whatever the diff looks like: what stands before the first header, a last line without its end
  and lines that resemble headers included.
* `changedLinesAtLimit`: `changed_lines` with the limit of the interpreter's `int`, which refuses
  a number of more than 4300 digits.
* `Restricts diff`: filtering the diff is a restriction. It is one exactly when all headers are
  readable and no number that `int` is given is too long (`restricts_iff`).
-/

namespace DiffFilter

/-! ## What is left -/

/-- The block is not noise. -/
def isKept (b : Text × Text) : Bool := !isNoise b.1

/-- The text that `filter_reviewable` leaves, when the diff is cut. -/
def filteredText (diff : Text) : Text := (((pathBlocks diff).filter isKept).map Prod.snd).flatten

/-- The kept blocks, with their headers. -/
def keptBlocks (diff : Text) : List Block := (blocksOf diff).filter fun b => !isNoise b.path

theorem filterReviewable_ok {diff : Text} (h : Decodes diff) :
    filterReviewable diff = .ok (filteredText diff) := by
  rw [filterReviewable, splitFileBlocks_ok h]
  rfl

theorem filter_preamble (ls : List Text) : (preamble ls).filter isKept = preamble ls := by
  unfold preamble
  split <;> rfl

theorem filter_pathBlocks (diff : Text) :
    (pathBlocks diff).filter isKept = preamble (cutBlocks (Text.lines diff)).1 ++
      (keptBlocks diff).map fun b => (b.path, b.text) := by
  rw [pathBlocks, List.filter_append, filter_preamble, List.filter_map]
  rfl

theorem filteredText_eq (diff : Text) :
    filteredText diff =
      (joinBlocks (cutBlocks (Text.lines diff)).1 (keptBlocks diff)).flatten := by
  have hpre : ((preamble (cutBlocks (Text.lines diff)).1).map Prod.snd).flatten =
      (cutBlocks (Text.lines diff)).1.flatten := by
    unfold preamble
    split
    · rename_i h
      rw [h]
      rfl
    · simp
  have hblocks : ((keptBlocks diff).map fun b => b.text).flatten =
      ((keptBlocks diff).flatMap Block.lines).flatten := by
    rw [List.flatMap_def, List.flatten_flatten, List.map_map]
    rfl
  rw [filteredText, filter_pathBlocks, List.map_append, List.flatten_append, hpre, List.map_map,
    joinBlocks, List.flatten_append, ← hblocks]
  rfl

/-- The text that is left is cut where the diff is. -/
theorem cutBlocks_filtered (diff : Text) :
    cutBlocks (Text.lines (filteredText diff)) =
      ((cutBlocks (Text.lines diff)).1, keptBlocks diff) := by
  rw [filteredText_eq]
  exact cutBlocks_sublist diff _ _ (List.Sublist.refl _) List.filter_sublist

theorem blocksOf_filtered (diff : Text) : blocksOf (filteredText diff) = keptBlocks diff := by
  rw [blocksOf, cutBlocks_filtered]

/-- **The blocks that are left** are those that are not noise. -/
theorem pathBlocks_filtered (diff : Text) :
    pathBlocks (filteredText diff) = (pathBlocks diff).filter isKept := by
  rw [pathBlocks, blocksOf_filtered, cutBlocks_filtered, filter_pathBlocks]

theorem Decodes.filtered {diff : Text} (h : Decodes diff) : Decodes (filteredText diff) := by
  intro b hb
  rw [blocksOf_filtered] at hb
  exact h b (List.mem_of_mem_filter hb)

theorem filteredText_filtered (diff : Text) :
    filteredText (filteredText diff) = filteredText diff := by
  rw [filteredText, pathBlocks_filtered, List.filter_filter, filteredText]
  simp only [Bool.and_self]

/-! ## Added lines -/

/-- The digits of the number that `int` is given for a hunk header. -/
def startDigits (line : Text) : Option (List Nat) := do
  let s ← Text.dropStart? "@@ -".toList line
  let (_, s) ← Text.number s
  let s ← Text.dropStart? " +".toList (dropCount s)
  let (_, rest) ← Text.number s
  let _ ← Text.dropStart? " @@".toList (dropCount rest)
  pure (Text.digits s).1

/-- `int` reads the number of the line, if it is a hunk header. -/
def NumberFits (line : Text) : Prop := ∀ ds ∈ startDigits line, ds.length ≤ 4300

instance : DecidablePred NumberFits := fun line =>
  decidable_of_iff ((startDigits line).all (·.length ≤ 4300) = true) (by
    unfold NumberFits
    cases startDigits line <;> simp)

/-- `int` reads the numbers of the blocks that have a path. -/
def NumbersFit (blocks : List (Text × Text)) : Prop :=
  ∀ b ∈ blocks, b.1 ≠ [] → ∀ line ∈ Text.splitlines b.2, NumberFits line

instance (blocks : List (Text × Text)) : Decidable (NumbersFit blocks) := by
  unfold NumbersFit
  infer_instance

/-- `changed_lines`, with the limit of `int`. -/
def changedLinesAtLimit (diff : Text) : Except Exc (SetDict Text Nat) := do
  let blocks ← splitFileBlocks diff
  if NumbersFit blocks then pure (blocks.foldl addBlock .empty)
  else .error (.valueError "Exceeds the limit (4300 digits) for integer string conversion".toList)

theorem changedLinesAtLimit_ok {diff : Text} (h : Decodes diff)
    (hfit : NumbersFit (pathBlocks diff)) :
    changedLinesAtLimit diff = .ok ((pathBlocks diff).foldl addBlock .empty) := by
  rw [changedLinesAtLimit, splitFileBlocks_ok h]
  exact if_pos hfit

/-- Within the limit, it is `changedLines`. -/
theorem changedLinesAtLimit_eq {diff : Text} (h : Decodes diff)
    (hfit : NumbersFit (pathBlocks diff)) : changedLinesAtLimit diff = changedLines diff := by
  rw [changedLinesAtLimit_ok h hfit, changedLines, splitFileBlocks_ok h]
  rfl

theorem numbersFit_of_ok {diff : Text} {d : SetDict Text Nat} (h : Decodes diff)
    (hd : changedLinesAtLimit diff = .ok d) : NumbersFit (pathBlocks diff) := by
  rw [changedLinesAtLimit, splitFileBlocks_ok h] at hd
  by_contra hfit
  have herr := hd.symm.trans (if_neg hfit)
  cases herr

theorem NumbersFit.filter {blocks : List (Text × Text)} (h : NumbersFit blocks)
    (p : Text × Text → Bool) : NumbersFit (blocks.filter p) :=
  fun b hb => h b (List.mem_of_mem_filter hb)

theorem get?_addBlock (d : SetDict Text Nat) (b : Text × Text) {path : Text} (h : b.1 ≠ path) :
    (addBlock d b).get? path = d.get? path := by
  unfold addBlock
  split
  · rfl
  · rw [SetDict.get?_add, if_neg (Ne.symm h)]

/-- The lines of a path depend on the blocks of that path only. -/
theorem get?_foldl_filter (keep : Text → Bool) (blocks : List (Text × Text)) (path : Text)
    (d d' : SetDict Text Nat) (hd : keep path = true → d'.get? path = d.get? path) :
    ((blocks.filter fun b => keep b.1).foldl addBlock d').get? path =
      if keep path then (blocks.foldl addBlock d).get? path else d'.get? path := by
  induction blocks generalizing d d' with
  | nil =>
    split
    · rename_i hk
      exact hd hk
    · rfl
  | cons b blocks ih =>
    rw [List.foldl_cons, List.filter_cons]
    by_cases hb : keep b.1 = true
    · rw [if_pos hb, List.foldl_cons, ih (addBlock d b)]
      · by_cases hk : keep path = true
        · rw [if_pos hk, if_pos hk]
        · rw [if_neg hk, if_neg hk]
          exact get?_addBlock d' b fun he => hk (he ▸ hb)
      · intro hk
        by_cases hp : b.1 = path
        · subst hp
          unfold addBlock
          split
          · exact hd hk
          · rw [SetDict.get?_add, SetDict.get?_add, hd hk]
        · rw [get?_addBlock d' b hp, get?_addBlock d b hp, hd hk]
    · rw [if_neg hb, ih (addBlock d b)]
      intro hk
      rw [get?_addBlock d b fun he => hb (he ▸ hk), hd hk]

/-! ## Filtering is a restriction -/

/-- **Filtering as a restriction.** The blocks of the diff join to it, the blocks of what is left
are those that are not noise, nothing more is filtered out of it, and its added lines are those of
the paths that are not noise. -/
structure Restricts (diff : Text) : Prop where
  joined : ∃ blocks, splitFileBlocks diff = .ok blocks ∧ (blocks.map Prod.snd).flatten = diff
  resplit : ∃ blocks kept, splitFileBlocks diff = .ok blocks ∧ filterReviewable diff = .ok kept ∧
    splitFileBlocks kept = .ok (blocks.filter isKept)
  idempotent : ∃ kept, filterReviewable diff = .ok kept ∧ filterReviewable kept = .ok kept
  changed : ∃ kept all some, filterReviewable diff = .ok kept ∧
    changedLinesAtLimit diff = .ok all ∧ changedLinesAtLimit kept = .ok some ∧
    ∀ path, some.get? path = if isNoise path then none else all.get? path

/-- Filtering is a restriction exactly when `split_file_blocks` reads every header and `int` every
number it is given. -/
theorem restricts_iff (diff : Text) :
    Restricts diff ↔ Decodes diff ∧ NumbersFit (pathBlocks diff) := by
  constructor
  · intro h
    obtain ⟨blocks, hb, -⟩ := h.joined
    have hdec : Decodes diff := (splitFileBlocks_ok_iff diff).mp ⟨blocks, hb⟩
    obtain ⟨_, all, _, -, hall, -⟩ := h.changed
    exact ⟨hdec, numbersFit_of_ok hdec hall⟩
  · rintro ⟨h, hfit⟩
    have hkept : NumbersFit (pathBlocks (filteredText diff)) := by
      rw [pathBlocks_filtered]
      exact hfit.filter _
    refine ⟨⟨_, splitFileBlocks_ok h, flatten_pathBlocks diff⟩,
      ⟨_, _, splitFileBlocks_ok h, filterReviewable_ok h, ?_⟩,
      ⟨_, filterReviewable_ok h, ?_⟩,
      ⟨_, _, _, filterReviewable_ok h, changedLinesAtLimit_ok h hfit,
        changedLinesAtLimit_ok h.filtered hkept, fun path => ?_⟩⟩
    · rw [splitFileBlocks_ok h.filtered, pathBlocks_filtered]
    · rw [filterReviewable_ok h.filtered, filteredText_filtered]
    · rw [pathBlocks_filtered]
      refine (get?_foldl_filter (fun path => !isNoise path) (pathBlocks diff) path .empty
        .empty fun _ => rfl).trans ?_
      cases isNoise path <;> rfl

/-- A header whose path has an octal escape of more than one byte: nothing is filtered. -/
theorem not_restricts_largeEscape : ¬∀ diff, Restricts diff := by
  intro h
  obtain ⟨blocks, hb, -⟩ := (h "diff --git \"a/x\" \"b/\\777\"\n".toList).joined
  have herr : (splitFileBlocks "diff --git \"a/x\" \"b/\\777\"\n".toList).toOption = none := by
    decide +kernel
  rw [hb] at herr
  cases herr

end DiffFilter
