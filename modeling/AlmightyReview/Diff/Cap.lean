import AlmightyReview.Diff.Chunk

/-!
# The budget of a chunk

How long the chunks of `chunkRecordsByBudget` are.

* A piece of an oversized block is a file header, a hunk header and lines. Its lines are gathered
  while the piece fits, and a line that does not fit alone is cut (`truncateUnitToBudget`); the
  headers are never cut.
* `HunkLine.headerWidth`: the characters of the hunk header of a line that stands alone. It grows
  with the line's numbers, and the room that `syntheticDiffPrefix` leaves for it does not.
* `chunks_capped_iff`: all chunks fit the budget exactly when these headers do (`HeadersFit`).
-/

namespace DiffFilter

/-! ## Widths -/

/-- The decimal digits of a number. -/
def width (n : Nat) : Nat := (Text.ofNat n).length

theorem width_pos (n : Nat) : 0 < width n := Nat.length_toDigits_pos

theorem width_le_iff {n k : Nat} (hk : 0 < k) : width n ≤ k ↔ n < 10 ^ k :=
  Nat.length_toDigits_le_iff (by decide) hk

theorem lt_pow_width (n : Nat) : n < 10 ^ width n := (width_le_iff (width_pos n)).mp le_rfl

theorem width_mono {m n : Nat} (h : m ≤ n) : width m ≤ width n :=
  (width_le_iff (width_pos n)).mpr (lt_of_le_of_lt h (lt_pow_width n))

theorem width_add_le (m n : Nat) : width (m + n) ≤ width m + width n := by
  have hm := lt_pow_width m
  have hn := lt_pow_width n
  have hm1 : 1 ≤ 10 ^ width m := Nat.one_le_pow _ _ (by decide)
  have hn1 : 1 ≤ 10 ^ width n := Nat.one_le_pow _ _ (by decide)
  rw [width_le_iff (Nat.add_pos_left (width_pos m) _), Nat.pow_add]
  calc m + n < m + 10 ^ width n := by omega
    _ ≤ m * 10 ^ width n + 10 ^ width n := by
        have := Nat.le_mul_of_pos_right m hn1
        omega
    _ = (m + 1) * 10 ^ width n := by rw [Nat.add_mul, Nat.one_mul]
    _ ≤ 10 ^ width m * 10 ^ width n := Nat.mul_le_mul_right _ hm

theorem width_of_le_one {n : Nat} (h : n ≤ 1) : width n = 1 := by
  have h₁ := width_pos n
  have h₂ : width n ≤ 1 := (width_le_iff Nat.one_pos).mpr (by omega)
  omega

theorem length_hunkHeaderText (first : HunkLine) (units : List HunkLine) :
    (hunkHeaderText first units).length = 22 + width first.oldNo +
      width (units.map HunkLine.oldCount).sum + width first.newNo +
      width (units.map HunkLine.newCount).sum := by
  have h₁ : "@@ -".toList.length = 4 := by decide
  have h₂ : ",".toList.length = 1 := by decide
  have h₃ : " +".toList.length = 2 := by decide
  have h₄ : " @@ continued\n".toList.length = 14 := by decide
  unfold hunkHeaderText width
  generalize "@@ -".toList = a at h₁ ⊢
  generalize ",".toList = b at h₂ ⊢
  generalize " +".toList = c at h₃ ⊢
  generalize " @@ continued\n".toList = d at h₄ ⊢
  simp only [List.length_append, h₁, h₂, h₃, h₄]
  omega

/-! ## Units -/

/-- A line of a hunk counts at most once on each side, and it has a text. -/
structure HunkLine.Single (u : HunkLine) : Prop where
  oldCount : u.oldCount ≤ 1
  newCount : u.newCount ≤ 1
  text : u.text ≠ []

theorem single_unitsFrom {no : Option (Nat × Nat)} {ls : List Text} (h : ∀ l ∈ ls, l ≠ []) :
    ∀ u ∈ unitsFrom no ls, u.Single := by
  have hl : ∀ {line : Text} {ls : List Text}, (∀ l ∈ line :: ls, l ≠ []) → ∀ l ∈ ls, l ≠ [] :=
    fun h l hl => h l (List.mem_cons_of_mem _ hl)
  fun_induction unitsFrom no ls with
  | case1 => simp
  | case2 no line ls hh ih => exact ih (hl h)
  | case3 line ls hh ih => exact ih (hl h)
  | case4 line ls hh o n ha ih =>
    intro u hu
    rcases List.mem_cons.mp hu with rfl | hu
    · exact ⟨Nat.zero_le 1, le_rfl, h line List.mem_cons_self⟩
    · exact ih (hl h) u hu
  | case5 line ls hh o n ha hd ih =>
    intro u hu
    rcases List.mem_cons.mp hu with rfl | hu
    · exact ⟨le_rfl, Nat.zero_le 1, h line List.mem_cons_self⟩
    · exact ih (hl h) u hu
  | case6 line ls hh o n ha hd hs ih =>
    intro u hu
    rcases List.mem_cons.mp hu with rfl | hu
    · exact ⟨le_rfl, le_rfl, h line List.mem_cons_self⟩
    · exact ih (hl h) u hu
  | case7 line ls hh o n ha hd hs ih => exact ih (hl h)

theorem single_hunkLineUnits (text : Text) : ∀ u ∈ hunkLineUnits text, u.Single :=
  single_unitsFrom fun _ hl => Text.ne_nil_of_mem_splitlinesKeep hl

/-- The hunk header of a piece that is this line alone. -/
def HunkLine.headerWidth (u : HunkLine) : Nat := 24 + width u.oldNo + width u.newNo

theorem length_render_cons (head : Text) (first : HunkLine) (units : List HunkLine) :
    (renderHunkPiece head (first :: units)).length = head.length + (22 + width first.oldNo +
      width ((first :: units).map HunkLine.oldCount).sum + width first.newNo +
      width ((first :: units).map HunkLine.newCount).sum) +
      ((first :: units).map HunkLine.text).flatten.length := by
  simp only [renderHunkPiece, List.length_append, length_hunkHeaderText]

theorem length_render_single {u : HunkLine} (ho : u.oldCount ≤ 1) (hn : u.newCount ≤ 1)
    (head : Text) :
    (renderHunkPiece head [u]).length = head.length + u.headerWidth + u.text.length := by
  simp only [length_render_cons, List.map_cons, List.map_nil, List.sum_cons, List.sum_nil,
    List.flatten_cons, List.flatten_nil, List.append_nil, Nat.add_zero, width_of_le_one ho,
    width_of_le_one hn, HunkLine.headerWidth]
  omega

/-! ## A line that does not fit alone -/

section Fit

variable {head : Text} {budget : Nat}

/-- The room for the text of a line alone. -/
def roomFor (head : Text) (budget : Nat) (u : HunkLine) : Nat :=
  budget - (head.length + u.headerWidth)

theorem length_sigil {text : Text} (h : text ≠ []) : (sigil text).length = 1 := by
  obtain ⟨c, s, rfl⟩ := List.exists_cons_of_ne_nil h
  unfold sigil
  split
  · rfl
  · rfl

/-- A line that is cut, by the room for it. -/
theorem text_truncate {u : HunkLine} (h : u.Single) :
    (truncateUnitToBudget head u budget).text =
      if roomFor head budget u ≤ 1 then (sigil u.text).take (roomFor head budget u)
      else if roomFor head budget u ≤ 1 + truncationMarker.length then
        (sigil u.text ++ "…\n".toList).take (roomFor head budget u)
      else sigil u.text ++ rstripNewline ((u.text.drop 1).take
        (roomFor head budget u - 1 - truncationMarker.length)) ++ truncationMarker := by
  have hpos : u.text.length ≠ 0 := fun h0 => h.text (List.length_eq_zero_iff.mp h0)
  have hheader : (dropEnd (renderHunkPiece head [u]) u.text.length).length =
      head.length + u.headerWidth := by
    have hr := length_render_single h.oldCount h.newCount head
    rw [dropEnd, if_neg hpos, List.length_take, hr]
    omega
  unfold truncateUnitToBudget
  simp only [hheader, length_sigil h.text, roomFor]
  rfl

theorem length_rstripNewline_le (s : Text) : (rstripNewline s).length ≤ s.length := by
  have h := (List.dropWhile_sublist (fun c : Char => c == '\n') (l := s.reverse)).length_le
  rw [List.length_reverse] at h
  rwa [rstripNewline, List.length_reverse]

/-- What is left of the line fits the room. -/
theorem length_truncate_le {u : HunkLine} (h : u.Single) :
    (truncateUnitToBudget head u budget).text.length ≤ roomFor head budget u := by
  rw [text_truncate h]
  split
  · rw [List.length_take]
    exact Nat.min_le_left _ _
  split
  · rw [List.length_take]
    exact Nat.min_le_left _ _
  · have hl := length_rstripNewline_le ((u.text.drop 1).take
      (roomFor head budget u - 1 - truncationMarker.length))
    rw [List.length_take] at hl
    rw [List.length_append, List.length_append, length_sigil h.text]
    omega

/-- Nothing is left of the line only when there is no room. -/
theorem truncate_ne_nil {u : HunkLine} (h : u.Single) (hroom : 0 < roomFor head budget u) :
    (truncateUnitToBudget head u budget).text ≠ [] := by
  have hs := length_sigil h.text
  have hne : sigil u.text ≠ [] := fun h0 => by
    rw [h0] at hs
    cases hs
  rw [text_truncate h]
  split
  · rw [ne_eq, List.take_eq_nil_iff, not_or]
    exact ⟨by omega, hne⟩
  split
  · rw [ne_eq, List.take_eq_nil_iff, not_or]
    exact ⟨by omega, fun h0 => hne (List.append_eq_nil_iff.mp h0).1⟩
  · intro h0
    exact hne (List.append_eq_nil_iff.mp (List.append_eq_nil_iff.mp h0).1).1

theorem length_render_truncate {u : HunkLine} (h : u.Single) :
    (renderHunkPiece head [truncateUnitToBudget head u budget]).length =
      head.length + u.headerWidth + (truncateUnitToBudget head u budget).text.length :=
  length_render_single (u := truncateUnitToBudget head u budget) h.oldCount h.newCount head

/-- **A line alone.** Its piece fits exactly when the headers do. -/
theorem length_render_fitUnit_iff {u : HunkLine} (h : u.Single) :
    (renderHunkPiece head [fitUnit head budget u]).length ≤ budget ↔
      head.length + u.headerWidth ≤ budget := by
  have hr := length_render_single h.oldCount h.newCount head
  unfold fitUnit
  split
  · have ht : _ ≤ roomFor head budget u := length_truncate_le h
    rw [length_render_truncate h]
    unfold roomFor at ht
    omega
  · omega

end Fit

/-! ## The pieces of a block -/

section Split

variable {head : Text} {budget : Nat}

/-- The counts of the units lead from the first to the last. -/
def Linked (current : List HunkLine) : Prop :=
  ∀ first ∈ current.head?, ∀ last ∈ current.getLast?,
    last.oldNo + last.oldCount = first.oldNo + (current.map HunkLine.oldCount).sum ∧
      last.newNo + last.newCount = first.newNo + (current.map HunkLine.newCount).sum

theorem linked_nil : Linked [] := by simp [Linked]

theorem linked_single (u : HunkLine) : Linked [u] := by simp [Linked]

theorem Linked.append {current : List HunkLine} {u : HunkLine} (hl : Linked current)
    (hc : contiguous current u = true) : Linked (current ++ [u]) := by
  intro first hf last hlast
  rw [List.getLast?_concat, Option.mem_some_iff] at hlast
  subst hlast
  rw [List.map_append, List.map_append, List.sum_append, List.sum_append]
  cases hcur : current.getLast? with
  | none =>
    rw [List.getLast?_eq_none_iff] at hcur
    subst hcur
    obtain rfl : u = first := by simpa using hf
    simp
  | some last =>
    have hne : current ≠ [] := by
      rintro rfl
      cases hcur
    have hhead : first ∈ current.head? := by
      rwa [List.head?_append_of_ne_nil _ hne] at hf
    obtain ⟨ho, hn⟩ := hl first hhead last hcur
    simp only [contiguous, hcur, Bool.and_eq_true, beq_iff_eq] at hc
    simp only [List.map_cons, List.map_nil, List.sum_cons, List.sum_nil]
    omega

/-- A line that is put behind others makes the piece longer by its text at least. -/
theorem length_render_append {current : List HunkLine} (hne : current ≠ []) (u : HunkLine) :
    (renderHunkPiece head current).length + u.text.length ≤
      (renderHunkPiece head (current ++ [u])).length := by
  obtain ⟨first, rest, rfl⟩ := List.exists_cons_of_ne_nil hne
  have hmo := width_mono (Nat.le_add_right ((first :: rest).map HunkLine.oldCount).sum u.oldCount)
  have hmn := width_mono (Nat.le_add_right ((first :: rest).map HunkLine.newCount).sum u.newCount)
  have hsum : ∀ f : HunkLine → Nat,
      ((first :: rest ++ [u]).map f).sum = ((first :: rest).map f).sum + f u := by
    intro f
    rw [List.map_append, List.sum_append, List.map_singleton, List.sum_singleton]
  have happ := length_render_cons head first (rest ++ [u])
  rw [← List.cons_append, hsum, hsum, List.map_append, List.flatten_append,
    List.length_append, List.map_singleton, List.flatten_singleton] at happ
  rw [happ, length_render_cons]
  omega

/-- The headers of the last line of a piece, alone, are hardly longer than those of the piece. -/
theorem Linked.length_le {current : List HunkLine} {u : HunkLine} (hl : Linked current)
    (hne : current ≠ []) (hc : contiguous current u = true) :
    head.length + u.headerWidth + ((current ++ [u]).map HunkLine.text).flatten.length ≤
      (renderHunkPiece head (current ++ [u])).length + 2 := by
  obtain ⟨first, rest, rfl⟩ := List.exists_cons_of_ne_nil hne
  obtain ⟨last, hlast⟩ : ∃ last, (first :: rest).getLast? = some last :=
    ⟨_, List.getLast?_cons⟩
  obtain ⟨ho, hn⟩ := hl first rfl last hlast
  simp only [contiguous, hlast, Bool.and_eq_true, beq_iff_eq] at hc
  have hwo := width_add_le first.oldNo ((first :: rest).map HunkLine.oldCount).sum
  have hwn := width_add_le first.newNo ((first :: rest).map HunkLine.newCount).sum
  have hmo := width_mono (Nat.le_add_right ((first :: rest).map HunkLine.oldCount).sum u.oldCount)
  have hmn := width_mono (Nat.le_add_right ((first :: rest).map HunkLine.newCount).sum u.newCount)
  have hsum : ∀ f : HunkLine → Nat,
      ((first :: rest ++ [u]).map f).sum = ((first :: rest).map f).sum + f u := by
    intro f
    rw [List.map_append, List.sum_append, List.map_singleton, List.sum_singleton]
  have happ := length_render_cons head first (rest ++ [u])
  rw [← List.cons_append, hsum, hsum] at happ
  rw [← ho, hc.1.symm] at hwo
  rw [← hn, hc.2.symm] at hwn
  unfold HunkLine.headerWidth
  omega

/-- What holds of the units that were gathered: they follow one another, and some text is shown or
there is no room for any. -/
structure Gathered (head : Text) (budget : Nat) (current : List HunkLine) : Prop where
  linked : Linked current
  shown : current ≠ [] → (current.map HunkLine.text).flatten ≠ [] ∨
    budget ≤ (renderHunkPiece head current).length

theorem gathered_nil : Gathered head budget [] := ⟨linked_nil, fun h => absurd rfl h⟩

theorem gathered_single {u : HunkLine} (h : u.Single) : Gathered head budget [u] :=
  ⟨linked_single u, fun _ => .inl (by simpa using h.text)⟩

theorem gathered_fitUnit {u : HunkLine} (h : u.Single) :
    Gathered head budget [fitUnit head budget u] := by
  refine ⟨linked_single _, fun _ => ?_⟩
  unfold fitUnit
  split
  · by_cases hroom : 0 < roomFor head budget u
    · exact .inl (by simpa using truncate_ne_nil h hroom)
    · refine .inr ?_
      rw [length_render_truncate h]
      unfold roomFor at hroom
      omega
  · exact .inl (by simpa using h.text)

theorem Gathered.append {current : List HunkLine} {u : HunkLine}
    (hg : Gathered head budget current) (hc : contiguous current u = true) (h : u.Single) :
    Gathered head budget (current ++ [u]) :=
  ⟨hg.linked.append hc, fun _ => .inl (by simp [h.text])⟩

/-- A piece that fits has room for the headers of its last line, and it fits without this line. -/
theorem Gathered.fits {current : List HunkLine} {u : HunkLine}
    (hg : Gathered head budget current) (hc : contiguous current u = true) (h : u.Single)
    (hle : (renderHunkPiece head (current ++ [u])).length ≤ budget) :
    (current ≠ [] → (renderHunkPiece head current).length ≤ budget) ∧
      head.length + u.headerWidth ≤ budget := by
  have hu : 0 < u.text.length := List.length_pos_iff.mpr h.text
  by_cases hne : current = []
  · subst hne
    rw [List.nil_append, length_render_single h.oldCount h.newCount] at hle
    exact ⟨fun h0 => absurd rfl h0, by omega⟩
  · have happ : (renderHunkPiece head current).length + u.text.length ≤ _ :=
      length_render_append hne u
    refine ⟨fun _ => by omega, ?_⟩
    have hlen : head.length + u.headerWidth + _ ≤ _ := hg.linked.length_le hne hc
    rw [List.map_append, List.flatten_append, List.length_append, List.map_singleton,
      List.flatten_singleton] at hlen
    rcases hg.shown hne with hs | hs
    · have := List.length_pos_iff.mpr hs
      omega
    · omega

/-- All pieces fit the budget. -/
def AllFit (budget : Nat) (pieces : List (Text × SetDict Text Nat)) : Prop :=
  ∀ piece ∈ pieces, piece.1.length ≤ budget

theorem allFit_append {ps qs : List (Text × SetDict Text Nat)} :
    AllFit budget (ps ++ qs) ↔ AllFit budget ps ∧ AllFit budget qs := List.forall_mem_append

theorem allFit_flushUnits (path : Text) (current : List HunkLine) :
    AllFit budget (flushUnits path head current) ↔
      (current ≠ [] → (renderHunkPiece head current).length ≤ budget) := by
  unfold flushUnits AllFit
  cases current <;> simp

/-- **The pieces.** They fit exactly when what was gathered does, and the headers of each line to
come. -/
theorem allFit_splitUnits (path : Text) {current units : List HunkLine}
    (hg : Gathered head budget current) (hu : ∀ u ∈ units, u.Single) :
    AllFit budget (splitUnits path head budget current units) ↔
      (current ≠ [] → (renderHunkPiece head current).length ≤ budget) ∧
        ∀ u ∈ units, head.length + u.headerWidth ≤ budget := by
  have hflush : ∀ {current : List HunkLine} {u : HunkLine} {units : List HunkLine}
      {pieces : List (Text × SetDict Text Nat)},
      (AllFit budget pieces ↔ head.length + u.headerWidth ≤ budget ∧
        ∀ u ∈ units, head.length + u.headerWidth ≤ budget) →
      (AllFit budget (flushUnits path head current ++ pieces) ↔
        (current ≠ [] → (renderHunkPiece head current).length ≤ budget) ∧
          ∀ v ∈ u :: units, head.length + v.headerWidth ≤ budget) := by
    intro current u units pieces h
    rw [allFit_append, allFit_flushUnits, h, List.forall_mem_cons]
  fun_induction splitUnits path head budget current units with
  | case1 current =>
    rw [allFit_flushUnits]
    simp
  | case2 current u units hc hle ih =>
    have h := hu u List.mem_cons_self
    obtain ⟨hcur, hfit⟩ := hg.fits hc h hle
    refine (ih (hg.append hc h) fun v hv => hu v (List.mem_cons_of_mem _ hv)).trans ?_
    rw [List.forall_mem_cons]
    constructor
    · rintro ⟨-, hall⟩
      exact ⟨hcur, hfit, hall⟩
    · rintro ⟨-, -, hall⟩
      exact ⟨fun _ => hle, hall⟩
  | case3 current u units hc hle ih =>
    have h := hu u List.mem_cons_self
    refine hflush ?_
    refine (ih (gathered_fitUnit h) fun v hv => hu v (List.mem_cons_of_mem _ hv)).trans ?_
    rw [← length_render_fitUnit_iff h]
    simp
  | case4 current u units hc hle ih =>
    have h := hu u List.mem_cons_self
    refine hflush ?_
    refine (ih (gathered_single h) fun v hv => hu v (List.mem_cons_of_mem _ hv)).trans ?_
    rw [length_render_single h.oldCount h.newCount] at hle
    refine and_congr_left fun _ => iff_of_true (fun _ => ?_) (by omega)
    rw [length_render_single h.oldCount h.newCount]
    exact hle
  | case5 current u units hc hle ih =>
    have h := hu u List.mem_cons_self
    refine hflush ?_
    refine (ih (gathered_fitUnit h) fun v hv => hu v (List.mem_cons_of_mem _ hv)).trans ?_
    rw [← length_render_fitUnit_iff h]
    simp

/-- The headers of the pieces of a block fit: it is not cut, it has no line of a hunk, the budget
leaves no room for one, or it leaves room for the hunk header of each of its lines. -/
def BlockFits (budget : Nat) (b : Text × Text) : Prop :=
  budget < b.2.length → (syntheticDiffPrefix b.1 budget).length + 28 < budget →
    ∀ u ∈ hunkLineUnits b.2, (syntheticDiffPrefix b.1 budget).length + u.headerWidth ≤ budget

theorem allFit_splitOversizedBlock {path text : Text} (hlong : budget < text.length) :
    AllFit budget (splitOversizedBlock path text budget) ↔ BlockFits budget (path, text) := by
  unfold splitOversizedBlock BlockFits
  simp only
  split
  · rename_i h
    refine iff_of_true ?_ fun _ hroom u hu => ?_
    · intro piece hp
      rw [List.mem_singleton.mp hp, List.length_take]
      exact Nat.min_le_left _ _
    · rcases h with h | h
      · rw [List.isEmpty_iff.mp h] at hu
        cases hu
      · omega
  · rename_i h
    rw [not_or] at h
    rw [allFit_splitUnits path gathered_nil (single_hunkLineUnits text)]
    exact ⟨fun hall _ _ => hall.2, fun hall => ⟨fun h0 => absurd rfl h0, hall hlong (by omega)⟩⟩

theorem allFit_piecesOf {b : Text × Text} {pieces : List (Text × SetDict Text Nat)}
    (h : piecesOf budget b = .ok pieces) : AllFit budget pieces ↔ BlockFits budget b := by
  unfold piecesOf at h
  split at h
  · rename_i hlong
    rw [← Except.ok.inj h]
    exact allFit_splitOversizedBlock hlong
  · rename_i hlong
    cases hc : changedLines b.2 with
    | error e =>
      rw [hc] at h
      cases h
    | ok owned =>
      rw [hc] at h
      rw [← Except.ok.inj h]
      refine iff_of_true ?_ fun hlong' => absurd hlong' hlong
      intro piece hp
      rw [List.mem_singleton.mp hp]
      exact Nat.le_of_not_lt hlong

theorem allFit_mapM {blocks : List (Text × Text)} {pieces : List (List (Text × SetDict Text Nat))}
    (h : blocks.mapM (piecesOf budget) = .ok pieces) :
    AllFit budget pieces.flatten ↔ ∀ b ∈ blocks, BlockFits budget b := by
  induction blocks generalizing pieces with
  | nil =>
    obtain rfl : [] = pieces := Except.ok.inj h
    simp [AllFit]
  | cons b blocks ih =>
    rw [List.mapM_cons] at h
    cases hb : piecesOf budget b with
    | error e =>
      rw [hb] at h
      cases h
    | ok ps =>
      cases hbs : blocks.mapM (piecesOf budget) with
      | error e =>
        rw [hb, hbs] at h
        cases h
      | ok qs =>
        rw [hb, hbs] at h
        rw [← Except.ok.inj h, List.flatten_cons, allFit_append, allFit_piecesOf hb, ih hbs,
          List.forall_mem_cons]

end Split

/-! ## Chunks -/

section Pack

variable {budget : Nat}

theorem allFit_flushChunk (text : Text) (owned : SetDict Text Nat) :
    AllFit budget (flushChunk text owned) ↔ text.length ≤ budget := by
  unfold flushChunk AllFit
  split
  · rename_i h
    simp [h]
  · simp

/-- **Packing.** The chunks fit exactly when the pieces do. -/
theorem allFit_packFrom {pieces : List (Text × SetDict Text Nat)} {text : Text}
    {owned : SetDict Text Nat} (ht : text.length ≤ budget) :
    AllFit budget (packFrom budget text owned pieces) ↔ AllFit budget pieces := by
  induction pieces generalizing text owned with
  | nil =>
    rw [packFrom, allFit_flushChunk]
    exact iff_of_true ht (by simp [AllFit])
  | cons piece pieces ih =>
    have hcons : AllFit budget (piece :: pieces) ↔
        piece.1.length ≤ budget ∧ AllFit budget pieces := List.forall_mem_cons
    have hnil : AllFit budget (packFrom budget [] .empty pieces) ↔ AllFit budget pieces :=
      ih (Nat.zero_le budget)
    rw [packFrom, hcons]
    by_cases hfull : text ≠ [] ∧ text.length + piece.1.length > budget
    · -- the piece begins a chunk
      simp only [if_pos hfull]
      split
      · rw [allFit_append, allFit_append, allFit_flushChunk, allFit_flushChunk, hnil]
        exact ⟨fun h => ⟨h.1.2, h.2⟩, fun h => ⟨⟨ht, h.1⟩, h.2⟩⟩
      · rename_i hlt
        have hle : piece.1.length ≤ budget := by omega
        rw [allFit_append, allFit_flushChunk, ih hle]
        exact ⟨fun h => ⟨hle, h.2⟩, fun h => ⟨ht, h.2⟩⟩
    · simp only [if_neg hfull, List.nil_append]
      have hle : (text ++ piece.1).length ≤ budget ↔ piece.1.length ≤ budget := by
        rw [List.length_append]
        rw [not_and_or, not_not] at hfull
        rcases hfull with rfl | hle
        · rw [List.length_nil, Nat.zero_add]
        · exact iff_of_true (Nat.le_of_not_lt hle) (by omega)
      split
      · rw [allFit_append, allFit_flushChunk, hnil, hle]
      · rename_i hlt
        have hle' : (text ++ piece.1).length ≤ budget := by omega
        rw [ih hle']
        exact ⟨fun h => ⟨hle.mp hle', h⟩, fun h => h.2⟩

end Pack

theorem text_recordsFrom {chunks : List (Text × SetDict Text Nat)} {i : Nat}
    {seen seen' : Finset (Text × Nat)} {records : List DiffChunk}
    (h : recordsFrom i seen chunks = .ok (records, seen')) :
    records.map DiffChunk.text = chunks.map Prod.fst := by
  induction chunks generalizing i seen records with
  | nil =>
    simp only [recordsFrom, Except.ok.injEq, Prod.mk.injEq] at h
    rw [← h.1]
    rfl
  | cons chunk chunks ih =>
    rw [recordsFrom] at h
    split at h
    · cases hr : recordsFrom (i + 1) (seen ∪ chunk.2.freeze.pairs) chunks with
      | error e =>
        rw [hr] at h
        cases h
      | ok r =>
        rw [hr] at h
        simp only [Except.map, Except.ok.injEq, Prod.mk.injEq] at h
        have hrec : recordsFrom (i + 1) (seen ∪ chunk.2.freeze.pairs) chunks =
            .ok (r.1, seen') := by rw [hr, ← h.2]
        rw [← h.1, List.map_cons, ih hrec, List.map_cons]
    · cases h

/-- The headers of all pieces of the diff's blocks fit the budget. -/
def HeadersFit (diff : Text) (budget : Nat) : Prop :=
  ∀ b ∈ pathBlocks diff, BlockFits budget b

/-- **The cap.** The chunks fit the budget exactly when the headers of the pieces do. -/
theorem chunks_capped_iff {diff : Text} {budget : Nat} {chunks : List DiffChunk}
    (h : chunkRecordsByBudget diff budget = .ok chunks) :
    (∀ c ∈ chunks, c.text.length ≤ budget) ↔ HeadersFit diff budget := by
  unfold chunkRecordsByBudget at h
  split at h
  · cases h
  split at h
  · rename_i hd
    subst hd
    obtain rfl : [] = chunks := Except.ok.inj h
    simp [HeadersFit, pathBlocks, blocksOf, Text.lines, cutBlocks, preamble]
  · cases hs : splitFileBlocks diff with
    | error e =>
      rw [hs] at h
      cases h
    | ok blocks =>
      have hdec := (splitFileBlocks_ok_iff diff).mp ⟨blocks, hs⟩
      obtain rfl : pathBlocks diff = blocks := by
        rw [splitFileBlocks_ok hdec] at hs
        exact Except.ok.inj hs
      cases hp : (pathBlocks diff).mapM (piecesOf budget) with
      | error e =>
        simp only [hs, hp, bind, Except.bind] at h
        cases h
      | ok pieces =>
        cases hr : recordsFrom 0 ∅ (packFrom budget [] .empty pieces.flatten) with
        | error e =>
          simp only [hs, hp, hr, bind, Except.bind] at h
          cases h
        | ok r =>
          obtain ⟨changed, hc, -⟩ := changedLines_ok hdec
          simp only [hs, hp, hr, hc, bind, Except.bind] at h
          split at h
          · obtain rfl : r.1 = chunks := Except.ok.inj h
            have hrec : recordsFrom 0 ∅ (packFrom budget [] .empty pieces.flatten) =
                .ok (r.1, r.2) := hr
            have htext := text_recordsFrom hrec
            have hall : (∀ c ∈ r.1, c.text.length ≤ budget) ↔
                AllFit budget (packFrom budget [] .empty pieces.flatten) := by
              have hmap : (∀ c ∈ r.1, c.text.length ≤ budget) ↔
                  ∀ t ∈ r.1.map DiffChunk.text, t.length ≤ budget := by simp
              rw [hmap, htext]
              simp [AllFit]
            rw [hall, allFit_packFrom (Nat.zero_le budget), allFit_mapM hp]
            rfl
          · cases h

/-- A hunk of one long line, at line `start`. -/
def lateLine (start : String) : Text :=
  ("diff --git a/x b/x\n@@ -" ++ start ++ " +" ++ start ++ " @@\n+0123456789\n").toList

/-- A line with six digits, at a budget that leaves 32 characters for the header and a line. -/
theorem chunk_over_budget : ¬∀ diff budget chunks, 0 < budget →
    chunkRecordsByBudget diff budget = .ok chunks → ∀ c ∈ chunks, c.text.length ≤ budget := by
  intro h
  have hlen : ((chunkRecordsByBudget (lateLine "100000") 51).map fun chunks =>
      chunks.map fun c => c.text.length) = .ok [55] := by decide +kernel
  cases hc : chunkRecordsByBudget (lateLine "100000") 51 with
  | error e =>
    rw [hc] at hlen
    cases hlen
  | ok chunks =>
    rw [hc] at hlen
    have hmap : (chunks.map fun c => c.text.length) = [55] := Except.ok.inj hlen
    obtain ⟨c, hmem, hlong⟩ := List.mem_map.mp (hmap ▸ List.mem_singleton_self 55)
    have := h _ 51 chunks (by decide) hc c hmem
    omega

theorem chunks_capped_lateLine : ∃ chunks, chunkRecordsByBudget (lateLine "10") 51 = .ok chunks ∧
    ((∀ c ∈ chunks, c.text.length ≤ 51) ↔ HeadersFit (lateLine "10") 51) := by
  cases hc : chunkRecordsByBudget (lateLine "10") 51 with
  | error e =>
    have hok : (chunkRecordsByBudget (lateLine "10") 51).toOption.isSome = true := by
      decide +kernel
    rw [hc] at hok
    cases hok
  | ok chunks => exact ⟨chunks, rfl, chunks_capped_iff hc⟩

end DiffFilter
