import AlmightyReview.Lib.Quoted
import AlmightyReview.Review.Prompt
import Mathlib.Order.Interval.Finset.Nat

/-!
# The manifest of the owned lines

The prompt of a chunk lists the lines that the model may report on.

* `runs`: the ranges of increasing numbers, of which `compactLineRanges` is the text. They are
  `Compact`: each begins more than one behind the end of the one before.
* `readRanges`, `readRow`: the ranges and the path that a reader takes from the text.
* `readRows_manifest`: the rows of a manifest are the owned paths, each once, with their lines.
-/

namespace Pipeline

/-! ## Ranges -/

/-- Ranges that increase and neither touch nor overlap. -/
structure Compact (rs : List (Nat × Nat)) : Prop where
  ordered : ∀ r ∈ rs, r.1 ≤ r.2
  apart : rs.Pairwise fun a b => a.2 + 1 < b.1

/-- The numbers in the ranges. -/
def expand (rs : List (Nat × Nat)) : Finset Nat :=
  rs.foldr (fun r s => Finset.Icc r.1 r.2 ∪ s) ∅

theorem mem_expand {rs : List (Nat × Nat)} {n : Nat} :
    n ∈ expand rs ↔ ∃ r ∈ rs, r.1 ≤ n ∧ n ≤ r.2 := by
  induction rs with
  | nil => simp [expand]
  | cons r rs ih =>
    show n ∈ Finset.Icc r.1 r.2 ∪ expand rs ↔ _
    rw [Finset.mem_union, Finset.mem_Icc, ih, List.exists_mem_cons_iff]

/-- The ranges whose texts are `rangesFrom`. -/
def runs (first last : Nat) : List Nat → List (Nat × Nat)
  | [] => [(first, last)]
  | n :: ns => if n = last + 1 then runs first n ns else (first, last) :: runs n n ns

theorem rangesFrom_eq (first last : Nat) (ns : List Nat) :
    rangesFrom first last ns = (runs first last ns).map fun r => range r.1 r.2 := by
  fun_induction runs first last ns with
  | case1 => rfl
  | case2 first last ns ih => rw [rangesFrom, if_pos rfl, ih]
  | case3 first last n ns hn ih => rw [rangesFrom, if_neg hn, ih]; rfl

theorem le_of_mem_runs {first last : Nat} {ns : List Nat} (h : first ≤ last)
    (hns : (last :: ns).Pairwise (· < ·)) : ∀ r ∈ runs first last ns, first ≤ r.1 := by
  fun_induction runs first last ns with
  | case1 => simp
  | case2 first last ns ih =>
    rw [List.pairwise_cons] at hns
    exact ih (by omega) hns.2
  | case3 first last n ns hn ih =>
    rw [List.pairwise_cons] at hns
    have hlt := hns.1 n List.mem_cons_self
    intro r hr
    rcases List.mem_cons.mp hr with rfl | hr
    · exact le_rfl
    · have := ih le_rfl hns.2 r hr
      omega

/-- **The ranges** of increasing numbers are compact. -/
theorem compact_runs {first last : Nat} {ns : List Nat} (h : first ≤ last)
    (hns : (last :: ns).Pairwise (· < ·)) : Compact (runs first last ns) := by
  fun_induction runs first last ns with
  | case1 => exact ⟨by simpa using h, by simp⟩
  | case2 first last ns ih =>
    rw [List.pairwise_cons] at hns
    exact ih (by omega) hns.2
  | case3 first last n ns hn ih =>
    rw [List.pairwise_cons] at hns
    have hlt := hns.1 n List.mem_cons_self
    have hrest := ih le_rfl hns.2
    refine ⟨fun r hr => ?_, List.pairwise_cons.mpr ⟨fun r hr => ?_, hrest.apart⟩⟩
    · rcases List.mem_cons.mp hr with rfl | hr
      · exact h
      · exact hrest.ordered r hr
    · have := le_of_mem_runs le_rfl hns.2 r hr
      show last + 1 < r.1
      omega

theorem mem_expand_runs {first last m : Nat} {ns : List Nat} (h : first ≤ last) :
    m ∈ expand (runs first last ns) ↔ (first ≤ m ∧ m ≤ last) ∨ m ∈ ns := by
  fun_induction runs first last ns with
  | case1 => simp [mem_expand]
  | case2 first last ns ih =>
    rw [ih (by omega), List.mem_cons]
    constructor
    · rintro (hm | hm)
      · omega
      · exact .inr (.inr hm)
    · rintro (hm | hm | hm)
      · omega
      · omega
      · exact .inr hm
  | case3 first last n ns hn ih =>
    rw [mem_expand, List.exists_mem_cons_iff, ← mem_expand, ih le_rfl, List.mem_cons]
    refine or_congr_right (or_congr_left ?_)
    omega

/-! ## The sorted lines -/

theorem perm_sortedLines (lines : Finset Nat) :
    (sortedLines lines : Multiset Nat) = lines.val := by
  unfold sortedLines
  induction lines.val using Quotient.inductionOn with
  | _ l => exact Multiset.coe_eq_coe.mpr (l.perm_insertionSort _)

theorem mem_sortedLines {lines : Finset Nat} {n : Nat} : n ∈ sortedLines lines ↔ n ∈ lines := by
  rw [← Finset.mem_val, ← perm_sortedLines, Multiset.mem_coe]

theorem pairwise_sortedLines (lines : Finset Nat) : (sortedLines lines).Pairwise (· < ·) := by
  have hnodup : (sortedLines lines).Nodup := by
    rw [← Multiset.coe_nodup, perm_sortedLines]
    exact lines.nodup
  have hle : (sortedLines lines).Pairwise (· ≤ ·) := by
    unfold sortedLines
    induction lines.val using Quotient.inductionOn with
    | _ l => exact l.pairwise_insertionSort _
  exact (hle.and hnodup).imp fun h => lt_of_le_of_ne h.1 h.2

/-! ## Texts read back -/

/-- A number in decimal. -/
def readNumber (s : Text) : Option Nat :=
  if s ≠ [] ∧ s.all Decimal.isDigit then some (Decimal.digitsValue s) else none

/-- A number, or two with a dash between them. -/
def readRange (s : Text) : Option (Nat × Nat) :=
  match s.splitOn '-' with
  | [a] => (readNumber a).map fun n => (n, n)
  | [a, b] => do pure (← readNumber a, ← readNumber b)
  | _ => none

def readRanges (s : Text) : Option (List (Nat × Nat)) := (s.splitOn ',').mapM readRange

/-- A row of a manifest: a path in quotes, and ranges. -/
def readRow (s : Text) : Option (Text × List (Nat × Nat)) := do
  let s ← Text.dropStart? "- \"".toList s
  match Json.scanString s with
  | .error _ => none
  | .ok (path, s) => pure (path, ← readRanges (← Text.dropStart? ": ".toList s))

def readRows (manifest : Text) : Option (List (Text × List (Nat × Nat))) :=
  (manifest.splitOn '\n').mapM readRow

theorem readNumber_ofNat (n : Nat) : readNumber (Text.ofNat n) = some n := by
  have hd := Decimal.digits_ofNat n
  rw [readNumber, if_pos ⟨hd.1, List.all_eq_true.mpr hd.2⟩, Decimal.digitsValue_ofNat]

theorem not_mem_ofNat {c : Char} (hc : Decimal.isDigit c = false) (n : Nat) : c ∉ Text.ofNat n :=
  fun hm => absurd ((Decimal.digits_ofNat n).2 c hm) (by rw [hc]; exact Bool.false_ne_true)

theorem readRange_range {first last : Nat} :
    readRange (range first last) = some (first, last) := by
  have hdash : ∀ n, '-' ∉ Text.ofNat n := fun n => not_mem_ofNat (by decide) n
  unfold range readRange
  by_cases h : first = last
  · rw [if_pos h, List.splitOn_eq_singleton (hdash first)]
    dsimp only
    rw [readNumber_ofNat, h]
    rfl
  · rw [if_neg h, List.splitOn_append_cons_self_of_not_mem (hdash first),
      List.splitOn_eq_singleton (hdash last)]
    dsimp only
    rw [readNumber_ofNat, readNumber_ofNat]
    rfl

theorem not_mem_range {c : Char} (hc : Decimal.isDigit c = false) (hd : c ≠ '-')
    (first last : Nat) : c ∉ range first last := by
  unfold range
  split
  · exact not_mem_ofNat hc first
  · intro hm
    rcases List.mem_append.mp hm with hm | hm
    · exact not_mem_ofNat hc first hm
    · rcases List.mem_cons.mp hm with rfl | hm
      · exact hd rfl
      · exact not_mem_ofNat hc last hm

theorem mapM_map_some {α β : Type} {f : β → Option α} {g : α → β} {l : List α}
    (h : ∀ a ∈ l, f (g a) = some a) : (l.map g).mapM f = some l := by
  induction l with
  | nil => rfl
  | cons a l ih =>
    rw [List.map_cons, List.mapM_cons, h a List.mem_cons_self,
      ih fun a ha => h a (List.mem_cons_of_mem _ ha)]
    rfl

/-- **The ranges of a set** are compact, are read back from their text, and hold its numbers. -/
theorem readRanges_compactLineRanges {lines : Finset Nat} (h : lines.Nonempty) :
    ∃ rs, readRanges (compactLineRanges lines) = some rs ∧ Compact rs ∧ expand rs = lines := by
  obtain ⟨m, hm⟩ := h
  obtain ⟨n, ns, hs⟩ := List.exists_cons_of_ne_nil (List.ne_nil_of_mem (mem_sortedLines.mpr hm))
  have hsorted := pairwise_sortedLines lines
  rw [hs] at hsorted
  refine ⟨runs n n ns, ?_, compact_runs le_rfl hsorted, ?_⟩
  · have hne : (runs n n ns).map (fun r => range r.1 r.2) ≠ [] := by
      rw [Ne, List.map_eq_nil_iff]
      intro hnil
      have : n ∈ expand (runs n n ns) := (mem_expand_runs le_rfl).mpr (.inl ⟨le_rfl, le_rfl⟩)
      rw [hnil] at this
      simp [expand] at this
    have hcomma : ∀ part ∈ (runs n n ns).map fun r => range r.1 r.2, ',' ∉ part := by
      intro part hpart
      obtain ⟨r, -, rfl⟩ := List.mem_map.mp hpart
      exact not_mem_range (by decide) (by decide) _ _
    rw [compactLineRanges, hs]
    dsimp only
    rw [rangesFrom_eq, readRanges]
    exact (congrArg _ (List.splitOn_intercalate ',' hcomma hne)).trans
      (mapM_map_some fun r _ => readRange_range)
  · ext k
    rw [mem_expand_runs le_rfl, ← mem_sortedLines, hs, List.mem_cons]
    refine or_congr_left ?_
    omega

/-! ## Rows -/

/-- The row of an owned path. -/
def manifestRow (e : Text × Finset Nat) : Text :=
  "- ".toList ++ quotePath e.1 ++ ": ".toList ++ compactLineRanges e.2

theorem newline_not_mem_escapeWide (c : Char) : '\n' ∉ Json.escapeWide c := by
  unfold Json.escapeWide
  split
  · next hc =>
    have hall : ∀ n < 127, '\n' ∉ Json.escape (Char.ofNat n) := by decide +kernel
    have := hall c.toNat hc
    rwa [Char.ofNat_toNat] at this
  · next hc =>
    intro hm
    obtain rfl := List.mem_singleton.mp hm
    exact hc (by decide)

theorem newline_not_mem_manifestRow (e : Text × Finset Nat) : '\n' ∉ manifestRow e := by
  have hpath : '\n' ∉ quotePath e.1 := by
    intro hm
    rcases List.mem_cons.mp hm with hm | hm
    · exact absurd hm (by decide)
    rcases List.mem_append.mp hm with hm | hm
    · obtain ⟨c, -, hc⟩ := List.mem_flatMap.mp hm
      exact newline_not_mem_escapeWide c hc
    · exact absurd hm (by decide)
  have hranges : '\n' ∉ compactLineRanges e.2 := by
    unfold compactLineRanges
    split
    · simp
    · next n ns hs =>
      intro hm
      rcases Text.mem_join hm with hm | ⟨part, hpart, hm⟩
      · exact absurd hm (by decide)
      · rw [rangesFrom_eq] at hpart
        obtain ⟨r, -, rfl⟩ := List.mem_map.mp hpart
        exact not_mem_range (by decide) (by decide) _ _ hm
  have hdash : '\n' ∉ "- ".toList := by decide
  have hcolon : '\n' ∉ ": ".toList := by decide
  unfold manifestRow
  simp only [List.mem_append, not_or]
  exact ⟨⟨⟨hdash, hpath⟩, hcolon⟩, hranges⟩

/-- A row is read back. -/
theorem readRow_manifestRow {e : Text × Finset Nat} (h : e.2.Nonempty) :
    ∃ rs, readRow (manifestRow e) = some (e.1, rs) ∧ Compact rs ∧ expand rs = e.2 := by
  obtain ⟨rs, hrs, hcompact, hexpand⟩ := readRanges_compactLineRanges h
  refine ⟨rs, ?_, hcompact, hexpand⟩
  have hsplit : manifestRow e = "- \"".toList ++ (e.1.flatMap Json.escapeWide ++
      '"' :: (": ".toList ++ compactLineRanges e.2)) := by
    unfold manifestRow quotePath Json.quoteWith
    simp
  rw [readRow, hsplit, Text.dropStart?_append]
  simp only [Option.bind_eq_bind, Option.bind_some, Json.scanString_quoteWith,
    Text.dropStart?_append, hrs]
  rfl

/-- **A manifest** is read back: its rows are the owned paths, each once, with their lines. -/
theorem readRows_findingScopeManifest {owned : SetDict Text Nat} (hne : owned.entries ≠ [])
    (h : ∀ e ∈ owned.entries, e.2.Nonempty) :
    ∃ rows, readRows (findingScopeManifest owned) = some rows ∧
      (rows.map fun r => (r.1, expand r.2)).Perm owned.entries ∧ ∀ r ∈ rows, Compact r.2 := by
  have hperm := owned.entries.perm_insertionSort fun a b => a.1 ≤ b.1
  rw [findingScopeManifest, if_neg hne]
  dsimp only
  generalize owned.entries.insertionSort (fun a b => a.1 ≤ b.1) = sorted at hperm
  have hsorted : sorted ≠ [] := fun hnil => hne (hnil ▸ hperm).symm.eq_nil
  have hrows : ∃ rows, (sorted.map manifestRow).mapM readRow = some rows ∧
      (rows.map fun r => (r.1, expand r.2)) = sorted ∧ ∀ r ∈ rows, Compact r.2 := by
    have hall : ∀ e ∈ sorted, e.2.Nonempty := fun e he => h e (hperm.subset he)
    clear hsorted hperm
    induction sorted with
    | nil => exact ⟨[], rfl, rfl, by simp⟩
    | cons e sorted ih =>
      obtain ⟨rs, hrs, hcompact, hexpand⟩ := readRow_manifestRow (hall e List.mem_cons_self)
      obtain ⟨rows, hrows, hmap, hall'⟩ := ih fun e he => hall e (List.mem_cons_of_mem _ he)
      refine ⟨(e.1, rs) :: rows, ?_, ?_, ?_⟩
      · rw [List.map_cons, List.mapM_cons, hrs, hrows]
        rfl
      · rw [List.map_cons, hmap, hexpand]
      · exact List.forall_mem_cons.mpr ⟨hcompact, hall'⟩
  obtain ⟨rows, hrows, hmap, hcompact⟩ := hrows
  refine ⟨rows, ?_, hmap ▸ hperm, hcompact⟩
  have hnewline : ∀ row ∈ sorted.map manifestRow, '\n' ∉ row := by
    intro row hrow
    obtain ⟨e, -, rfl⟩ := List.mem_map.mp hrow
    exact newline_not_mem_manifestRow e
  rw [← hrows, readRows]
  exact congrArg _ (List.splitOn_intercalate '\n' hnewline (by simpa using hsorted))

/-- **The ownership manifest is exact.** The ranges of each owned path are read back as ranges that
increase and neither touch nor overlap, and hold exactly its lines; each owned path has exactly one
row of the manifest. -/
theorem manifest_exact (owned : SetDict Text Nat)
    (h : ∀ e ∈ owned.entries, e.2.Nonempty ∧ ∀ n ∈ e.2, 0 < n) :
    (∀ e ∈ owned.entries, ∃ rs, readRanges (compactLineRanges e.2) = some rs ∧ Compact rs ∧
      expand rs = e.2) ∧
    (owned.entries ≠ [] → ∃ rows, readRows (findingScopeManifest owned) = some rows ∧
      (rows.map fun r => (r.1, expand r.2)).Perm owned.entries ∧
      ∀ path ∈ owned.entries.map Prod.fst, (rows.map Prod.fst).count path = 1) := by
  refine ⟨fun e he => readRanges_compactLineRanges (h e he).1, fun hne => ?_⟩
  obtain ⟨rows, hrows, hperm, -⟩ := readRows_findingScopeManifest hne fun e he => (h e he).1
  refine ⟨rows, hrows, hperm, fun path hpath => ?_⟩
  have hkeys : (rows.map Prod.fst).Perm (owned.entries.map Prod.fst) := by
    have := hperm.map Prod.fst
    rwa [List.map_map] at this
  rw [hkeys.count_eq]
  exact List.count_eq_one_of_mem owned.nodup hpath

theorem manifest_exact_one : readRanges (compactLineRanges {3, 1, 2}) = some [(1, 3)] ∧
    ∃ rows, readRows (findingScopeManifest ⟨[("a".toList, {3, 1, 2})], by decide⟩) = some rows := by
  have hexact := manifest_exact ⟨[("a".toList, {3, 1, 2})], by decide⟩ (by decide)
  obtain ⟨rows, hrows, -⟩ := hexact.2 (by decide)
  exact ⟨by decide +kernel, rows, hrows⟩

end Pipeline
