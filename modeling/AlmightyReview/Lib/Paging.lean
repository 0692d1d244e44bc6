import Mathlib.Data.List.Basic

/-!
# Lists that are read page by page

A list is served in pages of a fixed size, and read until a page is short.

* `page`: one page of a list. `readPages`: the pages that are read, with the requests for them. Who
  answers has a state, and may fail.
* `Reads`: a run of answers that ends with the first short page. `readPages_ok_iff`: a list is
  returned exactly for such a run, and is what the pages are together.
* `Serves`: a server that answers with the pages of one list, or fails. What is read is the whole
  list (`readPages_sound`), and a server that does not fail is read to the end exactly when the
  list is short enough (`readPages_serves`).
-/

universe u v w

namespace Paging

variable {σ : Type u} {ε : Type v} {α : Type w}

/-- Page number `i` of a list, the first one with number 1. -/
def page (size : Nat) (xs : List α) (i : Nat) : List α := (xs.drop (size * (i - 1))).take size

/-- What comes of reading pages. -/
structure Reading (σ : Type u) (ε : Type v) (α : Type w) where
  result : Except ε (List α)
  state : σ
  /-- The numbers of the pages that were asked for. -/
  requests : List Nat

/-- At most `fuel` pages from number `i` on, behind the rows that are there. -/
def readPages (size : Nat) (fetch : Nat → σ → Except ε (List α) × σ) (capped : ε) :
    Nat → Nat → List α → σ → Reading σ ε α
  | 0, _, _, s => ⟨.error capped, s, []⟩
  | fuel + 1, i, rows, s =>
    match fetch i s with
    | (.error e, s') => ⟨.error e, s', [i]⟩
    | (.ok batch, s') =>
      if batch.length < size then ⟨.ok (rows ++ batch), s', [i]⟩
      else
        let more := readPages size fetch capped fuel (i + 1) (rows ++ batch) s'
        { more with requests := i :: more.requests }

section Read

variable {size : Nat} {fetch : Nat → σ → Except ε (List α) × σ} {capped : ε}

/-- The pages are asked for one after another, and not too many of them. -/
theorem requests_readPages (fuel i : Nat) (rows : List α) (s : σ) :
    ∃ k ≤ fuel, (readPages size fetch capped fuel i rows s).requests = List.range' i k := by
  induction fuel generalizing i rows s with
  | zero => exact ⟨0, Nat.le_refl _, rfl⟩
  | succ fuel ih =>
    unfold readPages
    split
    · exact ⟨1, by omega, rfl⟩
    · next batch s' _ =>
      split
      · exact ⟨1, by omega, rfl⟩
      · obtain ⟨k, hk, hrequests⟩ := ih (i + 1) (rows ++ batch) s'
        refine ⟨k + 1, by omega, ?_⟩
        rw [List.range'_succ, ← hrequests]

/-- Who answers has seen the requests that are recorded, in this order, and no others. -/
theorem state_readPages (fuel i : Nat) (rows : List α) (s : σ) :
    (readPages size fetch capped fuel i rows s).state =
      (readPages size fetch capped fuel i rows s).requests.foldl (fun s j => (fetch j s).2) s := by
  induction fuel generalizing i rows s with
  | zero => rfl
  | succ fuel ih =>
    rcases hfetch : fetch i s with ⟨answer, s'⟩
    cases answer with
    | error e => simp only [readPages, hfetch, List.foldl_cons, List.foldl_nil]
    | ok batch =>
      by_cases hshort : batch.length < size
      · simp only [readPages, hfetch, if_pos hshort, List.foldl_cons, List.foldl_nil]
      · simp only [readPages, hfetch, if_neg hshort, List.foldl_cons]
        exact ih (i + 1) (rows ++ batch) s'

/-- The answers from page `i` on, up to the first one that is short. -/
inductive Reads (size : Nat) (fetch : Nat → σ → Except ε (List α) × σ) :
    Nat → σ → List (List α) → σ → Prop
  | short {i : Nat} {s s' : σ} {batch : List α} : fetch i s = (.ok batch, s') →
    batch.length < size → Reads size fetch i s [batch] s'
  | full {i : Nat} {s s' t : σ} {batch : List α} {batches : List (List α)} :
    fetch i s = (.ok batch, s') → size ≤ batch.length → Reads size fetch (i + 1) s' batches t →
    Reads size fetch i s (batch :: batches) t

/-- **All or nothing**: a list is returned exactly when a short page comes in time, and it is then
all that the pages hold. -/
theorem readPages_ok_iff {fuel i : Nat} {rows out : List α} {s t : σ} :
    ((readPages size fetch capped fuel i rows s).result = .ok out ∧
        (readPages size fetch capped fuel i rows s).state = t) ↔
      ∃ batches, Reads size fetch i s batches t ∧ batches.length ≤ fuel ∧
        out = rows ++ batches.flatten := by
  induction fuel generalizing i rows s with
  | zero =>
    constructor
    · rintro ⟨h, -⟩
      cases h
    · rintro ⟨batches, hreads, hlen, -⟩
      obtain rfl : batches = [] := List.eq_nil_of_length_eq_zero (by omega)
      cases hreads
  | succ fuel ih =>
    rcases hfetch : fetch i s with ⟨answer, s'⟩
    cases answer with
    | error e =>
      simp only [readPages, hfetch]
      constructor
      · rintro ⟨h, -⟩
        cases h
      · rintro ⟨batches, hreads, -, -⟩
        cases hreads with
        | short hok => rw [hfetch] at hok; cases hok
        | full hok => rw [hfetch] at hok; cases hok
    | ok batch =>
      by_cases hshort : batch.length < size
      · simp only [readPages, hfetch, if_pos hshort]
        constructor
        · rintro ⟨hout, hstate⟩
          exact ⟨[batch], hstate ▸ .short hfetch hshort, by simp, by simpa using hout.symm⟩
        · rintro ⟨batches, hreads, -, rfl⟩
          cases hreads with
          | short hok =>
            rw [hfetch] at hok
            cases hok
            exact ⟨by simp, rfl⟩
          | full hok hfull =>
            rw [hfetch] at hok
            cases hok
            omega
      · simp only [readPages, hfetch, if_neg hshort]
        rw [ih]
        constructor
        · rintro ⟨batches, hreads, hlen, rfl⟩
          exact ⟨batch :: batches, .full hfetch (by omega) hreads, by simpa using hlen, by simp⟩
        · rintro ⟨batches, hreads, hlen, rfl⟩
          cases hreads with
          | short hok hlt =>
            rw [hfetch] at hok
            cases hok
            exact absurd hlt hshort
          | full hok _ hmore =>
            rw [hfetch] at hok
            cases hok
            exact ⟨_, hmore, by simpa using hlen, by simp⟩

end Read

/-! ## A server with a list -/

/-- Every answer that is a page is the page of this list. -/
def Serves (size : Nat) (fetch : Nat → σ → Except ε (List α) × σ) (xs : List α) : Prop :=
  ∀ i s batch s', 1 ≤ i → fetch i s = (.ok batch, s') → batch = page size xs i

variable {size : Nat} {fetch : Nat → σ → Except ε (List α) × σ} {xs : List α}

/-- A short page is the last one. -/
theorem page_short {i : Nat} (h : (page size xs i).length < size) :
    page size xs i = xs.drop (size * (i - 1)) := by
  unfold page at h ⊢
  rw [List.length_take] at h
  exact List.take_of_length_le (by omega)

theorem page_append {i : Nat} (hi : 1 ≤ i) :
    page size xs i ++ xs.drop (size * i) = xs.drop (size * (i - 1)) := by
  have hnext : size * i = size * (i - 1) + size := by
    rw [← Nat.mul_succ, Nat.succ_eq_add_one, Nat.sub_add_cancel hi]
  rw [page, hnext, ← List.drop_drop, List.take_append_drop]

/-- The pages from number `i` on are the rest of the list. -/
theorem flatten_of_reads (h : Serves size fetch xs) {i : Nat} {s t : σ}
    {batches : List (List α)} (hi : 1 ≤ i) (hreads : Reads size fetch i s batches t) :
    batches.flatten = xs.drop (size * (i - 1)) := by
  induction hreads with
  | short hok hshort =>
    obtain rfl := h _ _ _ _ hi hok
    simpa using page_short hshort
  | full hok _ _ ih =>
    obtain rfl := h _ _ _ _ hi hok
    rw [List.flatten_cons, ih (by omega), Nat.add_sub_cancel, page_append hi]

/-- The rows that are left from page `i` on: those of the page, and those behind it. -/
theorem length_drop_page {i : Nat} (hi : 1 ≤ i) :
    (xs.drop (size * (i - 1))).length = (page size xs i).length + (xs.drop (size * i)).length := by
  rw [← page_append hi, List.length_append]

/-- A run has room for the rest of the list, and its last page has room for one row more. -/
theorem length_of_reads (h : Serves size fetch xs) {i : Nat} {s t : σ}
    {batches : List (List α)} (hi : 1 ≤ i) (hreads : Reads size fetch i s batches t) :
    (xs.drop (size * (i - 1))).length < size * batches.length := by
  induction hreads with
  | short hok hshort =>
    obtain rfl := h _ _ _ _ hi hok
    rw [← page_short hshort]
    simpa using hshort
  | @full i _ _ _ batch batches hok _ _ ih =>
    obtain rfl := h _ _ _ _ hi hok
    have hrest := ih (by omega)
    have hpage : (page size xs i).length ≤ size := List.length_take_le _ _
    have hmul : size * (batches.length + 1) = size * batches.length + size := Nat.mul_succ _ _
    rw [Nat.add_sub_cancel] at hrest
    rw [length_drop_page hi, List.length_cons]
    omega

/-- From page `i` on, this many pages are answered in every state. -/
def Answers (fetch : Nat → σ → Except ε (List α) × σ) (i fuel : Nat) : Prop :=
  ∀ j s, i ≤ j → j < i + fuel → ∃ batch s', fetch j s = (.ok batch, s')

/-- A server that does not fail is read to the end, when the rest of the list has room. -/
theorem exists_reads (h : Serves size fetch xs) {fuel i : Nat} (hi : 1 ≤ i)
    (hanswers : Answers fetch i fuel) (hlen : (xs.drop (size * (i - 1))).length < size * fuel)
    (s : σ) : ∃ batches t, Reads size fetch i s batches t ∧ batches.length ≤ fuel := by
  induction fuel generalizing i s with
  | zero => exact absurd hlen (Nat.not_lt_zero _)
  | succ fuel ih =>
    obtain ⟨batch, s', hfetch⟩ := hanswers i s (Nat.le_refl _) (by omega)
    by_cases hshort : batch.length < size
    · exact ⟨[batch], s', .short hfetch hshort, by simp⟩
    · obtain rfl := h _ _ _ _ hi hfetch
      have hmul : size * (fuel + 1) = size * fuel + size := Nat.mul_succ _ _
      have hrest : (xs.drop (size * (i + 1 - 1))).length < size * fuel := by
        rw [length_drop_page hi] at hlen
        rw [Nat.add_sub_cancel]
        omega
      obtain ⟨batches, t, hreads, hle⟩ := ih (i := i + 1) (by omega)
        (fun j s hj hlt => hanswers j s (by omega) (by omega)) hrest s'
      exact ⟨_, t, .full hfetch (by omega) hreads, by simpa using hle⟩

/-- **No list is cut**: what is read from a server with a list is the list. -/
theorem readPages_sound (h : Serves size fetch xs) {capped : ε} {fuel : Nat} {s : σ}
    {out : List α} (hout : (readPages size fetch capped fuel 1 [] s).result = .ok out) :
    out = xs := by
  obtain ⟨batches, hreads, -, rfl⟩ := readPages_ok_iff.mp ⟨hout, rfl⟩
  rw [List.nil_append, flatten_of_reads h (Nat.le_refl _) hreads, Nat.sub_self, Nat.mul_zero,
    List.drop_zero]

/-- A list is read exactly when its last page is short and comes in time. -/
theorem readPages_serves (h : Serves size fetch xs) {capped : ε} {fuel : Nat}
    (hanswers : Answers fetch 1 fuel) (s : σ) :
    (readPages size fetch capped fuel 1 [] s).result = .ok xs ↔ xs.length < size * fuel := by
  have hdrop : (xs.drop (size * (1 - 1))).length = xs.length := by simp
  constructor
  · intro hout
    obtain ⟨batches, hreads, hle, -⟩ := readPages_ok_iff.mp ⟨hout, rfl⟩
    have hlt := length_of_reads h (Nat.le_refl _) hreads
    have hmul : size * batches.length ≤ size * fuel := Nat.mul_le_mul_left _ hle
    omega
  · intro hlt
    obtain ⟨batches, t, hreads, hle⟩ :=
      exists_reads h (Nat.le_refl _) hanswers (by rwa [hdrop]) s
    have hall : xs = [] ++ batches.flatten := by
      rw [List.nil_append, flatten_of_reads h (Nat.le_refl _) hreads, Nat.sub_self, Nat.mul_zero,
        List.drop_zero]
    exact (readPages_ok_iff.mpr ⟨batches, hreads, hle, hall⟩).1

end Paging
