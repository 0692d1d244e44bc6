import Mathlib.Data.Finset.Union
import Mathlib.Data.Finset.Prod

/-!
# Dictionaries of sets

`SetDict κ α` is a `dict[κ, set[α]]`: the entries in the order in which their keys were put in, and
no key twice. It is read as the set of its pairs `(key, element)`.

* `add k s` is `d.setdefault(k, set()).update(s)`, and `addAll` that of every entry of another
  dictionary.
* `freeze` drops the entries with an empty set, and `get?` is `d.get(k)`.
* `mem_pairs_add`, `pairs_addAll`, `pairs_freeze` say what the operations do to the pairs. Proofs
  use these and not the entries.
-/

universe u v

/-- A dictionary of sets. -/
structure SetDict (κ : Type u) (α : Type v) where
  entries : List (κ × Finset α)
  nodup : (entries.map Prod.fst).Nodup

namespace SetDict

variable {κ : Type u} {α : Type v} [DecidableEq κ] [DecidableEq α]

def empty : SetDict κ α := ⟨[], by simp⟩

/-- The entries after `setdefault(k, set()).update(s)`. -/
def addEntry (k : κ) (s : Finset α) : List (κ × Finset α) → List (κ × Finset α)
  | [] => [(k, s)]
  | e :: es => if e.1 = k then (k, e.2 ∪ s) :: es else e :: addEntry k s es

theorem keys_addEntry (k : κ) (s : Finset α) (es : List (κ × Finset α)) :
    (addEntry k s es).map Prod.fst =
      if k ∈ es.map Prod.fst then es.map Prod.fst else es.map Prod.fst ++ [k] := by
  induction es with
  | nil => rfl
  | cons e es ih =>
    unfold addEntry
    by_cases he : e.1 = k
    · simp [he]
    · have hk : k ≠ e.1 := Ne.symm he
      rw [if_neg he, List.map_cons, ih, List.map_cons]
      by_cases hm : k ∈ es.map Prod.fst
      · rw [if_pos hm, if_pos (List.mem_cons_of_mem _ hm)]
      · rw [if_neg hm, if_neg (by simpa [hk] using hm), List.cons_append]

/-- `d.setdefault(k, set()).update(s)`. -/
def add (d : SetDict κ α) (k : κ) (s : Finset α) : SetDict κ α where
  entries := addEntry k s d.entries
  nodup := by
    rw [keys_addEntry]
    split
    · exact d.nodup
    · rename_i hk
      rw [List.nodup_append]
      exact ⟨d.nodup, by simp, fun a ha b hb => by
        rw [List.mem_singleton.mp hb]
        rintro rfl
        exact hk ha⟩

/-- `d.get(k)`. -/
def get? (d : SetDict κ α) (k : κ) : Option (Finset α) :=
  (d.entries.find? fun e => e.1 = k).map Prod.snd

/-- `add` of every entry of `e`. -/
def addAll (d e : SetDict κ α) : SetDict κ α := e.entries.foldl (fun d x => d.add x.1 x.2) d

/-- The entries whose set is not empty. -/
def freeze (d : SetDict κ α) : SetDict κ α where
  entries := d.entries.filter fun e => e.2 ≠ ∅
  nodup := d.nodup.sublist (List.filter_sublist.map Prod.fst)

/-! ## Pairs -/

/-- The pairs of entries. -/
def entryPairs (es : List (κ × Finset α)) : Finset (κ × α) :=
  es.foldr (fun e ps => e.2.image (Prod.mk e.1) ∪ ps) ∅

/-- The pairs of a key and an element of its set. -/
def pairs (d : SetDict κ α) : Finset (κ × α) := entryPairs d.entries

theorem mem_entryPairs {es : List (κ × Finset α)} {p : κ × α} :
    p ∈ entryPairs es ↔ ∃ e ∈ es, e.1 = p.1 ∧ p.2 ∈ e.2 := by
  induction es with
  | nil => simp [entryPairs]
  | cons e es ih =>
    rw [entryPairs, List.foldr_cons, Finset.mem_union, ← entryPairs, ih]
    simp only [Finset.mem_image, List.mem_cons, exists_eq_or_imp]
    refine or_congr ⟨?_, ?_⟩ Iff.rfl
    · rintro ⟨a, ha, rfl⟩
      exact ⟨rfl, ha⟩
    · rintro ⟨hk, ha⟩
      exact ⟨p.2, ha, by rw [hk]⟩

@[simp] theorem pairs_empty : (empty : SetDict κ α).pairs = ∅ := rfl

theorem mem_entryPairs_addEntry {k : κ} {s : Finset α} {es : List (κ × Finset α)} {p : κ × α} :
    p ∈ entryPairs (addEntry k s es) ↔ p ∈ entryPairs es ∨ p.1 = k ∧ p.2 ∈ s := by
  induction es with
  | nil =>
    rw [addEntry, mem_entryPairs]
    simp [entryPairs, eq_comm]
  | cons e es ih =>
    unfold addEntry
    split
    · rename_i he
      simp only [mem_entryPairs, List.mem_cons, exists_eq_or_imp, Finset.mem_union, he]
      grind
    · have hcons : ∀ fs : List (κ × Finset α),
          p ∈ entryPairs (e :: fs) ↔ (e.1 = p.1 ∧ p.2 ∈ e.2) ∨ p ∈ entryPairs fs := by
        intro fs
        simp only [mem_entryPairs, List.mem_cons, exists_eq_or_imp]
      rw [hcons, hcons, ih, or_assoc]

theorem mem_pairs_add {d : SetDict κ α} {k : κ} {s : Finset α} {p : κ × α} :
    p ∈ (d.add k s).pairs ↔ p ∈ d.pairs ∨ p.1 = k ∧ p.2 ∈ s :=
  mem_entryPairs_addEntry

@[simp] theorem pairs_addAll (d e : SetDict κ α) : (d.addAll e).pairs = d.pairs ∪ e.pairs := by
  have key : ∀ (es : List (κ × Finset α)) (d : SetDict κ α),
      (es.foldl (fun d x => d.add x.1 x.2) d).pairs = d.pairs ∪ entryPairs es := by
    intro es
    induction es with
    | nil => intro d; simp [entryPairs]
    | cons e es ih =>
      intro d
      rw [List.foldl_cons, ih]
      ext p
      simp only [Finset.mem_union, mem_pairs_add, mem_entryPairs, List.mem_cons, exists_eq_or_imp]
      grind
  exact key e.entries d

@[simp] theorem pairs_freeze (d : SetDict κ α) : d.freeze.pairs = d.pairs := by
  ext p
  simp only [pairs, freeze, mem_entryPairs, List.mem_filter, decide_eq_true_eq]
  constructor
  · rintro ⟨e, ⟨he, -⟩, h⟩
    exact ⟨e, he, h⟩
  · rintro ⟨e, he, hk, ha⟩
    exact ⟨e, ⟨he, Finset.ne_empty_of_mem ha⟩, hk, ha⟩

/-! ## Entries -/

omit [DecidableEq α] in
@[simp] theorem get?_empty (k : κ) : (empty : SetDict κ α).get? k = none := rfl

theorem get?_add (d : SetDict κ α) (k : κ) (s : Finset α) (k' : κ) :
    (d.add k s).get? k' =
      if k' = k then some ((d.get? k).getD ∅ ∪ s) else d.get? k' := by
  show ((addEntry k s d.entries).find? fun e => e.1 = k').map Prod.snd = _
  unfold get?
  generalize d.entries = es
  induction es with
  | nil =>
    by_cases hk : k' = k
    · simp [addEntry, hk]
    · simp [addEntry, hk, Ne.symm hk]
  | cons e es ih =>
    unfold addEntry
    by_cases he : e.1 = k
    · by_cases hk : k' = k
      · simp [he, hk]
      · have hke : k ≠ k' := Ne.symm hk
        simp [he, hk, hke]
    · rw [if_neg he]
      by_cases hk' : e.1 = k'
      · simp [hk', show k' ≠ k from hk' ▸ he]
      · simp only [List.find?_cons, hk', he, decide_false]
        exact ih

/-! ### Entry after entry -/

theorem isSome_get?_foldl_add (es : List (κ × Finset α)) (d : SetDict κ α) (k : κ) :
    ((es.foldl (fun d e => d.add e.1 e.2) d).get? k).isSome ↔
      (d.get? k).isSome ∨ ∃ e ∈ es, e.1 = k := by
  induction es generalizing d with
  | nil => simp
  | cons e es ih =>
    rw [List.foldl_cons, ih, get?_add]
    by_cases hk : k = e.1
    · simp [hk]
    · simp [hk, Ne.symm hk]

theorem mem_get?_foldl_add (es : List (κ × Finset α)) (d : SetDict κ α) (k : κ) (a : α) :
    a ∈ ((es.foldl (fun d e => d.add e.1 e.2) d).get? k).getD ∅ ↔
      a ∈ (d.get? k).getD ∅ ∨ ∃ e ∈ es, e.1 = k ∧ a ∈ e.2 := by
  induction es generalizing d with
  | nil => simp
  | cons e es ih =>
    rw [List.foldl_cons, ih, get?_add]
    by_cases hk : k = e.1
    · simp [hk, or_assoc]
    · simp [hk, Ne.symm hk]

end SetDict
