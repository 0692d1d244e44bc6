import Mathlib.Data.List.Nodup

/-!
# Ordered dictionaries

`OrderedDict` of the Python standard library, as a bounded cache uses it: the entries from the one
that was used longest ago to the newest one, no key twice.

* `set`, `moveToEnd`, `trim`: an assignment, a use, and the removal of the oldest entries.
* `All.set`, `All.moveToEnd`, `All.trim`: what holds of every entry that is put in holds of every
  entry.
-/

universe u v

structure OrderedDict (κ : Type u) (υ : Type v) where
  entries : List (κ × υ)
  nodup : (entries.map Prod.fst).Nodup

namespace OrderedDict

variable {κ : Type u} {υ : Type v}

def empty : OrderedDict κ υ := ⟨[], by simp⟩

/-- Every entry is good. -/
def All (P : κ → υ → Prop) (d : OrderedDict κ υ) : Prop := ∀ e ∈ d.entries, P e.1 e.2

theorem all_empty {P : κ → υ → Prop} : All P (empty : OrderedDict κ υ) := by
  intro e he
  cases he

/-- `while len(d) > n: d.popitem(last=False)`. -/
def trim (d : OrderedDict κ υ) (n : Nat) : OrderedDict κ υ where
  entries := d.entries.drop (d.entries.length - n)
  nodup := d.nodup.sublist ((List.drop_sublist _ _).map _)

theorem All.trim {P : κ → υ → Prop} {d : OrderedDict κ υ} (h : All P d) (n : Nat) :
    All P (d.trim n) := fun e he => h e (List.mem_of_mem_drop he)

variable [DecidableEq κ]

/-- `d.get(key)`. -/
def get? (d : OrderedDict κ υ) (k : κ) : Option υ := d.entries.lookup k

/-- The entries with other keys. -/
def without (d : OrderedDict κ υ) (k : κ) : List (κ × υ) := d.entries.filter fun e => e.1 ≠ k

theorem nodup_without (d : OrderedDict κ υ) (k : κ) :
    ((d.without k).map Prod.fst).Nodup ∧ k ∉ (d.without k).map Prod.fst := by
  refine ⟨d.nodup.sublist (List.filter_sublist.map _), fun hm => ?_⟩
  obtain ⟨e, he, rfl⟩ := List.mem_map.mp hm
  simpa using (List.mem_filter.mp he).2

/-- The entries after one with the key `k` was put last. -/
def putLast (d : OrderedDict κ υ) (k : κ) (v : υ) : OrderedDict κ υ where
  entries := d.without k ++ [(k, v)]
  nodup := by
    obtain ⟨hnodup, hk⟩ := d.nodup_without k
    rw [List.map_append, List.nodup_append]
    refine ⟨hnodup, by simp, fun a ha b hb => ?_⟩
    obtain rfl : b = k := by simpa using hb
    rintro rfl
    exact hk ha

/-- `d[key] = value`: a key that is there stays at its place. -/
def set (d : OrderedDict κ υ) (k : κ) (v : υ) : OrderedDict κ υ :=
  if k ∈ d.entries.map Prod.fst then
    { entries := d.entries.map fun e => if e.1 = k then (k, v) else e
      nodup := by
        have hkeys : (d.entries.map fun e => if e.1 = k then (k, v) else e).map Prod.fst =
            d.entries.map Prod.fst := by
          rw [List.map_map]
          refine List.map_congr_left fun e _ => ?_
          by_cases he : e.1 = k <;> simp [he]
        rw [hkeys]
        exact d.nodup }
  else d.putLast k v

/-- `d.move_to_end(key)`. -/
def moveToEnd (d : OrderedDict κ υ) (k : κ) : OrderedDict κ υ :=
  match d.get? k with
  | some v => d.putLast k v
  | none => d

/-! ## Entries -/

variable {d : OrderedDict κ υ} {P : κ → υ → Prop} {k : κ} {v : υ}

theorem mem_of_get? (h : d.get? k = some v) : (k, v) ∈ d.entries := by
  obtain ⟨l₁, l₂, hl, -⟩ := List.lookup_eq_some_iff.mp h
  rw [hl]
  exact List.mem_append_right _ List.mem_cons_self

theorem get?_putLast (k' : κ) :
    (d.putLast k v).get? k' = if k' = k then some v else d.get? k' := by
  show (d.entries.filter (fun e => e.1 ≠ k) ++ [(k, v)]).lookup k' =
    if k' = k then some v else d.entries.lookup k'
  generalize d.entries = es
  induction es with
  | nil =>
    rw [List.filter_nil, List.nil_append, List.lookup_cons]
    by_cases hk : k' = k
    · simp [hk]
    · simp [hk, beq_false_of_ne hk]
  | cons e es ih =>
    by_cases he : e.1 = k
    · rw [List.filter_cons_of_neg (by simpa using he), ih]
      by_cases hk : k' = k
      · rw [if_pos hk, if_pos hk]
      · have hne : (k' == e.1) = false := beq_false_of_ne (he ▸ hk)
        rw [if_neg hk, if_neg hk, List.lookup_cons, hne]
    · rw [List.filter_cons_of_pos (by simpa using he), List.cons_append, List.lookup_cons, ih,
        List.lookup_cons]
      by_cases hk : k' = k
      · have hne : (k' == e.1) = false := beq_false_of_ne fun h => he (h ▸ hk)
        rw [if_pos hk, if_pos hk, hne]
      · rw [if_neg hk, if_neg hk]

/-- A use changes no value. -/
theorem get?_moveToEnd (d : OrderedDict κ υ) (k k' : κ) :
    (d.moveToEnd k).get? k' = d.get? k' := by
  unfold OrderedDict.moveToEnd
  split
  · next v hv =>
    rw [get?_putLast]
    split
    · next hk => rw [hk, hv]
    · rfl
  · rfl

theorem All.get? (h : All P d) (hv : d.get? k = some v) : P k v := h _ (mem_of_get? hv)

theorem All.putLast (h : All P d) (hv : P k v) : All P (d.putLast k v) := by
  intro e he
  rcases List.mem_append.mp he with he | he
  · exact h e (List.mem_of_mem_filter he)
  · rw [List.mem_singleton.mp he]
    exact hv

theorem All.set (h : All P d) (hv : P k v) : All P (d.set k v) := by
  unfold OrderedDict.set
  split
  · intro e he
    obtain ⟨f, hf, rfl⟩ := List.mem_map.mp he
    by_cases hk : f.1 = k
    · rw [if_pos hk]
      exact hv
    · rw [if_neg hk]
      exact h f hf
  · exact h.putLast hv

theorem All.moveToEnd (h : All P d) (k : κ) : All P (d.moveToEnd k) := by
  unfold OrderedDict.moveToEnd
  split
  · next v hv => exact h.putLast (h.get? hv)
  · exact h

end OrderedDict
