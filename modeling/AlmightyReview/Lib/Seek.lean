import Mathlib.Data.List.Sort

/-!
# Seek pagination

A page of rows in the order of their keys starts after the key where the page before it ended, and
not at an offset, so it does not depend on the rows that were served already.

* `Seek.page`: the page after a key, of the rows at hand.
* `Seek.keys`: the keys of the rows in order. `map_page`: the keys of a page are some of these, so
  a page depends on the keys only.
* `filter_after`: what comes after the end of a part of the keys is the rest of the keys.
-/

namespace Seek

variable {ρ κ : Type} [LinearOrder κ] (key : ρ → κ)

/-- The key comes after the end of the page before. -/
def isAfter (k : Option κ) (a : κ) : Bool :=
  match k with
  | none => true
  | some k => decide (k < a)

/-- At most `limit` rows after a key, in order. -/
def page (after : Option κ) (limit : Nat) (rows : List ρ) : List ρ :=
  ((rows.filter fun r => isAfter after (key r)).insertionSort fun a b => key a ≤ key b).take limit

/-- The keys of the rows in order. -/
def keys (rows : List ρ) : List κ := (rows.map key).insertionSort (· ≤ ·)

variable {key} {rows : List ρ}

theorem pairwise_keys (h : (rows.map key).Nodup) : (keys key rows).Pairwise (· < ·) := by
  have hle : (keys key rows).Pairwise (· ≤ ·) := List.pairwise_insertionSort _ _
  have hn : (keys key rows).Nodup :=
    (List.perm_insertionSort (· ≤ ·) (rows.map key)).nodup_iff.mpr h
  exact hle.and hn |>.imp fun h => lt_of_le_of_ne h.1 h.2

/-- Two sorted lists of the same keys are one list. -/
theorem eq_of_sorted {as bs : List κ} (ha : as.Pairwise (· ≤ ·)) (hb : bs.Pairwise (· ≤ ·))
    (h : as.Perm bs) : as = bs :=
  h.eq_of_pairwise (fun _ _ _ _ => le_antisymm) ha hb

/-- **A page by its keys**: those of all rows, from the end of the page before on. -/
theorem map_page (after : Option κ) (limit : Nat) :
    (page key after limit rows).map key =
      ((keys key rows).filter (isAfter after)).take limit := by
  unfold page keys
  rw [List.map_take]
  congr 1
  have hp : ((rows.filter fun r => isAfter after (key r)).map key).Perm
      (((rows.map key).insertionSort (· ≤ ·)).filter (isAfter after)) := by
    have h := (List.perm_insertionSort (· ≤ ·) (rows.map key)).symm.filter (isAfter after)
    rwa [List.filter_map] at h
  rw [List.map_insertionSort (fun a b => key a ≤ key b) (· ≤ ·) key _ fun a _ b _ => Iff.rfl]
  refine eq_of_sorted (List.pairwise_insertionSort _ _)
    ((List.pairwise_insertionSort _ _).filter _) ?_
  exact (List.perm_insertionSort _ _).trans hp

/-- The keys after the end of a part are the rest. -/
theorem filter_after {part rest : List κ} {k : κ} (h : (part ++ rest).Pairwise (· < ·))
    (hk : part.getLast? = some k) : (part ++ rest).filter (isAfter (some k)) = rest := by
  obtain ⟨init, rfl⟩ := List.getLast?_eq_some_iff.mp hk
  rw [List.pairwise_append] at h
  obtain ⟨hpart, -, hcross⟩ := h
  have hnone : (init ++ [k]).filter (isAfter (some k)) = [] := by
    rw [List.filter_eq_nil_iff]
    intro a ha
    rw [List.pairwise_append] at hpart
    have hle : a ≤ k := by
      rcases List.mem_append.mp ha with ha | ha
      · exact (hpart.2.2 a ha k (List.mem_singleton.mpr rfl)).le
      · exact (List.mem_singleton.mp ha).le
    simpa [isAfter] using hle
  have hall : rest.filter (isAfter (some k)) = rest := by
    rw [List.filter_eq_self]
    intro b hb
    simpa [isAfter] using hcross k (by simp) b hb
  rw [List.filter_append, hnone, hall, List.nil_append]

end Seek
