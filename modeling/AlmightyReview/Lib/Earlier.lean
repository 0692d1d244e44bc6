import Mathlib.Data.List.Infix
import Mathlib.Data.List.Forall2
import Mathlib.Data.List.Count

/-!
# What comes before an element of a list

A list is often worked through with a memory of the keys that were met: the first element of a key
is treated in one way and the later ones in another.

* `After l pre a`: `a` stands in `l` right after the elements `pre`.
* `withEarlier key g`: each element is changed by `g`, which sees the keys before it.
* `Classwise key l m`: the elements of every key come in the same order in both lists. What an
  element follows among those of its key is then the same too (`Classwise.after`).
-/

/-- `a` stands in `l` right after `pre`. -/
def After {α : Type} (l pre : List α) (a : α) : Prop := pre ++ [a] <+: l

section After

variable {α β : Type} {l m pre pre' : List α} {a b : α}

theorem after_iff : After l pre a ↔ ∃ post, l = pre ++ a :: post := by
  constructor
  · rintro ⟨post, h⟩
    exact ⟨post, by simpa using h.symm⟩
  · rintro ⟨post, rfl⟩
    exact ⟨post, by simp⟩

theorem not_after_nil : ¬After [] pre a := by
  rintro ⟨post, h⟩
  simp at h

theorem after_cons : After (b :: l) pre a ↔
    pre = [] ∧ a = b ∨ ∃ rest, pre = b :: rest ∧ After l rest a := by
  simp only [after_iff]
  constructor
  · rintro ⟨post, h⟩
    cases pre with
    | nil => exact .inl ⟨rfl, (List.cons.inj h).1.symm⟩
    | cons c rest =>
      obtain ⟨rfl, hl⟩ := List.cons.inj h
      exact .inr ⟨rest, rfl, post, hl⟩
  · rintro (⟨rfl, rfl⟩ | ⟨rest, rfl, post, rfl⟩)
    · exact ⟨l, rfl⟩
    · exact ⟨post, rfl⟩

theorem After.mem (h : After l pre a) : a ∈ l := h.subset (by simp)

theorem exists_after (h : a ∈ l) : ∃ pre, After l pre a := by
  obtain ⟨pre, post, rfl⟩ := List.append_of_mem h
  exact ⟨pre, after_iff.mpr ⟨post, rfl⟩⟩

/-- An element further up is one of those before. -/
theorem After.mem_of_lt (h : After l pre a) (h' : After l pre' b)
    (hlt : pre'.length < pre.length) : b ∈ pre := by
  have hle : (pre' ++ [b]).length ≤ pre.length := by
    rw [List.length_append, List.length_singleton]
    exact hlt
  have hpre : pre' ++ [b] <+: pre :=
    List.prefix_of_prefix_length_le h' ((List.prefix_append pre [a]).trans h) hle
  exact hpre.subset (by simp)

/-- One place holds one element. -/
theorem After.eq_of_length (h : After l pre a) (h' : After l pre' b)
    (hlen : pre'.length = pre.length) : b = a := by
  have hlen' : (pre' ++ [b]).length = (pre ++ [a]).length := by
    rw [List.length_append, List.length_append, hlen]
    rfl
  have heq : pre' ++ [b] = pre ++ [a] :=
    (List.prefix_of_prefix_length_le h' h hlen'.le).eq_of_length hlen'
  have hlast := congrArg List.getLast? heq
  simpa using hlast

theorem After.length_lt (h : After l pre a) : pre.length < l.length := by
  have hle := h.length_le
  rwa [List.length_append, List.length_singleton] at hle

theorem After.of_prefix (h : After l pre a) (hlm : l <+: m) : After m pre a := h.trans hlm

theorem after_map (f : α → β) (h : After l pre a) : After (l.map f) (pre.map f) (f a) := by
  obtain ⟨post, rfl⟩ := after_iff.mp h
  exact after_iff.mpr ⟨post.map f, by simp⟩

/-- Elements that are related one by one follow elements that are. -/
theorem After.forall₂ {R : β → α → Prop} {l₀ : List β} (h : After l pre a)
    (hR : List.Forall₂ R l₀ l) :
    ∃ pre₀ a₀, After l₀ pre₀ a₀ ∧ R a₀ a ∧ List.Forall₂ R pre₀ pre := by
  induction pre generalizing l l₀ with
  | nil =>
    cases hR with
    | nil => exact absurd h not_after_nil
    | cons hab hR =>
      obtain ⟨-, rfl⟩ | ⟨rest, hrest, -⟩ := after_cons.mp h
      · exact ⟨[], _, after_cons.mpr (.inl ⟨rfl, rfl⟩), hab, .nil⟩
      · cases hrest
  | cons c pre ih =>
    cases hR with
    | nil => exact absurd h not_after_nil
    | cons hab hR =>
      obtain ⟨hnil, -⟩ | ⟨rest, hrest, hafter⟩ := after_cons.mp h
      · cases hnil
      · obtain ⟨rfl, rfl⟩ := List.cons.inj hrest
        obtain ⟨pre₀, a₀, h₀, ha, hpre⟩ := ih hafter hR
        exact ⟨_ :: pre₀, a₀, after_cons.mpr (.inr ⟨pre₀, rfl, h₀⟩), ha, .cons hab hpre⟩

end After

/-! ## A memory of keys -/

section WithEarlier

variable {α β κ : Type} (key : α → κ) (g : List κ → α → β)

/-- Each element is changed with the keys of those before it. -/
def withEarlier : List κ → List α → List β
  | _, [] => []
  | earlier, a :: as => g earlier a :: withEarlier (earlier ++ [key a]) as

variable {key g} {earlier : List κ} {l : List α}

theorem withEarlier_append (m : List α) :
    withEarlier key g earlier (l ++ m) =
      withEarlier key g earlier l ++ withEarlier key g (earlier ++ l.map key) m := by
  induction l generalizing earlier with
  | nil => simp [withEarlier]
  | cons a l ih => simp [withEarlier, ih]

/-- What stands in a list that was worked through. -/
theorem after_withEarlier {pre : List β} {b : β} (h : After (withEarlier key g earlier l) pre b) :
    ∃ pre₀ a, After l pre₀ a ∧ b = g (earlier ++ pre₀.map key) a ∧
      pre = withEarlier key g earlier pre₀ := by
  induction l generalizing earlier pre with
  | nil => exact absurd h not_after_nil
  | cons a l ih =>
    obtain ⟨rfl, rfl⟩ | ⟨rest, rfl, hrest⟩ := after_cons.mp h
    · exact ⟨[], a, after_cons.mpr (.inl ⟨rfl, rfl⟩), by simp, rfl⟩
    · obtain ⟨pre₀, a₀, h₀, hb, hpre⟩ := ih hrest
      refine ⟨a :: pre₀, a₀, after_cons.mpr (.inr ⟨pre₀, rfl, h₀⟩), ?_, ?_⟩
      · rw [hb, List.append_assoc]
        rfl
      · rw [hpre]
        rfl

/-- The keys are as they were when no element's key is changed. -/
theorem map_withEarlier {key' : β → κ} (hg : ∀ earlier a, key' (g earlier a) = key a) :
    (withEarlier key g earlier l).map key' = l.map key := by
  induction l generalizing earlier with
  | nil => rfl
  | cons a l ih => rw [withEarlier, List.map_cons, List.map_cons, hg, ih]

end WithEarlier

/-! ## The same order in every class -/

section Classwise

variable {α κ : Type} [DecidableEq κ]

/-- The elements of every key come in the same order. -/
def Classwise (key : α → κ) (l m : List α) : Prop :=
  ∀ k, l.filter (fun a => key a = k) = m.filter (fun a => key a = k)

variable {key : α → κ} {l m : List α}

theorem Classwise.mem_iff (h : Classwise key l m) {a : α} : a ∈ l ↔ a ∈ m := by
  have hiff : a ∈ l.filter (fun b => key b = key a) ↔ a ∈ m.filter (fun b => key b = key a) := by
    rw [h]
  simpa using hiff

theorem Classwise.perm [DecidableEq α] (h : Classwise key l m) : l.Perm m := by
  refine List.perm_iff_count.mpr fun a => ?_
  have hcount : ∀ l : List α, l.count a = (l.filter fun b => key b = key a).count a :=
    fun l => (List.count_filter (by simp)).symm
  rw [hcount l, hcount m, h]

/-- An element follows the same elements of its key. -/
theorem Classwise.after (h : Classwise key l m) {pre : List α} {a : α} (ha : After m pre a) :
    ∃ pre', After l pre' a ∧
      pre'.filter (fun b => key b = key a) = pre.filter (fun b => key b = key a) := by
  obtain ⟨post, rfl⟩ := after_iff.mp ha
  have hsplit := h (key a)
  rw [List.filter_append, List.filter_cons_of_pos (by simp)] at hsplit
  obtain ⟨l₁, l₂, rfl, hl₁, hl₂⟩ := List.filter_eq_append_iff.mp hsplit
  obtain ⟨l₃, l₄, rfl, hl₃, -, -⟩ := List.filter_eq_cons_iff.mp hl₂
  refine ⟨l₁ ++ l₃, after_iff.mpr ⟨l₄, by simp⟩, ?_⟩
  have hnone : l₃.filter (fun b => key b = key a) = [] := List.filter_eq_nil_iff.mpr hl₃
  rw [List.filter_append, hnone, List.append_nil, hl₁]

end Classwise
