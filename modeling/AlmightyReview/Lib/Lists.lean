import Mathlib.Data.List.Dedup
import Mathlib.Data.List.Forall2

/-!
# Lists

* `firsts`, `groups`: the elements without repetitions, and the groups of the elements with one
  key, in the order in which a dictionary would have them.
* `forall₂_mem_left`, `forall₂_mem_right`: partners in related lists. `forall₂_of_mapM` relates the
  elements and the results of a computation that may fail; `mapM_isOk` says when it does not.
-/

universe u v w

/-- The elements, each where it is first. -/
def firsts {α : Type u} [DecidableEq α] (xs : List α) : List α := xs.reverse.dedup.reverse

/-- `defaultdict(list)`: the groups of the elements with one key, the first key first. -/
def groups {α : Type u} {κ : Type v} [DecidableEq κ] (key : α → κ) (xs : List α) : List (List α) :=
  (firsts (xs.map key)).map fun k => xs.filter fun x => key x = k

theorem mem_firsts {α : Type u} [DecidableEq α] {xs : List α} {x : α} :
    x ∈ firsts xs ↔ x ∈ xs := by
  unfold firsts
  rw [List.mem_reverse, List.mem_dedup, List.mem_reverse]

theorem mem_groups {α : Type u} {κ : Type v} [DecidableEq κ] {key : α → κ} {xs g : List α} :
    g ∈ groups key xs ↔ ∃ x ∈ xs, g = xs.filter fun y => key y = key x := by
  unfold groups
  simp only [List.mem_map, mem_firsts]
  constructor
  · rintro ⟨_, ⟨x, hx, rfl⟩, rfl⟩
    exact ⟨x, hx, rfl⟩
  · rintro ⟨x, hx, rfl⟩
    exact ⟨key x, ⟨x, hx, rfl⟩, rfl⟩

section Related

variable {α : Type u} {β : Type v} {R : α → β → Prop} {as : List α} {bs : List β}

theorem forall₂_mem_left (h : List.Forall₂ R as bs) : ∀ a ∈ as, ∃ b ∈ bs, R a b := by
  induction h with
  | nil => simp
  | cons hr _ ih =>
    intro a ha
    rcases List.mem_cons.mp ha with rfl | ha
    · exact ⟨_, List.mem_cons_self, hr⟩
    · obtain ⟨b, hb, hab⟩ := ih a ha
      exact ⟨b, List.mem_cons_of_mem _ hb, hab⟩

theorem forall₂_mem_right (h : List.Forall₂ R as bs) : ∀ b ∈ bs, ∃ a ∈ as, R a b :=
  forall₂_mem_left h.flip

end Related

theorem forall₂_of_mapM {ε α β : Type} {f : α → Except ε β} {as : List α} {bs : List β}
    (h : as.mapM f = .ok bs) : List.Forall₂ (fun a b => f a = .ok b) as bs := by
  induction as generalizing bs with
  | nil =>
    cases h
    exact .nil
  | cons a as ih =>
    rw [List.mapM_cons] at h
    cases hb : f a with
    | error e =>
      rw [hb] at h
      cases h
    | ok b =>
      cases hbs : as.mapM f with
      | error e =>
        rw [hb, hbs] at h
        cases h
      | ok bs' =>
        rw [hb, hbs] at h
        cases h
        exact .cons hb (ih hbs)

theorem mapM_isOk {α β ε : Type} {f : α → Except ε β} {as : List α} :
    (∃ bs, as.mapM f = .ok bs) ↔ ∀ a ∈ as, ∃ b, f a = .ok b := by
  constructor
  · rintro ⟨bs, h⟩ a ha
    obtain ⟨b, -, hb⟩ := forall₂_mem_left (forall₂_of_mapM h) a ha
    exact ⟨b, hb⟩
  · intro h
    induction as with
    | nil => exact ⟨[], rfl⟩
    | cons a as ih =>
      obtain ⟨b, hb⟩ := h a List.mem_cons_self
      obtain ⟨bs, hbs⟩ := ih fun a ha => h a (List.mem_cons_of_mem _ ha)
      rw [List.mapM_cons, hb, hbs]
      exact ⟨_, rfl⟩

theorem length_filter_add {α : Type u} (p : α → Bool) (xs : List α) :
    (xs.filter p).length + (xs.filter fun x => !p x).length = xs.length := by
  rw [← List.countP_eq_length_filter, ← List.countP_eq_length_filter,
    List.length_eq_countP_add_countP p (l := xs)]
  simp
