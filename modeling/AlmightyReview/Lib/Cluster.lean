import Mathlib.Data.List.Basic
import Mathlib.Data.List.Perm.Basic

/-!
# Greedy clusters

A list is grouped in one pass: an element joins the first group whose head is near, or begins a
group of its own.

* `place` and `groups`: the pass.
* `Grouped near fs gs`: what it establishes. No element is lost, a group keeps the order of the
  list and all of it is near its head, and no element is near the head of an earlier group.
* `Grouped.near_iff`: where nearness is an equivalence on the list, the groups are its classes.
  Without transitivity they depend on the order of the list.
-/

universe u

namespace Cluster

variable {α : Type u} (near : α → α → Bool)

/-- The element joins the first group whose head is near. -/
def place (a : α) : List (List α) → List (List α)
  | [] => [[a]]
  | [] :: gs => [] :: place a gs
  | (h :: t) :: gs => if near h a then (h :: t ++ [a]) :: gs else (h :: t) :: place a gs

def groups (fs : List α) : List (List α) := fs.foldl (fun gs a => place near a gs) []

/-- The groups of the list. -/
structure Grouped (fs : List α) (gs : List (List α)) : Prop where
  perm : gs.flatten.Perm fs
  sublist : ∀ g ∈ gs, g.Sublist fs
  head : ∀ g ∈ gs, ∃ h t, g = h :: t ∧ ∀ a ∈ t, near h a = true
  apart : gs.Pairwise fun g g' => ∀ h ∈ g.head?, ∀ a ∈ g', near h a = false

variable {near}

/-- Where an element is placed. -/
theorem place_cases (a : α) {gs : List (List α)} (hgs : ∀ g ∈ gs, g ≠ []) :
    (∃ l h t r, gs = l ++ (h :: t) :: r ∧ near h a = true ∧
      (∀ g ∈ l, ∀ h ∈ g.head?, near h a = false) ∧
      place near a gs = l ++ (h :: t ++ [a]) :: r) ∨
    (∀ g ∈ gs, ∀ h ∈ g.head?, near h a = false) ∧ place near a gs = gs ++ [[a]] := by
  induction gs with
  | nil => exact .inr ⟨by simp, rfl⟩
  | cons g gs ih =>
    match g with
    | [] => exact absurd rfl (hgs [] List.mem_cons_self)
    | h :: t =>
      by_cases hn : near h a = true
      · refine .inl ⟨[], h, t, gs, rfl, hn, by simp, ?_⟩
        rw [place, if_pos hn, List.nil_append]
      · have hfar : ∀ h' ∈ (h :: t).head?, near h' a = false := by
          intro h' hh'
          obtain rfl : h = h' := Option.some.inj hh'
          simpa using hn
        rw [place, if_neg hn]
        rcases ih fun g hg => hgs g (List.mem_cons_of_mem _ hg) with
          ⟨l, h₁, t₁, r, rfl, hn₁, hl, he⟩ | ⟨hall, he⟩
        · refine .inl ⟨(h :: t) :: l, h₁, t₁, r, rfl, hn₁, List.forall_mem_cons.mpr ⟨hfar, hl⟩, ?_⟩
          rw [he]
          rfl
        · exact .inr ⟨List.forall_mem_cons.mpr ⟨hfar, hall⟩, by rw [he, List.cons_append]⟩

theorem Grouped.nil : Grouped near ([] : List α) [] :=
  ⟨.nil, by simp, by simp, .nil⟩

theorem Grouped.ne_nil {fs : List α} {gs : List (List α)} (h : Grouped near fs gs) :
    ∀ g ∈ gs, g ≠ [] := by
  intro g hg he
  obtain ⟨a, t, ht, -⟩ := h.head g hg
  cases he.symm.trans ht

/-- One more element. -/
theorem Grouped.place {fs : List α} {gs : List (List α)} (h : Grouped near fs gs) (a : α) :
    Grouped near (fs ++ [a]) (place near a gs) := by
  have hold : ∀ g ∈ gs, g.Sublist (fs ++ [a]) := fun g hg =>
    (h.sublist g hg).trans (List.sublist_append_left fs [a])
  rcases @place_cases α near a _ h.ne_nil with ⟨l, b, t, r, rfl, hn, hl, he⟩ | ⟨hall, he⟩
  · rw [he]
    have hmem : ∀ g, g ∈ l ++ r → g ∈ l ++ (b :: t) :: r := by
      intro g hg
      rcases List.mem_append.mp hg with hg | hg
      · exact List.mem_append_left _ hg
      · exact List.mem_append_right _ (List.mem_cons_of_mem _ hg)
    have hnew : ∀ {P : List α → Prop}, P (b :: t ++ [a]) → (∀ g ∈ l ++ (b :: t) :: r, P g) →
        ∀ g ∈ l ++ (b :: t ++ [a]) :: r, P g := by
      intro P hP hall g hg
      rcases List.mem_append.mp hg with hg | hg
      · exact hall g (hmem g (List.mem_append_left _ hg))
      · rcases List.mem_cons.mp hg with rfl | hg
        · exact hP
        · exact hall g (hmem g (List.mem_append_right _ hg))
    have hbt : (b :: t) ∈ l ++ (b :: t) :: r := List.mem_append_right _ List.mem_cons_self
    refine ⟨?_, hnew ((h.sublist _ hbt).append_right [a]) hold, hnew ?_ h.head, ?_⟩
    · have hp := h.perm.append_right [a]
      refine List.Perm.trans ?_ hp
      simp only [List.flatten_append, List.flatten_cons, List.append_assoc]
      exact List.Perm.append_left _ (List.Perm.append_left _ List.perm_append_comm)
    · obtain ⟨b', t', hbt', hnear⟩ := h.head _ hbt
      obtain ⟨rfl, rfl⟩ := List.cons.inj hbt'
      refine ⟨b, t ++ [a], rfl, fun x hx => ?_⟩
      rcases List.mem_append.mp hx with hx | hx
      · exact hnear x hx
      · rwa [List.mem_singleton.mp hx]
    · have hp := h.apart
      rw [List.pairwise_append, List.pairwise_cons] at hp ⊢
      obtain ⟨hpl, ⟨hbr, hpr⟩, hlr⟩ := hp
      refine ⟨hpl, ⟨hbr, hpr⟩, fun g hg g' hg' c hc x hx => ?_⟩
      rcases List.mem_cons.mp hg' with rfl | hg'
      · rcases List.mem_append.mp hx with hx | hx
        · exact hlr g hg (b :: t) List.mem_cons_self c hc x hx
        · rw [List.mem_singleton.mp hx]
          exact hl g hg c hc
      · exact hlr g hg g' (List.mem_cons_of_mem _ hg') c hc x hx
  · rw [he]
    refine ⟨?_, ?_, ?_, ?_⟩
    · rw [List.flatten_append]
      exact h.perm.append_right _
    · intro g hg
      rcases List.mem_append.mp hg with hg | hg
      · exact hold g hg
      · rw [List.mem_singleton.mp hg]
        exact List.sublist_append_right fs [a]
    · intro g hg
      rcases List.mem_append.mp hg with hg | hg
      · exact h.head g hg
      · exact ⟨a, [], List.mem_singleton.mp hg, by simp⟩
    · refine List.pairwise_append.mpr ⟨h.apart, List.pairwise_singleton _ _, ?_⟩
      intro g hg g' hg' c hc x hx
      rw [List.mem_singleton.mp hg'] at hx
      rw [List.mem_singleton.mp hx]
      exact hall g hg c hc

theorem grouped_groups (fs : List α) : Grouped near fs (groups near fs) := by
  suffices h : ∀ fs₀ gs, Grouped near fs₀ gs →
      Grouped near (fs₀ ++ fs) (fs.foldl (fun gs a => Cluster.place near a gs) gs) from
    h [] [] .nil
  induction fs with
  | nil =>
    intro fs₀ gs h
    rwa [List.append_nil]
  | cons a fs ih =>
    intro fs₀ gs h
    have hnext := ih _ _ (h.place a)
    rwa [List.append_assoc] at hnext

theorem Grouped.mem {fs : List α} {gs : List (List α)} (h : Grouped near fs gs) {g : List α}
    (hg : g ∈ gs) {a : α} (ha : a ∈ g) : a ∈ fs := (h.sublist g hg).subset ha

/-- An element is near the head of its group, and not near that of an earlier one. -/
theorem Grouped.not_near {fs : List α} {gs : List (List α)} (h : Grouped near fs gs) {i j : Nat}
    {g g' : List α} (hi : gs[i]? = some g) (hj : gs[j]? = some g') (hij : i < j) :
    ∀ c ∈ g.head?, ∀ a ∈ g', near c a = false := by
  obtain ⟨hi', rfl⟩ := List.getElem?_eq_some_iff.mp hi
  obtain ⟨hj', rfl⟩ := List.getElem?_eq_some_iff.mp hj
  exact List.pairwise_iff_getElem.mp h.apart i j hi' hj' hij

/-- Nearness is an equivalence on the list. -/
structure Equivalent (near : α → α → Bool) (fs : List α) : Prop where
  refl : ∀ a, near a a = true
  symm : ∀ a b, near a b = true → near b a = true
  trans : ∀ a ∈ fs, ∀ b ∈ fs, ∀ c ∈ fs, near a b = true → near b c = true → near a c = true

/-- **The groups of an equivalence** are its classes. -/
theorem Grouped.near_iff {fs : List α} {gs : List (List α)} (h : Grouped near fs gs)
    (he : Equivalent near fs) {i j : Nat} {g g' : List α} (hi : gs[i]? = some g)
    (hj : gs[j]? = some g') {a b : α} (ha : a ∈ g) (hb : b ∈ g') :
    near a b = true ↔ i = j := by
  -- every element is near the head of its group
  have hhead : ∀ {k : Nat} {g : List α}, gs[k]? = some g →
      ∃ c ∈ g.head?, c ∈ fs ∧ ∀ a ∈ g, near c a = true := by
    intro k g hk
    have hg := List.mem_of_getElem? hk
    obtain ⟨c, t, rfl, ht⟩ := h.head g hg
    exact ⟨c, rfl, h.mem hg List.mem_cons_self,
      List.forall_mem_cons.mpr ⟨he.refl c, ht⟩⟩
  have hfar : ∀ {k m : Nat} {g g' : List α}, gs[k]? = some g → gs[m]? = some g' → k < m →
      ∀ a ∈ g, ∀ b ∈ g', near a b = false := by
    intro k m g g' hk hm hkm a ha b hb
    obtain ⟨c, hc, hcf, hca⟩ := hhead hk
    rw [Bool.eq_false_iff]
    intro hab
    have hcb := he.trans c hcf a (h.mem (List.mem_of_getElem? hk) ha) b
      (h.mem (List.mem_of_getElem? hm) hb) (hca a ha) hab
    rw [h.not_near hk hm hkm c hc b hb] at hcb
    cases hcb
  constructor
  · intro hab
    rcases Nat.lt_trichotomy i j with hij | hij | hij
    · rw [hfar hi hj hij a ha b hb] at hab
      cases hab
    · exact hij
    · have hba := he.symm a b hab
      rw [hfar hj hi hij b hb a ha] at hba
      cases hba
  · rintro rfl
    obtain rfl : g = g' := Option.some.inj (hi.symm.trans hj)
    obtain ⟨c, -, hcf, hc⟩ := hhead hi
    have hg := List.mem_of_getElem? hi
    exact he.trans a (h.mem hg ha) c hcf b (h.mem hg hb) (he.symm c a (hc a ha)) (hc b hb)

/-- A class of an equivalence, in the order of the list. -/
theorem Grouped.eq_filter {fs : List α} {gs : List (List α)} (h : Grouped near fs gs)
    (he : Equivalent near fs) {i : Nat} {g : List α} (hi : gs[i]? = some g) {a : α} (ha : a ∈ g) :
    g = fs.filter (near a) := by
  have hall : ∀ b ∈ g, near a b = true := fun b hb => (h.near_iff he hi hi ha hb).mpr rfl
  have hsub : g.Sublist (fs.filter (near a)) := by
    rw [← List.filter_eq_self.mpr hall]
    exact (h.sublist g (List.mem_of_getElem? hi)).filter _
  -- nothing near `a` stands in another group
  have hno : ∀ l : List (List α), (∀ g' ∈ l, ∃ j, gs[j]? = some g' ∧ j ≠ i) →
      l.flatten.countP (near a) = 0 := by
    intro l hl
    rw [List.countP_eq_zero]
    intro b hb hn
    obtain ⟨g', hg', hb'⟩ := List.mem_flatten.mp hb
    obtain ⟨j, hj, hne⟩ := hl g' hg'
    exact hne ((h.near_iff he hi hj ha hb').mp hn).symm
  obtain ⟨hlt, rfl⟩ := List.getElem?_eq_some_iff.mp hi
  refine hsub.eq_of_length ?_
  have hcount : fs.countP (near a) = gs[i].length := by
    have hsplit : gs = gs.take i ++ gs[i] :: gs.drop (i + 1) := by
      rw [← List.drop_eq_getElem_cons hlt, List.take_append_drop]
    rw [← h.perm.countP_eq, congrArg List.flatten hsplit, List.flatten_append, List.flatten_cons,
      List.countP_append, List.countP_append, List.countP_eq_length.mpr hall, hno, hno]
    · rw [Nat.zero_add, Nat.add_zero]
    · intro g' hg'
      obtain ⟨j, hj⟩ := List.mem_iff_getElem?.mp hg'
      rw [List.getElem?_drop] at hj
      exact ⟨_, hj, by omega⟩
    · intro g' hg'
      obtain ⟨j, hj⟩ := List.mem_iff_getElem?.mp hg'
      rw [List.getElem?_take] at hj
      split at hj
      · exact ⟨j, hj, by omega⟩
      · cases hj
  rw [← hcount, List.countP_eq_length_filter]

end Cluster
