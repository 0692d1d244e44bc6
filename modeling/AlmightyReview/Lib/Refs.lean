import Mathlib.Data.Fintype.Defs
import Mathlib.Data.Fintype.Basic
import Mathlib.Data.List.Basic

/-!
# References between tables

Tables of several row types, by the name `i : ι` of a table. A row has a key in its table, and
refers to rows of other tables by their keys.

* `Refs.Closed`: every reference leads to a row, which is what foreign keys enforce.
* `Refs.NoneDangle`: no reference leads to a row that was deleted.
* `Refs.Inherits`: a row that refers to a doomed row is doomed itself. The doomed rows of some
  tables can then be deleted (`without`) when the tables that refer to these are among them:
  `closed_without`, `noneDangle_without`.
-/

namespace Refs

variable {ι : Type} {ρ : ι → Type}

/-- The rows of every table. -/
abbrev Rows (ρ : ι → Type) := ∀ i, List (ρ i)

section

variable (key : ∀ i, ρ i → Nat) (refs : ∀ i, ρ i → List (ι × Nat))

/-- Every reference leads to a row. -/
def Closed (rows : Rows ρ) : Prop :=
  ∀ i, ∀ r ∈ rows i, ∀ p ∈ refs i r, ∃ q ∈ rows p.1, key p.1 q = p.2

instance [Fintype ι] (rows : Rows ρ) : Decidable (Closed key refs rows) :=
  inferInstanceAs (Decidable (∀ i, ∀ r ∈ rows i, ∀ p ∈ refs i r, ∃ q ∈ rows p.1, key p.1 q = p.2))

/-- No row refers to a row of `old` that is not there any more. -/
def NoneDangle (old rows : Rows ρ) : Prop :=
  ∀ i, ∀ r ∈ rows i, ∀ p ∈ refs i r, ∀ q ∈ old p.1, key p.1 q = p.2 → q ∈ rows p.1

/-- A row that refers to a doomed row is doomed. -/
def Inherits (rows : Rows ρ) (doomed : ∀ i, ρ i → Bool) : Prop :=
  ∀ i, ∀ r ∈ rows i, ∀ p ∈ refs i r, ∀ q ∈ rows p.1, key p.1 q = p.2 →
    doomed p.1 q = true → doomed i r = true

end

/-- The rows without the doomed ones of some tables. -/
def without (doomed : ∀ i, ρ i → Bool) (cleared : ι → Bool) (rows : Rows ρ) : Rows ρ := fun i =>
  if cleared i then (rows i).filter fun r => !doomed i r else rows i

variable {key : ∀ i, ρ i → Nat} {refs : ∀ i, ρ i → List (ι × Nat)} {rows old : Rows ρ}
  {doomed : ∀ i, ρ i → Bool} {cleared : ι → Bool}

theorem mem_without {i : ι} {r : ρ i} : r ∈ without doomed cleared rows i ↔
    r ∈ rows i ∧ (cleared i = true → doomed i r = false) := by
  unfold without
  by_cases hc : cleared i = true
  · rw [if_pos hc, List.mem_filter]
    simp [hc]
  · rw [if_neg hc]
    simp [hc]

theorem without_none : without doomed (fun _ => false) rows = rows := rfl

/-- A row that stays refers to no row that goes, if the tables that refer to a cleared table are
cleared. -/
theorem stays_of_ref (h : Inherits key refs rows doomed)
    (hc : ∀ i, ∀ r ∈ rows i, ∀ p ∈ refs i r, cleared p.1 = true → cleared i = true)
    {i : ι} {r : ρ i} (hr : r ∈ without doomed cleared rows i) {p : ι × Nat} (hp : p ∈ refs i r)
    {q : ρ p.1} (hq : q ∈ rows p.1) (hk : key p.1 q = p.2) :
    q ∈ without doomed cleared rows p.1 := by
  obtain ⟨hr, hstays⟩ := mem_without.mp hr
  refine mem_without.mpr ⟨hq, fun hcp => ?_⟩
  have hdr := hstays (hc i r hr p hp hcp)
  by_contra hdq
  rw [h i r hr p hp q hq hk (Bool.not_eq_false _ ▸ hdq)] at hdr
  cases hdr

theorem closed_without (hclosed : Closed key refs rows) (h : Inherits key refs rows doomed)
    (hc : ∀ i, ∀ r ∈ rows i, ∀ p ∈ refs i r, cleared p.1 = true → cleared i = true) :
    Closed key refs (without doomed cleared rows) := by
  intro i r hr p hp
  obtain ⟨q, hq, hk⟩ := hclosed i r (mem_without.mp hr).1 p hp
  exact ⟨q, stays_of_ref h hc hr hp hq hk, hk⟩

theorem noneDangle_without (h : Inherits key refs rows doomed)
    (hc : ∀ i, ∀ r ∈ rows i, ∀ p ∈ refs i r, cleared p.1 = true → cleared i = true) :
    NoneDangle key refs rows (without doomed cleared rows) :=
  fun _ _ hr _ hp _ hq hk => stays_of_ref h hc hr hp hq hk

theorem NoneDangle.refl (rows : Rows ρ) : NoneDangle key refs rows rows :=
  fun _ _ _ _ _ _ hq _ => hq

theorem NoneDangle.trans {rows' : Rows ρ} (h : NoneDangle key refs old rows)
    (h' : NoneDangle key refs rows rows') (hsub : ∀ i, ∀ r ∈ rows' i, r ∈ rows i) :
    NoneDangle key refs old rows' :=
  fun i r hr p hp q hq hk => h' i r hr p hp q (h i r (hsub i r hr) p hp q hq hk) hk

end Refs
