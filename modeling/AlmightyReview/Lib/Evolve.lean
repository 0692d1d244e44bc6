import AlmightyReview.Lib.Table

/-!
# How a table evolves

`Table.Evolves N O t t'`: what became of the table `t`. A row of `t'` is new, and then `N` holds of
it, or it was in `t`, and then `O` relates it to what it was; no row is gone. Each statement has its
rule, and `row`, `old`, `mem_of` say what became of a row, and where one comes from.
`Table.Fades O t t'`: no row is new; rows may be gone.
-/

universe u

namespace Table

variable {ρ : Type u} [Row ρ] {N N' : ρ → Prop} {O O' : ρ → ρ → Prop} {t₀ t t' : Table ρ} {r : ρ}

/-- A row of the second table is new and meets `N`, or comes from a row as `O` allows. -/
structure Evolves (N : ρ → Prop) (O : ρ → ρ → Prop) (t t' : Table ρ) : Prop where
  nextId : t.nextId ≤ t'.nextId
  rows : ∀ r' ∈ t', t.nextId ≤ Row.id r' ∧ N r' ∨ ∃ r ∈ t, Row.id r = Row.id r' ∧ O r r'
  kept : ∀ r ∈ t, ∃ r' ∈ t', Row.id r' = Row.id r

namespace Evolves

theorem refl (hO : ∀ r, O r r) (t : Table ρ) : Evolves N O t t :=
  ⟨Nat.le_refl _, fun r hr => .inr ⟨r, hr, rfl, hO r⟩, fun r hr => ⟨r, hr, rfl⟩⟩

theorem mono (h : Evolves N O t t') (hN : ∀ r, N r → N' r) (hO : ∀ r r', O r r' → O' r r') :
    Evolves N' O' t t' := by
  refine ⟨h.nextId, fun r' hr' => ?_, h.kept⟩
  obtain ⟨hle, hn⟩ | ⟨r, hr, hid, ho⟩ := h.rows r' hr'
  · exact .inl ⟨hle, hN r' hn⟩
  · exact .inr ⟨r, hr, hid, hO r r' ho⟩

theorem insert (h : Evolves N O t₀ t) {mk : Nat → ρ} (hmk : ∀ i, Row.id (mk i) = i)
    (hnew : N (mk t.nextId)) : Evolves N O t₀ (t.insert mk hmk) where
  nextId := Nat.le_succ_of_le h.nextId
  rows := by
    intro r' hr'
    rcases (mem_insert : r' ∈ t.insert mk hmk ↔ _).mp hr' with hr' | rfl
    · exact h.rows r' hr'
    · refine .inl ⟨?_, hnew⟩
      rw [hmk]
      exact h.nextId
  kept := by
    intro r hr
    obtain ⟨r', hr', hid⟩ := h.kept r hr
    exact ⟨r', (mem_insert : r' ∈ t.insert mk hmk ↔ _).mpr (.inl hr'), hid⟩

theorem update (h : Evolves N O t₀ t) {p : ρ → Bool} {f : ρ → ρ}
    (hf : ∀ r, Row.id (f r) = Row.id r) (hN : ∀ r, p r = true → N r → N (f r))
    (hO : ∀ r r', p r' = true → Row.id r = Row.id r' → O r r' → O r (f r')) :
    Evolves N O t₀ (t.update p f hf) where
  nextId := h.nextId
  rows := by
    intro r' hr'
    obtain ⟨r, hr, rfl⟩ := (mem_update : r' ∈ t.update p f hf ↔ _).mp hr'
    by_cases hp : p r = true
    · rw [if_pos hp, hf]
      obtain ⟨hle, hn⟩ | ⟨r₀, hr₀, hid, ho⟩ := h.rows r hr
      · exact .inl ⟨hle, hN r hp hn⟩
      · exact .inr ⟨r₀, hr₀, hid, hO r₀ r hp hid ho⟩
    · rw [if_neg hp]
      exact h.rows r hr
  kept := by
    intro r hr
    obtain ⟨r', hr', hid⟩ := h.kept r hr
    refine ⟨_, (mem_update : _ ∈ t.update p f hf ↔ _).mpr ⟨r', hr', rfl⟩, ?_⟩
    split
    · rw [hf, hid]
    · exact hid

/-- What became of a row. -/
theorem row (h : Evolves N O t t') (hr : r ∈ t) : ∃ r' ∈ t', Row.id r' = Row.id r ∧ O r r' := by
  obtain ⟨r', hr', hid⟩ := h.kept r hr
  refine ⟨r', hr', hid, ?_⟩
  obtain ⟨hle, -⟩ | ⟨r₀, hr₀, hid₀, ho⟩ := h.rows r' hr'
  · exact absurd (hid ▸ hle) (Nat.not_le.mpr (t.fresh r hr))
  · rwa [eq_of_id hr hr₀ (hid₀.trans hid).symm]

/-- A row whose id was not given away yet was in the table before. -/
theorem old (h : Evolves N O t t') {r' : ρ} (hr' : r' ∈ t') (hlt : Row.id r' < t.nextId) :
    ∃ r ∈ t, Row.id r = Row.id r' ∧ O r r' := by
  obtain ⟨hle, -⟩ | ho := h.rows r' hr'
  · exact absurd hle (Nat.not_le.mpr hlt)
  · exact ho

/-- A row that `O` allows to change in no way is still there. -/
theorem mem_of (h : Evolves N O t t') (hr : r ∈ t) (ho : ∀ r', O r r' → r' = r) : r ∈ t' := by
  obtain ⟨r', hr', -, hO⟩ := h.row hr
  exact ho r' hO ▸ hr'

end Evolves

/-- Each row of the second table comes from a row as `O` allows. -/
structure Fades (O : ρ → ρ → Prop) (t t' : Table ρ) : Prop where
  nextId : t.nextId ≤ t'.nextId
  rows : ∀ r' ∈ t', ∃ r ∈ t, Row.id r = Row.id r' ∧ O r r'

namespace Fades

theorem refl (hO : ∀ r, O r r) (t : Table ρ) : Fades O t t :=
  ⟨Nat.le_refl _, fun r hr => ⟨r, hr, rfl, hO r⟩⟩

theorem update (h : Fades O t₀ t) {p : ρ → Bool} {f : ρ → ρ} (hf : ∀ r, Row.id (f r) = Row.id r)
    (hO : ∀ r, ∀ r' ∈ t, p r' = true → O r r' → O r (f r')) : Fades O t₀ (t.update p f hf) where
  nextId := h.nextId
  rows := by
    intro r' hr'
    obtain ⟨r, hr, rfl⟩ := (mem_update : r' ∈ t.update p f hf ↔ _).mp hr'
    obtain ⟨r₀, hr₀, hid, ho⟩ := h.rows r hr
    by_cases hp : p r = true
    · rw [if_pos hp, hf]
      exact ⟨r₀, hr₀, hid, hO r₀ r hr hp ho⟩
    · rw [if_neg hp]
      exact ⟨r₀, hr₀, hid, ho⟩

theorem delete (h : Fades O t₀ t) (p : ρ → Bool) : Fades O t₀ (t.delete p) :=
  ⟨h.nextId, fun r hr => h.rows r (mem_delete.mp hr).1⟩

end Fades

/-- What an `UPDATE` makes of the rows that it changes, and what the others are. -/
theorem forall_updated {P : ρ → Prop} {p : ρ → Bool} {f : ρ → ρ}
    (hf : ∀ r, Row.id (f r) = Row.id r) (hnew : ∀ r ∈ t, p r = true → P (f r))
    (hold : ∀ r ∈ t, p r = false → P r) : ∀ r ∈ t.update p f hf, P r := by
  intro r hr
  obtain ⟨r₀, h₀, rfl⟩ := (mem_update : r ∈ t.update p f hf ↔ _).mp hr
  cases hp : p r₀ with
  | true => exact hnew r₀ h₀ hp
  | false => exact hold r₀ h₀ hp

end Table
