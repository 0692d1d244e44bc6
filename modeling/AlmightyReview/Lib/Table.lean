import Mathlib.Data.List.Basic
import Mathlib.Data.List.Nodup
import Mathlib.Order.MinMax

/-!
# Tables with an automatic integer primary key

A `Table ρ` is the list of its rows, in the order of their insertion, with the next key. Its
fields say that the keys are distinct and below the next key, so a key is never used twice, also
after its row was deleted (`AUTOINCREMENT`).

* `insert`, `update`, `delete` are the statements; `count` is the number of rows that a statement
  meets (its `rowcount`); `get?` is the row of a key.
* `put` inserts a row under a key of its own, `upsert` is `INSERT .. ON CONFLICT DO UPDATE`, and
  `maxId` is `MAX(id)` of the rows that meet a condition.
* `mem_insert`, `mem_update`, `mem_delete` say which rows a statement leaves; `get?_eq_some`
  turns a lookup into membership. Proofs about tables use these and not the row lists.
-/

universe u

/-- A row type with an integer primary key. -/
class Row (ρ : Type u) where
  id : ρ → Nat

/-- A table with an automatic integer primary key. -/
structure Table (ρ : Type u) [Row ρ] where
  rows : List ρ
  nextId : Nat
  nodup : (rows.map Row.id).Nodup
  fresh : ∀ r ∈ rows, Row.id r < nextId

namespace Table

variable {ρ : Type u} [Row ρ] {t : Table ρ} {r : ρ}

instance : Membership ρ (Table ρ) := ⟨fun t r => r ∈ t.rows⟩

theorem mem_def : r ∈ t ↔ r ∈ t.rows := Iff.rfl

/-- The table without rows; the keys start at 1. -/
def empty : Table ρ := ⟨[], 1, by simp, by simp⟩

/-- A table with given rows. -/
def ofRows (rows : List ρ) (nextId : Nat) (nodup : (rows.map Row.id).Nodup)
    (fresh : ∀ r ∈ rows, Row.id r < nextId) : Table ρ := ⟨rows, nextId, nodup, fresh⟩

/-- `INSERT`: a new row under the next key. -/
def insert (t : Table ρ) (mk : Nat → ρ) (hmk : ∀ i, Row.id (mk i) = i := by intros; exact id rfl) :
    Table ρ where
  rows := t.rows ++ [mk t.nextId]
  nextId := t.nextId + 1
  nodup := by
    rw [List.map_append, List.nodup_append]
    refine ⟨t.nodup, by simp, ?_⟩
    intro a ha b hb
    obtain ⟨r, hr, rfl⟩ := List.mem_map.mp ha
    have hlt := t.fresh r hr
    simp only [List.map_cons, hmk, List.map_nil, List.mem_cons, List.not_mem_nil, or_false] at hb
    omega
  fresh := by
    intro r hr
    rcases List.mem_append.mp hr with h | h
    · have := t.fresh r h
      omega
    · rw [List.mem_singleton.mp h, hmk]
      omega

/-- `UPDATE`: `f` on the rows that meet `p`. -/
def update (t : Table ρ) (p : ρ → Bool) (f : ρ → ρ)
    (hf : ∀ r, Row.id (f r) = Row.id r := by intros; exact id rfl) : Table ρ where
  rows := t.rows.map fun r => if p r then f r else r
  nextId := t.nextId
  nodup := by
    have : (t.rows.map fun r => if p r then f r else r).map Row.id = t.rows.map Row.id := by
      rw [List.map_map]
      refine List.map_congr_left fun r _ => ?_
      simp only [Function.comp_apply]
      split
      · exact hf r
      · rfl
    rw [this]
    exact t.nodup
  fresh := by
    intro r hr
    obtain ⟨r₀, h₀, rfl⟩ := List.mem_map.mp hr
    have hlt := t.fresh r₀ h₀
    split
    · rwa [hf]
    · exact hlt

/-- `DELETE`: the rows that do not meet `p`. -/
def delete (t : Table ρ) (p : ρ → Bool) : Table ρ where
  rows := t.rows.filter fun r => !p r
  nextId := t.nextId
  nodup := t.nodup.sublist (List.filter_sublist.map Row.id)
  fresh := fun r hr => t.fresh r (List.mem_of_mem_filter hr)

/-- The rows in another form, under the same keys (`ALTER TABLE .. ADD COLUMN`). -/
def mapRows {σ : Type u} [Row σ] (t : Table ρ) (f : ρ → σ) (hf : ∀ r, Row.id (f r) = Row.id r) :
    Table σ where
  rows := t.rows.map f
  nextId := t.nextId
  nodup := by
    have : Row.id ∘ f = (Row.id : ρ → Nat) := funext hf
    rw [List.map_map, this]
    exact t.nodup
  fresh := by
    intro s hs
    obtain ⟨r, hr, rfl⟩ := List.mem_map.mp hs
    rw [hf]
    exact t.fresh r hr

/-- `INSERT OR IGNORE` of a row under its own key; nothing happens when the key is in use. -/
def put (t : Table ρ) (r : ρ) : Table ρ :=
  if h : ∃ r' ∈ t.rows, Row.id r' = Row.id r then t
  else
    { rows := t.rows ++ [r]
      nextId := max t.nextId (Row.id r + 1)
      nodup := by
        rw [List.map_append, List.nodup_append]
        refine ⟨t.nodup, by simp, ?_⟩
        intro a ha b hb
        obtain ⟨r', hr', rfl⟩ := List.mem_map.mp ha
        simp only [List.map_cons, List.map_nil, List.mem_singleton] at hb
        subst hb
        exact fun heq => h ⟨r', hr', heq⟩
      fresh := by
        intro r' hr'
        rcases List.mem_append.mp hr' with h' | h'
        · have := t.fresh r' h'
          omega
        · rw [List.mem_singleton.mp h']
          omega }

/-- The number of rows that meet `p`. -/
def count (t : Table ρ) (p : ρ → Bool) : Nat := t.rows.countP p

/-- The row with the key `i`. -/
def get? (t : Table ρ) (i : Nat) : Option ρ := t.rows.find? fun r => Row.id r == i

/-- The first row, in the order of insertion, that meets `p`. -/
def find? (t : Table ρ) (p : ρ → Bool) : Option ρ := t.rows.find? p

/-- `INSERT .. ON CONFLICT (key) DO UPDATE`: the row `r`, or `f` on the row that has its key. -/
def upsert (t : Table ρ) (r : ρ) (f : ρ → ρ)
    (hf : ∀ r, Row.id (f r) = Row.id r := by intros; exact id rfl) : Table ρ :=
  if (t.get? (Row.id r)).isSome then t.update (fun s => Row.id s == Row.id r) f hf else t.put r

/-- `COALESCE(MAX(id), 0)` of the rows that meet `p`. -/
def maxId (t : Table ρ) (p : ρ → Bool) : Nat := (((t.rows.filter p).map Row.id).max?).getD 0

/-! ## Which rows a statement leaves -/

@[simp] theorem mem_empty : r ∉ (empty : Table ρ) := by
  simp [mem_def, empty]

theorem mem_insert {mk : Nat → ρ} {hmk : ∀ i, Row.id (mk i) = i} :
    r ∈ t.insert mk hmk ↔ r ∈ t ∨ r = mk t.nextId := by
  simp [mem_def, insert]

theorem mem_insert_self (mk : Nat → ρ)
    (hmk : ∀ i, Row.id (mk i) = i := by intros; exact id rfl) : mk t.nextId ∈ t.insert mk hmk :=
  mem_insert.mpr (.inr rfl)

theorem mem_insert_of_mem {mk : Nat → ρ} (h : r ∈ t)
    (hmk : ∀ i, Row.id (mk i) = i := by intros; exact id rfl) : r ∈ t.insert mk hmk :=
  mem_insert.mpr (.inl h)

theorem mem_update {p : ρ → Bool} {f : ρ → ρ} {hf : ∀ r, Row.id (f r) = Row.id r} :
    r ∈ t.update p f hf ↔ ∃ r₀ ∈ t, r = if p r₀ then f r₀ else r₀ := by
  simp only [mem_def, update, List.mem_map, eq_comm]

theorem mem_update_of_mem {p : ρ → Bool} {f : ρ → ρ} (h : r ∈ t)
    (hf : ∀ r, Row.id (f r) = Row.id r := by intros; exact id rfl) :
    (if p r then f r else r) ∈ t.update p f hf :=
  mem_update.mpr ⟨r, h, rfl⟩

theorem mem_delete {p : ρ → Bool} : r ∈ t.delete p ↔ r ∈ t ∧ p r = false := by
  simp [mem_def, delete]

@[simp] theorem nextId_insert {mk : Nat → ρ} {hmk : ∀ i, Row.id (mk i) = i} :
    (t.insert mk hmk).nextId = t.nextId + 1 := rfl

@[simp] theorem nextId_update {p : ρ → Bool} {f : ρ → ρ} {hf : ∀ r, Row.id (f r) = Row.id r} :
    (t.update p f hf).nextId = t.nextId := rfl

@[simp] theorem nextId_delete {p : ρ → Bool} : (t.delete p).nextId = t.nextId := rfl

/-! ## Keys -/

theorem lt_nextId (h : r ∈ t) : Row.id r < t.nextId := t.fresh r h

/-- Two rows of a table with one key are one row. -/
theorem eq_of_id {r₁ r₂ : ρ} (h₁ : r₁ ∈ t) (h₂ : r₂ ∈ t) (h : Row.id r₁ = Row.id r₂) :
    r₁ = r₂ :=
  List.inj_on_of_nodup_map t.nodup h₁ h₂ h

theorem get?_eq_some {i : Nat} : t.get? i = some r ↔ r ∈ t ∧ Row.id r = i := by
  constructor
  · intro h
    exact ⟨List.mem_of_find?_eq_some h, by simpa using List.find?_some h⟩
  · rintro ⟨hr, rfl⟩
    cases hf : t.get? (Row.id r) with
    | none =>
      have := List.find?_eq_none.mp hf r hr
      simp at this
    | some r' =>
      have hr' : r' ∈ t := List.mem_of_find?_eq_some hf
      have hid : Row.id r' = Row.id r := by simpa using List.find?_some hf
      rw [eq_of_id hr' hr hid]

theorem get?_eq_none {i : Nat} : t.get? i = none ↔ ∀ r ∈ t, Row.id r ≠ i := by
  unfold get?
  rw [List.find?_eq_none]
  simp [mem_def]

theorem get?_isSome {i : Nat} : (t.get? i).isSome ↔ ∃ r ∈ t, Row.id r = i := by
  rw [Option.isSome_iff_exists]
  simp only [get?_eq_some]

theorem get?_of_mem (h : r ∈ t) : t.get? (Row.id r) = some r := get?_eq_some.mpr ⟨h, rfl⟩

theorem mem_put {s : ρ} : s ∈ t.put r ↔ s ∈ t ∨ s = r ∧ ∀ r' ∈ t, Row.id r' ≠ Row.id r := by
  unfold put
  by_cases h : ∃ r' ∈ t.rows, Row.id r' = Row.id r
  · rw [dif_pos h]
    obtain ⟨r', hr', hid⟩ := h
    exact ⟨.inl, fun hs => hs.elim id fun hs => absurd hid (hs.2 r' hr')⟩
  · rw [dif_neg h]
    have hn : ∀ r' ∈ t, Row.id r' ≠ Row.id r := fun r' hr' heq => h ⟨r', hr', heq⟩
    simp only [mem_def, List.mem_append, List.mem_singleton]
    exact or_congr_right ⟨fun hs => ⟨hs, hn⟩, fun hs => hs.1⟩

theorem rows_put (h : ∀ r' ∈ t, Row.id r' ≠ Row.id r) : (t.put r).rows = t.rows ++ [r] := by
  unfold put
  rw [dif_neg fun ⟨r', hr', heq⟩ => h r' hr' heq]

theorem nextId_le_put : t.nextId ≤ (t.put r).nextId := by
  unfold put
  split
  · exact Nat.le_refl _
  · exact Nat.le_max_left _ _

theorem put_of_isSome (h : (t.get? (Row.id r)).isSome) : t.put r = t := by
  unfold put
  exact dif_pos (get?_isSome.mp h)

theorem get?_put {i : Nat} : (t.put r).get? i =
    if i = Row.id r then some ((t.get? i).getD r) else t.get? i := by
  apply Option.ext
  intro s
  rw [get?_eq_some, mem_put]
  by_cases hi : i = Row.id r
  · subst hi
    rw [if_pos rfl]
    cases hg : t.get? (Row.id r) with
    | none =>
      rw [get?_eq_none] at hg
      simp only [Option.getD_none, Option.some.injEq]
      constructor
      · rintro ⟨hs | ⟨rfl, -⟩, hid⟩
        · exact absurd hid (hg s hs)
        · rfl
      · rintro rfl
        exact ⟨.inr ⟨rfl, hg⟩, rfl⟩
    | some r' =>
      obtain ⟨hr', hid'⟩ := get?_eq_some.mp hg
      simp only [Option.getD_some, Option.some.injEq]
      constructor
      · rintro ⟨hs | ⟨rfl, hn⟩, hid⟩
        · exact eq_of_id hr' hs (hid'.trans hid.symm)
        · exact absurd hid' (hn r' hr')
      · rintro rfl
        exact ⟨.inl hr', hid'⟩
  · rw [if_neg hi, get?_eq_some]
    constructor
    · rintro ⟨hs | ⟨rfl, -⟩, hid⟩
      · exact ⟨hs, hid⟩
      · exact absurd hid.symm hi
    · rintro ⟨hs, hid⟩
      exact ⟨.inl hs, hid⟩

theorem get?_update {p : ρ → Bool} {f : ρ → ρ} {hf : ∀ r, Row.id (f r) = Row.id r} {i : Nat} :
    (t.update p f hf).get? i = (t.get? i).map fun r => if p r then f r else r := by
  apply Option.ext
  intro s
  rw [get?_eq_some, mem_update, Option.map_eq_some_iff]
  have hid : ∀ r, Row.id (if p r then f r else r) = Row.id r := by
    intro r
    split
    · exact hf r
    · rfl
  constructor
  · rintro ⟨⟨r, hr, rfl⟩, h⟩
    exact ⟨r, get?_eq_some.mpr ⟨hr, (hid r).symm.trans h⟩, rfl⟩
  · rintro ⟨r, hr, rfl⟩
    obtain ⟨hr, h⟩ := get?_eq_some.mp hr
    exact ⟨⟨r, hr, rfl⟩, (hid r).trans h⟩

/-- What an upsert leaves under a key. -/
theorem get?_upsert {f : ρ → ρ} {hf : ∀ r, Row.id (f r) = Row.id r} {i : Nat} :
    (t.upsert r f hf).get? i =
      if i = Row.id r then some ((t.get? i).elim r f) else t.get? i := by
  unfold upsert
  by_cases hs : (t.get? (Row.id r)).isSome
  · rw [if_pos hs, get?_update]
    obtain ⟨s, hs⟩ := Option.isSome_iff_exists.mp hs
    by_cases hi : i = Row.id r
    · subst hi
      rw [if_pos rfl, hs]
      simp [(get?_eq_some.mp hs).2]
    · rw [if_neg hi]
      cases hg : t.get? i with
      | none => rfl
      | some s' =>
        have : Row.id s' ≠ Row.id r := fun h => hi ((get?_eq_some.mp hg).2.symm.trans h)
        simp [this]
  · rw [if_neg hs, get?_put]
    by_cases hi : i = Row.id r
    · subst hi
      rw [if_pos rfl, if_pos rfl, Option.not_isSome_iff_eq_none.mp hs]
      rfl
    · rw [if_neg hi, if_neg hi]

theorem find?_eq_none {p : ρ → Bool} : t.find? p = none ↔ ∀ r ∈ t, p r = false := by
  unfold find?
  rw [List.find?_eq_none]
  simp [mem_def]

theorem mem_of_find? {p : ρ → Bool} (h : t.find? p = some r) : r ∈ t :=
  List.mem_of_find?_eq_some h

theorem of_find? {p : ρ → Bool} (h : t.find? p = some r) : p r = true := by
  simpa using List.find?_some h

/-! ## The number of rows -/

theorem count_eq_zero {p : ρ → Bool} : t.count p = 0 ↔ ∀ r ∈ t, p r = false := by
  unfold count
  rw [List.countP_eq_zero]
  simp [mem_def]

theorem count_pos {p : ρ → Bool} : 0 < t.count p ↔ ∃ r ∈ t, p r = true := by
  unfold count
  rw [List.countP_pos_iff]
  rfl

/-- Rows that meet two conditions under the same keys are as many. -/
theorem count_congr {u : Table ρ} {p q : ρ → Bool}
    (h : ∀ i, (∃ r ∈ t, Row.id r = i ∧ p r = true) ↔ ∃ r ∈ u, Row.id r = i ∧ q r = true) :
    t.count p = u.count q := by
  have hkeys : ((t.rows.filter p).map Row.id).Perm ((u.rows.filter q).map Row.id) := by
    refine (List.perm_ext_iff_of_nodup (t.nodup.sublist (List.filter_sublist.map _))
      (u.nodup.sublist (List.filter_sublist.map _))).mpr fun i => ?_
    simp only [List.mem_map, List.mem_filter]
    have hi := h i
    simp only [mem_def] at hi
    constructor
    · rintro ⟨r, ⟨hr, hp⟩, hid⟩
      obtain ⟨s, hs, hsid, hq⟩ := hi.mp ⟨r, hr, hid, hp⟩
      exact ⟨s, ⟨hs, hq⟩, hsid⟩
    · rintro ⟨s, ⟨hs, hq⟩, hid⟩
      obtain ⟨r, hr, hrid, hp⟩ := hi.mpr ⟨s, hs, hid, hq⟩
      exact ⟨r, ⟨hr, hp⟩, hrid⟩
  have hlen := hkeys.length_eq
  rw [List.length_map, List.length_map] at hlen
  unfold count
  rw [List.countP_eq_length_filter, List.countP_eq_length_filter, hlen]

theorem count_insert {p : ρ → Bool} {mk : Nat → ρ} (hmk : ∀ i, Row.id (mk i) = i) :
    (t.insert mk hmk).count p = t.count p + if p (mk t.nextId) = true then 1 else 0 := by
  unfold count insert
  rw [List.countP_append, List.countP_singleton]

/-- A condition that fixes the key meets at most one row. -/
theorem count_le_one {p : ρ → Bool} {i : Nat} (hp : ∀ r, p r = true → Row.id r = i) :
    t.count p ≤ 1 := by
  have key : ∀ rows : List ρ, (rows.map Row.id).Nodup → rows.countP p ≤ 1 := by
    intro rows
    induction rows with
    | nil => simp
    | cons a rows ih =>
      intro hn
      rw [List.map_cons, List.nodup_cons] at hn
      by_cases ha : p a = true
      · have h0 : rows.countP p = 0 := by
          rw [List.countP_eq_zero]
          intro b hb hpb
          exact hn.1 (List.mem_map.mpr ⟨b, hb, by rw [hp a ha, hp b hpb]⟩)
        rw [List.countP_cons_of_pos ha]
        omega
      · rw [List.countP_cons_of_neg ha]
        exact ih hn.2
  exact key t.rows t.nodup

/-- A statement whose condition fixes the key changes one row exactly when such a row exists. -/
theorem count_eq_one {p : ρ → Bool} {i : Nat} (hp : ∀ r, p r = true → Row.id r = i) :
    t.count p = 1 ↔ ∃ r ∈ t, p r = true := by
  have h := count_le_one (t := t) hp
  rw [← count_pos]
  omega

/-- The rows of a table are the row `r` and those with another key. -/
theorem perm_delete_id (h : r ∈ t) :
    t.rows.Perm (r :: (t.delete fun s => Row.id s == Row.id r).rows) := by
  have key : ∀ rows : List ρ, (rows.map Row.id).Nodup → r ∈ rows →
      rows.Perm (r :: rows.filter fun s => !(Row.id s == Row.id r)) := by
    intro rows
    induction rows with
    | nil => simp
    | cons a rows ih =>
      intro hn hr
      rw [List.map_cons, List.nodup_cons] at hn
      rcases List.mem_cons.mp hr with rfl | hr
      · have hrest : (rows.filter fun s => !(Row.id s == Row.id r)) = rows := by
          rw [List.filter_eq_self]
          intro s hs
          have : Row.id s ≠ Row.id r := fun heq => hn.1 (List.mem_map.mpr ⟨s, hs, heq⟩)
          simpa using this
        rw [List.filter_cons_of_neg (by simp), hrest]
      · have hne : Row.id a ≠ Row.id r := fun heq => hn.1 (List.mem_map.mpr ⟨r, hr, heq.symm⟩)
        rw [List.filter_cons_of_pos (by simpa using hne)]
        exact ((ih hn.2 hr).cons a).trans (.swap _ _ _)
  exact key t.rows t.nodup h

theorem count_delete_id {q : ρ → Bool} (h : r ∈ t) :
    t.count q = (t.delete fun s => Row.id s == Row.id r).count q + if q r then 1 else 0 := by
  unfold count
  rw [(perm_delete_id h).countP_eq, List.countP_cons]

/-- A row under a key that is not in use is one row more. -/
theorem count_put {q : ρ → Bool} (h : ∀ r' ∈ t, Row.id r' ≠ Row.id r) :
    (t.put r).count q = t.count q + if q r then 1 else 0 := by
  unfold count
  rw [rows_put h, List.countP_append, List.countP_cons, List.countP_nil, Nat.zero_add]

/-! ## The greatest key -/

/-- The greatest key of the rows that meet `p` bounds them, and is one of theirs unless it is 0. -/
theorem maxId_eq_iff {p : ρ → Bool} {m : Nat} : t.maxId p = m ↔
    (∀ r ∈ t, p r = true → Row.id r ≤ m) ∧ (m = 0 ∨ ∃ r ∈ t, p r = true ∧ Row.id r = m) := by
  unfold maxId
  cases hm : ((t.rows.filter p).map Row.id).max? with
  | none =>
    rw [List.max?_eq_none_iff, List.map_eq_nil_iff, List.filter_eq_nil_iff] at hm
    simp only [Option.getD_none]
    constructor
    · rintro rfl
      exact ⟨fun r hr hp => absurd hp (hm r hr), .inl rfl⟩
    · rintro ⟨-, h | ⟨r, hr, hp, -⟩⟩
      · exact h.symm
      · exact absurd hp (hm r hr)
  | some k =>
    obtain ⟨hk, hle⟩ := List.max?_eq_some_iff.mp hm
    obtain ⟨r, hr, rfl⟩ := List.mem_map.mp hk
    obtain ⟨hr, hp⟩ := List.mem_filter.mp hr
    have hle' : ∀ s ∈ t, p s = true → Row.id s ≤ Row.id r := fun s hs hps =>
      hle _ (List.mem_map.mpr ⟨s, List.mem_filter.mpr ⟨hs, hps⟩, rfl⟩)
    simp only [Option.getD_some]
    constructor
    · rintro rfl
      exact ⟨hle', .inr ⟨r, hr, hp, rfl⟩⟩
    · rintro ⟨hb, rfl | ⟨s, hs, hps, rfl⟩⟩
      · exact Nat.le_zero.mp (hb r hr hp)
      · exact Nat.le_antisymm (hb r hr hp) (hle' s hs hps)

theorem le_maxId {p : ρ → Bool} (h : r ∈ t) (hp : p r = true) : Row.id r ≤ t.maxId p :=
  (maxId_eq_iff.mp rfl).1 r h hp

theorem maxId_put {p : ρ → Bool} (h : ∀ r' ∈ t, Row.id r' ≠ Row.id r) :
    (t.put r).maxId p = if p r then max (t.maxId p) (Row.id r) else t.maxId p := by
  obtain ⟨hb, hm⟩ := maxId_eq_iff.mp (rfl : t.maxId p = _)
  rw [maxId_eq_iff]
  by_cases hp : p r = true
  · rw [if_pos hp]
    refine ⟨fun s hs hps => ?_, ?_⟩
    · rcases mem_put.mp hs with hs | ⟨rfl, -⟩
      · exact le_trans (hb s hs hps) (le_max_left _ _)
      · exact le_max_right _ _
    · rcases le_total (t.maxId p) (Row.id r) with hle | hle
      · rw [max_eq_right hle]
        exact .inr ⟨r, mem_put.mpr (.inr ⟨rfl, h⟩), hp, rfl⟩
      · rw [max_eq_left hle]
        refine hm.imp_right ?_
        rintro ⟨s, hs, hps, hid⟩
        exact ⟨s, mem_put.mpr (.inl hs), hps, hid⟩
  · rw [if_neg hp]
    refine ⟨fun s hs hps => ?_, hm.imp_right ?_⟩
    · rcases mem_put.mp hs with hs | ⟨rfl, -⟩
      · exact hb s hs hps
      · exact absurd hps hp
    · rintro ⟨s, hs, hps, hid⟩
      exact ⟨s, mem_put.mpr (.inl hs), hps, hid⟩

/-- The greatest key does not change when another row goes. -/
theorem maxId_delete_of_ne {p : ρ → Bool} (hr : r ∈ t) (h : p r = true → t.maxId p ≠ Row.id r) :
    (t.delete fun s => Row.id s == Row.id r).maxId p = t.maxId p := by
  obtain ⟨hb, hm⟩ := maxId_eq_iff.mp (rfl : t.maxId p = _)
  rw [maxId_eq_iff]
  refine ⟨fun s hs hps => hb s (mem_delete.mp hs).1 hps, hm.imp_right ?_⟩
  rintro ⟨s, hs, hps, hid⟩
  refine ⟨s, mem_delete.mpr ⟨hs, ?_⟩, hps, hid⟩
  have hne : Row.id s ≠ Row.id r := by
    intro hid'
    rw [eq_of_id hs hr hid'] at hps hid
    exact h hps hid.symm
  simpa using hne

/-- The greatest key from the rows without `r` and from `r`. -/
theorem maxId_delete_id {p : ρ → Bool} (hr : r ∈ t) (hp : p r = true) :
    max ((t.delete fun s => Row.id s == Row.id r).maxId p) (Row.id r) = t.maxId p := by
  have hle : Row.id r ≤ t.maxId p := le_maxId hr hp
  by_cases h : t.maxId p = Row.id r
  · rw [h, sup_eq_right]
    obtain ⟨-, hm⟩ := maxId_eq_iff.mp
      (rfl : (t.delete fun s => Row.id s == Row.id r).maxId p = _)
    rcases hm with hm | ⟨s, hs, hps, hid⟩
    · omega
    · rw [← hid, ← h]
      exact le_maxId (mem_delete.mp hs).1 hps
  · rw [maxId_delete_of_ne hr fun _ => h, max_eq_left hle]

/-! ## Equal tables -/

theorem ext {t u : Table ρ} (hr : t.rows = u.rows) (hn : t.nextId = u.nextId) : t = u := by
  cases t
  cases u
  simp only at hr hn
  subst hr hn
  rfl

/-- An `UPDATE` depends on its condition and its function on the rows of the table only. -/
theorem update_congr {p q : ρ → Bool} {f g : ρ → ρ} (hf : ∀ r, Row.id (f r) = Row.id r)
    (hg : ∀ r, Row.id (g r) = Row.id r) (hpq : ∀ r ∈ t, p r = q r)
    (hfg : ∀ r ∈ t, p r = true → f r = g r) : t.update p f hf = t.update q g hg := by
  refine ext (List.map_congr_left fun r hr => ?_) rfl
  rw [← hpq r hr]
  by_cases hp : p r = true
  · rw [if_pos hp, if_pos hp, hfg r hr hp]
  · rw [if_neg hp, if_neg hp]

/-- An `UPDATE` that meets no row is the identity. -/
theorem update_of_count_zero {p : ρ → Bool} {f : ρ → ρ} (h : t.count p = 0)
    (hf : ∀ r, Row.id (f r) = Row.id r := by intros; exact id rfl) : t.update p f hf = t := by
  have hp := count_eq_zero.mp h
  refine ext ((List.map_congr_left fun r hr => ?_).trans (List.map_id _)) rfl
  rw [hp r hr]
  rfl

/-! ## Invariants of the rows -/

/-- An `INSERT` keeps what holds of every row and of the new one. -/
theorem forall_insert {P : ρ → Prop} {mk : Nat → ρ} (h : ∀ r ∈ t, P r) (hnew : P (mk t.nextId))
    (hmk : ∀ i, Row.id (mk i) = i := by intros; exact id rfl) : ∀ r ∈ t.insert mk hmk, P r := by
  intro r hr
  rcases mem_insert.mp hr with hr | rfl
  · exact h r hr
  · exact hnew

/-- An `UPDATE` keeps what holds of every row and of each row that it changes. -/
theorem forall_update {P : ρ → Prop} {p : ρ → Bool} {f : ρ → ρ} (h : ∀ r ∈ t, P r)
    (hnew : ∀ r ∈ t, p r = true → P (f r))
    (hf : ∀ r, Row.id (f r) = Row.id r := by intros; exact id rfl) :
    ∀ r ∈ t.update p f hf, P r := by
  intro r hr
  obtain ⟨r₀, h₀, rfl⟩ := mem_update.mp hr
  by_cases hp : p r₀ = true
  · rw [if_pos hp]
    exact hnew r₀ h₀ hp
  · rw [if_neg hp]
    exact h r₀ h₀

end Table
