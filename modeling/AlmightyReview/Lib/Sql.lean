import AlmightyReview.Lib.Table

/-!
# Programs over one database connection

A connection sees a working copy of the database: a statement changes the working copy, `commit`
publishes it and `rollback` drops it. `Sql δ ε α` is a program on one connection over the
database `δ` that returns an `α` or raises an `ε`: a sequence of statements, each of which may
depend on what the ones before it read. A raised exception keeps the connection as it is, so what
a program leaves behind when it raises depends on its `rollback`s.

* `Sql.onConn p c`: the result and the connection after `p`; the `@[simp]` lemmas evaluate it.
* `Sql.run p db`: `p` on a fresh connection that is closed at its end: the result and the
  committed database. A transaction that was not committed is lost.
* `Sql.transaction p`: `BEGIN IMMEDIATE`, `p`, `commit`, and `rollback` with a re-raise when `p`
  raises: all or nothing (`run_transaction`).
* `Sql.Inside p`: `p` keeps the committed copy, as the statements inside a transaction do.
* `Sql.Leaves g p`: `p` leaves what `g` sees of the working copy alone.
* `Sql.insertInto`, `Sql.updateRows`, `Sql.deleteRows`: the statements on one table of the
  database (`TableIn`).
* `Sql.Raises P p`: everything that `p` raises meets `P`; each way to build a program has its rule.
* `Sql.Preserves I p`: `p` keeps `I` of both copies of the database, statement by statement. It
  is a syntax-directed rule: each way to build a program has its lemma (`preserves_bind`, ..),
  and `preserves_run` gives the invariant of the committed database.
-/

/-- A connection: the committed database, the working copy, and whether a transaction is open. -/
structure Conn (δ : Type) where
  committed : δ
  working : δ
  inTransaction : Bool

/-- A connection that has just been opened. -/
def Conn.fresh {δ : Type} (db : δ) : Conn δ := ⟨db, db, false⟩

/-- A program on one connection: a result, or a statement and the rest of the program, which
reads the connection as the statement found it. -/
inductive Sql (δ ε α : Type) where
  | done (r : Except ε α)
  | step (s : Conn δ → Conn δ) (next : Conn δ → Sql δ ε α)

/-- A table of the database `δ`. -/
structure TableIn (δ ρ : Type) [Row ρ] where
  get : δ → Table ρ
  set : Table ρ → δ → δ
  get_set : ∀ t db, get (set t db) = t := by intros; rfl
  set_set : ∀ t t' db, set t (set t' db) = set t db := by intros; rfl
  set_get : ∀ db, set (get db) db = db := by intros; rfl

namespace Sql

variable {δ ε α β : Type}

/-- The result and the connection after the program. -/
def onConn : Sql δ ε α → Conn δ → Except ε α × Conn δ
  | done r, c => (r, c)
  | step s next, c => onConn (next c) (s c)

protected def bind : Sql δ ε α → (α → Sql δ ε β) → Sql δ ε β
  | done (.ok a), f => f a
  | done (.error e), _ => done (.error e)
  | step s next, f => step s fun c => Sql.bind (next c) f

/-- `try: p except: h`. -/
protected def tryCatch : Sql δ ε α → (ε → Sql δ ε α) → Sql δ ε α
  | done (.ok a), _ => done (.ok a)
  | done (.error e), h => h e
  | step s next, h => step s fun c => Sql.tryCatch (next c) h

instance : Monad (Sql δ ε) where
  pure a := done (.ok a)
  bind := Sql.bind

instance : MonadExceptOf ε (Sql δ ε) where
  throw e := done (.error e)
  tryCatch := Sql.tryCatch

/-- A query: a value read from the working copy. -/
def select (q : δ → α) : Sql δ ε α := step id fun c => done (.ok (q c.working))

/-- A statement that changes the working copy and returns a value (the number of rows, the new
row's id). It opens a transaction if none is open. -/
def execute (f : δ → δ × α) : Sql δ ε α :=
  step (fun c => { c with working := (f c.working).1, inTransaction := true })
    fun c => done (.ok (f c.working).2)

def commit : Sql δ ε Unit :=
  step (fun c => ⟨c.working, c.working, false⟩) fun _ => done (.ok ())

def rollback : Sql δ ε Unit :=
  step (fun c => ⟨c.committed, c.committed, false⟩) fun _ => done (.ok ())

/-- A result that was computed without a statement. -/
def lift (r : Except ε α) : Sql δ ε α := done r

/-- `BEGIN IMMEDIATE`: the transaction works on the last committed state. -/
def beginImmediate : Sql δ ε Unit :=
  step (fun c => ⟨c.committed, c.committed, true⟩) fun _ => done (.ok ())

/-- The program on a connection opened for it and closed at its end. -/
def run (p : Sql δ ε α) (db : δ) : Except ε α × δ :=
  ((p.onConn (.fresh db)).1, (p.onConn (.fresh db)).2.committed)

/-- `INSERT` of one row, which may read the database; the new row's id (`lastrowid`). -/
def insertInto {ρ : Type} [Row ρ] (T : TableIn δ ρ) (mk : δ → Nat → ρ)
    (hmk : ∀ db i, Row.id (mk db i) = i := by intros; exact id rfl) : Sql δ ε Nat :=
  execute fun db => (T.set ((T.get db).insert (mk db) (hmk db)) db, (T.get db).nextId)

/-- `UPDATE`: `f` on the rows that meet `p`; the number of these rows (`rowcount`). -/
def updateRows {ρ : Type} [Row ρ] (T : TableIn δ ρ) (p : δ → ρ → Bool) (f : δ → ρ → ρ)
    (hf : ∀ db r, Row.id (f db r) = Row.id r := by intros; exact id rfl) : Sql δ ε Nat :=
  execute fun db => (T.set ((T.get db).update (p db) (f db) (hf db)) db, (T.get db).count (p db))

/-- `DELETE` of the rows that meet `p`; the number of these rows. -/
def deleteRows {ρ : Type} [Row ρ] (T : TableIn δ ρ) (p : δ → ρ → Bool) : Sql δ ε Nat :=
  execute fun db => (T.set ((T.get db).delete (p db)) db, (T.get db).count (p db))

/-- For each id in turn, `f` on its row if it meets the condition `p`; `missing` is raised at the
first id without such a row. -/
def updateEach {ρ : Type} [Row ρ] (T : TableIn δ ρ) (p : Nat → ρ → Bool) (f : ρ → ρ)
    (hf : ∀ r, Row.id (f r) = Row.id r) (missing : Nat → ε) : List Nat → Sql δ ε Unit
  | [] => pure ()
  | i :: is =>
    Sql.bind (updateRows T (fun _ => p i) (fun _ => f) fun _ => hf) fun rowcount =>
      if rowcount = 1 then updateEach T p f hf missing is else done (.error (missing i))

/-- `if c: p`. -/
def when (c : Prop) [Decidable c] (p : Sql δ ε Unit) : Sql δ ε Unit := if c then p else pure ()

/-- `p` in one transaction, rolled back when `p` raises. -/
def transaction (p : Sql δ ε α) : Sql δ ε α := do
  beginImmediate
  try
    let a ← p
    commit
    pure a
  catch e =>
    rollback
    throw e

/-! ## Evaluation -/

@[simp] theorem onConn_pure (a : α) (c : Conn δ) :
    (pure a : Sql δ ε α).onConn c = (.ok a, c) := rfl

@[simp] theorem onConn_bind (p : Sql δ ε α) (f : α → Sql δ ε β) (c : Conn δ) :
    (p >>= f).onConn c =
      match p.onConn c with
      | (.ok a, c') => (f a).onConn c'
      | (.error e, c') => (.error e, c') := by
  induction p generalizing c with
  | done r => cases r <;> rfl
  | step s next ih => exact ih c (s c)

@[simp] theorem onConn_throw (e : ε) (c : Conn δ) :
    (throw e : Sql δ ε α).onConn c = (.error e, c) := rfl

@[simp] theorem onConn_lift (r : Except ε α) (c : Conn δ) :
    (lift r : Sql δ ε α).onConn c = (r, c) := rfl

@[simp] theorem onConn_tryCatch (p : Sql δ ε α) (h : ε → Sql δ ε α) (c : Conn δ) :
    (tryCatch p h).onConn c =
      match p.onConn c with
      | (.ok a, c') => (.ok a, c')
      | (.error e, c') => (h e).onConn c' := by
  induction p generalizing c with
  | done r => cases r <;> rfl
  | step s next ih => exact ih c (s c)

@[simp] theorem onConn_select (q : δ → α) (c : Conn δ) :
    (select q : Sql δ ε α).onConn c = (.ok (q c.working), c) := rfl

@[simp] theorem onConn_execute (f : δ → δ × α) (c : Conn δ) :
    (execute f : Sql δ ε α).onConn c = (.ok (f c.working).2,
      { c with working := (f c.working).1, inTransaction := true }) := rfl

@[simp] theorem onConn_commit (c : Conn δ) :
    (commit : Sql δ ε Unit).onConn c = (.ok (), ⟨c.working, c.working, false⟩) := rfl

@[simp] theorem onConn_rollback (c : Conn δ) :
    (rollback : Sql δ ε Unit).onConn c = (.ok (), ⟨c.committed, c.committed, false⟩) := rfl

@[simp] theorem onConn_beginImmediate (c : Conn δ) :
    (beginImmediate : Sql δ ε Unit).onConn c = (.ok (), ⟨c.committed, c.committed, true⟩) := rfl

@[simp] theorem onConn_ite {P : Prop} [Decidable P] (p q : Sql δ ε α) (c : Conn δ) :
    (if P then p else q).onConn c = if P then p.onConn c else q.onConn c := by
  split <;> rfl

@[simp] theorem onConn_when {P : Prop} [Decidable P] (p : Sql δ ε Unit) (c : Conn δ) :
    (when P p).onConn c = if P then p.onConn c else (.ok (), c) := by
  unfold when
  split <;> rfl

@[simp] theorem onConn_insertInto {ρ : Type} [Row ρ] (T : TableIn δ ρ) (mk : δ → Nat → ρ)
    (hmk : ∀ db i, Row.id (mk db i) = i) (c : Conn δ) :
    (insertInto T mk hmk : Sql δ ε Nat).onConn c =
      (.ok (T.get c.working).nextId, { c with
        working := T.set ((T.get c.working).insert (mk c.working) (hmk c.working)) c.working
        inTransaction := true }) :=
  rfl

@[simp] theorem onConn_updateRows {ρ : Type} [Row ρ] (T : TableIn δ ρ) (p : δ → ρ → Bool)
    (f : δ → ρ → ρ) (hf : ∀ db r, Row.id (f db r) = Row.id r) (c : Conn δ) :
    (updateRows T p f hf : Sql δ ε Nat).onConn c =
      (.ok ((T.get c.working).count (p c.working)), { c with
        working := T.set ((T.get c.working).update (p c.working) (f c.working) (hf c.working))
          c.working
        inTransaction := true }) :=
  rfl

@[simp] theorem onConn_deleteRows {ρ : Type} [Row ρ] (T : TableIn δ ρ) (p : δ → ρ → Bool)
    (c : Conn δ) :
    (deleteRows T p : Sql δ ε Nat).onConn c =
      (.ok ((T.get c.working).count (p c.working)), { c with
        working := T.set ((T.get c.working).delete (p c.working)) c.working
        inTransaction := true }) :=
  rfl

/-! ## Statements inside a transaction -/

/-- The program keeps the committed copy: it neither commits nor rolls back. -/
def Inside (p : Sql δ ε α) : Prop := ∀ c, (p.onConn c).2.committed = c.committed

theorem inside_pure (a : α) : (pure a : Sql δ ε α).Inside := fun _ => rfl

theorem inside_throw (e : ε) : (throw e : Sql δ ε α).Inside := fun _ => rfl

theorem inside_lift (r : Except ε α) : (lift r : Sql δ ε α).Inside := fun _ => rfl

theorem inside_select (q : δ → α) : (select q : Sql δ ε α).Inside := fun _ => rfl

theorem inside_execute (f : δ → δ × α) : (execute f : Sql δ ε α).Inside := fun _ => rfl

theorem inside_bind {p : Sql δ ε α} {f : α → Sql δ ε β} (hp : p.Inside)
    (hf : ∀ a, (f a).Inside) : (p >>= f).Inside := by
  intro c
  have h := hp c
  rw [onConn_bind]
  split
  · rename_i a c' he
    rw [he] at h
    rw [hf a c', h]
  · rename_i e c' he
    rw [he] at h
    exact h

theorem inside_ite {P : Prop} [Decidable P] {p q : Sql δ ε α} (hp : P → p.Inside)
    (hq : ¬P → q.Inside) : (if P then p else q).Inside := by
  split
  · exact hp ‹_›
  · exact hq ‹_›

theorem inside_when {P : Prop} [Decidable P] {p : Sql δ ε Unit} (hp : P → p.Inside) :
    (when P p).Inside :=
  inside_ite hp fun _ => inside_pure _

theorem inside_updateEach {ρ : Type} [Row ρ] (T : TableIn δ ρ) (p : Nat → ρ → Bool) (f : ρ → ρ)
    (hf : ∀ r, Row.id (f r) = Row.id r) (missing : Nat → ε) (is : List Nat) :
    (updateEach T p f hf missing is).Inside := by
  induction is with
  | nil => exact inside_pure _
  | cons i is ih =>
    exact inside_bind (inside_execute _) fun _ => inside_ite (fun _ => ih) fun _ => inside_throw _

/-- What one transaction does: it commits its working copy or leaves the database as it was. -/
theorem run_transaction {p : Sql δ ε α} (hp : p.Inside) (db : δ) :
    (transaction p).run db =
      match p.onConn ⟨db, db, true⟩ with
      | (.ok a, c) => (.ok a, c.working)
      | (.error e, _) => (.error e, db) := by
  have h := hp ⟨db, db, true⟩
  unfold run transaction Conn.fresh
  simp only [onConn_bind, onConn_beginImmediate, onConn_tryCatch]
  rcases hr : p.onConn ⟨db, db, true⟩ with ⟨_ | a, c⟩
  · rw [hr] at h
    simpa using h
  · simp

/-- A transaction that raises leaves the database as it was. -/
theorem run_transaction_error {p : Sql δ ε α} (hp : p.Inside) {db : δ} {e : ε}
    (h : ((transaction p).run db).1 = .error e) : ((transaction p).run db).2 = db := by
  rw [run_transaction hp] at h ⊢
  split at h
  · cases h
  · rfl

/-! ## One row after the other -/

section UpdateEach

variable {ρ : Type} [Row ρ] {T : TableIn δ ρ} {p : Nat → ρ → Bool} {f : ρ → ρ}
  {hf : ∀ r, Row.id (f r) = Row.id r} {missing : Nat → ε}

/-- Every id has a row that meets the condition, and none comes twice. -/
def AllMeet (p : Nat → ρ → Bool) (t : Table ρ) (is : List Nat) : Prop :=
  is.Nodup ∧ ∀ i ∈ is, ∃ r ∈ t, p i r = true

/-- The step of `updateEach`: the row of `i` is changed, if there is one. -/
theorem onConn_updateEach_cons (hp : ∀ i r, p i r = true → Row.id r = i) (i : Nat)
    (is : List Nat) (c : Conn δ) :
    (updateEach T p f hf missing (i :: is)).onConn c =
      if ∃ r ∈ T.get c.working, p i r = true then
        (updateEach T p f hf missing is).onConn
          { c with working := T.set ((T.get c.working).update (p i) f hf) c.working
                   inTransaction := true }
      else (.error (missing i), { c with
        working := T.set ((T.get c.working).update (p i) f hf) c.working
        inTransaction := true }) := by
  have h := onConn_bind (updateRows T (fun _ => p i) (fun _ => f) fun _ => hf)
    (fun rowcount => if rowcount = 1 then updateEach T p f hf missing is
      else done (.error (missing i))) c
  refine h.trans ?_
  rw [onConn_updateRows]
  simp only [onConn_ite, Table.count_eq_one (t := T.get c.working) (hp i)]
  rfl

/-- A row that was changed does not meet its condition any more; the others are as they were. -/
theorem allMeet_cons (hf : ∀ r, Row.id (f r) = Row.id r) {t : Table ρ} {i : Nat} {is : List Nat}
    (hp : ∀ i r, p i r = true → Row.id r = i) (hpf : ∀ i r, p i r = true → p i (f r) = false) :
    AllMeet p t (i :: is) ↔
      (∃ r ∈ t, p i r = true) ∧ AllMeet p (t.update (p i) f hf) is := by
  constructor
  · rintro ⟨hn, hall⟩
    rw [List.nodup_cons] at hn
    refine ⟨hall i List.mem_cons_self, hn.2, fun j hj => ?_⟩
    obtain ⟨r, hr, hpr⟩ := hall j (List.mem_cons_of_mem _ hj)
    refine ⟨r, Table.mem_update.mpr ⟨r, hr, ?_⟩, hpr⟩
    rw [if_neg]
    intro hi
    have hij : i = j := (hp i r hi).symm.trans (hp j r hpr)
    exact hn.1 (hij ▸ hj)
  · rintro ⟨hi, hn, hall⟩
    have hback : ∀ j ∈ is, j ≠ i ∧ ∃ r ∈ t, p j r = true := by
      intro j hj
      obtain ⟨r, hr, hpr⟩ := hall j hj
      obtain ⟨r₀, hr₀, rfl⟩ := Table.mem_update.mp hr
      by_cases hpi : p i r₀ = true
      · rw [if_pos hpi] at hpr
        have hji : j = i := by rw [← hp j _ hpr, hf, hp i _ hpi]
        rw [hji, hpf i r₀ hpi] at hpr
        cases hpr
      · rw [if_neg hpi] at hpr
        refine ⟨?_, r₀, hr₀, hpr⟩
        rintro rfl
        exact hpi hpr
    refine ⟨List.nodup_cons.mpr ⟨fun hm => (hback i hm).1 rfl, hn⟩, fun j hj => ?_⟩
    rcases List.mem_cons.mp hj with rfl | hj
    · exact hi
    · exact (hback j hj).2

/-- The changes one after the other are one `UPDATE` of the rows with these ids. -/
theorem update_update_each {t : Table ρ} {i : Nat} {is : List Nat}
    (hp : ∀ i r, p i r = true → Row.id r = i) (hi : ∃ r ∈ t, p i r = true) (hni : i ∉ is) :
    (t.update (p i) f hf).update (fun r => is.contains (Row.id r)) f hf =
      t.update (fun r => (i :: is).contains (Row.id r)) f hf := by
  obtain ⟨r₀, hr₀, hp₀⟩ := hi
  refine Table.ext ?_ rfl
  simp only [Table.update, List.map_map]
  refine List.map_congr_left fun r hr => ?_
  simp only [Function.comp_apply]
  by_cases hpi : p i r = true
  · have hid := hp i r hpi
    rw [if_pos hpi, if_neg (by simpa [hf, hid] using hni), if_pos (by simp [hid])]
  · have hid : Row.id r ≠ i := by
      intro h
      have : r = r₀ := Table.eq_of_id hr hr₀ (h.trans (hp i r₀ hp₀).symm)
      exact hpi (this ▸ hp₀)
    rw [if_neg hpi]
    simp [hid]

/-- **One row after the other.** All rows are changed when every id meets its condition. -/
theorem onConn_updateEach (hp : ∀ i r, p i r = true → Row.id r = i)
    (hpf : ∀ i r, p i r = true → p i (f r) = false) {is : List Nat} {c : Conn δ}
    (hc : c.inTransaction = true) (h : AllMeet p (T.get c.working) is) :
    (updateEach T p f hf missing is).onConn c = (.ok (), { c with
      working := T.set ((T.get c.working).update (fun r => is.contains (Row.id r)) f hf)
        c.working }) := by
  induction is generalizing c with
  | nil =>
    have hid : (T.get c.working).update (fun r => ([] : List Nat).contains (Row.id r)) f hf =
        T.get c.working :=
      Table.update_of_count_zero (Table.count_eq_zero.mpr fun r _ => rfl) hf
    rw [hid, T.set_get]
    rfl
  | cons i is ih =>
    have hni : i ∉ is := (List.nodup_cons.mp h.1).1
    obtain ⟨hi, hrest⟩ := (allMeet_cons hf hp hpf).mp h
    rw [onConn_updateEach_cons hp, if_pos hi, ih rfl (by simpa only [T.get_set] using hrest)]
    simp only [T.get_set, T.set_set, update_update_each hp hi hni, hc]

/-- Otherwise it raises, and has committed nothing. -/
theorem onConn_updateEach_error (hp : ∀ i r, p i r = true → Row.id r = i)
    (hpf : ∀ i r, p i r = true → p i (f r) = false) {is : List Nat} {c : Conn δ}
    (h : ¬AllMeet p (T.get c.working) is) :
    ∃ i ∈ is, ∃ c', (updateEach T p f hf missing is).onConn c = (.error (missing i), c') ∧
      c'.committed = c.committed := by
  induction is generalizing c with
  | nil => exact absurd ⟨List.nodup_nil, by simp⟩ h
  | cons i is ih =>
    rw [onConn_updateEach_cons hp]
    by_cases hi : ∃ r ∈ T.get c.working, p i r = true
    · rw [if_pos hi]
      have hrest : ¬AllMeet p ((T.get c.working).update (p i) f hf) is := fun hr =>
        h ((allMeet_cons hf hp hpf).mpr ⟨hi, hr⟩)
      obtain ⟨j, hj, c', hc', hcom⟩ := ih (c := { c with
        working := T.set ((T.get c.working).update (p i) f hf) c.working
        inTransaction := true }) (by simpa only [T.get_set] using hrest)
      exact ⟨j, List.mem_cons_of_mem _ hj, c', hc', hcom⟩
    · rw [if_neg hi]
      exact ⟨i, List.mem_cons_self, _, rfl, rfl⟩

end UpdateEach

/-! ## What a program leaves alone -/

/-- The program leaves what `g` sees of the working copy as it is. -/
def Leaves {γ : Type} (g : δ → γ) (p : Sql δ ε α) : Prop :=
  ∀ c, g (p.onConn c).2.working = g c.working

section Leaves

variable {γ : Type} {g : δ → γ}

theorem leaves_pure (a : α) : Leaves g (pure a : Sql δ ε α) := fun _ => rfl

theorem leaves_throw (e : ε) : Leaves g (throw e : Sql δ ε α) := fun _ => rfl

theorem leaves_lift (r : Except ε α) : Leaves g (lift r : Sql δ ε α) := fun _ => rfl

theorem leaves_select (q : δ → α) : Leaves g (select q : Sql δ ε α) := fun _ => rfl

theorem leaves_execute {f : δ → δ × α} (h : ∀ db, g (f db).1 = g db) :
    Leaves g (execute f : Sql δ ε α) := fun c => h c.working

theorem leaves_bind {p : Sql δ ε α} {f : α → Sql δ ε β} (hp : Leaves g p)
    (hf : ∀ a, Leaves g (f a)) : Leaves g (p >>= f) := by
  intro c
  have h := hp c
  rw [onConn_bind]
  split
  · rename_i a c' he
    rw [he] at h
    rw [hf a c', h]
  · rename_i e c' he
    rw [he] at h
    exact h

theorem leaves_ite {P : Prop} [Decidable P] {p q : Sql δ ε α} (hp : P → Leaves g p)
    (hq : ¬P → Leaves g q) : Leaves g (if P then p else q) := by
  split
  · exact hp ‹_›
  · exact hq ‹_›

theorem leaves_when {P : Prop} [Decidable P] {p : Sql δ ε Unit} (hp : P → Leaves g p) :
    Leaves g (when P p) :=
  leaves_ite hp fun _ => leaves_pure _

end Leaves

/-! ## What a program raises -/

/-- Everything that the program raises meets `P`. -/
def Raises (P : ε → Prop) (p : Sql δ ε α) : Prop := ∀ c e, (p.onConn c).1 = .error e → P e

section Raises

variable {P : ε → Prop}

theorem raises_step {s : Conn δ → Conn δ} {next : Conn δ → Sql δ ε α}
    (h : ∀ c, Raises P (next c)) : Raises P (step s next) :=
  fun c e he => h c (s c) e he

theorem raises_lift {r : Except ε α} (h : ∀ e, r = .error e → P e) :
    Raises P (lift r : Sql δ ε α) := fun _ e he => h e he

theorem raises_pure (a : α) : Raises P (pure a : Sql δ ε α) := fun _ _ he => by cases he

theorem raises_throw {e : ε} (h : P e) : Raises P (throw e : Sql δ ε α) := by
  intro c e' he
  cases he
  exact h

theorem raises_select (q : δ → α) : Raises P (select q : Sql δ ε α) := fun _ _ he => by cases he

theorem raises_execute (f : δ → δ × α) : Raises P (execute f : Sql δ ε α) :=
  fun _ _ he => by cases he

theorem raises_commit : Raises P (commit : Sql δ ε Unit) := fun _ _ he => by cases he

theorem raises_rollback : Raises P (rollback : Sql δ ε Unit) := fun _ _ he => by cases he

theorem raises_beginImmediate : Raises P (beginImmediate : Sql δ ε Unit) :=
  fun _ _ he => by cases he

theorem raises_bind {p : Sql δ ε α} {f : α → Sql δ ε β} (hp : Raises P p)
    (hf : ∀ a, Raises P (f a)) : Raises P (p >>= f) := by
  intro c e he
  have h := hp c
  rw [onConn_bind] at he
  split at he
  · exact hf _ _ e he
  · rename_i e' c' hc
    obtain rfl := Except.error.inj he
    exact h _ (by rw [hc])

theorem raises_tryCatch {p : Sql δ ε α} {q : ε → Sql δ ε α} (hp : Raises P p)
    (hq : ∀ e, P e → Raises P (q e)) : Raises P (tryCatch p q) := by
  intro c e he
  have h := hp c
  rw [onConn_tryCatch] at he
  split at he
  · cases he
  · rename_i e' c' hc
    exact hq e' (h _ (by rw [hc])) c' e he

theorem raises_ite {c : Prop} [Decidable c] {p q : Sql δ ε α} (hp : c → Raises P p)
    (hq : ¬c → Raises P q) : Raises P (if c then p else q) := by
  split
  · exact hp ‹_›
  · exact hq ‹_›

theorem raises_when {c : Prop} [Decidable c] {p : Sql δ ε Unit} (hp : c → Raises P p) :
    Raises P (when c p) :=
  raises_ite hp fun _ => raises_pure _

theorem raises_transaction {p : Sql δ ε α} (hp : Raises P p) : Raises P (transaction p) :=
  raises_bind raises_beginImmediate fun _ =>
    raises_tryCatch (raises_bind hp fun a => raises_bind raises_commit fun _ => raises_pure a)
      fun _ he => raises_bind raises_rollback fun _ => raises_throw he

theorem raises_run {p : Sql δ ε α} (hp : Raises P p) {db : δ} {e : ε}
    (h : (p.run db).1 = .error e) : P e :=
  hp _ e h

end Raises

/-! ## Invariants of a program -/

/-- The program keeps `I` of the working and of the committed copy. -/
def Preserves (I : δ → Prop) (p : Sql δ ε α) : Prop :=
  ∀ c, I c.committed → I c.working → I (p.onConn c).2.committed ∧ I (p.onConn c).2.working

section Preserves

variable {I : δ → Prop}

theorem preserves_pure (a : α) : Preserves I (pure a : Sql δ ε α) := fun _ hc hw => ⟨hc, hw⟩

theorem preserves_throw (e : ε) : Preserves I (throw e : Sql δ ε α) := fun _ hc hw => ⟨hc, hw⟩

theorem preserves_lift (r : Except ε α) : Preserves I (lift r : Sql δ ε α) :=
  fun _ hc hw => ⟨hc, hw⟩

theorem preserves_select (q : δ → α) : Preserves I (select q : Sql δ ε α) :=
  fun _ hc hw => ⟨hc, hw⟩

theorem preserves_commit : Preserves I (commit : Sql δ ε Unit) := fun _ _ hw => ⟨hw, hw⟩

theorem preserves_rollback : Preserves I (rollback : Sql δ ε Unit) := fun _ hc _ => ⟨hc, hc⟩

theorem preserves_beginImmediate : Preserves I (beginImmediate : Sql δ ε Unit) :=
  fun _ hc _ => ⟨hc, hc⟩

theorem preserves_execute {f : δ → δ × α} (h : ∀ db, I db → I (f db).1) :
    Preserves I (execute f : Sql δ ε α) := fun _ hc hw => ⟨hc, h _ hw⟩

theorem preserves_bind {p : Sql δ ε α} {f : α → Sql δ ε β} (hp : Preserves I p)
    (hf : ∀ a, Preserves I (f a)) : Preserves I (p >>= f) := by
  intro c hc hw
  have h := hp c hc hw
  rw [onConn_bind]
  split
  · rename_i a c' he
    rw [he] at h
    exact hf a c' h.1 h.2
  · rename_i e c' he
    rw [he] at h
    exact h

theorem preserves_tryCatch {p : Sql δ ε α} {q : ε → Sql δ ε α} (hp : Preserves I p)
    (hq : ∀ e, Preserves I (q e)) : Preserves I (tryCatch p q) := by
  intro c hc hw
  have h := hp c hc hw
  rw [onConn_tryCatch]
  split
  · rename_i a c' he
    rw [he] at h
    exact h
  · rename_i e c' he
    rw [he] at h
    exact hq e c' h.1 h.2

theorem preserves_ite {P : Prop} [Decidable P] {p q : Sql δ ε α} (hp : P → Preserves I p)
    (hq : ¬P → Preserves I q) : Preserves I (if P then p else q) := by
  split
  · exact hp ‹_›
  · exact hq ‹_›

theorem preserves_when {P : Prop} [Decidable P] {p : Sql δ ε Unit} (hp : P → Preserves I p) :
    Preserves I (when P p) :=
  preserves_ite hp fun _ => preserves_pure _

theorem preserves_transaction {p : Sql δ ε α} (hp : Preserves I p) :
    Preserves I (transaction p) :=
  preserves_bind preserves_beginImmediate fun _ =>
    preserves_tryCatch
      (preserves_bind hp fun a => preserves_bind preserves_commit fun _ => preserves_pure a)
      fun e => preserves_bind preserves_rollback fun _ => preserves_throw e

/-- A program that keeps `I` statement by statement keeps it of the committed database. -/
theorem preserves_run {p : Sql δ ε α} (hp : Preserves I p) {db : δ} (h : I db) :
    I (p.run db).2 :=
  (hp (.fresh db) h h).1

end Preserves

end Sql
