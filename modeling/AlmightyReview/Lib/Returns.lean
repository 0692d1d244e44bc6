import AlmightyReview.Lib.Sql

/-!
# What a program leaves

* `Sql.Returns P Q p`: from a working copy that meets `P`, when `p` returns a value, `Q` holds of
  value and of the working copy it leaves. Nothing is said when it raises. Each way to build a
  program has its rule; `Returns.transaction` says what a transaction that returned has committed.
* `Sql.Atomic p`: when `p` raises, it has committed nothing.
-/

namespace Sql

variable {δ ε α β : Type} {P P' : δ → Prop} {Q Q' : α → δ → Prop} {R : β → δ → Prop}

/-- When the program returns, `Q` holds of its value and of the working copy. -/
def Returns (P : δ → Prop) (Q : α → δ → Prop) (p : Sql δ ε α) : Prop :=
  ∀ c a, P c.working → (p.onConn c).1 = .ok a → Q a (p.onConn c).2.working

theorem Returns.mono {p : Sql δ ε α} (h : Returns P Q p) (hP : ∀ d, P' d → P d)
    (hQ : ∀ a d, Q a d → Q' a d) : Returns P' Q' p :=
  fun c a hc ha => hQ a _ (h c a (hP _ hc) ha)

theorem returns_pure {a : α} (h : ∀ d, P d → Q a d) : Returns P Q (pure a : Sql δ ε α) := by
  intro c b hc hb
  cases hb
  exact h _ hc

theorem returns_throw (e : ε) : Returns P Q (throw e : Sql δ ε α) := fun _ _ _ ha => by cases ha

/-- A computation without a statement, and the rest of the program. -/
theorem preserves_lift_bind {I : δ → Prop} {r : Except ε β} {f : β → Sql δ ε α}
    (h : ∀ b, r = .ok b → Preserves I (f b)) : Preserves I (lift r >>= f) := by
  cases r with
  | error e => exact preserves_throw e
  | ok b => exact h b rfl

/-- The first part of a program keeps `I` from one connection, and the rest keeps it. -/
theorem preserves_bind_at {I : δ → Prop} {p : Sql δ ε β} {f : β → Sql δ ε α} {c : Conn δ}
    (hp : I (p.onConn c).2.committed ∧ I (p.onConn c).2.working) (hf : ∀ b, Preserves I (f b)) :
    I ((p >>= f).onConn c).2.committed ∧ I ((p >>= f).onConn c).2.working := by
  rw [onConn_bind]
  rcases hr : p.onConn c with ⟨e | b, c'⟩
  · rw [hr] at hp
    exact hp
  · rw [hr] at hp
    exact hf b c' hp.1 hp.2

theorem returns_lift_bind {r : Except ε β} {f : β → Sql δ ε α}
    (h : ∀ b, r = .ok b → Returns P Q (f b)) : Returns P Q (lift r >>= f) := by
  cases r with
  | error e => exact returns_throw e
  | ok b => exact h b rfl

theorem returns_select {q : δ → α} (h : ∀ d, P d → Q (q d) d) :
    Returns P Q (select q : Sql δ ε α) := by
  intro c a hc ha
  cases ha
  exact h _ hc

theorem returns_execute {f : δ → δ × α} (h : ∀ d, P d → Q (f d).2 (f d).1) :
    Returns P Q (execute f : Sql δ ε α) := by
  intro c a hc ha
  cases ha
  exact h _ hc

theorem returns_bind {p : Sql δ ε β} {f : β → Sql δ ε α} (hp : Returns P R p)
    (hf : ∀ b, Returns (R b) Q (f b)) : Returns P Q (p >>= f) := by
  intro c a hc ha
  rw [onConn_bind] at ha ⊢
  have h := hp c
  rcases hr : p.onConn c with ⟨e | b, c'⟩
  · rw [hr] at ha
    cases ha
  · rw [hr] at h ha
    exact hf b c' a (h b hc rfl) ha

theorem returns_ite {c : Prop} [Decidable c] {p q : Sql δ ε α} (hp : c → Returns P Q p)
    (hq : ¬c → Returns P Q q) : Returns P Q (if c then p else q) := by
  split
  · exact hp ‹_›
  · exact hq ‹_›

theorem returns_when {c : Prop} [Decidable c] {p : Sql δ ε Unit} {Q : Unit → δ → Prop}
    (hp : c → Returns P Q p) (hq : ¬c → ∀ d, P d → Q () d) : Returns P Q (when c p) :=
  returns_ite hp fun hc => returns_pure (hq hc)

/-- A program leaves what it does not touch. -/
theorem Leaves.returns {γ : Type} {g : δ → γ} {p : Sql δ ε α} (h : Leaves g p) {P : γ → Prop} :
    Returns (fun d => P (g d)) (fun _ d => P (g d)) p := by
  intro c a hc _
  rw [h c]
  exact hc

/-- What a transaction that returned has committed. -/
theorem Returns.transaction {p : Sql δ ε α} (h : Returns P Q p) (hin : p.Inside) {db : δ} {a : α}
    (hdb : P db) (ha : ((transaction p).run db).1 = .ok a) :
    Q a ((transaction p).run db).2 := by
  have hp := h ⟨db, db, true⟩
  rw [run_transaction hin] at ha ⊢
  rcases hr : p.onConn ⟨db, db, true⟩ with ⟨e | b, c⟩
  · rw [hr] at ha
    cases ha
  · rw [hr] at hp ha
    exact hp a hdb ha

/-! ## What a program leaves when it raises -/

/-- When the program raises, it has committed nothing. -/
def Atomic (p : Sql δ ε α) : Prop :=
  ∀ c e, (p.onConn c).1 = .error e → (p.onConn c).2.committed = c.committed

theorem Inside.atomic {p : Sql δ ε α} (h : p.Inside) : p.Atomic := fun c _ _ => h c

theorem inside_rollback : (rollback : Sql δ ε Unit).Inside := fun _ => rfl

theorem inside_beginImmediate : (beginImmediate : Sql δ ε Unit).Inside := fun _ => rfl

/-- The end of a transaction raises nothing. -/
theorem atomic_commit_pure (a : α) : (do commit; pure a : Sql δ ε α).Atomic :=
  fun _ _ h => by cases h

theorem atomic_commit : (commit : Sql δ ε Unit).Atomic := fun _ _ h => by cases h

theorem atomic_bind {p : Sql δ ε β} {f : β → Sql δ ε α} (hp : p.Inside)
    (hf : ∀ b, (f b).Atomic) : (p >>= f).Atomic := by
  intro c e he
  have h := hp c
  rw [onConn_bind] at he ⊢
  rcases hr : p.onConn c with ⟨e' | b, c'⟩
  · rw [hr] at h
    exact h
  · rw [hr] at h he
    exact (hf b c' e he).trans h

theorem atomic_ite {c : Prop} [Decidable c] {p q : Sql δ ε α} (hp : c → p.Atomic)
    (hq : ¬c → q.Atomic) : (if c then p else q).Atomic := by
  split
  · exact hp ‹_›
  · exact hq ‹_›

theorem atomic_when {c : Prop} [Decidable c] {p : Sql δ ε Unit} (hp : c → p.Atomic) :
    (when c p).Atomic :=
  atomic_ite hp fun _ => (inside_pure ()).atomic

theorem atomic_tryCatch {p : Sql δ ε α} {q : ε → Sql δ ε α} (hp : p.Atomic)
    (hq : ∀ e, (q e).Inside) : (tryCatch p q).Atomic := by
  intro c e he
  have h := hp c
  rw [onConn_tryCatch] at he ⊢
  rcases hr : p.onConn c with ⟨e' | a, c'⟩
  · rw [hr] at h
    exact (hq e' c').trans (h e' rfl)
  · rw [hr] at he
    cases he

theorem atomic_transaction {p : Sql δ ε α} (hp : p.Inside) : (transaction p).Atomic :=
  atomic_bind inside_beginImmediate fun _ =>
    atomic_tryCatch (atomic_bind hp atomic_commit_pure)
      fun e => inside_bind inside_rollback fun _ => inside_throw e

theorem Atomic.run {p : Sql δ ε α} (hp : p.Atomic) {db : δ} {e : ε}
    (h : (p.run db).1 = .error e) : (p.run db).2 = db :=
  hp _ e h

end Sql
