import AlmightyReview.Lib.Sql

/-!
# Programs whose statements may raise

A statement may raise instead of running: the database is busy, the disk is full. Then the program
raises there, and the connection stays as the statement found it.

* `Sql.failing f p`: `p` where `f` says which statements raise, and what.
* `Sql.Before I p c`: `I` holds of the connection before each statement of `p`, wherever `p` can be
  interrupted. `failing_iff`: what holds of `p` under all faults.
* `Sql.Keeps I p`: `p` keeps `I` of the connection, statement by statement. Each way to build a
  program has its rule.
* `Sql.Published c`: outside of a transaction nothing is uncommitted.
-/

namespace Sql

variable {δ ε α β : Type}

/-- The program, where statement `n` raises `e` instead of running when `f n = some e`. -/
def failing : (Nat → Option ε) → Sql δ ε α → Sql δ ε α
  | _, done r => done r
  | f, step s next =>
    match f 0 with
    | some e => done (.error e)
    | none => step s fun c => failing (fun n => f (n + 1)) (next c)

/-- `I` holds of the connection before each statement. -/
def Before (I : Conn δ → Prop) : Sql δ ε α → Conn δ → Prop
  | done _, _ => True
  | step s next, c => I c ∧ Before I (next c) (s c)

/-! ## What holds under all faults -/

/-- **All faults.** A property of the result and the connection holds whatever raises when it holds
of the program itself, and of an error with the connection before any of the statements. -/
theorem failing_iff {Q : Except ε α × Conn δ → Prop} {p : Sql δ ε α} {c : Conn δ} :
    (∀ f, Q ((failing f p).onConn c)) ↔
      Q (p.onConn c) ∧ ∀ e, Before (fun c' => Q (.error e, c')) p c := by
  induction p generalizing c with
  | done r => exact ⟨fun h => ⟨h fun _ => none, fun _ => trivial⟩, fun h _ => h.1⟩
  | step s next ih =>
    constructor
    · intro h
      have hrest : ∀ f, Q ((failing f (next c)).onConn (s c)) := fun f => by
        -- the fault comes one statement later
        exact h fun n => match n with
          | 0 => none
          | n + 1 => f n
      obtain ⟨hend, hbefore⟩ := (ih c).mp hrest
      exact ⟨hend, fun e => ⟨h fun _ => some e, hbefore e⟩⟩
    · rintro ⟨hend, hbefore⟩ f
      unfold failing
      cases hf : f 0 with
      | some e => exact (hbefore e).1
      | none => exact (ih c).mpr ⟨hend, fun e => (hbefore e).2⟩ _

/-- Without a fault the program is as it was. -/
@[simp] theorem failing_none (p : Sql δ ε α) : failing (fun _ => none) p = p := by
  induction p with
  | done r => rfl
  | step s next ih =>
    unfold failing
    exact congrArg (step s) (funext ih)

section Before

variable {I J : Conn δ → Prop} {c : Conn δ}

@[simp] theorem before_pure (a : α) : Before I (pure a : Sql δ ε α) c ↔ True := Iff.rfl

@[simp] theorem before_throw (e : ε) : Before I (throw e : Sql δ ε α) c ↔ True := Iff.rfl

@[simp] theorem before_lift (r : Except ε α) : Before I (lift r : Sql δ ε α) c ↔ True := Iff.rfl

@[simp] theorem before_select (q : δ → α) : Before I (select q : Sql δ ε α) c ↔ I c :=
  and_iff_left trivial

@[simp] theorem before_execute (f : δ → δ × α) : Before I (execute f : Sql δ ε α) c ↔ I c :=
  and_iff_left trivial

@[simp] theorem before_commit : Before I (commit : Sql δ ε Unit) c ↔ I c := and_iff_left trivial

@[simp] theorem before_rollback : Before I (rollback : Sql δ ε Unit) c ↔ I c :=
  and_iff_left trivial

@[simp] theorem before_beginImmediate : Before I (beginImmediate : Sql δ ε Unit) c ↔ I c :=
  and_iff_left trivial

@[simp] theorem before_bind (p : Sql δ ε α) (f : α → Sql δ ε β) :
    Before I (p >>= f) c ↔ Before I p c ∧
      match p.onConn c with
      | (.ok a, c') => Before I (f a) c'
      | (.error _, _) => True := by
  induction p generalizing c with
  | done r =>
    cases r with
    | ok a => exact (and_iff_right trivial).symm
    | error e => exact (and_iff_right trivial).symm
  | step s next ih => exact (and_congr_right fun _ => ih c).trans and_assoc.symm

@[simp] theorem before_ite {P : Prop} [Decidable P] (p q : Sql δ ε α) :
    Before I (if P then p else q) c ↔ if P then Before I p c else Before I q c := by
  split <;> rfl

@[simp] theorem before_when {P : Prop} [Decidable P] (p : Sql δ ε Unit) :
    Before I (when P p) c ↔ (P → Before I p c) := by
  unfold when
  split <;> simp_all

theorem Before.mono {p : Sql δ ε α} (h : Before I p c) (hIJ : ∀ c, I c → J c) : Before J p c := by
  induction p generalizing c with
  | done r => trivial
  | step s next ih => exact ⟨hIJ c h.1, ih c h.2⟩

/-- What holds before each statement and at the end holds at the start. -/
theorem Before.start {p : Sql δ ε α} (h : Before I p c) (hend : I (p.onConn c).2) : I c := by
  cases p with
  | done r => exact hend
  | step s next => exact h.1

theorem Before.and {p : Sql δ ε α} (hI : Before I p c) (hJ : Before J p c) :
    Before (fun c => I c ∧ J c) p c := by
  induction p generalizing c with
  | done r => trivial
  | step s next ih => exact ⟨⟨hI.1, hJ.1⟩, ih c hI.2 hJ.2⟩

end Before

/-! ## Invariants of the connection -/

/-- The program keeps `I` of the connection: it holds before each statement and at the end. -/
def Keeps (I : Conn δ → Prop) (p : Sql δ ε α) : Prop :=
  ∀ c, I c → Before I p c ∧ I (p.onConn c).2

section Keeps

variable {I : Conn δ → Prop}

theorem keeps_pure (a : α) : Keeps I (pure a : Sql δ ε α) := fun _ h => ⟨trivial, h⟩

theorem keeps_throw (e : ε) : Keeps I (throw e : Sql δ ε α) := fun _ h => ⟨trivial, h⟩

theorem keeps_lift (r : Except ε α) : Keeps I (lift r : Sql δ ε α) := fun _ h => ⟨trivial, h⟩

theorem keeps_select (q : δ → α) : Keeps I (select q : Sql δ ε α) := fun _ h => ⟨⟨h, trivial⟩, h⟩

theorem keeps_execute (hI : ∀ c w, I c → I { c with working := w, inTransaction := true })
    (f : δ → δ × α) : Keeps I (execute f : Sql δ ε α) :=
  fun c h => ⟨⟨h, trivial⟩, hI c _ h⟩

theorem keeps_commit (hI : ∀ c, I c → I ⟨c.working, c.working, false⟩) :
    Keeps I (commit : Sql δ ε Unit) :=
  fun c h => ⟨⟨h, trivial⟩, hI c h⟩

theorem keeps_beginImmediate (hI : ∀ c, I c → I ⟨c.committed, c.committed, true⟩) :
    Keeps I (beginImmediate : Sql δ ε Unit) :=
  fun c h => ⟨⟨h, trivial⟩, hI c h⟩

theorem keeps_bind {p : Sql δ ε α} {f : α → Sql δ ε β} (hp : Keeps I p)
    (hf : ∀ a, Keeps I (f a)) : Keeps I (p >>= f) := by
  intro c hc
  obtain ⟨hbefore, hend⟩ := hp c hc
  rw [before_bind, onConn_bind]
  rcases hr : p.onConn c with ⟨e | a, c'⟩
  · rw [hr] at hend
    exact ⟨⟨hbefore, trivial⟩, hend⟩
  · rw [hr] at hend
    obtain ⟨hbefore', hend'⟩ := hf a c' hend
    exact ⟨⟨hbefore, hbefore'⟩, hend'⟩

theorem keeps_ite {P : Prop} [Decidable P] {p q : Sql δ ε α} (hp : P → Keeps I p)
    (hq : ¬P → Keeps I q) : Keeps I (if P then p else q) := by
  split
  · exact hp ‹_›
  · exact hq ‹_›

theorem keeps_when {P : Prop} [Decidable P] {p : Sql δ ε Unit} (hp : P → Keeps I p) :
    Keeps I (when P p) :=
  keeps_ite hp fun _ => keeps_pure _

end Keeps

/-! ## Outside of a transaction -/

/-- Outside of a transaction nothing is uncommitted. -/
def Published (c : Conn δ) : Prop := c.inTransaction = false → c.working = c.committed

theorem published_fresh (db : δ) : Published (Conn.fresh db) := fun _ => rfl

theorem published_execute (c : Conn δ) (w : δ) (_ : Published c) :
    Published { c with working := w, inTransaction := true } := fun h => by cases h

theorem published_commit (c : Conn δ) (_ : Published c) :
    Published ⟨c.working, c.working, false⟩ := fun _ => rfl

/-- `if conn.in_transaction: conn.rollback()`. -/
def rollbackOpen : Sql δ ε Unit :=
  step (fun c => if c.inTransaction then ⟨c.committed, c.committed, false⟩ else c)
    fun _ => done (.ok ())

@[simp] theorem before_rollbackOpen {I : Conn δ → Prop} {c : Conn δ} :
    Before I (rollbackOpen : Sql δ ε Unit) c ↔ I c := and_iff_left trivial

/-- Then the connection is at the committed copy. -/
theorem onConn_rollbackOpen {c : Conn δ} (h : Published c) :
    (rollbackOpen : Sql δ ε Unit).onConn c = (.ok (), ⟨c.committed, c.committed, false⟩) := by
  obtain ⟨committed, working, open'⟩ := c
  cases open' with
  | true => rfl
  | false =>
    obtain rfl : working = committed := h rfl
    rfl

theorem published_beginImmediate (c : Conn δ) (_ : Published c) :
    Published ⟨c.committed, c.committed, true⟩ := fun _ => rfl

end Sql
