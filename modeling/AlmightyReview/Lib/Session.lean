import AlmightyReview.Lib.Prog
import AlmightyReview.Lib.Sql

/-!
# Connections that commit after every statement

The operations of a program may each be a program on one connection that leaves no transaction
open. `Implements prog p q`: on a connection without an open transaction, `q` does what the
operations of `p` do one after the other, and leaves none open. Every way to build a program has
its rule, so a program over operations and the text of it on one connection are compared along
their texts.
-/

namespace Sql

variable {δ ε α β : Type}

theorem bind_assoc {γ : Type} (p : Sql δ ε α) (f : α → Sql δ ε β) (g : β → Sql δ ε γ) :
    p >>= f >>= g = p >>= fun a => f a >>= g := by
  induction p with
  | done r => cases r <;> rfl
  | step s next ih => exact congrArg (step s) (funext ih)

end Sql

namespace Prog

variable {F : Type → Type} {δ ε α β : Type} (prog : ∀ {β : Type}, F β → Sql δ ε β)

/-- An operation as a program on its own connection. -/
def execSql {β : Type} (o : F β) (db : δ) : Except ε β × δ := (prog o).run db

/-- On a connection without an open transaction, `q` does what the operations of `p` do. -/
def Implements (p : Prog F ε α) (q : Sql δ ε α) : Prop :=
  ∀ db, q.onConn (.fresh db) =
    ((alone (execSql prog) p db).1, .fresh (alone (execSql prog) p db).2)

variable {prog}

theorem Implements.run_eq {p : Prog F ε α} {q : Sql δ ε α} (h : Implements prog p q) (db : δ) :
    alone (execSql prog) p db = q.run db := by
  rw [Sql.run, h db]
  rfl

theorem implements_pure (a : α) : Implements prog (pure a) (pure a) := fun _ => rfl

theorem implements_throw (e : ε) : Implements prog (throw e : Prog F ε α) (throw e) := fun _ => rfl

/-- An operation that leaves no transaction open. -/
theorem implements_perform {o : F α}
    (h : ∀ db, ((prog o).onConn (.fresh db)).2 = .fresh ((prog o).run db).2) :
    Implements prog (perform o) (prog o) :=
  fun db => Prod.ext rfl (h db)

theorem implements_bind {p : Prog F ε α} {q : Sql δ ε α} {f : α → Prog F ε β}
    {g : α → Sql δ ε β} (hp : Implements prog p q) (hf : ∀ a, Implements prog (f a) (g a)) :
    Implements prog (p >>= f) (q >>= g) := by
  intro db
  rw [Sql.onConn_bind, hp db, alone_bind]
  rcases alone (execSql prog) p db with ⟨e | a, d⟩
  · rfl
  · exact hf a d

theorem implements_ite {c : Prop} [Decidable c] {p p' : Prog F ε α} {q q' : Sql δ ε α}
    (hp : c → Implements prog p q) (hq : ¬c → Implements prog p' q') :
    Implements prog (if c then p else p') (if c then q else q') := by
  split
  · exact hp ‹_›
  · exact hq ‹_›

theorem implements_when {c : Prop} [Decidable c] {p : Prog F ε Unit} {q : Sql δ ε Unit}
    (hp : c → Implements prog p q) : Implements prog (when c p) (Sql.when c q) :=
  implements_ite hp fun _ => implements_pure ()

end Prog
