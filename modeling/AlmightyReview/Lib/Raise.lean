import Mathlib.Logic.Basic

/-!
# What a computation raises

`Raise.Only P r`: what the computation `r` raises, if it raises, meets `P`. Each way to build a
computation has its rule.
-/

namespace Raise

variable {ε α β : Type} {P : ε → Prop}

/-- Everything that the computation raises meets `P`. -/
def Only (P : ε → Prop) (r : Except ε α) : Prop := ∀ e, r = .error e → P e

theorem only_ok (a : α) : Only P (.ok a) := fun _ h => by cases h

theorem only_pure (a : α) : Only P (pure a : Except ε α) := only_ok a

theorem only_error {e : ε} (h : P e) : Only P (.error e : Except ε α) := by
  intro e' he
  cases he
  exact h

theorem only_throw {e : ε} (h : P e) : Only P (throw e : Except ε α) := only_error h

theorem only_ite {c : Prop} [Decidable c] {r s : Except ε α} (hr : c → Only P r)
    (hs : ¬c → Only P s) : Only P (if c then r else s) := by
  split
  · exact hr ‹_›
  · exact hs ‹_›

theorem only_bind {r : Except ε α} {f : α → Except ε β} (hr : Only P r)
    (hf : ∀ a, Only P (f a)) : Only P (r >>= f) := by
  cases r with
  | error e => exact only_error (hr e rfl)
  | ok a => exact hf a

theorem only_map {r : Except ε α} {f : α → β} (hr : Only P r) : Only P (r.map f) := by
  cases r with
  | error e => exact only_error (hr e rfl)
  | ok a => exact only_ok _

theorem only_mapM {ξ : Type} {f : ξ → Except ε α} (hf : ∀ x, Only P (f x)) (xs : List ξ) :
    Only P (xs.mapM f) := by
  induction xs with
  | nil => exact only_ok _
  | cons x xs ih =>
    rw [List.mapM_cons]
    exact only_bind (hf x) fun a => only_bind ih fun as => only_ok _

theorem only_forM {ξ : Type} {f : ξ → Except ε PUnit} (hf : ∀ x, Only P (f x)) (xs : List ξ) :
    Only P (xs.forM f) := by
  induction xs with
  | nil => exact only_ok _
  | cons x xs ih => exact only_bind (hf x) fun _ => ih

/-- Each step of a computation that does not raise does not raise. -/
theorem forall_of_forM {ξ : Type} {f : ξ → Except ε Unit} {xs : List ξ}
    (h : xs.forM f = .ok ()) : ∀ y ∈ xs, f y = .ok () := by
  induction xs with
  | nil => exact fun y hy => absurd hy List.not_mem_nil
  | cons z zs ih =>
    have hseq : (f z >>= fun _ => zs.forM f) = .ok () := h
    cases hz : f z with
    | error e =>
      rw [hz] at hseq
      cases hseq
    | ok u =>
      rw [hz] at hseq
      intro y hy
      rcases List.mem_cons.mp hy with rfl | hy
      · exact hz
      · exact ih hseq y hy

end Raise
