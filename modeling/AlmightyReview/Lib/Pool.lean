import AlmightyReview.Lib.Prog
import AlmightyReview.Lib.Sys
import Mathlib.Logic.Function.Basic

/-!
# Programs side by side

A pool has a state and any number of programs, each at some place of its text. A step of the pool
starts a program, lets one program issue its next operation, or changes the state from outside.
A program that is never scheduled again has crashed.

* `Machine F ε σ l`: what an operation may answer and do to the state, and the steps from outside.
* `Pool.Step`, `pool`: the steps, as a system. Every program carries the history variable of a
  contract, which its answers change.
* `Holds`: an invariant of the state and the histories. Its rule `Holds.inductive` asks for one
  case per kind of step; in the case of an operation the contract allows it, so no proof about a
  pool looks at the text of a program.
-/

universe u v

open Prog

/-- What operations do. -/
structure Machine (F : Type → Type u) (ε σ : Type) (l : Type v) where
  /-- In the first state the operation of this program may give this answer and leave the second
  state. -/
  exec : ∀ {β : Type}, Nat → F β → σ → Except ε β → σ → Prop
  /-- The steps from outside, by their label. -/
  outside : l → σ → σ → Prop

/-- A state and programs with their histories. -/
structure Pool (F : Type → Type u) (ε σ γ α : Type) where
  state : σ
  threads : Nat → Option (γ × Prog F ε α)

namespace Pool

variable {F : Type → Type u} {ε σ γ α : Type} {l : Type v}

/-- A step of the pool. -/
inductive Event (l : Type v) where
  | start (n : Nat)
  | call (n : Nat)
  | outside (a : l)

/-- The histories of the programs. -/
def histories (w : Pool F ε σ γ α) (n : Nat) : Option γ := (w.threads n).map Prod.fst

/-- The pool with program `n` at `p`, with the history `g`. -/
def put (w : Pool F ε σ γ α) (n : Nat) (g : γ) (p : Prog F ε α) : Pool F ε σ γ α :=
  { w with threads := Function.update w.threads n (some (g, p)) }

theorem histories_eq_some {w : Pool F ε σ γ α} {n : Nat} {g : γ} {p : Prog F ε α}
    (h : w.threads n = some (g, p)) : w.histories n = some g := by
  rw [histories, h]
  rfl

@[simp] theorem histories_put (w : Pool F ε σ γ α) (n : Nat) (g : γ) (p : Prog F ε α) :
    (w.put n g p).histories = Function.update w.histories n (some g) := by
  funext m
  by_cases h : m = n
  · subst h
    simp [histories, put]
  · simp [histories, put, Function.update_of_ne h]

@[simp] theorem threads_put (w : Pool F ε σ γ α) (n : Nat) (g : γ) (p : Prog F ε α) :
    (w.put n g p).threads n = some (g, p) := by
  simp [put]

theorem threads_put_of_ne {w : Pool F ε σ γ α} {m n : Nat} (h : m ≠ n) (g : γ)
    (p : Prog F ε α) : (w.put n g p).threads m = w.threads m := by
  simp [put, Function.update_of_ne h]

variable (M : Machine F ε σ l) (C : Contract F ε γ) (Start : σ → γ → Prog F ε α → Prop)
  (Init : σ → Prop)

inductive Step : Pool F ε σ γ α → Event l → Pool F ε σ γ α → Prop
  | start {w : Pool F ε σ γ α} {n : Nat} {g : γ} {p : Prog F ε α} :
    w.threads n = none → Start w.state g p → Step w (.start n) (w.put n g p)
  | call {w : Pool F ε σ γ α} {n : Nat} {g : γ} {β : Type} {o : F β}
    {next : Except ε β → Prog F ε α} {r : Except ε β} {s : σ} :
    w.threads n = some (g, .call o next) → M.exec n o w.state r s →
      Step w (.call n) ({ w with state := s }.put n (C.after g o r) (next r))
  | outside {w : Pool F ε σ γ α} {a : l} {s : σ} :
    M.outside a w.state s → Step w (.outside a) { w with state := s }

/-- The pool as a system; no program has started. -/
def system : Sys (Pool F ε σ γ α) (Event l) where
  init w := Init w.state ∧ ∀ n, w.threads n = none
  step := Step M C Start

variable {M C Start Init}

/-- An invariant of the state and the histories, under a guard `G` of the steps. -/
structure Holds (M : Machine F ε σ l) (C : Contract F ε γ) (Start : σ → γ → Prog F ε α → Prop)
    (Init : σ → Prop) (G : Pool F ε σ γ α → Event l → Prop)
    (I : σ → (Nat → Option γ) → Prop) : Prop where
  init : ∀ {s}, Init s → I s fun _ => none
  start : ∀ {w : Pool F ε σ γ α} {n g p}, I w.state w.histories → G w (.start n) →
    w.threads n = none → Start w.state g p → I w.state (Function.update w.histories n (some g))
  call : ∀ {w : Pool F ε σ γ α} {n g} {β : Type} {o : F β} {next r s}, I w.state w.histories →
    G w (.call n) → w.threads n = some (g, .call o next) → C.allowed g o →
    M.exec n o w.state r s → I s (Function.update w.histories n (some (C.after g o r)))
  outside : ∀ {w : Pool F ε σ γ α} {a s}, I w.state w.histories → G w (.outside a) →
    M.outside a w.state s → I s w.histories
  possible : ∀ {n} {β : Type} {o : F β} {s r s'}, M.exec n o s r s' → C.possible o r := by
    intros; trivial

/-- The invariant holds, and every program obeys the contract from where it is. -/
structure Sound (C : Contract F ε γ) (Q : γ → Except ε α → Prop)
    (I : σ → (Nat → Option γ) → Prop) (w : Pool F ε σ γ α) : Prop where
  holds : I w.state w.histories
  obeys : ∀ n g p, w.threads n = some (g, p) → Obeys C Q g p

/-- **Invariants of a pool.** Programs that obey their contract keep what every allowed operation
keeps. -/
theorem Holds.inductive {G : Pool F ε σ γ α → Event l → Prop} {I : σ → (Nat → Option γ) → Prop}
    {Q : γ → Except ε α → Prop} (h : Holds M C Start Init G I)
    (hstart : ∀ s g p, Start s g p → Obeys C Q g p) :
    (system M C Start Init).Inductive G (Sound C Q I) where
  init := by
    intro w hw
    have hh : w.histories = fun _ => none := by
      funext n
      rw [histories, hw.2 n]
      rfl
    refine ⟨hh ▸ h.init hw.1, fun n g p hp => ?_⟩
    rw [hw.2 n] at hp
    cases hp
  step := by
    intro w e w' hs hg hstep
    -- the programs other than the one that moves are where they were
    have hput : ∀ {v : Pool F ε σ γ α} {n g p}, v.threads = w.threads → Obeys C Q g p →
        ∀ m g' p', (v.put n g p).threads m = some (g', p') → Obeys C Q g' p' := by
      intro v n g p hv hp m g' p' hm
      by_cases he : m = n
      · subst he
        rw [threads_put] at hm
        cases hm
        exact hp
      · rw [threads_put_of_ne he, hv] at hm
        exact hs.obeys m g' p' hm
    cases hstep with
    | start hn hst =>
      refine ⟨?_, hput rfl (hstart _ _ _ hst)⟩
      rw [histories_put]
      exact h.start hs.holds hg hn hst
    | @call n g β o next r s hn hex =>
      have ho := hs.obeys n g _ hn
      refine ⟨?_, hput rfl (ho.2 r (h.possible hex))⟩
      rw [histories_put]
      exact h.call (w := w) hs.holds hg hn ho.1 hex
    | outside ho => exact ⟨h.outside (w := w) hs.holds hg ho, hs.obeys⟩

/-- What an allowed operation does under the invariant, for every step of every run. -/
theorem Holds.stepInvariant {G : Pool F ε σ γ α → Event l → Prop}
    {I : σ → (Nat → Option γ) → Prop} {Q : γ → Except ε α → Prop}
    {P : Pool F ε σ γ α → Event l → Pool F ε σ γ α → Prop} (h : Holds M C Start Init G I)
    (hstart : ∀ s g p, Start s g p → Obeys C Q g p)
    (hP : ∀ {w e w'}, Sound C Q I w → G w e → Step M C Start w e w' → P w e w') :
    (system M C Start Init).StepInvariant G P :=
  (h.inductive hstart).stepInvariant hP

end Pool
