import Mathlib.Logic.Basic

/-!
# Labelled transition systems and guarded runs

A system is a type of states, the initial states and the labelled steps. The label of a step says
who takes it and with which data, so a statement about a run can speak of its steps.

* `Sys.Reach G`: the states that a run reaches whose steps all meet the guard `G` (a condition on
  the state before the step and on its label). `G := fun _ _ => True` gives all runs.
* `Sys.Inductive G I`: `I` holds initially and every guarded step keeps it; then `I` holds of
  every state of every guarded run (`Inductive.reach`).
* `Sys.Always G P`: `P` of every state of every guarded run.
* `Sys.StepInvariant G P`: every guarded step from a reachable state is related by `P`. It follows
  from an inductive invariant and one step lemma (`Inductive.stepInvariant`).
-/

universe u v

/-- A labelled transition system. -/
structure Sys (σ : Type u) (α : Type v) where
  init : σ → Prop
  step : σ → α → σ → Prop

namespace Sys

variable {σ : Type u} {α : Type v} (S : Sys σ α)

/-- The guard that every step meets. -/
def anyStep : σ → α → Prop := fun _ _ => True

/-- The states that a run reaches whose steps all meet `G`. -/
inductive Reach (G : σ → α → Prop) : σ → Prop
  | init {s : σ} : S.init s → Reach G s
  | step {s s' : σ} {a : α} : Reach G s → G s a → S.step s a s' → Reach G s'

/-- `I` holds initially, and every step that meets `G` keeps it. -/
structure Inductive (G : σ → α → Prop) (I : σ → Prop) : Prop where
  init : ∀ {s}, S.init s → I s
  step : ∀ {s a s'}, I s → G s a → S.step s a s' → I s'

/-- `P` of every state that steps reach that meet `G`. -/
def Always (G : σ → α → Prop) (P : σ → Prop) : Prop := ∀ {s}, S.Reach G s → P s

/-- `P` of every step that meets `G` from a state that such steps reach. -/
def StepInvariant (G : σ → α → Prop) (P : σ → α → σ → Prop) : Prop :=
  ∀ {s a s'}, S.Reach G s → G s a → S.step s a s' → P s a s'

variable {S} {G G' : σ → α → Prop} {I : σ → Prop}

theorem Inductive.reach (h : S.Inductive G I) {s : σ} (hs : S.Reach G s) : I s := by
  induction hs with
  | init hi => exact h.init hi
  | step _ hg hst ih => exact h.step ih hg hst

/-- What follows from an inductive invariant holds in every state of a run. -/
theorem Inductive.always {P : σ → Prop} (h : S.Inductive G I) (hP : ∀ {s}, I s → P s) :
    S.Always G P :=
  fun hs => hP (h.reach hs)

/-- An inductive invariant and a step lemma under it give a fact about every step of a run. -/
theorem Inductive.stepInvariant {P : σ → α → σ → Prop} (h : S.Inductive G I)
    (hP : ∀ {s a s'}, I s → G s a → S.step s a s' → P s a s') : S.StepInvariant G P :=
  fun hs hg hst => hP (h.reach hs) hg hst

/-- A run under a stronger guard is a run under a weaker one. -/
theorem Reach.mono (hG : ∀ s a, G s a → G' s a) {s : σ} (hs : S.Reach G s) : S.Reach G' s := by
  induction hs with
  | init hi => exact .init hi
  | step _ hg hst ih => exact .step ih (hG _ _ hg) hst

end Sys
