import Mathlib.Logic.Function.Basic

/-!
# A value and its past

`Log δ` is a value that changes over time, with all its earlier values: `past t` is the value at
time `t`, and `time` is now. `push` gives it a new value.

* `During l since P`: at some time from `since` on, `P` held of the value. A new value keeps it
  (`During.push`).
-/

/-- A value and its past. -/
structure Log (δ : Type) where
  time : Nat
  past : Nat → δ

namespace Log

variable {δ : Type} {l : Log δ} {since : Nat} {P Q : δ → Prop}

/-- The value now. -/
def now (l : Log δ) : δ := l.past l.time

/-- The first value. -/
def start (d : δ) : Log δ := ⟨0, fun _ => d⟩

/-- A new value. -/
def push (l : Log δ) (d : δ) : Log δ := ⟨l.time + 1, Function.update l.past (l.time + 1) d⟩

@[simp] theorem now_start (d : δ) : (start d).now = d := rfl

@[simp] theorem now_push (l : Log δ) (d : δ) : (l.push d).now = d := by
  simp [now, push]

@[simp] theorem time_push (l : Log δ) (d : δ) : (l.push d).time = l.time + 1 := rfl

theorem past_push {t : Nat} (h : t ≤ l.time) (d : δ) : (l.push d).past t = l.past t := by
  have hne : t ≠ l.time + 1 := by omega
  simp [push, Function.update_of_ne hne]

/-- At some time from `since` on, `P` held. -/
def During (l : Log δ) (since : Nat) (P : δ → Prop) : Prop :=
  ∃ t, since ≤ t ∧ t ≤ l.time ∧ P (l.past t)

theorem During.push (h : l.During since P) (d : δ) : (l.push d).During since P := by
  obtain ⟨t, hs, ht, hp⟩ := h
  refine ⟨t, hs, ?_, ?_⟩
  · rw [time_push]
    omega
  · rwa [past_push ht]

/-- `P` holds now. -/
theorem During.of_now (hs : since ≤ l.time) (h : P l.now) : l.During since P :=
  ⟨l.time, hs, Nat.le_refl _, h⟩

end Log
