import Mathlib.Logic.Basic

/-!
# Programs over operations

`Prog F ε α` is a program that issues operations of a signature `F` (`F β` has the operations that
answer with a `β`), and returns an `α` or raises an `ε`. An operation may raise too. Nothing is
said about what the operations do: other programs may run between any two of them.

* `perform o` issues one operation. `Prog F ε` is a monad with exceptions.
* `alone`: the result of a program that runs without any other.
* `Contract F ε γ`: a history variable `γ` of one program, which its own answers change (`after`),
  the operations that the program may issue under it (`allowed`), and the answers that these can
  give (`possible`).
* `Obeys C Q g p`: from the history `g` the program `p` issues allowed operations only, whatever
  the answers, and where it ends its history and its result meet `Q`. Each way to build a program
  has its rule (`obeys_bind`, `obeys_tryCatch`, ..), so that `Obeys` of a program is proved along
  its text.
* `Obeys.simulate`: from one contract to another. `Contract.only S` is the one without a history;
  what the operations in `S` keep of a history, a program of them keeps (`Obeys.keeps`).
-/

universe u

/-- A program that issues operations of `F`. -/
inductive Prog (F : Type → Type u) (ε α : Type) : Type (max u 1) where
  | ret (r : Except ε α)
  | call {β : Type} (o : F β) (next : Except ε β → Prog F ε α)

namespace Prog

variable {F : Type → Type u} {ε α β : Type}

protected def bind : Prog F ε α → (α → Prog F ε β) → Prog F ε β
  | ret (.ok a), f => f a
  | ret (.error e), _ => ret (.error e)
  | call o next, f => call o fun r => Prog.bind (next r) f

/-- `try: p except: h`. -/
protected def tryCatch : Prog F ε α → (ε → Prog F ε α) → Prog F ε α
  | ret (.ok a), _ => ret (.ok a)
  | ret (.error e), h => h e
  | call o next, h => call o fun r => Prog.tryCatch (next r) h

instance : Monad (Prog F ε) where
  pure a := ret (.ok a)
  bind := Prog.bind

instance : MonadExceptOf ε (Prog F ε) where
  throw e := ret (.error e)
  tryCatch := Prog.tryCatch

/-- One operation. -/
def perform (o : F α) : Prog F ε α := call o ret

/-- `if c: p`. -/
def when (c : Prop) [Decidable c] (p : Prog F ε Unit) : Prog F ε Unit := if c then p else pure ()

/-- A result that was computed without an operation. -/
def lift (r : Except ε α) : Prog F ε α := ret r

/-- `[f(x) for x in xs]`. -/
def forEach {ξ : Type} (f : ξ → Prog F ε α) : List ξ → Prog F ε (List α)
  | [] => pure []
  | x :: xs => do
    let a ← f x
    let as ← forEach f xs
    pure (a :: as)

/-! ## A program alone -/

/-- The result and the state when no other program runs. -/
def alone {δ : Type} (exec : ∀ {β : Type}, F β → δ → Except ε β × δ) :
    Prog F ε α → δ → Except ε α × δ
  | ret r, d => (r, d)
  | call o next, d => alone exec (next (exec o d).1) (exec o d).2

section Alone

variable {δ : Type} (exec : ∀ {β : Type}, F β → δ → Except ε β × δ)

@[simp] theorem alone_pure (a : α) (d : δ) :
    alone exec (pure a : Prog F ε α) d = (.ok a, d) := rfl

@[simp] theorem alone_throw (e : ε) (d : δ) :
    alone exec (throw e : Prog F ε α) d = (.error e, d) := rfl

@[simp] theorem alone_perform (o : F α) (d : δ) :
    alone exec (perform o) d = exec o d := rfl

@[simp] theorem alone_bind (p : Prog F ε α) (f : α → Prog F ε β) (d : δ) :
    alone exec (p >>= f) d =
      match alone exec p d with
      | (.ok a, d') => alone exec (f a) d'
      | (.error e, d') => (.error e, d') := by
  induction p generalizing d with
  | ret r => cases r <;> rfl
  | call o next ih => exact ih _ _

@[simp] theorem alone_ite {c : Prop} [Decidable c] (p q : Prog F ε α) (d : δ) :
    alone exec (if c then p else q) d = if c then alone exec p d else alone exec q d := by
  split <;> rfl

@[simp] theorem alone_when {c : Prop} [Decidable c] (p : Prog F ε Unit) (d : δ) :
    alone exec (when c p) d = if c then alone exec p d else (.ok (), d) :=
  alone_ite exec p (pure ()) d

end Alone

/-! ## Contracts -/

/-- What a program may do, given the history of its operations and their answers. -/
structure Contract (F : Type → Type u) (ε γ : Type) where
  allowed : ∀ {β : Type}, γ → F β → Prop
  after : ∀ {β : Type}, γ → F β → Except ε β → γ
  /-- The answers that an operation can give. -/
  possible : ∀ {β : Type}, F β → Except ε β → Prop := fun _ _ => True

variable {γ : Type} (C : Contract F ε γ)

/-- From the history `g` the program issues allowed operations only, and ends in `Q`. -/
def Obeys (Q : γ → Except ε α → Prop) : γ → Prog F ε α → Prop
  | g, ret r => Q g r
  | g, call o next =>
    C.allowed g o ∧ ∀ r, C.possible o r → Obeys Q (C.after g o r) (next r)

variable {C} {Q R : γ → Except ε α → Prop} {P : γ → Except ε β → Prop} {g : γ}

theorem obeys_pure {a : α} (h : Q g (.ok a)) : Obeys C Q g (pure a) := h

theorem obeys_throw {e : ε} (h : Q g (.error e)) : Obeys C Q g (throw e : Prog F ε α) := h

theorem obeys_lift {r : Except ε α} (h : Q g r) : Obeys C Q g (lift r) := h

theorem obeys_perform {o : F α} (ha : C.allowed g o)
    (h : ∀ r, C.possible o r → Q (C.after g o r) r) : Obeys C Q g (perform o) :=
  ⟨ha, h⟩

theorem Obeys.mono {p : Prog F ε α} (h : Obeys C Q g p) (hQ : ∀ g r, Q g r → R g r) :
    Obeys C R g p := by
  induction p generalizing g with
  | ret r => exact hQ g r h
  | call o next ih => exact ⟨h.1, fun r hr => ih r (h.2 r hr)⟩

theorem obeys_bind {p : Prog F ε β} {f : β → Prog F ε α} (hp : Obeys C P g p)
    (hok : ∀ g' b, P g' (.ok b) → Obeys C Q g' (f b))
    (herr : ∀ g' e, P g' (.error e) → Q g' (.error e)) : Obeys C Q g (p >>= f) := by
  induction p generalizing g with
  | ret r =>
    cases r with
    | ok b => exact hok g b hp
    | error e => exact herr g e hp
  | call o next ih => exact ⟨hp.1, fun r hr => ih r (hp.2 r hr)⟩

/-- An operation and the rest of the program. -/
theorem obeys_perform_bind {o : F β} {f : β → Prog F ε α} (ha : C.allowed g o)
    (hok : ∀ b, C.possible o (.ok b) → Obeys C Q (C.after g o (.ok b)) (f b))
    (herr : ∀ e, C.possible o (.error e) → Q (C.after g o (.error e)) (.error e)) :
    Obeys C Q g (perform o >>= f) := by
  refine ⟨ha, fun r hr => ?_⟩
  cases r with
  | ok b => exact hok b hr
  | error e => exact herr e hr

/-- A computation without an operation and the rest of the program. -/
theorem obeys_lift_bind {r : Except ε β} {f : β → Prog F ε α}
    (hok : ∀ b, r = .ok b → Obeys C Q g (f b)) (herr : ∀ e, r = .error e → Q g (.error e)) :
    Obeys C Q g (lift r >>= f) := by
  cases r with
  | ok b => exact hok b rfl
  | error e => exact herr e rfl

theorem obeys_tryCatch {p : Prog F ε α} {h : ε → Prog F ε α} (hp : Obeys C R g p)
    (hok : ∀ g' a, R g' (.ok a) → Q g' (.ok a))
    (herr : ∀ g' e, R g' (.error e) → Obeys C Q g' (h e)) : Obeys C Q g (tryCatch p h) := by
  induction p generalizing g with
  | ret r =>
    cases r with
    | ok a => exact hok g a hp
    | error e => exact herr g e hp
  | call o next ih => exact ⟨hp.1, fun r hr => ih r (hp.2 r hr)⟩

theorem obeys_ite {c : Prop} [Decidable c] {p q : Prog F ε α} (hp : c → Obeys C Q g p)
    (hq : ¬c → Obeys C Q g q) : Obeys C Q g (if c then p else q) := by
  split
  · exact hp ‹_›
  · exact hq ‹_›

theorem obeys_when {c : Prop} [Decidable c] {p : Prog F ε Unit}
    {Q : γ → Except ε Unit → Prop} (hp : c → Obeys C Q g p) (hq : ¬c → Q g (.ok ())) :
    Obeys C Q g (when c p) :=
  obeys_ite hp hq

/-- A loop, with an invariant `I` of the history and the results so far. -/
theorem obeys_forEach {ξ : Type} {f : ξ → Prog F ε α} (I : γ → List ξ → List α → Prop)
    {xs : List ξ} {Q : γ → Except ε (List α) → Prop}
    (hstep : ∀ g done as x rest, xs = done ++ x :: rest → I g done as →
      Obeys C (fun g' r => match r with
        | .ok a => I g' (done ++ [x]) (as ++ [a])
        | .error e => Q g' (.error e)) g (f x))
    (hend : ∀ g as, I g xs as → Q g (.ok as)) (h₀ : I g [] []) :
    Obeys C Q g (forEach f xs) := by
  suffices key : ∀ rest done as (g : γ), xs = done ++ rest → I g done as →
      Obeys C (fun g' r => match r with
        | .ok bs => Q g' (.ok (as ++ bs))
        | .error e => Q g' (.error e)) g (forEach f rest) by
    refine (key xs [] [] g rfl h₀).mono fun g' r hr => ?_
    cases r with
    | ok bs => exact hr
    | error e => exact hr
  intro rest
  induction rest with
  | nil =>
    intro done as g hxs hI
    rw [List.append_nil] at hxs
    refine obeys_pure ?_
    simpa using hend g as (hxs ▸ hI)
  | cons x rest ih =>
    intro done as g hxs hI
    refine obeys_bind (hstep g done as x rest hxs hI) (fun g' a ha => ?_) fun g' e he => he
    refine obeys_bind (ih (done ++ [x]) (as ++ [a]) g' (by simp [hxs]) ha) (fun g'' bs hbs => ?_)
      fun g'' e he => he
    refine obeys_pure ?_
    simpa using hbs

/-! ## Simulations -/

/-- **Simulation.** A program that obeys a contract obeys another one whose histories go along. -/
theorem Obeys.simulate {γ' : Type} {C' : Contract F ε γ'} {P : γ' → Except ε α → Prop} {g' : γ'}
    {p : Prog F ε α} (h : Obeys C' P g' p) (S : γ' → γ → Prop) (hS : S g' g)
    (hstep : ∀ {β : Type} (g' : γ') (g : γ) (o : F β), S g' g → C'.allowed g' o →
      C.allowed g o ∧ ∀ r, C.possible o r → C'.possible o r ∧ S (C'.after g' o r) (C.after g o r)) :
    Obeys C (fun g r => ∃ g', S g' g ∧ P g' r) g p := by
  induction p generalizing g g' with
  | ret r => exact ⟨g', hS, h⟩
  | call o next ih =>
    obtain ⟨ha, hafter⟩ := hstep g' g o hS h.1
    refine ⟨ha, fun r hr => ?_⟩
    obtain ⟨hp, hS'⟩ := hafter r hr
    exact ih r (h.2 r hp) hS'

variable (C) in
/-- The contract without a history, under which the operations in `S` may be issued. -/
def Contract.only (S : ∀ {β : Type}, F β → Prop) : Contract F ε Unit where
  allowed _ o := S o
  after _ _ _ := ()
  possible := C.possible

/-- What the operations in `S` keep of a history, a program of them keeps. -/
theorem Obeys.keeps {S : ∀ {β : Type}, F β → Prop} {P : Except ε α → Prop} {p : Prog F ε α}
    (h : Obeys (C.only S) (fun _ r => P r) () p) (I : γ → Prop) (hg : I g)
    (hstep : ∀ {β : Type} (g : γ) (o : F β), I g → S o →
      C.allowed g o ∧ ∀ r, C.possible o r → I (C.after g o r)) :
    Obeys C (fun g' r => I g' ∧ P r) g p := by
  refine (h.simulate (fun _ g => I g) hg fun _ g o hI hS => ?_).mono ?_
  · obtain ⟨ha, hafter⟩ := hstep g o hI hS
    exact ⟨ha, fun r hr => ⟨hr, hafter r hr⟩⟩
  · rintro g' r ⟨-, hI, hP⟩
    exact ⟨hI, hP⟩

end Prog
