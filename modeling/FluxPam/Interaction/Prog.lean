/-
# Programs that act on the world one operation at a time

A program is a tree: it returns a value, or it performs an operation and goes
on with the answer. What an operation does is not the program's business but
that of the world it runs in, a relation `exec s o r s'`: in the state `s` the
operation `o` may be answered by `r` and leave the state `s'`. So one program
text is run by a deterministic environment (`Prog.eval`), followed to its end
through every answer the world may give (`Prog.Runs`), or interleaved with
others (`Interaction.System`).

An exception is a result: `ExceptT ε (Prog Op Res)` raises and catches, and a
`try` block that goes on is `attempt`.
-/
import Mathlib.Tactic.Common

namespace Interaction

variable {Op : Type} {Res : Op → Type} {α β ε σ : Type}

/-- A program over the operations `Op`; `Res o` is the type of the answers to
`o`. -/
inductive Prog (Op : Type) (Res : Op → Type) (α : Type) : Type where
  | pure (a : α)
  | op (o : Op) (k : Res o → Prog Op Res α)

namespace Prog

def bind : Prog Op Res α → (α → Prog Op Res β) → Prog Op Res β
  | .pure a, f => f a
  | .op o k, f => .op o fun r => (k r).bind f

instance : Monad (Prog Op Res) where
  pure := .pure
  bind := bind

/-- Perform one operation and return its answer. -/
def perform (o : Op) : Prog Op Res (Res o) := .op o .pure

theorem bind_assoc' {γ : Type} (f : α → Prog Op Res β) (g : β → Prog Op Res γ) :
    ∀ x : Prog Op Res α, (x >>= f >>= g) = (x >>= fun a => f a >>= g)
  | .pure _ => rfl
  | .op o k => congrArg (Prog.op o) (funext fun r => bind_assoc' f g (k r))

/-! ### A deterministic environment -/

/-- The result of the program when `h o` answers every operation `o`. -/
def eval (h : (o : Op) → Res o) : Prog Op Res α → α
  | .pure a => a
  | .op o k => eval h (k (h o))

@[simp] theorem eval_pure (h : (o : Op) → Res o) (a : α) :
    eval h (Pure.pure a : Prog Op Res α) = a := rfl

@[simp] theorem eval_perform (h : (o : Op) → Res o) (o : Op) : eval h (perform o) = h o := rfl

@[simp] theorem eval_bind (h : (o : Op) → Res o) (f : α → Prog Op Res β) :
    ∀ x : Prog Op Res α, eval h (x >>= f) = eval h (f (eval h x))
  | .pure _ => rfl
  | .op o k => eval_bind h f (k (h o))

/-! ### Every run to the end -/

/-- The program's complete runs from the state `s`: the events `t`, each an
operation with its answer, the result and the last state. -/
def Runs (exec : σ → (o : Op) → Res o → σ → Prop) :
    Prog Op Res α → σ → List (Sigma Res) → α → σ → Prop
  | .pure a, s, t, b, s' => t = [] ∧ b = a ∧ s' = s
  | .op o k, s, t, b, s' =>
    ∃ r s₁ t', exec s o r s₁ ∧ t = ⟨o, r⟩ :: t' ∧ Runs exec (k r) s₁ t' b s'

variable {exec : σ → (o : Op) → Res o → σ → Prop}

theorem runs_perform {o : Op} {s s' : σ} {t : List (Sigma Res)} {r : Res o} :
    Runs exec (perform o) s t r s' ↔ exec s o r s' ∧ t = [⟨o, r⟩] := by
  constructor
  · rintro ⟨r', s₁, t', h, rfl, rfl, rfl, rfl⟩
    exact ⟨h, rfl⟩
  · rintro ⟨h, rfl⟩
    exact ⟨r, s', [], h, rfl, rfl, rfl, rfl⟩

/-- A run of `x >>= f` is a run of `x`, then one of `f` at its result. -/
theorem runs_bind {f : α → Prog Op Res β} : ∀ {x : Prog Op Res α} {s s' : σ}
    {t : List (Sigma Res)} {b : β}, Runs exec (x >>= f) s t b s' ↔
      ∃ t₁ a s₁ t₂, Runs exec x s t₁ a s₁ ∧ Runs exec (f a) s₁ t₂ b s' ∧ t = t₁ ++ t₂
  | .pure a, s, s', t, b => by
    constructor
    · intro h
      exact ⟨[], a, s, t, ⟨rfl, rfl, rfl⟩, h, rfl⟩
    · rintro ⟨_, _, _, t₂, ⟨rfl, rfl, rfl⟩, h, rfl⟩
      exact h
  | .op o k, s, s', t, b => by
    constructor
    · rintro ⟨r, s₁, t', he, rfl, h⟩
      obtain ⟨t₁, a, s₂, t₂, h₁, h₂, rfl⟩ := (runs_bind (x := k r)).mp h
      exact ⟨⟨o, r⟩ :: t₁, a, s₂, t₂, ⟨r, s₁, t₁, he, rfl, h₁⟩, h₂, rfl⟩
    · rintro ⟨_, a, s₂, t₂, ⟨r, s₁, t₁, he, rfl, h₁⟩, h₂, rfl⟩
      exact ⟨r, s₁, t₁ ++ t₂, he, rfl, (runs_bind (x := k r)).mpr ⟨t₁, a, s₂, t₂, h₁, h₂, rfl⟩⟩

/-- What holds of all answers holds of those in a run. -/
theorem Runs.answered {A : (o : Op) → Res o → Prop} (hA : ∀ s o r s', exec s o r s' → A o r) :
    ∀ {x : Prog Op Res α} {s s' : σ} {t : List (Sigma Res)} {a : α}, Runs exec x s t a s' →
      ∀ e ∈ t, A e.1 e.2
  | .pure _, _, _, _, _, h => by
    obtain ⟨rfl, -⟩ := h
    exact fun e he => absurd he List.not_mem_nil
  | .op _ _, _, _, _, _, h => by
    obtain ⟨r, s₁, t', he, rfl, h⟩ := h
    exact List.forall_mem_cons.mpr ⟨hA _ _ _ _ he, Runs.answered hA h⟩

end Prog

/-! ### Exceptions -/

/-- Run a `try` block to its end: its exception, if it raises one, becomes a
value the program goes on with. -/
def attempt (x : ExceptT ε (Prog Op Res) α) : ExceptT ε (Prog Op Res) (Except ε α) :=
  ExceptT.mk (x.run >>= fun r => pure (Except.ok r))

/-- Raise the error of a program whose answer may be one, as `f` words it. -/
def raising {ε' : Type} (f : ε' → ε) (x : Prog Op Res (Except ε' α)) :
    ExceptT ε (Prog Op Res) α :=
  ExceptT.mk (x >>= fun r => pure (r.mapError f))

/-- A step, then the rest unless the step raised. -/
theorem Prog.eval_exceptBind (h : (o : Op) → Res o) (x : ExceptT ε (Prog Op Res) α)
    (f : α → ExceptT ε (Prog Op Res) β) :
    eval h (x >>= f).run = (eval h x.run).bind fun a => eval h (f a).run := by
  refine (eval_bind h (ExceptT.bindCont f) x.run).trans ?_
  cases eval h x.run <;> rfl

section Returns

variable {exec : σ → (o : Op) → Res o → σ → Prop} {s s' : σ} {t : List (Sigma Res)}

/-- A run that returns is a run of the first part that returns, then one of the
rest. -/
theorem Prog.runs_bindExcept {x : ExceptT ε (Prog Op Res) α} {f : α → ExceptT ε (Prog Op Res) β}
    {b : β} (h : Runs exec (x >>= f).run s t (.ok b) s') :
    ∃ t₁ a s₁ t₂, Runs exec x.run s t₁ (.ok a) s₁ ∧ Runs exec (f a).run s₁ t₂ (.ok b) s' ∧
      t = t₁ ++ t₂ := by
  obtain ⟨t₁, r, s₁, t₂, hx, hf, rfl⟩ := (runs_bind (f := ExceptT.bindCont f)).mp h
  cases r with
  | ok a => exact ⟨t₁, a, s₁, t₂, hx, hf, rfl⟩
  | error e =>
    obtain ⟨-, h, -⟩ := hf
    cases h

theorem Prog.runs_raising {ε' : Type} {f : ε' → ε} {x : Prog Op Res (Except ε' α)} {a : α}
    (h : Runs exec (raising f x).run s t (.ok a) s') : Runs exec x s t (.ok a) s' := by
  obtain ⟨t₁, r, s₁, t₂, hx, ⟨rfl, hr, rfl⟩, rfl⟩ := runs_bind.mp h
  cases r with
  | ok b =>
    cases hr
    rwa [List.append_nil]
  | error e => cases hr

end Returns

end Interaction
