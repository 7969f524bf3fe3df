/-
# What a program spends

A meter reads off the state of the world what has been spent: time, say, or
operations. `Spends exec bad meter R b x`: whatever the world answers, the program
`x` performs no bad operation, and where it returns it returns in `R` having spent
`b` at most. Budgets add up along a program, so a bound for a script is put
together from bounds for its functions.
-/
import FluxPam.Interaction.Safe
import Mathlib.Algebra.Order.Monoid.Defs

namespace Interaction.Prog

variable {Op : Type} {Res : Op → Type} {α β ε ε' σ M : Type} [AddCommMonoid M] [PartialOrder M]
  {exec : σ → (o : Op) → Res o → σ → Prop} {bad : Op → Prop} {meter : σ → M}

/-- From any state the program spends `b` at most, and returns in `R`. -/
def Spends (exec : σ → (o : Op) → Res o → σ → Prop) (bad : Op → Prop) (meter : σ → M) (R : α → Prop)
    (b : M) (x : Prog Op Res α) : Prop :=
  ∀ s, Safe exec bad (fun a s' => R a ∧ meter s' ≤ meter s + b) s x

variable {b b' : M} {A : α → Prop} {R : β → Prop}

theorem spends_pure {a : α} (h : A a) : Spends exec bad meter A 0 (Prog.pure a) := fun s =>
  ⟨h, le_of_eq (add_zero (meter s)).symm⟩

theorem spends_perform {o : Op} {A : Res o → Prop} (hbad : ¬ bad o)
    (hcost : ∀ s r s', exec s o r s' → A r ∧ meter s' ≤ meter s + b) :
    Spends exec bad meter A b (perform o) := fun _ => ⟨hbad, fun r s' he => hcost _ r s' he⟩

theorem spends_iteExcept {c : Prop} [Decidable c] {x y : ExceptT ε (Prog Op Res) α}
    {R : Except ε α → Prop} (hx : c → Spends exec bad meter R b x.run)
    (hy : ¬ c → Spends exec bad meter R b y.run) :
    Spends exec bad meter R b (if c then x else y).run := by
  split
  · exact hx ‹_›
  · exact hy ‹_›

section Sums

variable [IsOrderedAddMonoid M]

theorem Spends.mono {x : Prog Op Res β} (hb : b ≤ b') (hx : Spends exec bad meter R b x) :
    Spends exec bad meter R b' x := fun s =>
  (hx s).mono fun _ s' ha => ⟨ha.1, le_trans ha.2 (by gcongr)⟩

theorem Spends.bind {x : Prog Op Res α} {f : α → Prog Op Res β} (hx : Spends exec bad meter A b x)
    (hf : ∀ a, A a → Spends exec bad meter R b' (f a)) : Spends exec bad meter R (b + b') (x >>= f) := by
  intro s
  refine safe_bind.mpr ((hx s).mono fun a s₁ ha => ((hf a ha.1) s₁).mono fun c s₂ hc => ⟨hc.1, ?_⟩)
  calc meter s₂ ≤ meter s₁ + b' := hc.2
    _ ≤ meter s + b + b' := by gcongr; exact ha.2
    _ = meter s + (b + b') := add_assoc _ _ _

/-- An operation, then the rest. -/
theorem spends_op {o : Op} {k : Res o → Prog Op Res β} {A : Res o → Prop} (hbad : ¬ bad o)
    (hcost : ∀ s r s', exec s o r s' → A r ∧ meter s' ≤ meter s + b)
    (hk : ∀ r, A r → Spends exec bad meter R b' (k r)) : Spends exec bad meter R (b + b') (.op o k) :=
  Spends.bind (f := k) (spends_perform hbad hcost) hk

/-! ### Programs that raise -/

/-- A step, then the rest unless the step raised. -/
theorem Spends.bindExcept {x : ExceptT ε (Prog Op Res) α} {f : α → ExceptT ε (Prog Op Res) β}
    {A : Except ε α → Prop} {R : Except ε β → Prop} (hx : Spends exec bad meter A b x.run)
    (hf : ∀ a, A (.ok a) → Spends exec bad meter R b' (f a).run) (he : ∀ e, A (.error e) → R (.error e))
    (hb : 0 ≤ b') : Spends exec bad meter R (b + b') (x >>= f).run := by
  refine Spends.bind (f := ExceptT.bindCont f) hx fun r hr => ?_
  cases r with
  | ok a => exact hf a hr
  | error e => exact (spends_pure (he e hr)).mono hb

/-- A `try` block, then what is done with its outcome. -/
theorem Spends.attemptBind {x : ExceptT ε (Prog Op Res) α}
    {f : Except ε α → ExceptT ε (Prog Op Res) β} {A : Except ε α → Prop} {R : Except ε β → Prop}
    (hx : Spends exec bad meter A b x.run) (hf : ∀ r, A r → Spends exec bad meter R b' (f r).run) :
    Spends exec bad meter R (b + b') (attempt x >>= f).run := by
  have hrun : (attempt x >>= f).run = (x.run >>= fun r => (f r).run) :=
    bind_assoc' (fun r => Pure.pure (Except.ok r)) (ExceptT.bindCont f) x.run
  rw [hrun]
  exact hx.bind hf

theorem Spends.raising {f : ε' → ε} {x : Prog Op Res (Except ε' α)} {A : Except ε' α → Prop}
    {R : Except ε α → Prop} (hx : Spends exec bad meter A b x) (h : ∀ r, A r → R (r.mapError f)) :
    Spends exec bad meter R b (raising f x).run := by
  have hbind := Spends.bind (f := fun r => Prog.pure (r.mapError f)) hx fun r hr => spends_pure (h r hr)
  rwa [add_zero] at hbind

end Sums

end Interaction.Prog
