/-
# Programs that are given what they ask for

`Given G Q x`: answered in `G` throughout, the program `x` returns in `Q`.
`Returns G R x` is the same for a program that may raise, and says that it does
not. The rules follow the ways programs are put together; what they prove is
about every complete trace with answers in `G` (`Given.of_traces`).
-/
import FluxPam.Interaction.Expand

namespace Interaction

variable {Op : Type} {Res : Op → Type} {α β ε : Type} {G : (o : Op) → Res o → Prop}

namespace Monitor

/-- Answered in `G` throughout, the program returns in `Q`. -/
abbrev Given (G : (o : Op) → Res o → Prop) (Q : α → Prop) (x : Prog Op Res α) : Prop :=
  (only (fun _ => True) G).Accepts (fun a _ => Q a) () x

/-- Answered in `G` throughout, the program does not raise, and returns in `R`. -/
abbrev Returns (G : (o : Op) → Res o → Prop) (R : α → Prop) (x : ExceptT ε (Prog Op Res) α) : Prop :=
  Given G (fun r => ∃ a, r = .ok a ∧ R a) x.run

theorem Given.of_traces {Q : α → Prop} {x : Prog Op Res α} {t : List (Sigma Res)} {a : α}
    (hx : Given G Q x) (h : Prog.Traces x t a) (ht : ∀ e ∈ t, G e.1 e.2) : Q a :=
  Accepts.of_runs hx ht h

variable {R : α → Prop} {R' : β → Prop}

theorem Returns.of_traces {x : ExceptT ε (Prog Op Res) α} {t : List (Sigma Res)} {r : Except ε α}
    (hx : Returns G R x) (h : Prog.Traces x.run t r) (ht : ∀ e ∈ t, G e.1 e.2) : ∃ a, r = .ok a ∧ R a :=
  Accepts.of_runs hx ht h

theorem returns_pure {a : α} (h : R a) : Returns G R (pure a : ExceptT ε (Prog Op Res) α) := ⟨a, rfl, h⟩

/-- A computed value that is no exception. -/
theorem returns_mk {r : Except ε α} {a : α} (hr : r = .ok a) (h : R a) :
    Returns G R (ExceptT.mk (.pure r)) := ⟨a, hr, h⟩

theorem returns_lift {o : Op} {R : Res o → Prop} (h : ∀ r, G o r → R r) :
    Returns G R (ExceptT.lift (Prog.perform o) : ExceptT ε (Prog Op Res) (Res o)) :=
  ⟨trivial, fun r hr => ⟨r, rfl, h r hr⟩⟩

theorem Returns.bind {x : ExceptT ε (Prog Op Res) α} {f : α → ExceptT ε (Prog Op Res) β}
    (hx : Returns G R x) (hf : ∀ a, R a → Returns G R' (f a)) : Returns G R' (x >>= f) := by
  refine Accepts.bindExcept hx (fun a _ ha => ?_) fun e _ he => ?_
  · obtain ⟨_, ⟨⟩, ha⟩ := ha
    exact hf a ha
  · obtain ⟨_, ⟨⟩, -⟩ := he

theorem Returns.attemptBind {x : ExceptT ε (Prog Op Res) α}
    {f : Except ε α → ExceptT ε (Prog Op Res) β} (hx : Returns G R x)
    (hf : ∀ a, R a → Returns G R' (f (.ok a))) : Returns G R' (attempt x >>= f) := by
  refine Accepts.attemptBind hx ?_
  rintro _ _ ⟨a, rfl, ha⟩
  exact hf a ha

end Monitor

end Interaction
