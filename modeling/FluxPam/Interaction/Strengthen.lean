/-
# A second condition on what is allowed

Once the programs of a system are followed by a monitor, more can be asked of
them in its states: `M.restrict C` allows what `M` allows and `C` grants. A program
that `M` accepts keeps to `C` where all it performs is granted in every state
(`Accepts.restrict_keeps`), or in the one state it leaves alone (`Accepts.restrict_still`);
what it owes when it returns, it owes as before (`Accepts.restrict_post`). The watched
system of the stronger monitors is the old one with fewer steps
(`Step.of_restrict`), so the old invariants hold in it.
-/
import FluxPam.Interaction.Monitor

namespace Interaction

variable {P Op Tag Act σ Φ α : Type} {Res : Op → Type}

namespace Monitor

/-- What the monitor allows, if `C` grants it. -/
def restrict (M : Monitor Op Res Φ) (C : Φ → Op → Prop) : Monitor Op Res Φ :=
  { M with allowed := fun φ o => M.allowed φ o ∧ C φ o }

variable {M : Monitor Op Res Φ} {C : Φ → Op → Prop} {Q : α → Φ → Prop} {q : Op → Prop} {R : α → Prop}

/-- All that the program performs is granted in every state. -/
theorem Accepts.restrict_keeps (hC : ∀ φ o, q o → C φ o) : ∀ {x : Prog Op Res α} {φ : Φ},
    M.Accepts Q φ x → Keeps q R x → (M.restrict C).Accepts Q φ x
  | .pure _, _, hx, _ => hx
  | .op o _, φ, hx, hq =>
    ⟨⟨hx.1, hC φ o hq.1⟩, fun r hr => Accepts.restrict_keeps hC (hx.2 r hr) (hq.2 r trivial)⟩

/-- All that the program performs is granted in a state it leaves alone. -/
theorem Accepts.restrict_still {N : Monitor Op Res Unit} {φ : Φ} (ha : ∀ o, N.allowed () o → M.allowed φ o)
    (hn : ∀ o r, N.allowed () o → M.next φ o r = φ) (hr : ∀ o r, M.answers o r → N.answers o r)
    (hC : ∀ o, q o → C φ o) {x : Prog Op Res α} (hx : N.Accepts (fun a _ => R a) () x)
    {R' : α → Prop} (hq : Keeps q R' x) : (M.restrict C).Accepts (fun a φ' => R a ∧ φ' = φ) φ x :=
  Accepts.embed (M := M.restrict C) (N := N.restrict fun _ o => q o) (fun o h => ⟨ha o h.1, hC o h.2⟩)
    (fun o r h => hn o r h.1) hr (hx.restrict_keeps (fun _ _ h => h) hq)

/-- The states a program goes through are the same. -/
theorem Accepts.restrict_post {Q' : α → Φ → Prop} : ∀ {x : Prog Op Res α} {φ : Φ},
    (M.restrict C).Accepts Q' φ x → M.Accepts Q φ x → (M.restrict C).Accepts Q φ x
  | .pure _, _, _, hx => hx
  | .op _ _, _, hC, hx => ⟨hC.1, fun r hr => Accepts.restrict_post (hC.2 r hr) (hx.2 r hr)⟩

end Monitor

namespace Watch

/-- Every process's monitor with a second condition. -/
def restrict (W : Watch P Op Res Tag Φ α) (C : P → Tag → Φ → Op → Prop) : Watch P Op Res Tag Φ α :=
  { W with monitor := fun p t => (W.monitor p t).restrict (C p t) }

variable {S : System P Op Res Tag Act α σ} {W : Watch P Op Res Tag Φ α} {C : P → Tag → Φ → Op → Prop}

theorem Sound.restrict (h : Sound S W) (hC : ∀ p t w w', S.start p t w w' →
    ((W.monitor p t).restrict (C p t)).Accepts (fun _ _ => True) (W.init p t) (S.body p t)) :
    Sound S (W.restrict C) where
  answers := h.answers
  accepts p t w w' hs := (hC p t w w' hs).restrict_post (h.accepts p t w w' hs)

theorem Step.of_restrict [DecidableEq P] {m m' : Watched P Tag Φ σ} {l : Label P Op Res Tag Act α}
    (h : Step S (W.restrict C) m l m') : Step S W m l m' := by
  cases h with
  | op hφ ha hr he => exact .op hφ ha.1 hr he
  | start hp hs => exact .start hp hs
  | finish hφ hpost hf => exact .finish hφ hpost hf
  | kill hφ hk => exact .kill hφ hk
  | world hw => exact .world hw

end Watch

end Interaction
