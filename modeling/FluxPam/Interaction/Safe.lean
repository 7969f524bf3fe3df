/-
# Runs of programs that raise, and what a program never does

The complete runs of a program that may raise, for each way such programs are
put together (`runs_exceptBind`, `runs_attemptBind`), whatever the outcome.

`Safe` looks at the runs that are not complete too: from a state the program
never performs a bad operation, whatever the world answers, and if it returns it
returns in the postcondition. With a bad operation where a loop runs out of
fuel, a safe program is one whose loops end.
-/
import FluxPam.Interaction.Monitor

namespace Interaction.Prog

variable {Op : Type} {Res : Op → Type} {α β ε ε' σ : Type}
  {exec : σ → (o : Op) → Res o → σ → Prop} {s s' : σ} {t : List (Sigma Res)}

/-! ### Runs of programs that raise -/

theorem runs_throw {e : ε} {r : Except ε α} :
    Runs exec (throw e : ExceptT ε (Prog Op Res) α).run s t r s' ↔
      t = [] ∧ r = .error e ∧ s' = s := Iff.rfl

/-- A run of a step, then of the rest unless the step raised. -/
theorem runs_exceptBind {x : ExceptT ε (Prog Op Res) α} {f : α → ExceptT ε (Prog Op Res) β}
    {r : Except ε β} : Runs exec (x >>= f).run s t r s' ↔
      (∃ t₁ a s₁ t₂, Runs exec x.run s t₁ (.ok a) s₁ ∧ Runs exec (f a).run s₁ t₂ r s' ∧
        t = t₁ ++ t₂) ∨
      ∃ e, Runs exec x.run s t (.error e) s' ∧ r = .error e := by
  refine (runs_bind (f := ExceptT.bindCont f)).trans ⟨?_, ?_⟩
  · rintro ⟨t₁, a, s₁, t₂, hx, hf, rfl⟩
    cases a with
    | ok a => exact .inl ⟨t₁, a, s₁, t₂, hx, hf, rfl⟩
    | error e =>
      obtain ⟨rfl, rfl, rfl⟩ := hf
      exact .inr ⟨e, by rwa [List.append_nil], rfl⟩
  · rintro (⟨t₁, a, s₁, t₂, hx, hf, rfl⟩ | ⟨e, hx, rfl⟩)
    · exact ⟨t₁, .ok a, s₁, t₂, hx, hf, rfl⟩
    · exact ⟨t, .error e, s', [], hx, ⟨rfl, rfl, rfl⟩, (List.append_nil t).symm⟩

/-- A run of a `try` block, then of what is done with its outcome. -/
theorem runs_attemptBind {x : ExceptT ε (Prog Op Res) α}
    {f : Except ε α → ExceptT ε (Prog Op Res) β} {r : Except ε β} :
    Runs exec (attempt x >>= f).run s t r s' ↔
      ∃ t₁ a s₁ t₂, Runs exec x.run s t₁ a s₁ ∧ Runs exec (f a).run s₁ t₂ r s' ∧ t = t₁ ++ t₂ := by
  have hrun : (attempt x >>= f).run = (x.run >>= fun a => (f a).run) :=
    bind_assoc' (fun a => Pure.pure (Except.ok a)) (ExceptT.bindCont f) x.run
  rw [hrun]
  exact runs_bind

/-- A run of an operation, then of the rest. -/
theorem runs_performBind {o : Op} {f : Res o → ExceptT ε (Prog Op Res) β} {r : Except ε β} :
    Runs exec (ExceptT.lift (perform o) >>= f).run s t r s' ↔
      ∃ a s₁ t', exec s o a s₁ ∧ Runs exec (f a).run s₁ t' r s' ∧ t = ⟨o, a⟩ :: t' := by
  constructor
  · rintro ⟨a, s₁, t', he, rfl, h⟩
    exact ⟨a, s₁, t', he, h, rfl⟩
  · rintro ⟨a, s₁, t', he, h, rfl⟩
    exact ⟨a, s₁, t', he, rfl, h⟩

theorem runs_raised {f : ε' → ε} {x : Prog Op Res (Except ε' α)} {r : Except ε α} :
    Runs exec (raising f x).run s t r s' ↔ ∃ a, Runs exec x s t a s' ∧ r = a.mapError f := by
  refine runs_bind.trans ⟨?_, ?_⟩
  · rintro ⟨t₁, a, s₁, t₂, hx, ⟨rfl, rfl, rfl⟩, rfl⟩
    exact ⟨a, by rwa [List.append_nil], rfl⟩
  · rintro ⟨a, hx, rfl⟩
    exact ⟨t, a, s', [], hx, ⟨rfl, rfl, rfl⟩, (List.append_nil t).symm⟩

/-- A run of a step whose error is raised, then of the rest. -/
theorem runs_raisingBind {f : ε' → ε} {x : Prog Op Res (Except ε' α)}
    {k : α → ExceptT ε (Prog Op Res) β} {r : Except ε β} :
    Runs exec (raising f x >>= k).run s t r s' ↔
      (∃ t₁ a s₁ t₂, Runs exec x s t₁ (.ok a) s₁ ∧ Runs exec (k a).run s₁ t₂ r s' ∧
        t = t₁ ++ t₂) ∨
      ∃ e, Runs exec x s t (.error e) s' ∧ r = .error (f e) := by
  refine runs_exceptBind.trans ⟨?_, ?_⟩
  · rintro (⟨t₁, a, s₁, t₂, hx, hk, rfl⟩ | ⟨e, hx, rfl⟩)
    · obtain ⟨b, hb, he⟩ := runs_raised.mp hx
      cases b with
      | ok b =>
        cases he
        exact .inl ⟨t₁, a, s₁, t₂, hb, hk, rfl⟩
      | error e => cases he
    · obtain ⟨b, hb, he⟩ := runs_raised.mp hx
      cases b with
      | ok b => cases he
      | error e' =>
        cases he
        exact .inr ⟨e', hb, rfl⟩
  · rintro (⟨t₁, a, s₁, t₂, hx, hk, rfl⟩ | ⟨e, hx, rfl⟩)
    · exact .inl ⟨t₁, a, s₁, t₂, runs_raised.mpr ⟨.ok a, hx, rfl⟩, hk, rfl⟩
    · exact .inr ⟨f e, runs_raised.mpr ⟨.error e, hx, rfl⟩, rfl⟩

/-! ### Safe programs -/

/-- From `s` the program performs no bad operation and returns in `Q`. -/
def Safe (exec : σ → (o : Op) → Res o → σ → Prop) (bad : Op → Prop) (Q : α → σ → Prop) :
    σ → Prog Op Res α → Prop
  | s, .pure a => Q a s
  | s, .op o k => ¬ bad o ∧ ∀ r s', exec s o r s' → Safe exec bad Q s' (k r)

variable {bad : Op → Prop} {Q Q' : α → σ → Prop} {B : β → σ → Prop}

theorem Safe.mono (h : ∀ a s, Q a s → Q' a s) : ∀ {x : Prog Op Res α} {s},
    Safe exec bad Q s x → Safe exec bad Q' s x
  | .pure a, s, hx => h a s hx
  | .op _ _, _, hx => ⟨hx.1, fun r s' he => Safe.mono h (hx.2 r s' he)⟩

theorem Safe.and : ∀ {x : Prog Op Res α} {s}, Safe exec bad Q s x → Safe exec bad Q' s x →
    Safe exec bad (fun a s => Q a s ∧ Q' a s) s x
  | .pure _, _, hx, hx' => ⟨hx, hx'⟩
  | .op _ _, _, hx, hx' => ⟨hx.1, fun r s' he => Safe.and (hx.2 r s' he) (hx'.2 r s' he)⟩

/-- The programs that are safe to run before `f` are those that return where `f`
is safe. -/
theorem safe_bind {f : α → Prog Op Res β} : ∀ {x : Prog Op Res α} {s},
    Safe exec bad B s (x >>= f) ↔ Safe exec bad (fun a s => Safe exec bad B s (f a)) s x
  | .pure _, _ => Iff.rfl
  | .op _ k, _ => and_congr_right fun _ => forall_congr' fun r => forall_congr' fun _ =>
      imp_congr_right fun _ => safe_bind (x := k r)

/-- What holds of a returned value and what of an exception. -/
def outcome (A : α → σ → Prop) (E : ε → σ → Prop) : Except ε α → σ → Prop
  | .ok a => A a
  | .error e => E e

theorem safe_exceptBind {x : ExceptT ε (Prog Op Res) α} {f : α → ExceptT ε (Prog Op Res) β}
    {B : Except ε β → σ → Prop} : Safe exec bad B s (x >>= f).run ↔
      Safe exec bad (outcome (fun a s => Safe exec bad B s (f a).run) fun e s => B (.error e) s) s
        x.run := by
  refine (safe_bind (f := ExceptT.bindCont f)).trans (iff_of_eq ?_)
  congr 1
  funext a s
  cases a <;> rfl

theorem safe_iteExcept {c : Prop} [Decidable c] {x y : ExceptT ε (Prog Op Res) α}
    {A : Except ε α → σ → Prop} (hx : c → Safe exec bad A s x.run)
    (hy : ¬ c → Safe exec bad A s y.run) : Safe exec bad A s (if c then x else y).run := by
  split
  · exact hx ‹_›
  · exact hy ‹_›

/-- A safe program's complete runs end in the postcondition. -/
theorem Safe.of_runs : ∀ {x : Prog Op Res α} {s t a s'}, Safe exec bad Q s x →
    Runs exec x s t a s' → Q a s'
  | .pure _, _, _, _, _, hx, ⟨_, ha, hs⟩ => by
    subst ha hs
    exact hx
  | .op _ _, _, _, _, _, hx, ⟨r, s₁, _, he, _, h⟩ => Safe.of_runs (hx.2 r s₁ he) h

/-- A safe program's complete runs perform no bad operation. -/
theorem Safe.notMem : ∀ {x : Prog Op Res α} {s t a s'}, Safe exec bad Q s x → Runs exec x s t a s' →
    ∀ {o : Op} {r : Res o}, bad o → ⟨o, r⟩ ∉ t
  | .pure _, _, _, _, _, _, ⟨ht, _, _⟩, _, _, _ => by simp [ht]
  | .op _ _, _, _, _, _, hx, ⟨_, _, _, he, ht, h⟩, _, _, ho => by
    rw [ht, List.mem_cons, not_or]
    refine ⟨fun heq => ?_, Safe.notMem (hx.2 _ _ he) h ho⟩
    cases heq
    exact hx.1 ho

/-- What is returned may be taken to be what a complete run returns. -/
theorem Safe.runs : ∀ {x : Prog Op Res α} {s}, Safe exec bad (fun _ _ => True) s x →
    Safe exec bad (fun a s' => ∃ t, Runs exec x s t a s') s x
  | .pure _, _, _ => ⟨[], rfl, rfl, rfl⟩
  | .op o k, _, hx => by
    refine ⟨hx.1, fun r s₁ he => (Safe.runs (hx.2 r s₁ he)).mono ?_⟩
    rintro a s' ⟨t, h⟩
    exact ⟨⟨o, r⟩ :: t, r, s₁, t, he, rfl, h⟩

/-- A program that keeps to operations which are not bad and keep `I` is safe. -/
theorem Safe.of_keeps {q : Op → Prop} {R : α → Prop} {I : σ → Prop} (hbad : ∀ o, q o → ¬ bad o)
    (hI : ∀ s o r s', q o → exec s o r s' → I s → I s') : ∀ {x : Prog Op Res α} {s},
      Monitor.Keeps q R x → I s → Safe exec bad (fun a s' => R a ∧ I s') s x
  | .pure _, _, hx, hs => ⟨hx, hs⟩
  | .op o _, s, hx, hs => ⟨hbad o hx.1, fun r s₁ he =>
      Safe.of_keeps hbad hI (hx.2 r trivial) (hI s o r s₁ hx.1 he hs)⟩

end Interaction.Prog
