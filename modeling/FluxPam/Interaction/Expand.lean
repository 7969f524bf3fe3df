/-
# Programs over operations that are themselves programs

A program over coarse operations, each implemented by a program over finer
ones, is a program over the finer ones (`Prog.expand`). Its runs are the runs
of the coarse program in the world as the coarse operations see it (`implements`,
`runs_expand`): the fine events spell the coarse ones (`Spells`). If the first
operation of an implementation tells which coarse operation it implements, the
fine events can be read as coarse ones in one way only (`Spells.unique`).
-/
import FluxPam.Interaction.Safe
import FluxPam.Interaction.Play

namespace Interaction

variable {Op Op' : Type} {Res : Op → Type} {Res' : Op' → Type} {α β ε σ : Type}

namespace Prog

/-- Every coarse operation replaced by the program that implements it. -/
def expand (impl : (o : Op') → Prog Op Res (Res' o)) : Prog Op' Res' α → Prog Op Res α
  | .pure a => .pure a
  | .op o k => impl o >>= fun r => expand impl (k r)

variable (impl : (o : Op') → Prog Op Res (Res' o))

theorem bind_pure' : ∀ x : Prog Op Res α, (x >>= fun a => Pure.pure a) = x
  | .pure _ => rfl
  | .op o k => congrArg (Prog.op o) (funext fun r => bind_pure' (k r))

@[simp] theorem expand_pure (a : α) : expand impl (Pure.pure a) = Pure.pure a := rfl

@[simp] theorem expand_perform (o : Op') : expand impl (perform o) = impl o := bind_pure' (impl o)

@[simp] theorem expand_bind (f : α → Prog Op' Res' β) : ∀ x : Prog Op' Res' α,
    expand impl (x >>= f) = (expand impl x >>= fun a => expand impl (f a))
  | .pure _ => rfl
  | .op o k => by
    have h : ∀ r, expand impl (k r >>= f) = (expand impl (k r) >>= fun a => expand impl (f a)) :=
      fun r => expand_bind f (k r)
    calc expand impl (Prog.op o k >>= f)
        = (impl o >>= fun r => expand impl (k r >>= f)) := rfl
      _ = (impl o >>= fun r => expand impl (k r) >>= fun a => expand impl (f a)) := by
          rw [funext h]
      _ = (impl o >>= fun r => expand impl (k r)) >>= fun a => expand impl (f a) :=
          (bind_assoc' ..).symm

/-! ### Programs that raise -/

/-- The same, for a program that may raise. -/
def expandE (x : ExceptT ε (Prog Op' Res') α) : ExceptT ε (Prog Op Res) α :=
  ExceptT.mk (expand impl x.run)

theorem expandE_bind (x : ExceptT ε (Prog Op' Res') α) (f : α → ExceptT ε (Prog Op' Res') β) :
    expandE impl (x >>= f) = (expandE impl x >>= fun a => expandE impl (f a)) := by
  refine (expand_bind impl (ExceptT.bindCont f) x.run).trans ?_
  refine congrArg (Prog.bind (expand impl x.run)) (funext fun a => ?_)
  cases a <;> rfl

theorem expandE_lift (x : Prog Op' Res' α) :
    expandE impl (ExceptT.lift x : ExceptT ε (Prog Op' Res') α) = ExceptT.lift (expand impl x) :=
  expand_bind impl (fun a => Pure.pure (Except.ok a)) x

theorem expandE_raising {ε' : Type} (f : ε' → ε) (x : Prog Op' Res' (Except ε' α)) :
    expandE impl (raising f x) = raising f (expand impl x) :=
  expand_bind impl (fun r : Except ε' α => Pure.pure (r.mapError f)) x

theorem expandE_attempt (x : ExceptT ε (Prog Op' Res') α) :
    expandE impl (attempt x) = attempt (expandE impl x) :=
  expand_bind impl (fun r => Pure.pure (Except.ok r)) x.run

theorem expandE_pure (a : α) :
    expandE impl (Pure.pure a : ExceptT ε (Prog Op' Res') α) = Pure.pure a := rfl

theorem expandE_throw (e : ε) :
    expandE impl (throw e : ExceptT ε (Prog Op' Res') α) = throw e := rfl

theorem expandE_ite {c : Prop} [Decidable c] (x y : ExceptT ε (Prog Op' Res') α) :
    expandE impl (if c then x else y) = if c then expandE impl x else expandE impl y := by
  split <;> rfl

/-! ### Traces -/

/-- The program may perform the events `t` and return `a`, in some world. -/
def Traces (x : Prog Op Res α) (t : List (Sigma Res)) (a : α) : Prop :=
  Runs (fun (_ : Unit) _ _ _ => True) x () t a ()

theorem Runs.traces {exec : σ → (o : Op) → Res o → σ → Prop} : ∀ {x : Prog Op Res α} {s t a s'},
    Runs exec x s t a s' → Traces x t a
  | .pure _, _, _, _, _, h => ⟨h.1, h.2.1, rfl⟩
  | .op _ _, _, _, _, _, h => by
    obtain ⟨r, s₁, t', -, rfl, h⟩ := h
    exact ⟨r, (), t', trivial, rfl, Runs.traces h⟩

/-- The events may happen in the world, one after the other. -/
def Happens (exec : σ → (o : Op) → Res o → σ → Prop) : σ → List (Sigma Res) → σ → Prop
  | s, [], s' => s' = s
  | s, e :: t, s' => ∃ s₁, exec s e.1 e.2 s₁ ∧ Happens exec s₁ t s'

theorem Happens.still {exec : σ → (o : Op) → Res o → σ → Prop} {s : σ} : ∀ {t : List (Sigma Res)},
    (∀ e ∈ t, exec s e.1 e.2 s) → Happens exec s t s
  | [], _ => rfl
  | _ :: _, h =>
    ⟨s, h _ List.mem_cons_self, Happens.still fun e he => h e (List.mem_cons_of_mem _ he)⟩

/-- In a world in which they may happen, the events are a run. -/
theorem Traces.runs {exec : σ → (o : Op) → Res o → σ → Prop} : ∀ {x : Prog Op Res α} {s s' t a},
    Traces x t a → Happens exec s t s' → Runs exec x s t a s'
  | .pure _, _, _, _, _, h, hs => by
    obtain ⟨rfl, rfl, -⟩ := h
    exact ⟨rfl, rfl, hs⟩
  | .op _ _, _, _, _, _, h, hs => by
    obtain ⟨r, _, t', -, rfl, h⟩ := h
    obtain ⟨s₁, he, hs⟩ := hs
    exact ⟨r, s₁, t', he, rfl, Traces.runs h hs⟩

theorem traces_perform {o : Op} {t : List (Sigma Res)} {r : Res o} :
    Traces (perform o) t r ↔ t = [⟨o, r⟩] := runs_perform.trans (iff_of_eq (true_and _))

theorem traces_pure {a b : α} {t : List (Sigma Res)} : Traces (Pure.pure a : Prog Op Res α) t b ↔ t = [] ∧ b = a :=
  and_congr_right fun _ => and_iff_left rfl

theorem traces_bind {x : Prog Op Res α} {f : α → Prog Op Res β} {t : List (Sigma Res)} {b : β} :
    Traces (x >>= f) t b ↔ ∃ t₁ a t₂, Traces x t₁ a ∧ Traces (f a) t₂ b ∧ t = t₁ ++ t₂ := by
  refine runs_bind.trans ⟨?_, ?_⟩
  · rintro ⟨t₁, a, _, t₂, h₁, h₂, ht⟩
    exact ⟨t₁, a, t₂, h₁, h₂, ht⟩
  · rintro ⟨t₁, a, t₂, h₁, h₂, ht⟩
    exact ⟨t₁, a, (), t₂, h₁, h₂, ht⟩

theorem traces_performBind {o : Op} {f : Res o → Prog Op Res α} {t : List (Sigma Res)} {a : α} :
    Traces (perform o >>= f) t a ↔ ∃ r t', t = ⟨o, r⟩ :: t' ∧ Traces (f r) t' a := by
  refine traces_bind.trans ⟨?_, ?_⟩
  · rintro ⟨t₁, r, t₂, h₁, h₂, rfl⟩
    obtain rfl := traces_perform.mp h₁
    exact ⟨r, t₂, rfl, h₂⟩
  · rintro ⟨r, t', rfl, h⟩
    exact ⟨[⟨o, r⟩], r, t', traces_perform.mpr rfl, h, rfl⟩

/-- A program that can be played along a script. -/
theorem traces_of_script [DecidableEq Op] {x : Prog Op Res α} {n : ℕ} {t : List (Sigma Res)} {a : α}
    (h : x.advance script n t = some (t, .pure a, [])) : Traces x t a :=
  (serves_script.runs trivial h).traces

/-- The events of a program that keeps to some operations. -/
theorem Traces.keeps {q : Op → Prop} {R : α → Prop} : ∀ {x : Prog Op Res α} {t a},
    Monitor.Keeps q R x → Traces x t a → (∀ e ∈ t, q e.1) ∧ R a
  | .pure _, _, _, hx, h => by
    obtain ⟨rfl, rfl, -⟩ := h
    exact ⟨fun e he => absurd he List.not_mem_nil, hx⟩
  | .op _ _, _, _, hx, h => by
    obtain ⟨r, _, t', -, rfl, h⟩ := h
    obtain ⟨hall, hR⟩ := Traces.keeps (hx.2 r trivial) h
    exact ⟨List.forall_mem_cons.mpr ⟨hx.1, hall⟩, hR⟩

/-- Either an operation in `q` raised, after others in `q`, or after operations in
`q` the rest of the run is in `P`. -/
def Prefixed (q : Op → Prop) (P : List (Sigma Res) → Except ε α → Prop) (t : List (Sigma Res))
    (r : Except ε α) : Prop :=
  (∃ e, r = .error e ∧ ∀ e ∈ t, q e.1) ∨ ∃ t₁ t₂, t = t₁ ++ t₂ ∧ (∀ e ∈ t₁, q e.1) ∧ P t₂ r

/-- A step that keeps to `q` leads to the rest. -/
theorem Prefixed.bind {q : Op → Prop} {P : List (Sigma Res) → Except ε β → Prop}
    {exec : σ → (o : Op) → Res o → σ → Prop} {s s' : σ} {t : List (Sigma Res)}
    {x : ExceptT ε (Prog Op Res) α} {f : α → ExceptT ε (Prog Op Res) β} {r : Except ε β}
    (hx : Monitor.Keeps q (fun _ => True) x.run)
    (hf : ∀ a s t, Runs exec (f a).run s t r s' → Prefixed q P t r)
    (h : Runs exec (x >>= f).run s t r s') : Prefixed q P t r := by
  have hq : ∀ {t s' a}, Runs exec x.run s t a s' → ∀ e ∈ t, q e.1 := fun h =>
    (h.traces.keeps hx).1
  rcases runs_exceptBind.mp h with ⟨t₁, a, s₁, t₂, hrun, hrest, rfl⟩ | ⟨e, hrun, rfl⟩
  · rcases hf a s₁ t₂ hrest with ⟨e, rfl, hall⟩ | ⟨t₃, t₄, rfl, hall, hP⟩
    · exact .inl ⟨e, rfl, List.forall_mem_append.mpr ⟨hq hrun, hall⟩⟩
    · exact .inr ⟨t₁ ++ t₃, t₄, (List.append_assoc ..).symm,
        List.forall_mem_append.mpr ⟨hq hrun, hall⟩, hP⟩
  · exact .inl ⟨e, rfl, hq hrun⟩

/-- A program's events tell where it returns and what. -/
theorem Traces.unique : ∀ {x : Prog Op Res α} {t t' u u' : List (Sigma Res)} {a a' : α},
    Traces x t a → Traces x t' a' → t ++ u = t' ++ u' → t = t' ∧ u = u' ∧ a = a'
  | .pure _, _, _, _, _, _, _, h, h', hu => by
    obtain ⟨rfl, rfl, -⟩ := h
    obtain ⟨rfl, rfl, -⟩ := h'
    exact ⟨rfl, hu, rfl⟩
  | .op _ k, _, _, _, _, _, _, h, h', hu => by
    obtain ⟨r, _, t, -, rfl, h⟩ := h
    obtain ⟨r', _, t', -, rfl, h'⟩ := h'
    obtain ⟨he, htail⟩ := List.cons.inj hu
    cases he
    obtain ⟨rfl, rfl, rfl⟩ := Traces.unique (x := k r) h h' htail
    exact ⟨rfl, rfl, rfl⟩

theorem Traces.det {x : Prog Op Res α} {t : List (Sigma Res)} {a a' : α} (h : Traces x t a)
    (h' : Traces x t a') : a = a' :=
  (h.unique h' (rfl : t ++ [] = t ++ [])).2.2

/-! ### Answers that do not matter -/

/-- Wherever the program performs `o`, it goes on in the same way whatever the
answer is. -/
def Ignores (o : Op) : Prog Op Res α → Prop
  | .pure _ => True
  | .op o' k => (o' = o → ∀ r r', k r = k r') ∧ ∀ r, Ignores o (k r)

theorem Ignores.bind {o : Op} {f : α → Prog Op Res β} : ∀ {x : Prog Op Res α}, Ignores o x →
    (∀ a, Ignores o (f a)) → Ignores o (x >>= f)
  | .pure a, _, hf => hf a
  | .op _ k, hx, hf => ⟨fun ho r r' => congrArg (Prog.bind · f) (hx.1 ho r r'), fun r =>
      Ignores.bind (x := k r) (hx.2 r) hf⟩

theorem Ignores.exceptBind {o : Op} {x : ExceptT ε (Prog Op Res) α}
    {f : α → ExceptT ε (Prog Op Res) β} (hx : Ignores o x.run) (hf : ∀ a, Ignores o (f a).run) :
    Ignores o (x >>= f).run := by
  refine Ignores.bind (f := ExceptT.bindCont f) hx fun a => ?_
  cases a with
  | ok a => exact hf a
  | error e => exact trivial

theorem Ignores.attemptBind {o : Op} {x : ExceptT ε (Prog Op Res) α}
    {f : Except ε α → ExceptT ε (Prog Op Res) β} (hx : Ignores o x.run)
    (hf : ∀ a, Ignores o (f a).run) : Ignores o (attempt x >>= f).run := by
  have hrun : (attempt x >>= f).run = (x.run >>= fun a => (f a).run) :=
    bind_assoc' (fun a => Pure.pure (Except.ok a)) (ExceptT.bindCont f) x.run
  rw [hrun]
  exact hx.bind hf

/-- A program that does not perform `o` ignores its answer. -/
theorem Ignores.of_keeps {o : Op} {R : α → Prop} : ∀ {x : Prog Op Res α},
    Monitor.Keeps (· ≠ o) R x → Ignores o x
  | .pure _, _ => trivial
  | .op _ _, h => ⟨fun ho => absurd ho h.1, fun r => Ignores.of_keeps (h.2 r trivial)⟩

/-- Another answer to an ignored operation changes neither what follows nor what
is returned. -/
theorem Traces.replace {o : Op} {r : Res o} (r' : Res o) : ∀ {x : Prog Op Res α} {t₁ t₂ a},
    Ignores o x → Traces x (t₁ ++ ⟨o, r⟩ :: t₂) a → Traces x (t₁ ++ ⟨o, r'⟩ :: t₂) a
  | .pure _, t₁, t₂, _, _, h => by
    obtain ⟨ht, -⟩ := h
    exact absurd ht (by simp)
  | .op o' k, [], t₂, a, hx, h => by
    obtain ⟨r₀, s, t, -, ht, hrest⟩ := h
    obtain ⟨he, htail⟩ := List.cons.inj ht
    subst htail
    cases he
    have hk : k r = k r' := hx.1 rfl r r'
    rw [hk] at hrest
    exact ⟨r', s, t₂, trivial, rfl, hrest⟩
  | .op o' k, e :: t₁, t₂, a, hx, h => by
    obtain ⟨r₀, s, t, -, ht, hrest⟩ := h
    obtain ⟨he, htail⟩ := List.cons.inj ht
    subst he htail
    exact ⟨r₀, s, t₁ ++ ⟨o, r'⟩ :: t₂, trivial, rfl, Traces.replace r' (hx.2 r₀) hrest⟩

end Prog

open Prog

/-- The fine events `t` are those of the implementations of the coarse events
`c`, one after the other. -/
inductive Spells (impl : (o : Op') → Prog Op Res (Res' o)) :
    List (Sigma Res) → List (Sigma Res') → Prop where
  | nil : Spells impl [] []
  | cons {o r t t' c} : Traces (impl o) t r → Spells impl t' c → Spells impl (t ++ t') (⟨o, r⟩ :: c)

/-- The world, as one that answers the coarse operations. -/
def implements (impl : (o : Op') → Prog Op Res (Res' o))
    (exec : σ → (o : Op) → Res o → σ → Prop) (s : σ) (o : Op') (r : Res' o) (s' : σ) : Prop :=
  ∃ t, Runs exec (impl o) s t r s'

variable {impl : (o : Op') → Prog Op Res (Res' o)} {exec : σ → (o : Op) → Res o → σ → Prop}

theorem Spells.split {t : List (Sigma Res)} : ∀ {c c' : List (Sigma Res')}, Spells impl t (c ++ c') →
    ∃ t₁ t₂, t = t₁ ++ t₂ ∧ Spells impl t₁ c ∧ Spells impl t₂ c'
  | [], _, h => ⟨[], t, rfl, .nil, h⟩
  | _ :: _, _, .cons ht h => by
    obtain ⟨t₁, t₂, rfl, h₁, h₂⟩ := h.split
    exact ⟨_, t₂, (List.append_assoc ..).symm, .cons ht h₁, h₂⟩

theorem Spells.uncons {t : List (Sigma Res)} {c : List (Sigma Res')} {o : Op'} {r : Res' o}
    (h : Spells impl t (⟨o, r⟩ :: c)) :
    ∃ t₁ t₂, t = t₁ ++ t₂ ∧ Traces (impl o) t₁ r ∧ Spells impl t₂ c := by
  cases h with
  | cons ht h => exact ⟨_, _, rfl, ht, h⟩

/-- What a coarse program may do, spelled out, the expanded one may. -/
theorem Prog.Traces.expand : ∀ {x : Prog Op' Res' α} {t : List (Sigma Res)} {c a}, Traces x c a →
    Spells impl t c → Traces (Prog.expand impl x) t a
  | .pure _, _, _, _, hx, ht => by
    obtain ⟨rfl, rfl, -⟩ := hx
    cases ht
    exact ⟨rfl, rfl, rfl⟩
  | .op _ _, _, _, _, hx, ht => by
    obtain ⟨r, _, c, -, rfl, hx⟩ := hx
    obtain ⟨t₁, t₂, rfl, hr, ht₂⟩ := ht.uncons
    exact runs_bind.mpr ⟨t₁, r, (), t₂, hr, Traces.expand hx ht₂, rfl⟩

/-- **Runs of an expanded program** are runs of the coarse program, spelled out. -/
theorem Prog.runs_expand : ∀ {x : Prog Op' Res' α} {s s' : σ} {t : List (Sigma Res)} {a : α},
    Runs exec (expand impl x) s t a s' →
      ∃ c, Runs (implements impl exec) x s c a s' ∧ Spells impl t c
  | .pure _, _, _, _, _, h => by
    obtain ⟨rfl, rfl, rfl⟩ := h
    exact ⟨[], ⟨rfl, rfl, rfl⟩, .nil⟩
  | .op o k, _, _, _, _, h => by
    obtain ⟨t₁, r, s₁, t₂, hr, hk, rfl⟩ := runs_bind.mp h
    obtain ⟨c, hc, hs⟩ := runs_expand hk
    exact ⟨⟨o, r⟩ :: c, ⟨r, s₁, c, ⟨t₁, hr⟩, rfl, hc⟩, .cons hr.traces hs⟩

/-- Every run of the coarse program can be spelled out. -/
theorem Prog.Runs.expand : ∀ {x : Prog Op' Res' α} {s s' : σ} {c : List (Sigma Res')} {a : α},
    Runs (implements impl exec) x s c a s' →
      ∃ t, Runs exec (Prog.expand impl x) s t a s' ∧ Spells impl t c
  | .pure _, _, _, _, _, h => by
    obtain ⟨rfl, rfl, rfl⟩ := h
    exact ⟨[], ⟨rfl, rfl, rfl⟩, .nil⟩
  | .op _ _, _, _, _, _, h => by
    obtain ⟨r, s₁, c, ⟨t₁, hr⟩, rfl, hk⟩ := h
    obtain ⟨t₂, ht, hs⟩ := Runs.expand hk
    exact ⟨t₁ ++ t₂, runs_bind.mpr ⟨t₁, r, s₁, t₂, hr, ht, rfl⟩, .cons hr.traces hs⟩

/-- An expanded program is safe if the coarse one is and the implementations
are. -/
theorem Prog.Safe.expand {bad : Op → Prop} {bad' : Op' → Prop} {Q : α → σ → Prop}
    (himpl : ∀ s o, ¬ bad' o → Safe exec bad (fun _ _ => True) s (impl o)) :
    ∀ {x : Prog Op' Res' α} {s}, Safe (implements impl exec) bad' Q s x →
      Safe exec bad Q s (expand impl x)
  | .pure _, _, h => h
  | .op o _, s, h =>
    safe_bind.mpr ((himpl s o h.1).runs.mono fun r s₁ hr => Safe.expand himpl (h.2 r s₁ hr))

/-- What every implementation keeps to, the expanded program keeps to. -/
theorem Prog.keeps_expand {q : Op → Prop} (himpl : ∀ o, Monitor.Keeps q (fun _ => True) (impl o)) :
    ∀ x : Prog Op' Res' α, Monitor.Keeps q (fun _ => True) (expand impl x)
  | .pure _ => trivial
  | .op o k => (himpl o).bind fun r _ _ => Prog.keeps_expand himpl (k r)

/-- A reading of fine events as coarse ones is the only one. -/
theorem Spells.unique {first : Op' → Op} (hfirst : ∀ o, (impl o).head? = some (first o))
    (hinj : first.Injective) {t : List (Sigma Res)} {c c' : List (Sigma Res')} (h : Spells impl t c)
    (h' : Spells impl t c') : c = c' := by
  have hstart : ∀ {o t r}, Traces (impl o) t r → ∃ e u, t = e :: u ∧ e.1 = first o := by
    intro o t r ht
    have hh := hfirst o
    cases hx : impl o with
    | pure a => rw [hx] at hh; cases hh
    | op o₁ k =>
      rw [hx] at ht hh
      obtain ⟨r₁, _, u, -, rfl, -⟩ := ht
      exact ⟨_, _, rfl, Option.some.inj hh⟩
  induction h generalizing c' with
  | nil =>
    generalize hu : ([] : List (Sigma Res)) = u at h'
    cases h' with
    | nil => rfl
    | cons ht _ =>
      obtain ⟨e, u, rfl, -⟩ := hstart ht
      cases hu
  | @cons o r t t' c ht _ ih =>
    generalize hu : t ++ t' = u at h'
    cases h' with
    | nil =>
      obtain ⟨e, u, rfl, -⟩ := hstart ht
      cases hu
    | @cons o' r' v v' c' hv hc =>
      have ho : o = o' := by
        obtain ⟨e, u, rfl, he⟩ := hstart ht
        obtain ⟨e', u', rfl, he'⟩ := hstart hv
        have : e = e' := (List.cons.inj hu).1
        exact hinj (by rw [← he, ← he', this])
      subst ho
      obtain ⟨rfl, rfl, rfl⟩ := ht.unique hv hu
      rw [ih hc]

end Interaction
