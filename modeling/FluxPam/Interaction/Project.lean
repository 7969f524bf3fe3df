/-
# What a run shows of one process

The events of one process in a run of a system are what its program performs:
between its start and its return, whatever the others do in between, they are a
trace of its program, and its result is the program's (`Run.traces`). So what is
known of a program's traces is known of its process in every run.
-/
import FluxPam.Interaction.System
import FluxPam.Interaction.Expand

namespace Interaction

variable {P Op Tag Act σ α : Type} {Res : Op → Type}

namespace Prog

/-- Performing the events, the program comes to what is left of it. -/
inductive Leads : Prog Op Res α → List (Sigma Res) → Prog Op Res α → Prop where
  | nil {x} : Leads x [] x
  | op {o k t y} (r : Res o) : Leads (k r) t y → Leads (.op o k) (⟨o, r⟩ :: t) y

theorem Leads.snoc {x y : Prog Op Res α} {t : List (Sigma Res)} {o : Op} {k : Res o → Prog Op Res α}
    (h : Leads x t y) (hy : y = .op o k) (r : Res o) : Leads x (t ++ [⟨o, r⟩]) (k r) := by
  induction h with
  | nil => exact hy ▸ .op r .nil
  | op r' _ ih => exact .op r' (ih hy)

theorem Leads.traces {x y : Prog Op Res α} {t : List (Sigma Res)} {a : α} (h : Leads x t y)
    (hy : y = .pure a) : Traces x t a := by
  induction h with
  | nil => exact hy ▸ ⟨rfl, rfl, rfl⟩
  | op r _ ih => exact ⟨r, (), _, trivial, rfl, ih hy⟩

/-- So far the program has performed only what a monitor allows in the state it was
in, and what is left of it is accepted in the state it has come to. -/
theorem Leads.accepts {Φ : Type} {M : Monitor Op Res Φ} {Q : α → Φ → Prop} {x y : Prog Op Res α}
    {t : List (Sigma Res)} (h : Leads x t y) : ∀ {φ}, M.Accepts Q φ x → (∀ e ∈ t, M.answers e.1 e.2) →
      (∀ before e rest, t = before ++ e :: rest → M.allowed (M.after φ before) e.1) ∧
        M.Accepts Q (M.after φ t) y := by
  induction h with
  | nil =>
    intro φ hx _
    exact ⟨fun before e rest ht => absurd ht.symm (by simp), hx⟩
  | op r _ ih =>
    intro φ hx ht
    obtain ⟨hbefore, hy⟩ := ih (hx.2 r (ht _ List.mem_cons_self)) fun e he => ht e (List.mem_cons_of_mem _ he)
    refine ⟨fun before e rest heq => ?_, hy⟩
    cases before with
    | nil =>
      cases heq
      exact hx.1
    | cons e' before =>
      cases heq
      exact hbefore before e rest rfl

end Prog

/-- The label is the start, the return or the killing of the process. -/
def Label.bounds (p : P) : Label P Op Res Tag Act α → Prop
  | .start q _ | .finish q _ _ | .kill q _ => q = p
  | _ => False

namespace System

open Prog

variable [DecidableEq P]

/-- The events of one process. -/
def eventsOf (p : P) : List (Label P Op Res Tag Act α) → List (Sigma Res)
  | [] => []
  | .op q _ o r :: ls => if q = p then ⟨o, r⟩ :: eventsOf p ls else eventsOf p ls
  | _ :: ls => eventsOf p ls

variable {S : System P Op Res Tag Act α σ} {c c₁ c₂ c' : Config P Op Res Tag α σ}
  {ls ls' : List (Label P Op Res Tag Act α)} {p : P} {t : Tag} {x y : Prog Op Res α}

theorem eventsOf_append : eventsOf p (ls ++ ls') = eventsOf p ls ++ eventsOf p ls' := by
  induction ls with
  | nil => rfl
  | cons l ls ih =>
    cases l with
    | op q t o r =>
      simp only [List.cons_append, eventsOf, ih]
      split
      · rfl
      · rfl
    | _ => exact ih

theorem mem_eventsOf {e : Sigma Res} (h : e ∈ eventsOf p ls) : ∃ t, .op p t e.1 e.2 ∈ ls := by
  induction ls with
  | nil => exact absurd h List.not_mem_nil
  | cons l ls ih =>
    have hrest : e ∈ eventsOf p ls → ∃ t, .op p t e.1 e.2 ∈ l :: ls := fun h =>
      (ih h).imp fun _ => List.mem_cons_of_mem _
    cases l with
    | op q t o r =>
      rw [eventsOf] at h
      split at h
      · subst q
        rcases List.mem_cons.mp h with rfl | h
        · exact ⟨t, List.mem_cons_self⟩
        · exact hrest h
      · exact hrest h
    | _ => exact hrest h

theorem event_mem {o : Op} {r : Res o} (h : .op p t o r ∈ ls) : ⟨o, r⟩ ∈ eventsOf p ls := by
  obtain ⟨ls₁, ls₂, rfl⟩ := List.append_of_mem h
  rw [eventsOf_append, eventsOf, if_pos rfl]
  exact List.mem_append_right _ List.mem_cons_self

/-- A process that is neither started nor gone has performed its events. -/
theorem Run.leads (h : S.Run c ls c') (hx : c.procs p = some (t, x)) (hls : ∀ l ∈ ls, ¬ l.bounds p) :
    ∃ y, c'.procs p = some (t, y) ∧ Leads x (eventsOf p ls) y := by
  induction h with
  | nil => exact ⟨x, hx, .nil⟩
  | @snoc c₁ c₂ ls l _ hs ih =>
    obtain ⟨y, hy, hlead⟩ := ih fun l hl => hls l (List.mem_append_left _ hl)
    have hl : ¬ l.bounds p := hls l (List.mem_append_right _ List.mem_cons_self)
    rw [eventsOf_append]
    cases hs with
    | @op w w' procs q t' o k r hq he =>
      by_cases hqp : q = p
      · subst hqp
        cases hq.symm.trans hy
        refine ⟨k r, Function.update_self .., ?_⟩
        rw [eventsOf, if_pos rfl]
        exact hlead.snoc rfl r
      · refine ⟨y, (Function.update_of_ne (Ne.symm hqp) ..).trans hy, ?_⟩
        rw [eventsOf, if_neg hqp]
        exact (List.append_nil (eventsOf p ls)).symm ▸ hlead
    | start | finish | kill =>
      refine ⟨y, (Function.update_of_ne (fun hp => hl hp.symm) ..).trans hy, ?_⟩
      exact (List.append_nil (eventsOf p ls)).symm ▸ hlead
    | world => exact ⟨y, hy, (List.append_nil (eventsOf p ls)).symm ▸ hlead⟩

/-- **A process's own trace.** Between its start and its return a process performs
a trace of its program, and returns its result. -/
theorem Run.traces {a : α} (hstart : S.Step c (.start p t) c₁) (h : S.Run c₁ ls c₂)
    (hls : ∀ l ∈ ls, ¬ l.bounds p) (hfin : S.Step c₂ (.finish p t a) c') :
    Traces (S.body p t) (eventsOf p ls) a := by
  cases hstart with
  | start hnone hw =>
    obtain ⟨y, hy, hlead⟩ := Run.leads h (Function.update_self ..) hls
    cases hfin with
    | finish hp he =>
      cases hp.symm.trans hy
      exact hlead.traces rfl

/-- What the world answers in every step holds of the process's events. -/
theorem Run.answered {R : (o : Op) → Res o → Prop} (h : S.Run c ls c')
    (hR : ∀ w o r w', S.exec p w o r w' → R o r) : ∀ e ∈ eventsOf p ls, R e.1 e.2 := by
  induction h with
  | nil => exact fun e he => absurd he List.not_mem_nil
  | @snoc c₁ c₂ ls l _ hs ih =>
    rw [eventsOf_append]
    refine List.forall_mem_append.mpr ⟨ih, ?_⟩
    cases hs with
    | @op w w' procs q t' o k r hq he =>
      rw [eventsOf]
      split
      · subst q
        exact List.forall_mem_cons.mpr ⟨hR _ _ _ _ he, fun e he => absurd he List.not_mem_nil⟩
      · exact fun e he => absurd he List.not_mem_nil
    | _ => exact fun e he => absurd he List.not_mem_nil

end System

end Interaction
