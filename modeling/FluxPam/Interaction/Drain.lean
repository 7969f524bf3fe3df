/-
# Systems that come to rest

`Inevitable able step A` says that every run reaches `A`, whichever steps are
taken: `A` holds, or an able step is possible and `A` is inevitable after every
step. Only able steps show that a run is not stuck: a step that merely fails to
get what it waits for may be taken, but is not able. A program is a well-founded
tree, so processes that only perform operations and return have less and less to
do (`cutExpand_load`). What is left to show of a system is that some process can
always make an able step, and then all return in the end (`inevitable_atRest`).
-/
import FluxPam.Interaction.System
import Mathlib.Logic.Hydra

namespace Interaction

variable {P Op Tag Act σ α C : Type} {Res : Op → Type}

/-- Every run reaches `A`: it holds now, or an able step is possible and `A` is
inevitable after every step. -/
inductive Inevitable (able step : C → C → Prop) (A : C → Prop) : C → Prop where
  | now {c} : A c → Inevitable able step A c
  | later {c} : (∃ c', able c c') → (∀ c', step c c' → Inevitable able step A c') →
      Inevitable able step A c

theorem Inevitable.mono {able step : C → C → Prop} {A B : C → Prop} (h : ∀ c, A c → B c) {c : C}
    (hc : Inevitable able step A c) : Inevitable able step B c := by
  induction hc with
  | now ha => exact .now (h _ ha)
  | later hs _ ih => exact .later hs ih

/-- A step of a process that is neither started nor killed. -/
def Label.works : Label P Op Res Tag Act α → Prop
  | .op _ _ _ _ | .finish _ _ _ => True
  | _ => False

/-! ### What is left of a program -/

namespace Prog

/-- `y` is what is left of `x` after its first operation is answered. -/
inductive Rest : Prog Op Res α → Prog Op Res α → Prop where
  | mk {o k} (r : Res o) : Rest (k r) (.op o k)

theorem acc_rest : ∀ x : Prog Op Res α, Acc Rest x
  | .pure _ => .intro _ fun _ h => by cases h
  | .op _ k => .intro _ fun _ h => by
    cases h with
    | mk r => exact acc_rest (k r)

theorem wellFounded_rest : WellFounded (Rest : Prog Op Res α → Prog Op Res α → Prop) := ⟨acc_rest⟩

end Prog

namespace System

open Prog

/-- No process is live. -/
def AtRest (c : Config P Op Res Tag α σ) : Prop := ∀ p, c.procs p = none

/-- What a process has still to do. -/
def todo : Option (Tag × Prog Op Res α) → Multiset (Prog Op Res α)
  | some (_, x) => {x}
  | none => 0

/-- What the processes in `F` have still to do. -/
def load (F : Finset P) (procs : P → Option (Tag × Prog Op Res α)) : Multiset (Prog Op Res α) :=
  ∑ p ∈ F, todo (procs p)

variable [DecidableEq P] {S : System P Op Res Tag Act α σ} {c c' : Config P Op Res Tag α σ}
  {l : Label P Op Res Tag Act α} {F : Finset P} {procs : P → Option (Tag × Prog Op Res α)} {p : P}
  {v : Option (Tag × Prog Op Res α)}

/-- What one process has to do, and what the others have. -/
theorem load_update (hF : p ∈ F) :
    load F (Function.update procs p v) = todo v + load (F.erase p) procs := by
  have hothers : ∀ q ∈ F.erase p, todo (Function.update procs p v q) = todo (procs q) :=
    fun q hq => by rw [Function.update_of_ne (Finset.ne_of_mem_erase hq)]
  rw [load, ← Finset.add_sum_erase F _ hF, Function.update_self, Finset.sum_congr rfl hothers, load]

/-- **Work gets done.** A step of a live process leaves less to do. -/
theorem cutExpand_load (hF : ∀ p, c.procs p ≠ none → p ∈ F) (hs : S.Step c l c') (hl : l.works) :
    Relation.CutExpand Rest (load F c'.procs) (load F c.procs) := by
  have hload : ∀ {procs : P → Option (Tag × Prog Op Res α)} {p t x}, procs p = some (t, x) → p ∈ F →
      load F procs = {x} + load (F.erase p) procs := by
    intro procs p t x hp hmem
    rw [← Function.update_eq_self p procs, load_update hmem, Function.update_eq_self, hp]
    rfl
  cases hs with
  | @op w w' procs p t o k r hp he =>
    have hmem : p ∈ F := hF p fun h => by cases hp.symm.trans h
    rw [hload hp hmem, load_update hmem]
    exact Relation.cutExpand_single_add (.mk r) _
  | @finish w w' procs p t a hp he =>
    have hmem : p ∈ F := hF p fun h => by cases hp.symm.trans h
    rw [hload hp hmem, load_update hmem]
    exact (Relation.cutExpand_add_right _).mpr Relation.cutExpand_zero
  | start | kill | world => exact hl.elim

/-! ### Live processes -/

theorem live_of_update {q : P} (hq : Function.update procs p v q ≠ none) (hp : procs p ≠ none) :
    procs q ≠ none := by
  by_cases h : q = p
  · exact h ▸ hp
  · rwa [Function.update_of_ne h] at hq

/-- Working starts no process. -/
theorem live_of_works (hs : S.Step c l c') (hl : l.works) (hp : c'.procs p ≠ none) :
    c.procs p ≠ none := by
  cases hs with
  | op hq | finish hq => exact live_of_update hp fun h => by cases hq.symm.trans h
  | start | kill | world => exact hl.elim

theorem finite_update (h : {q | procs q ≠ none}.Finite) :
    {q | Function.update procs p v q ≠ none}.Finite := by
  refine (h.insert p).subset fun q hq => ?_
  by_cases hqp : q = p
  · exact .inl hqp
  · exact .inr (by rwa [Set.mem_ofPred_eq, Function.update_of_ne hqp] at hq)

/-- Only finitely many processes are live at any time. -/
theorem finite_live {ls : List (Label P Op Res Tag Act α)} (h : S.Run c ls c')
    (hc : {p | c.procs p ≠ none}.Finite) : {p | c'.procs p ≠ none}.Finite := by
  refine h.invariant (I := fun c => {p | c.procs p ≠ none}.Finite) (fun c l c' hfin hs => ?_) hc
  cases hs with
  | world => exact hfin
  | _ => exact finite_update hfin

/-! ### Coming to rest -/

/-- A step of a live process to a state in which `G` holds. -/
def Works (S : System P Op Res Tag Act α σ) (G : Config P Op Res Tag α σ → Prop)
    (c c' : Config P Op Res Tag α σ) : Prop := G c' ∧ ∃ l, S.Step c l c' ∧ l.works

/-- Such a step that fails at nothing it waits for. -/
def Advances (S : System P Op Res Tag Act α σ) (fails : Label P Op Res Tag Act α → Prop)
    (G : Config P Op Res Tag α σ → Prop) (c c' : Config P Op Res Tag α σ) : Prop :=
  G c' ∧ ∃ l, S.Step c l c' ∧ l.works ∧ ¬ fails l

/-- **Coming to rest.** Where some process can always advance unless none is
live or `B` holds, one or the other is inevitable, also if steps fail. -/
theorem inevitable_atRest {fails : Label P Op Res Tag Act α → Prop}
    {G I B : Config P Op Res Tag α σ → Prop} (hkeep : ∀ c c', I c → S.Works G c c' → I c')
    (hmove : ∀ c, I c → ¬ AtRest c → ¬ B c → ∃ c', S.Advances fails G c c')
    (hfin : {p | c.procs p ≠ none}.Finite) (hc : I c) :
    Inevitable (S.Advances fails G) (S.Works G) (fun c => I c ∧ (AtRest c ∨ B c)) c := by
  have key : ∀ (m : Multiset (Prog Op Res α)) (c : Config P Op Res Tag α σ), I c →
      (∀ p, c.procs p ≠ none → p ∈ hfin.toFinset) → load hfin.toFinset c.procs = m →
        Inevitable (S.Advances fails G) (S.Works G) (fun c => I c ∧ (AtRest c ∨ B c)) c := by
    intro m
    induction m using wellFounded_rest.cutExpand.induction with
    | _ m ih =>
      rintro c hc hF rfl
      by_cases hA : AtRest c ∨ B c
      · exact .now ⟨hc, hA⟩
      rw [not_or] at hA
      refine .later (hmove c hc hA.1 hA.2) fun c' hw => ?_
      obtain ⟨l, hs, hl⟩ := hw.2
      exact ih _ (cutExpand_load hF hs hl) c' (hkeep c c' hc hw)
        (fun p hp => hF p (live_of_works hs hl hp)) rfl
  exact key _ c hc (fun p hp => by simpa using hp) rfl

end System

end Interaction
