/-
# Runs of a labelled transition system, and what one part of it cannot see

`Steps step` is the runs of a labelled step relation. Two ways to prove a
property of all of them: an invariant that every step keeps
(`Steps.invariant`), and the unwinding of an equivalence. If the hidden steps keep a state in its
class, and states of one class answer a visible step alike, then a run and the
same run without its hidden steps end in one class (`Steps.unwind`): what the
visible steps did and were answered is what they would have been had the
hidden steps not happened.
-/
import Mathlib.Tactic.Common
import Mathlib.Logic.Relation

namespace Interaction

variable {C L : Type}

/-- The runs of a labelled step relation: the steps taken, in order. -/
inductive Steps (step : C → L → C → Prop) : C → List L → C → Prop where
  | nil {c} : Steps step c [] c
  | snoc {c c₁ c₂ ls l} : Steps step c ls c₁ → step c₁ l c₂ → Steps step c (ls ++ [l]) c₂

namespace Steps

variable {step step' : C → L → C → Prop} {c c' c₁ : C} {ls ls' : List L} {l : L}

theorem single (h : step c l c') : Steps step c [l] c' := (snoc nil h : Steps step c ([] ++ [l]) c')

theorem append (h : Steps step c ls c₁) (h' : Steps step c₁ ls' c') :
    Steps step c (ls ++ ls') c' := by
  induction h' with
  | nil => simpa using h
  | snoc _ hs ih => rw [← List.append_assoc]; exact .snoc ih hs

theorem cons (h : step c l c₁) (h' : Steps step c₁ ls c') : Steps step c (l :: ls) c' :=
  (single h).append h'

theorem mono_on {A : L → Prop} (h : ∀ c l c', A l → step c l c' → step' c l c')
    (hr : Steps step c ls c') (hl : ∀ l ∈ ls, A l) : Steps step' c ls c' := by
  induction hr with
  | nil => exact .nil
  | @snoc _ _ ls l _ hs ih =>
    exact .snoc (ih fun l hm => hl l (List.mem_append_left _ hm)) (h _ _ _ (hl l (by simp)) hs)

/-- What every step with a label in `A` keeps. -/
theorem invariant_on {I : C → Prop} {A : L → Prop} (hI : ∀ c l c', A l → I c → step c l c' → I c')
    (h : Steps step c ls c') (hl : ∀ l ∈ ls, A l) (h0 : I c) : I c' := by
  induction h with
  | nil => exact h0
  | @snoc _ _ ls l _ hs ih =>
    exact hI _ _ _ (hl l (by simp)) (ih fun l hm => hl l (List.mem_append_left _ hm)) hs

theorem invariant {I : C → Prop} (hI : ∀ c l c', I c → step c l c' → I c') (h : Steps step c ls c')
    (h0 : I c) : I c' :=
  h.invariant_on (A := fun _ => True) (fun c l c' _ => hI c l c') (fun _ _ => trivial) h0

/-- Each label of a run is that of one of its steps. -/
theorem split (h : Steps step c (ls ++ l :: ls') c') :
    ∃ d d', Steps step c ls d ∧ step d l d' ∧ Steps step d' ls' c' := by
  generalize hls : ls ++ l :: ls' = ls₀ at h
  induction h generalizing ls' with
  | nil => simp at hls
  | @snoc c₁ c₂ ls₁ l₁ hrun hs ih =>
    rcases List.eq_nil_or_concat ls' with rfl | ⟨ls₂, l₂, rfl⟩
    · obtain ⟨rfl, hl⟩ := List.append_inj' hls rfl
      cases hl
      exact ⟨c₁, c₂, hrun, hs, .nil⟩
    · rw [List.concat_eq_append] at hls ⊢
      have hlast : (ls ++ l :: ls₂) ++ [l₂] = ls₁ ++ [l₁] := by simpa using hls
      obtain ⟨hinit, hl⟩ := List.append_inj' hlast rfl
      cases hl
      obtain ⟨d, d', h₁, hstep, h₂⟩ := ih hinit
      exact ⟨d, d', h₁, hstep, h₂.snoc hs⟩

/-- If no step from `N` leaves `N` or brings `H` about, what is `H` in the end was `H`
already in the beginning. -/
theorem back {H N : C → Prop} {A : L → Prop} (hN : ∀ c l c', A l → N c → step c l c' → N c')
    (hH : ∀ c l c', A l → N c → step c l c' → H c' → H c) (h : Steps step c ls c')
    (hl : ∀ l ∈ ls, A l) (h0 : N c) : H c' → H c := by
  induction h with
  | nil => exact id
  | @snoc c₁ c₂ ls l hrun hs ih =>
    intro h1
    have hls : ∀ l ∈ ls, A l := fun l hm => hl l (List.mem_append_left _ hm)
    exact ih hls (hH _ _ _ (hl l (by simp)) (hrun.invariant_on hN hls h0) hs h1)

/-! ### Unwinding -/

/-- What an observer distinguishes: the steps it sees and an equivalence of
states, such that hidden steps stay in their class and states of one class
answer a visible step alike. -/
structure View (step : C → L → C → Prop) where
  sees : L → Prop
  same : C → C → Prop
  equiv : Equivalence same
  hidden : ∀ c l c', ¬ sees l → step c l c' → same c c'
  visible : ∀ c d l c', sees l → same c d → step c l c' → ∃ d', step d l d' ∧ same c' d'

variable (V : View step)

/-- **Unwinding.** A run from `c`, without its hidden steps, is a run from
every state of `c`'s class, and ends in the class the run ends in. -/
theorem unwind [DecidablePred V.sees] {d : C} (hv : V.same c d) (h : Steps step c ls c') :
    ∃ d', Steps step d (ls.filter (V.sees ·)) d' ∧ V.same c' d' := by
  induction h with
  | nil => exact ⟨d, .nil, hv⟩
  | @snoc c₁ c₂ ls l _ hs ih =>
    obtain ⟨d₁, hd, hv₁⟩ := ih
    by_cases hl : V.sees l
    · obtain ⟨d₂, hs', hv₂⟩ := V.visible _ _ _ _ hl hv₁ hs
      refine ⟨d₂, ?_, hv₂⟩
      simpa [List.filter_append, hl] using hd.snoc hs'
    · refine ⟨d₁, by simpa [List.filter_append, hl] using hd, ?_⟩
      exact V.equiv.trans (V.equiv.symm (V.hidden _ _ _ hl hs)) hv₁

/-- A run of hidden steps only stays in its class. -/
theorem same_of_hidden (hl : ∀ l ∈ ls, ¬ V.sees l) (h : Steps step c ls c') : V.same c c' := by
  induction h with
  | nil => exact V.equiv.refl _
  | @snoc c₁ c₂ ls l _ hs ih =>
    have h₁ := ih fun l hm => hl l (List.mem_append_left _ hm)
    exact V.equiv.trans h₁ (V.hidden _ _ _ (hl l (by simp)) hs)

end Steps

end Interaction
