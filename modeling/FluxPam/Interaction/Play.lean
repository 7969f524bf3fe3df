/-
# Worlds that answer

A server answers an operation in a state, or gives no answer. If its answers
are ones the world may give (`Serves`), the operations it lets a program
perform are a run of the program (`Serves.runs`), and of a process of a system
(`Serves.advance`). So a run is found by computing it.
-/
import FluxPam.Interaction.System

namespace Interaction

variable {P Op Tag Act σ α : Type} {Res : Op → Type}

/-- Perform up to `n` operations: what happened, what is left of the program and
the state. -/
def Prog.advance (serve : σ → (o : Op) → Option (Res o × σ)) :
    ℕ → Prog Op Res α → σ → Option (List (Sigma Res) × Prog Op Res α × σ)
  | 0, x, s => some ([], x, s)
  | _ + 1, .pure a, s => some ([], .pure a, s)
  | n + 1, .op o k, s =>
    match serve s o with
    | none => none
    | some (r, s') => (advance serve n (k r) s').map fun x => (⟨o, r⟩ :: x.1, x.2)

/-- The operation a program performs next. -/
def Prog.head? : Prog Op Res α → Option Op
  | .pure _ => none
  | .op o _ => some o

/-- The result of a program that performs nothing more. -/
def Prog.result? : Prog Op Res α → Option α
  | .pure a => some a
  | .op _ _ => none

/-- The answers of a server are answers of the world as long as `I` holds, which
they keep. -/
structure Serves (serve : σ → (o : Op) → Option (Res o × σ))
    (exec : σ → (o : Op) → Res o → σ → Prop) (I : σ → Prop) : Prop where
  sound : ∀ s o r s', I s → serve s o = some (r, s') → exec s o r s'
  keeps : ∀ s o r s', I s → serve s o = some (r, s') → I s'

variable {serve : σ → (o : Op) → Option (Res o × σ)} {exec : σ → (o : Op) → Res o → σ → Prop}
  {I : σ → Prop}

theorem Prog.advance_op {o : Op} {k : Res o → Prog Op Res α} {y : Prog Op Res α} {n : ℕ} {s s' : σ}
    {t : List (Sigma Res)} (h : (Prog.op o k).advance serve (n + 1) s = some (t, y, s')) :
    ∃ r s₁ t', serve s o = some (r, s₁) ∧ (k r).advance serve n s₁ = some (t', y, s') ∧
      t = ⟨o, r⟩ :: t' := by
  rw [Prog.advance] at h
  split at h
  · cases h
  · rename_i r s₁ hserve
    obtain ⟨⟨t', y', s₂⟩, hadv, heq⟩ := Option.map_eq_some_iff.mp h
    cases heq
    exact ⟨r, s₁, t', hserve, hadv, rfl⟩

theorem Serves.keeps_advance (h : Serves serve exec I) : ∀ {n} {x y : Prog Op Res α} {s s' : σ} {t},
    I s → x.advance serve n s = some (t, y, s') → I s'
  | 0, _, _, _, _, _, hs, hadv => by
    cases hadv
    exact hs
  | _ + 1, .pure _, _, _, _, _, hs, hadv => by
    cases hadv
    exact hs
  | _ + 1, .op _ _, _, _, _, _, hs, hadv => by
    obtain ⟨r, s₁, t', hserve, hrest, rfl⟩ := Prog.advance_op hadv
    exact h.keeps_advance (h.keeps _ _ r s₁ hs hserve) hrest

theorem Serves.runs (h : Serves serve exec I) : ∀ {n} {x : Prog Op Res α} {a : α} {s s' : σ} {t},
    I s → x.advance serve n s = some (t, .pure a, s') → Prog.Runs exec x s t a s'
  | 0, _, _, _, _, _, _, hadv => by
    cases hadv
    exact ⟨rfl, rfl, rfl⟩
  | _ + 1, .pure _, _, _, _, _, _, hadv => by
    cases hadv
    exact ⟨rfl, rfl, rfl⟩
  | _ + 1, .op _ _, _, _, _, _, hs, hadv => by
    obtain ⟨r, s₁, t', hserve, hrest, rfl⟩ := Prog.advance_op hadv
    exact ⟨r, s₁, t', h.sound _ _ r s₁ hs hserve, rfl, h.runs (h.keeps _ _ r s₁ hs hserve) hrest⟩

/-- A process advances. -/
theorem Serves.advance [DecidableEq P] {S : System P Op Res Tag Act α σ} {p : P} {tag : Tag}
    (h : Serves serve (S.exec p) I) : ∀ {n} {x y : Prog Op Res α} {s s' : σ} {t procs},
      I s → procs p = some (tag, x) → x.advance serve n s = some (t, y, s') →
        S.Run ⟨s, procs⟩ (t.map fun e => .op p tag e.1 e.2)
          ⟨s', Function.update procs p (some (tag, y))⟩
  | 0, _, _, _, _, _, _, _, hp, hadv => by
    cases hadv
    rw [← hp, Function.update_eq_self]
    exact .nil
  | _ + 1, .pure _, _, _, _, _, _, _, hp, hadv => by
    cases hadv
    rw [← hp, Function.update_eq_self]
    exact .nil
  | n + 1, .op o k, y, s, s', t, procs, hs, hp, hadv => by
    obtain ⟨r, s₁, t', hserve, hrest, rfl⟩ := Prog.advance_op hadv
    have ih : S.Run ⟨s₁, Function.update procs p (some (tag, k r))⟩ _ _ :=
      h.advance (h.keeps s o r s₁ hs hserve) (Function.update_self ..) hrest
    rw [Function.update_idem] at ih
    exact .cons (.op hp (h.sound s o r s₁ hs hserve)) ih

/-! ### Scripts -/

/-- The world that answers as told: its state is the list of what is still to
happen. -/
def scripted (s : List (Sigma Res)) (o : Op) (r : Res o) (s' : List (Sigma Res)) : Prop :=
  s = ⟨o, r⟩ :: s'

def script [DecidableEq Op] : List (Sigma Res) → (o : Op) → Option (Res o × List (Sigma Res))
  | [], _ => none
  | ⟨o', r⟩ :: s, o => if h : o' = o then some (h ▸ r, s) else none

theorem serves_script [DecidableEq Op] :
    Serves (script : List (Sigma Res) → (o : Op) → Option (Res o × List (Sigma Res))) scripted
      fun _ => True where
  sound s o r s' _ h := by
    cases s with
    | nil => cases h
    | cons e s =>
      obtain ⟨o', r'⟩ := e
      by_cases ho : o' = o
      · subst ho
        rw [script, dif_pos rfl] at h
        cases h
        rfl
      · rw [script, dif_neg ho] at h
        cases h
  keeps _ _ _ _ _ _ := trivial

end Interaction
