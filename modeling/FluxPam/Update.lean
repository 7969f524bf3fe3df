/-
# Updates of a slice

What a successful call of `modify_slice` leaves of a slice (`update_slices`),
and a sequence of them (`Updates.slices`). A call assigns the names of its
dictionary and resets the two device properties; `set-property` leaves every
other name alone. So the slice is as after the last call alone exactly when that
call names whatever the calls before it named (`no_residue`); a mapper that
returns fewer names than before leaves the rest in force (`cpus_residue`).
-/
import FluxPam.Server

namespace FluxPam

open Interaction SliceProps

/-- Successful calls of `modify_slice` for the user `u`, each by a helper of its
own, one for each dictionary. In between the node may do anything that leaves
the slice's properties. -/
inductive Updates (K : Setting) (u : ℤ) : World → List Properties → World → Prop where
  | nil {w w'} : w'.slices (sliceName u) = w.slices (sliceName u) → Updates K u w [] w'
  | cons {w w₁ w₂ w' p t P Ps} {self : PAMHelper} : w₁.slices (sliceName u) = w.slices (sliceName u) →
      self.userid = u → Prog.Runs (K.exec p) (self.modifySlice (some P)).run w₁ t (.ok ()) w₂ →
      Updates K u w₂ Ps w' → Updates K u w (P :: Ps) w'

section Calls

variable {K : Setting} {p : Pid} {self : PAMHelper} {P : Properties} {w w' : World} {t : List Event}

/-- A command that returns was performed. -/
theorem runs_runSubprocess {args : List String} {timeout : ℚ} {out : String}
    (h : Prog.Runs (K.exec p) (runSubprocess args timeout).run w t (.ok out) w') :
    K.exec p w (.run args timeout) (.ok out) w' := by
  have hraise : ∀ {msg : String}, ¬ Prog.Runs (K.exec p)
      (throw (.valueError msg) : Py String).run w t (.ok out) w' := fun ⟨_, h, _⟩ => (by cases h)
  cases args with
  | nil => exact absurd h hraise
  | cons arg args =>
    rw [runSubprocess] at h
    by_cases habs : isabs arg = true
    · rw [if_pos habs] at h
      exact (Prog.runs_perform.mp (Prog.runs_raising h)).1
    · rw [if_neg habs] at h
      exact absurd h hraise

/-- A call that returns has made its assignments. -/
theorem update_slices (h : Prog.Runs (K.exec p) (self.modifySlice (some P)).run w t (.ok ()) w') :
    w'.slices (sliceName self.userid) =
      (w.slices (sliceName self.userid)).assignAll (assignments P) := by
  obtain ⟨t₁, out, w₁, t₂, hrun, ⟨-, -, rfl⟩, -⟩ := Prog.runs_bindExcept h
  obtain ⟨-, took, htook, hcmd⟩ := runs_runSubprocess hrun
  rw [World.decode_setProperty, htook out rfl] at hcmd
  obtain rfl : w' = _ := hcmd
  exact Function.update_self ..

theorem Updates.slices {u : ℤ} {Ps : List Properties} (h : Updates K u w Ps w') :
    w'.slices (sliceName u) = (w.slices (sliceName u)).assignAll (history Ps) := by
  induction h with
  | nil h => exact h
  | cons hsame hu hrun _ ih =>
    subst hu
    rw [ih, update_slices hrun, hsame, ← assignAll_append]
    rfl

/-- **What updates leave behind.** After updates of a slice without runtime
properties, nothing is left of those before the last exactly when the last
assigns every name they assigned, the two device properties apart. -/
theorem no_residue {u : ℤ} {Ps : List Properties} {w₀ w₁ : World}
    (hfresh : w₀.slices (sliceName u) = fresh) (hall : Updates K u w₀ (Ps ++ [P]) w)
    (hfresh' : w₁.slices (sliceName u) = fresh) (hlast : Updates K u w₁ [P] w') :
    w.slices (sliceName u) = w'.slices (sliceName u) ↔ ∀ Q ∈ Ps, ∀ n ∈ Q.names, n ∈ P.names := by
  rw [hall.slices, hlast.slices, hfresh, hfresh']
  have : history [P] = assignments P := List.append_nil _
  rw [this]
  exact history_eq_last Ps P

end Calls

/-! ### Two jobs -/

/-- The helper of a job of user 1000. -/
def PAMHelper.small : PAMHelper where
  userid := 1000
  jobid := 1
  systemctl := "/bin/systemctl"
  loginctl := "/bin/loginctl"
  rank := 0
  manageUserSlice := .bool true
  applyResources := .bool true
  killUserSlice := .bool false
  killGraceTime := 30
  lockDir := "/run/flux-pam"
  markerPath := "/run/flux-pam/uid.1000.active"
  lockFd := none
  cachedJobids := none

/-- Core 0 only. -/
def coreZero : Properties := ⟨[("AllowedCPUs", "0")], by simp⟩

/-- An update succeeds on the small node. -/
theorem small_update {w : World} (hw : Server.small.fits (fun _ => none) w) (P : Properties) :
    ∃ t w', Prog.Runs (Setting.small.exec ⟨1000, 7⟩) (PAMHelper.small.modifySlice (some P)).run w t
      (.ok ()) w' ∧ Server.small.fits (fun _ => none) w' := by
  obtain ⟨t, w', h⟩ : ∃ t w', (PAMHelper.small.modifySlice (some P)).run.advance
      (Server.small.serve ⟨1000, 7⟩) 5 w = some (t, .pure (.ok ()), w') := ⟨_, _, rfl⟩
  have hserves := Server.small.serves ⟨1000, 7⟩ fun _ => none
  exact ⟨t, w', hserves.runs hw h, hserves.keeps_advance hw h⟩

theorem small_updates : ∀ (Ps : List Properties) {w : World}, Server.small.fits (fun _ => none) w →
    ∃ w', Updates .small 1000 w Ps w'
  | [], w, _ => ⟨w, .nil rfl⟩
  | P :: Ps, w, hw => by
    obtain ⟨t, w₁, hrun, hw₁⟩ := small_update hw P
    obtain ⟨w', h⟩ := small_updates Ps hw₁
    exact ⟨w', .cons rfl rfl hrun h⟩

/-- A job on core 0 ends, and the mapper restricts the next one to core 0 too. -/
theorem no_residue_small : ∃ w w', Updates .small 1000 .empty ([coreZero] ++ [coreZero]) w ∧
    Updates .small 1000 .empty [coreZero] w' ∧
    (w.slices (sliceName 1000) = w'.slices (sliceName 1000) ↔
      ∀ Q ∈ [coreZero], ∀ n ∈ Q.names, n ∈ coreZero.names) := by
  obtain ⟨w, h⟩ := small_updates ([coreZero] ++ [coreZero]) Server.small_fits
  obtain ⟨w', h'⟩ := small_updates [coreZero] Server.small_fits
  exact ⟨w, w', h, h', no_residue rfl h rfl h'⟩

/-- The first job is restricted to core 0, and the mapper leaves the second
unrestricted: the slice stays on core 0. -/
theorem cpus_residue : ¬ ∀ (K : Setting) (u : ℤ) (Ps : List Properties) (P : Properties)
    (w₀ w₁ w w' : World), w₀.slices (sliceName u) = fresh → Updates K u w₀ (Ps ++ [P]) w →
      w₁.slices (sliceName u) = fresh → Updates K u w₁ [P] w' →
        w.slices (sliceName u) = w'.slices (sliceName u) := by
  intro h
  obtain ⟨w, hall⟩ := small_updates ([coreZero] ++ [∅]) Server.small_fits
  obtain ⟨w', hlast⟩ := small_updates [∅] Server.small_fits
  have heq := h .small 1000 [coreZero] ∅ .empty .empty w w' rfl hall rfl hlast
  rw [hall.slices, hlast.slices] at heq
  have hcpus := congrArg (·.other "AllowedCPUs") heq
  have hwas : (fresh.assignAll (history ([coreZero] ++ [∅]))).other "AllowedCPUs" = some "0" := by decide
  have hnow : (fresh.assignAll (history [∅])).other "AllowedCPUs" = none := by decide
  rw [show (World.empty.slices (sliceName 1000)) = fresh from rfl, hwas, hnow] at hcpus
  cases hcpus

end FluxPam
