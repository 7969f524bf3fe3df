/-
# The teardown of a slice, seen as deeds

`user_slice_teardown` at the level its documentation speaks of: it checks for
orphans, reads the clock, sleeps, clears the marker and has `systemctl` stop,
kill or revert. One orphan check, a walk over the cgroup tree in the code, is
one deed here with the orphans it found as its answer. The functions below are
those of `flux/pam.py` over these deeds; with every deed replaced by the code
that does it (`PAMHelper.deed`) they are the functions of `Helper`
(`expand_userSliceTeardown`), so a run of the code is spelled by its deeds, in
one way only (`deeds_unique`).
-/
import FluxPam.Helper
import FluxPam.Interaction.Expand

namespace FluxPam

open Interaction

inductive Deed where
  | check
  | time
  | sleep (seconds : ℚ)
  | clear
  | stop
  | kill (signal : String)
  | revert
  | stuck
  deriving DecidableEq

namespace Deed

@[reducible] def Res : Deed → Type
  | .check => Except Exn (List String)
  | .time => ℚ
  | .sleep _ => Unit
  | .clear => Except Errno Unit
  | .stop => Except RunError String
  | .kill _ => Except RunError String
  | .revert => Except RunError String
  | .stuck => Unit

end Deed

/-- A deed with its answer. -/
abbrev Done := Sigma Deed.Res

/-- A function of the teardown over deeds. -/
abbrev Deeds (α : Type) := ExceptT Exn (Prog Deed Deed.Res) α

namespace PAMHelper

variable (self : PAMHelper)

def stopCommand : List String := [self.systemctl, "stop", serviceName self.userid]

def killCommand (signal : String) : List String :=
  [self.systemctl, "kill", "--signal=" ++ signal, sliceName self.userid]

def revertCommand : List String := [self.systemctl, "revert", sliceName self.userid]

/-- How the code does a deed. -/
def deed : (d : Deed) → Prog Op Res d.Res
  | .check => (checkOrphanProcesses self).run
  | .time => perform .time
  | .sleep seconds => perform (.sleep seconds)
  | .clear => perform (.unlink self.markerPath)
  | .stop => perform (.run (stopCommand self) 30)
  | .kill signal => perform (.run (killCommand self signal) 30)
  | .revert => perform (.run (revertCommand self) 30)
  | .stuck => perform .stuck

end PAMHelper

namespace Deeds

/-- Do one deed. -/
def deed (d : Deed) : Prog Deed Deed.Res d.Res := Prog.perform d

def check : Deeds (List String) := ExceptT.mk (deed .check)

def time : Deeds ℚ := ExceptT.lift (deed .time)

def sleep (seconds : ℚ) : Deeds Unit := ExceptT.lift (deed (.sleep seconds))

def clear : Deeds (Except Errno Unit) := ExceptT.lift (deed .clear)

def stuck {α : Type} : Deeds α := do
  ExceptT.lift (deed .stuck)
  throw (.runtimeError "out of fuel")

variable (self : PAMHelper) (fuel : ℕ)

/-- `run_subprocess` of `systemctl`. -/
def systemctl (x : Prog Deed Deed.Res (Except RunError String)) : Deeds String :=
  if isabs self.systemctl then raising RunError.toExn x
  else throw (.valueError ("Command must use absolute path: " ++ self.systemctl))

def tolerating (x : Deeds String) : Deeds Unit := do
  match ← attempt x with
  | .ok _ => pure ()
  | .error (.calledProcessError _ _) => pure ()
  | .error e => throw e

/-- The loop of `_wait_for_slice_empty`. -/
def waitLoop (timeout start : ℚ) : ℕ → ℚ → Deeds Bool
  | 0, _ => stuck
  | fuel + 1, interval => do
    let now ← time
    if now - start < timeout then
      let orphans ← check
      if orphans = [] then return true
      else
        sleep interval
        waitLoop timeout start fuel (min (interval * (3 / 2)) (1 / 2))
    else return false

def waitForSliceEmpty (timeout : ℚ) : Deeds Bool := do
  let start ← time
  waitLoop timeout start fuel (1 / 100)

def killSliceProcesses (signal : String) : Deeds Unit := do
  let _ ← systemctl self (deed (.kill signal))

def cleanupUserSlice : Deeds Unit := do
  let orphans ← check
  if orphans = [] then return ()
  else
    killSliceProcesses self "SIGTERM"
    if ← waitForSliceEmpty fuel self.killGraceTime then return ()
    else
      let _remaining ← check
      killSliceProcesses self "SIGKILL"
      if ← waitForSliceEmpty fuel self.killGraceTime then return ()
      else
        let finalOrphans ← check
        throw (.runtimeError (PAMHelper.remainMsg self finalOrphans))

def cleanupError : Deeds (Option Exn) := do
  if self.killUserSlice.truthy then
    match ← attempt (cleanupUserSlice self fuel) with
    | .ok () => return none
    | .error (.runtimeError msg) => return some (.runtimeError msg)
    | .error e => throw e
  else return none

def clearActiveMarker : Deeds Unit := do
  match ← clear with
  | .ok () => pure ()
  | .error .ENOENT => pure ()
  | .error e => throw e.toExn

/-- Raise an error that was kept, if there is one. -/
def rethrow : Option Exn → Deeds Unit
  | none => pure ()
  | some e => throw e

/-- The teardown once the marker is cleared. -/
def stopCleanRevert : Deeds Unit := do
  tolerating (systemctl self (deed .stop))
  let error ← cleanupError self fuel
  tolerating (systemctl self (deed .revert))
  rethrow error

def userSliceTeardown : Deeds Unit := do
  clearActiveMarker
  stopCleanRevert self fuel

end Deeds

/-! ### The code does these deeds -/

section Expand

open Prog PAMHelper

variable (self : PAMHelper) (fuel : ℕ)

theorem expand_deed (d : Deed) : expand self.deed (Deeds.deed d) = self.deed d :=
  expand_perform self.deed d

theorem expand_check : expandE self.deed Deeds.check = self.checkOrphanProcesses :=
  expand_deed self .check

theorem expand_time : expandE self.deed Deeds.time = call .time :=
  (expandE_lift self.deed _).trans (congrArg ExceptT.lift (expand_deed self .time))

theorem expand_sleep (seconds : ℚ) :
    expandE self.deed (Deeds.sleep seconds) = call (.sleep seconds) :=
  (expandE_lift self.deed _).trans (congrArg ExceptT.lift (expand_deed self (.sleep seconds)))

theorem expand_clear : expandE self.deed Deeds.clear = call (.unlink self.markerPath) :=
  (expandE_lift self.deed _).trans (congrArg ExceptT.lift (expand_deed self .clear))

theorem expand_stuck {α : Type} :
    expandE self.deed (Deeds.stuck : Deeds α) = FluxPam.stuck := by
  unfold Deeds.stuck FluxPam.stuck
  rw [expandE_bind, expandE_lift, expand_deed]
  rfl

theorem expand_systemctl {x : Prog Deed Deed.Res (Except RunError String)} {verb : String}
    {args : List String}
    (h : expand self.deed x = perform (.run (self.systemctl :: verb :: args) 30)) :
    expandE self.deed (Deeds.systemctl self x) =
      runSubprocess (self.systemctl :: verb :: args) 30 := by
  unfold Deeds.systemctl runSubprocess
  rw [expandE_ite, expandE_raising, h]
  rfl

theorem expand_tolerating {x : Deeds String} {y : Py String} (h : expandE self.deed x = y) :
    expandE self.deed (Deeds.tolerating x) = tolerating y := by
  unfold Deeds.tolerating tolerating
  rw [expandE_bind, expandE_attempt, h]
  refine congrArg _ (funext fun r => ?_)
  cases r with
  | ok _ => rfl
  | error e => cases e <;> rfl

theorem expand_waitLoop (timeout start : ℚ) : ∀ (fuel : ℕ) (interval : ℚ),
    expandE self.deed (Deeds.waitLoop timeout start fuel interval) =
      self.waitLoop timeout start fuel interval
  | 0, interval => by
    unfold Deeds.waitLoop PAMHelper.waitLoop
    exact expand_stuck self
  | fuel + 1, interval => by
    have ih := expand_waitLoop timeout start fuel
    unfold Deeds.waitLoop PAMHelper.waitLoop
    simp only [expandE_bind, expandE_ite, expand_time, expand_check, expand_sleep, expandE_pure, ih]

theorem expand_waitForSliceEmpty (timeout : ℚ) :
    expandE self.deed (Deeds.waitForSliceEmpty fuel timeout) =
      self.waitForSliceEmpty fuel timeout := by
  unfold Deeds.waitForSliceEmpty PAMHelper.waitForSliceEmpty
  simp only [expandE_bind, expand_time, expand_waitLoop]

theorem expand_killSliceProcesses (signal : String) :
    expandE self.deed (Deeds.killSliceProcesses self signal) = self.killSliceProcesses signal := by
  unfold Deeds.killSliceProcesses PAMHelper.killSliceProcesses
  rw [expandE_bind, expand_systemctl self (expand_deed self _)]
  rfl

theorem expand_cleanupUserSlice : expandE self.deed (Deeds.cleanupUserSlice self fuel) =
    self.cleanupUserSlice fuel := by
  unfold Deeds.cleanupUserSlice PAMHelper.cleanupUserSlice
  simp only [expandE_bind, expandE_ite, expand_check, expandE_pure, expandE_throw,
    expand_killSliceProcesses, expand_waitForSliceEmpty]

theorem expand_cleanupError : expandE self.deed (Deeds.cleanupError self fuel) =
    self.cleanupError fuel := by
  unfold Deeds.cleanupError PAMHelper.cleanupError
  rw [expandE_ite, expandE_bind, expandE_attempt, expand_cleanupUserSlice]
  refine if_congr Iff.rfl (congrArg _ (funext fun r => ?_)) rfl
  cases r with
  | ok _ => rfl
  | error e => cases e <;> rfl

theorem expand_clearActiveMarker : expandE self.deed Deeds.clearActiveMarker =
    self.clearActiveMarker := by
  unfold Deeds.clearActiveMarker PAMHelper.clearActiveMarker
  rw [expandE_bind, expand_clear]
  refine congrArg _ (funext fun r => ?_)
  cases r with
  | ok _ => rfl
  | error e => cases e <;> rfl

/-- **The code does these deeds.** -/
theorem expand_userSliceTeardown : expandE self.deed (Deeds.userSliceTeardown self fuel) =
    self.userSliceTeardown fuel := by
  unfold Deeds.userSliceTeardown Deeds.stopCleanRevert PAMHelper.userSliceTeardown revertSlice
  simp only [expandE_bind, expand_clearActiveMarker, expand_cleanupError,
    expand_tolerating self (expand_systemctl self (expand_deed self .stop)),
    expand_tolerating self (expand_systemctl self (expand_deed self .revert))]
  refine congrArg _ (funext fun _ => congrArg _ (funext fun _ => congrArg _ (funext fun e => ?_)))
  refine congrArg _ (funext fun _ => ?_)
  cases e <;> rfl

end Expand

/-! ### Runs, read as deeds -/

section Runs

open Prog PAMHelper Monitor

variable {self : PAMHelper} {σ α : Type} {exec : σ → (o : Op) → Res o → σ → Prop} {w w' : σ}
  {t : List Event} {c c' : List Done}

/-- The operation a deed begins with. -/
def PAMHelper.first (self : PAMHelper) : Deed → Op
  | .check => .pathExists (slicePath self.userid)
  | .time => .time
  | .sleep seconds => .sleep seconds
  | .clear => .unlink self.markerPath
  | .stop => .run (stopCommand self) 30
  | .kill signal => .run (killCommand self signal) 30
  | .revert => .run (revertCommand self) 30
  | .stuck => .stuck

theorem first_injective : self.first.Injective := by
  intro d d' h
  cases d <;> cases d' <;>
    simp_all [first, stopCommand, killCommand, revertCommand]

/-- A run is read as deeds in one way only. -/
theorem deeds_unique (h : Spells self.deed t c) (h' : Spells self.deed t c') : c = c' := by
  have hfirst : ∀ d, (self.deed d).head? = some (self.first d) := fun d => by cases d <;> rfl
  exact h.unique hfirst first_injective h'

/-- A run of the code is a run of the deeds it is made of. -/
theorem runs_deeds {x : Deeds α} {y : Py α} {r : Except Exn α} (hx : expandE self.deed x = y)
    (h : Runs exec y.run w t r w') :
    ∃ c, Runs (implements self.deed exec) x.run w c r w' ∧ Spells self.deed t c := by
  subst hx
  exact runs_expand h

/-- The operations of an orphan check. -/
def looks : Op → Prop
  | .pathExists _ => True
  | .walk _ => True
  | .readLines _ => True
  | _ => False

/-- An orphan check looks at the tree and returns. -/
theorem keeps_checkOrphanProcesses :
    Keeps looks (fun r => ∃ orphans, r = .ok orphans) self.checkOrphanProcesses.run := by
  have hloop : ∀ roots, Keeps looks (fun r => ∃ orphans, r = .ok orphans)
      (self.orphanLoop roots).run := by
    intro roots
    induction roots with
    | nil => exact ⟨[], rfl⟩
    | cons root roots ih =>
      unfold orphanLoop
      refine accepts_iteExcept (fun _ => ih) fun _ => ⟨trivial, fun found _ => ?_⟩
      refine accepts_iteExcept (fun _ => ⟨trivial, fun r _ => ?_⟩) fun _ => ih
      cases r with
      | error e => exact ih
      | ok lines =>
        refine accepts_iteExcept (fun _ => ih) fun _ => ?_
        refine ih.bindExcept (fun orphans _ _ => ⟨_, rfl⟩) fun e _ he => ?_
        obtain ⟨_, he⟩ := he
        cases he
  unfold checkOrphanProcesses
  refine ⟨trivial, fun found _ => ?_⟩
  exact accepts_iteExcept (fun _ => ⟨trivial, fun roots _ => hloop roots⟩) fun _ => ⟨[], rfl⟩

/-- What is assumed of the answers to deeds: an orphan check does not raise, and
nothing follows where a loop runs out of fuel. -/
structure Answering (exec : σ → (d : Deed) → d.Res → σ → Prop) : Prop where
  check : ∀ s r s', exec s .check r s' → ∃ orphans, r = .ok orphans
  stuck : ∀ s r s', ¬ exec s .stuck r s'

theorem answering (hstuck : ∀ w r w', ¬ exec w .stuck r w') :
    Answering (implements self.deed exec) where
  check s r s' h := by
    obtain ⟨t, h⟩ := h
    exact keeps_checkOrphanProcesses.of_runs (fun _ _ => trivial) h
  stuck s r s' h := by
    obtain ⟨t, _, _, _, he, _⟩ := h
    exact hstuck _ _ _ he

end Runs

end FluxPam
