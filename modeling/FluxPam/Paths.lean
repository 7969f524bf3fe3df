/-
# One lock file, one marker

The session module formats the paths of the user's lock file and marker into a
buffer of `PATH_MAX` bytes, the scripts as Python strings. Both use the same
files (`pathsAgree`): a path that fits is the scripts', and for one that does
not fit the session module opens and looks up nothing, and is denied.
-/
import FluxPam.Session
import FluxPam.Footprint

namespace FluxPam

open Interaction Monitor

/-- The file an operation names. -/
def fileOf : Op → Option String
  | .openFile path _ _ => some path
  | .lstat path => some path
  | .unlink path => some path
  | _ => none

/-- The operation names no other file. -/
def onFile (path : String) (o : Op) : Prop := ∀ q, fileOf o = some q → q = path

/-- The operation names no file. -/
def noFile (o : Op) : Prop := fileOf o = none

variable {uid : Uid} {lockDir : String} {path : String}

theorem onFile_of_noFile {o : Op} (h : fileOf o = none) : onFile path o := fun q hq => by
  rw [h] at hq
  cases hq

theorem onFile_self {o : Op} (h : fileOf o = some path) : onFile path o := fun _ hq =>
  Option.some.inj (hq.symm.trans h)

/-! ### The session module -/

theorem keeps_userLockAcquire : Keeps (onFile (lockPath lockDir uid.toNat)) (fun _ => True)
    (userLockAcquire uid lockDir) := by
  unfold userLockAcquire
  refine ⟨onFile_of_noFile rfl, fun r _ => ?_⟩
  rcases r with e | mode
  · exact trivial
  refine accepts_ite (fun _ => trivial) fun _ => accepts_ite (fun _ => trivial) fun hn => ?_
  rw [if_pos (Nat.lt_of_not_le hn)]
  refine ⟨onFile_self rfl, fun r _ => ?_⟩
  rcases r with e | fd
  · exact trivial
  refine ⟨onFile_of_noFile rfl, fun r _ => ?_⟩
  rcases r with e | ⟨⟩
  · exact ⟨onFile_of_noFile rfl, fun _ _ => trivial⟩
  · exact trivial

theorem keeps_checkActiveMarker : Keeps (onFile (markerPath lockDir uid.toNat)) (fun _ => True)
    (checkActiveMarker uid lockDir) := by
  unfold checkActiveMarker
  refine accepts_ite (fun _ => trivial) fun hn => ?_
  rw [if_pos (Nat.lt_of_not_le hn)]
  refine ⟨onFile_self rfl, fun r _ => ?_⟩
  rcases r with e | kind <;> exact trivial

/-- A lock path that does not fit is refused. -/
theorem keeps_userLockAcquire_of_le (h : PATH_MAX ≤ (lockPath lockDir uid.toNat).utf8ByteSize) :
    Keeps noFile (· = none) (userLockAcquire uid lockDir) := by
  unfold userLockAcquire
  refine ⟨rfl, fun r _ => ?_⟩
  rcases r with e | mode
  · exact rfl
  · exact accepts_ite (fun _ => rfl) fun _ => accepts_ite (fun _ => rfl) fun hn => absurd h hn

/-- A marker path that does not fit counts as a missing marker. -/
theorem keeps_checkActiveMarker_of_le (h : PATH_MAX ≤ (markerPath lockDir uid.toNat).utf8ByteSize) :
    Keeps noFile (· = false) (checkActiveMarker uid lockDir) := by
  unfold checkActiveMarker
  exact accepts_ite (fun _ => rfl) fun hn => absurd h hn

/-! ### The scripts -/

theorem onFile_opens {u : ℤ} : Opens (onFile (lockPath lockDir u)) u lockDir where
  flock _ := onFile_of_noFile rfl
  close _ := onFile_of_noFile rfl
  time := onFile_of_noFile rfl
  sleep _ := onFile_of_noFile rfl
  stuck := onFile_of_noFile rfl
  flux _ := onFile_of_noFile rfl
  attr _ := onFile_of_noFile rfl
  conf _ := onFile_of_noFile rfl
  makedirs := onFile_of_noFile rfl
  stat := onFile_of_noFile rfl
  lock := onFile_self rfl

/-! ### Both -/

/-- For one lock directory and user, the session module and the scripts name the
same lock file and marker, the session module refuses paths it would truncate,
and no lock file is a marker. -/
structure PathsAgree (lockDir : String) (uid : Uid) : Prop where
  lock : Keeps (onFile (lockPath lockDir uid.toNat)) (fun _ => True) (userLockAcquire uid lockDir)
  marker : Keeps (onFile (markerPath lockDir uid.toNat)) (fun _ => True) (checkActiveMarker uid lockDir)
  scriptLock : ∀ X fuel environ j systemctl loginctl,
    (environ "FLUX_PAM_LOCK_DIR").getD "/run/flux-pam" = lockDir →
      Keeps (onFile (lockPath lockDir uid.toNat))
        (fun r => ∀ helper, r = .ok helper → helper.markerPath = markerPath lockDir uid.toNat)
        (PAMHelper.init X fuel environ uid.toNat j systemctl loginctl).run
  scriptMarker : ∀ helper : PAMHelper,
    Keeps (onFile helper.markerPath) (fun _ => True) helper.setActiveMarker.run ∧
      Keeps (onFile helper.markerPath) (fun _ => True) helper.clearActiveMarker.run
  refusedLock : PATH_MAX ≤ (lockPath lockDir uid.toNat).utf8ByteSize →
    Keeps noFile (· = none) (userLockAcquire uid lockDir)
  refusedMarker : PATH_MAX ≤ (markerPath lockDir uid.toNat).utf8ByteSize →
    Keeps noFile (· = false) (checkActiveMarker uid lockDir)
  distinct : ∀ lockDir' (a b : ℤ), lockPath lockDir a ≠ markerPath lockDir' b

theorem pathsAgree (lockDir : String) (uid : Uid) : PathsAgree lockDir uid where
  lock := keeps_userLockAcquire
  marker := keeps_checkActiveMarker
  scriptLock _ _ _ _ _ _ hd := keeps_init hd onFile_opens
  scriptMarker _ :=
    ⟨keeps_setActiveMarker (onFile_self rfl) fun _ => onFile_of_noFile rfl,
      keeps_clearActiveMarker (onFile_self rfl)⟩
  refusedLock := keeps_userLockAcquire_of_le
  refusedMarker := keeps_checkActiveMarker_of_le
  distinct lockDir' a b := lockPath_ne_markerPath lockDir lockDir' a b

end FluxPam
