/-
# What each process may do, and when

The monitor of a script or a session. Its state (`Phase`) is what the process
has done so far that matters to the others: whether it has the user lock, which
other jobs it was told of, what it looked up, and which of its steps on the
marker and the slice it has taken. `Phase.allowed` is the discipline the
programs keep: only names of their own user, marker and slice touched only
with the lock held, an update only with properties computed for the jobs just
listed, the marker published only after an update, and the slice reverted only
after the marker is gone.
-/
import FluxPam.Node
import FluxPam.Interaction.Monitor

namespace FluxPam

open Interaction

namespace Setting

variable (K : Setting)

/-- `pam.manage-user-slice`, as the scripts read it. -/
def manage : Json := (K.conf.dotted "pam.manage-user-slice").getD (.bool false)

/-- `exec.sdexec-constrain-resources`, as the scripts read it. -/
def constrain : Json := (K.conf.dotted "exec.sdexec-constrain-resources").getD (.bool false)

/-- The user is not the instance owner and the master switch is on. -/
def managed (u : ℕ) : Prop :=
  pyInt (K.attrs "security.owner") ≠ some (u : ℤ) ∧ K.manage.truthy = true

instance (u : ℕ) : Decidable (K.managed u) :=
  inferInstanceAs (Decidable (pyInt (K.attrs "security.owner") ≠ some (u : ℤ) ∧ _))

/-- The properties of a draft are the mapper's answer for the union of the
resource sets of its jobs. -/
def computed (d : Draft) (props : Properties) : Prop :=
  d.props = some props ∧ ∃ union, PAMHelper.unionLoop K.X none (d.ids.map K.R) = .ok (some union) ∧
    K.maps (K.X.encode union) props

end Setting

/-! ### The phases of a process -/

/-- Whether the process has the user lock: not yet, now, or no more. -/
inductive Hold where
  | before
  | held
  | after
  deriving DecidableEq

structure Phase where
  hold : Hold
  /-- the user's other jobs, as `job-list` reported them -/
  others : Option (List ℕ)
  draft : Draft
  /-- the marker was seen, as a regular file, and not removed since -/
  seen : Bool
  /-- `set-property` succeeded -/
  updated : Bool
  /-- the marker was created -/
  published : Bool
  /-- the marker was removed, or found missing -/
  cleared : Bool
  /-- a revert was attempted -/
  reverted : Bool

/-- A process that has done nothing yet. -/
def Phase.init : Phase := ⟨.before, none, ⟨[], none⟩, false, false, false, false, false⟩

namespace Task

/-- The jobs listed, without the script's own. -/
def others : Task → List ℕ → List ℕ
  | .prolog j _, ids => ids.filter (· ≠ j)
  | .housekeeping j _, ids => ids.filter (· ≠ j)
  | .session _, ids => ids

/-- The jobs whose resources an update is for: a prolog's own job is among
them. -/
def wanted : Task → List ℕ → List ℕ
  | .prolog j _, others => others ++ [j]
  | .housekeeping _ _, others => others
  | .session _, others => others

def isProlog : Task → Prop
  | .prolog _ _ => True
  | _ => False

def isHousekeeping : Task → Prop
  | .housekeeping _ _ => True
  | _ => False

end Task

namespace Phase

variable (K : Setting) (p : Pid) (t : Task) (φ : Phase)

/-- An update for the jobs just listed, with what the mapper answered. -/
def updates (args : List String) : Prop :=
  φ.hold = .held ∧ ∃ others props, φ.others = some others ∧ φ.draft.ids = t.wanted others ∧
    φ.draft.ids ≠ [] ∧ K.computed φ.draft props ∧ args = assignments props

/-- The marker is created by a prolog after its update. -/
def publishes : Prop :=
  φ.hold = .held ∧ t.isProlog ∧ K.managed p.uid ∧ (K.constrain.truthy = true → φ.updated = true)

/-- The marker is removed by a housekeeping that was told of no other job. -/
def clears : Prop :=
  φ.hold = .held ∧ t.isHousekeeping ∧ K.managed p.uid ∧ φ.others = some []

/-- The scope is requested with the lock held and the marker seen. -/
def requests (args : List BusArg) : Prop :=
  φ.hold = .held ∧ φ.seen = true ∧
    ∃ scope, args = ScopeJob.message ⟨scope, sliceName p.uid, p.n⟩

def allowedCommand : Option World.Command → Prop
  | some (.setProperty slice args) => slice = sliceName p.uid ∧ φ.updates K t args
  | some (.revert slice) => slice = sliceName p.uid ∧ φ.hold = .held ∧ φ.cleared = true
  | some (.start unit) => unit = serviceName p.uid
  | some (.stop unit) => unit = serviceName p.uid
  | some (.kill unit) => unit = sliceName p.uid
  | some .showUser => True
  | none => False

/-- What the process may do next. -/
def allowed : Op → Prop
  | .makedirs path _ => path = K.lockDir
  | .stat path => path = K.lockDir
  | .lstat path => path = markerPath K.lockDir p.uid ∧ φ.hold = .held
  | .openFile path _ _ => path = lockPath K.lockDir p.uid ∨
      path = markerPath K.lockDir p.uid ∧ φ.publishes K p t
  | .close fd => fd.path = lockPath K.lockDir p.uid ∨ fd.path = markerPath K.lockDir p.uid
  | .flock fd .LOCK_UN => fd.path = lockPath K.lockDir p.uid
  | .flock fd .LOCK_EX => fd.path = lockPath K.lockDir p.uid ∧ φ.hold = .before
  | .flock fd .LOCK_EX_NB => fd.path = lockPath K.lockDir p.uid ∧ φ.hold = .before
  | .unlink path => path = markerPath K.lockDir p.uid ∧ φ.clears K p t
  | .pathExists path => below (slicePath p.uid) path = true
  | .walk top => top = slicePath p.uid
  | .readLines path => below (slicePath p.uid) path = true
  | .run argv _ => φ.allowedCommand K p t (World.decode argv)
  | .jobList user rank => user = numeral p.uid ∧ rank = numeral K.rank ∧ φ.hold = .held ∧
      φ.others = none ∧ (t.isProlog ∨ t.isHousekeeping)
  | .mapperLookup R => ∃ union,
      PAMHelper.unionLoop K.X none (φ.draft.ids.map K.R) = .ok (some union) ∧ R = K.X.encode union
  | .busCall _ args => φ.requests p args
  | _ => True

theorem allowed_run {argv : List String} {timeout : ℚ} :
    φ.allowed K p t (.run argv timeout) ↔ φ.allowedCommand K p t (World.decode argv) := Iff.rfl

/-- The lock is given up, if it is held. -/
def release : Phase := { φ with hold := if φ.hold = .held then .after else φ.hold }

/-- The marker is gone. -/
def clear : Phase := { φ with cleared := true, seen := false }

def nextCommand (ok : Bool) : Option World.Command → Phase
  | some (.setProperty _ _) => { φ with updated := φ.updated || ok }
  | some (.revert _) => { φ with reverted := true }
  | _ => φ

def next : (o : Op) → Res o → Phase
  | .lstat _, .ok kind => { φ with seen := φ.seen || decide (kind = .regular) }
  | .openFile path _ _, .ok _ =>
    { φ with published := φ.published || decide (path = markerPath K.lockDir p.uid) }
  | .close fd, _ => if fd.path = lockPath K.lockDir p.uid then φ.release else φ
  | .flock _ .LOCK_UN, .ok () => φ.release
  | .flock _ .LOCK_EX, .ok () => { φ with hold := .held }
  | .flock _ .LOCK_EX_NB, .ok () => { φ with hold := .held }
  | .unlink _, .ok () => φ.clear
  | .unlink _, .error e => if e = .ENOENT then φ.clear else φ
  | .run argv _, r => φ.nextCommand r.isOk (World.decode argv)
  | .jobList _ _, .ok ids => { φ with others := some (t.others ids) }
  | .kvsLookupR ids, .ok _ => { φ with draft := ⟨ids, none⟩ }
  | .mapperLookup _, .ok (some props) => { φ with draft := { φ.draft with props := some props } }
  | _, _ => φ

end Phase

variable (K : Setting) (C : Contract)

/-- The monitor of a process. -/
def watch (p : Pid) (t : Task) : Monitor Op Res Phase where
  allowed φ := φ.allowed K p t
  answers := K.answers p
  next φ := φ.next K p t

/-- A housekeeping has torn the user's slice down, or updated it for the jobs
that go on. -/
def Phase.cleaned (φ : Phase) : Prop :=
  ∃ others, φ.others = some others ∧ (others = [] → φ.cleared = true ∧ φ.reverted = true) ∧
    (others ≠ [] → K.constrain.truthy = true → φ.updated = true)

/-- What a script that exits with 0 has done for a managed user. A session
that returns has no lock. -/
def Phase.post (p : Pid) (t : Task) (a : Exit) (φ : Phase) : Prop :=
  match t with
  | .prolog _ _ => a = .status 0 → K.managed p.uid → φ.published = true
  | .housekeeping _ _ => a = .status 0 → K.managed p.uid → φ.cleaned K
  | .session _ => φ.hold ≠ .held

def watchAll : Watch Pid Op Res Task Phase Exit where
  monitor := watch K
  init _ _ := .init
  post := Phase.post K

/-! ### Operations that matter to nobody -/

/-- Operations that are allowed in every phase, and end none. -/
def quiet (p : Pid) : Op → Prop
  | .makedirs path _ => path = K.lockDir
  | .stat path => path = K.lockDir
  | .pathExists path => below (slicePath p.uid) path = true
  | .walk top => top = slicePath p.uid
  | .readLines path => below (slicePath p.uid) path = true
  | .run argv _ => match World.decode argv with
    | some (.start unit) => unit = serviceName p.uid
    | some (.stop unit) => unit = serviceName p.uid
    | some (.kill unit) => unit = sliceName p.uid
    | some .showUser => True
    | _ => False
  | .lstat _ | .openFile _ _ _ | .close _ | .flock _ _ | .unlink _ | .jobList _ _ | .kvsLookupR _
  | .mapperLookup _ | .busCall _ _ => False
  | _ => True

variable {K C} {p : Pid} {t : Task} {φ : Phase}

theorem quiet_allowed {o : Op} (h : quiet K p o) : φ.allowed K p t o := by
  cases o with
  | run argv timeout =>
    revert h
    simp only [quiet, Phase.allowed]
    cases hd : World.decode argv with
    | none => exact fun h => h
    | some c => cases c <;> first | exact fun h => h | exact fun h => h.elim
  | _ => first | exact h | exact h.elim

theorem quiet_next {o : Op} (h : quiet K p o) (r : Res o) : φ.next K p t o r = φ := by
  cases o with
  | run argv timeout =>
    revert h
    simp only [quiet, Phase.next]
    cases hd : World.decode argv with
    | none => exact fun h => h.elim
    | some c => cases c <;> first | exact fun _ => rfl | exact fun h => h.elim
  | _ => first | exact h.elim | rfl

variable (K) in
/-- The monitor of a program of quiet operations. -/
def hush (p : Pid) : Monitor Op Res Unit where
  allowed _ := quiet K p
  answers := K.answers p
  next _ _ _ := ()

variable (K) in
/-- A quiet program, whose results satisfy `Q`. -/
abbrev Quietly {α : Type} (p : Pid) (Q : α → Prop) (x : Cmd α) : Prop :=
  (hush K p).Accepts (fun a _ => Q a) () x

/-- A quiet program may run in every phase, and ends none. -/
theorem Quietly.accepts {α : Type} {Q : α → Prop} {x : Cmd α} (h : Quietly K p Q x) :
    (watch K p t).Accepts (fun a φ' => Q a ∧ φ' = φ) φ x :=
  Monitor.Accepts.embed (M := watch K p t) (N := hush K p) (fun _ => quiet_allowed)
    (fun _ r ho => quiet_next ho r) (fun _ _ hr => hr) h

end FluxPam
