/-
# The node the programs run on

The state the operations act on: files, locks, slices, units and cgroup
directories as maps keyed by the names the programs build, the scope jobs
systemd has queued, the jobs `job-list` reports, and a history of what was
done, kept to state the properties. `Setting.answers` says what Flux, the user
database and the kernel may answer by themselves, `World.effect` how an
operation changes the state and what its answer says of it. A step that fails
leaves the state as it was; `systemctl` that fails or times out leaves it as it
was or as asked. The lock directory exists and its permissions may be anything.
-/
import FluxPam.Scripts
import FluxPam.Session
import FluxPam.Interaction.System

namespace FluxPam

open Interaction

/-! ### The state -/

/-- A process: the user whose job or login it runs for, and its number. -/
structure Pid where
  uid : ℕ
  n : ℕ
  deriving DecidableEq

/-- An entry of the cgroup file system. -/
inductive CgroupEntry where
  | directory
  | procs (lines : List String)

/-- The property operations. -/
inductive Attempt where
  | set
  | revert
  deriving DecidableEq

/-- What a process last looked up: the jobs whose `R` it asked for, and the
mapper's answer. -/
structure Draft where
  ids : List ℕ
  props : Option Properties

structure World where
  -- the machine
  files : String → FileKind
  locks : String → Option Pid
  slices : String → SliceProps
  units : String → Bool
  cgroup : String → Option CgroupEntry
  -- the scope jobs systemd has queued, and those it has run
  queue : List ScopeJob
  attached : List ScopeJob
  -- the jobs of each user `job-list` reports as running, and those that ended
  running : ℕ → ℕ → Bool
  ended : ℕ → ℕ → Bool
  -- the live prologs, and what each process looked up and requested
  prologOf : Pid → Option ℕ
  draft : Pid → Draft
  request : Pid → Option ScopeJob
  -- of each slice: the update its properties come from, if no revert was
  -- attempted since, and the last property operation attempted
  source : String → Option Draft
  last : String → Option Attempt
  -- of each user's jobs: once reported, housekeeping started, exits with 0
  reported : ℕ → ℕ → Bool
  begun : ℕ → ℕ → Bool
  prologOk : ℕ → ℕ → Bool
  hkOk : ℕ → ℕ → Bool

/-- Set one entry of a table by user and job. -/
def setAt {α : Type} (f : ℕ → ℕ → α) (u j : ℕ) (a : α) : ℕ → ℕ → α :=
  Function.update f u (Function.update (f u) j a)

namespace World

variable (w : World)

/-- Nothing runs, is queued or has happened; the machine may be in any state in
which no lock is held. -/
def initial : Prop :=
  w.locks = (fun _ => none) ∧ w.queue = [] ∧ w.attached = [] ∧ w.prologOf = (fun _ => none) ∧
    w.request = (fun _ => none) ∧ w.source = (fun _ => none) ∧ w.last = (fun _ => none) ∧
    w.reported = w.running ∧ w.begun = (fun _ _ => false) ∧ w.prologOk = (fun _ _ => false) ∧
    w.hkOk = (fun _ _ => false) ∧ ∀ u j, w.ended u j = true → w.running u j = false

/-- Give up the lock on a file, if the process has it. -/
def unlock (p : Pid) (path : String) : World :=
  { w with locks := fun q => if q = path ∧ w.locks q = some p then none else w.locks q }

/-- What the kernel does when a process is gone. -/
def unlockAll (p : Pid) : World :=
  { w with locks := fun q => if w.locks q = some p then none else w.locks q }

/-- Open a file that can be opened for writing, creating it if it is missing. -/
def create (path : String) : World :=
  { w with files := Function.update w.files path <|
      if w.files path = .absent then .regular else w.files path }

/-! ### Commands -/

/-- What the scripts run. -/
inductive Command where
  | setProperty (slice : String) (args : List String)
  | revert (slice : String)
  | start (unit : String)
  | stop (unit : String)
  | kill (unit : String)
  | showUser

def decode : List String → Option Command
  | [_, "revert", slice] => some (.revert slice)
  | [_, "start", unit] => some (.start unit)
  | [_, "stop", unit] => some (.stop unit)
  | [_, "kill", _signal, unit] => some (.kill unit)
  | [_, "show-user", _user, _property] => some .showUser
  | _ :: "set-property" :: "--runtime" :: slice :: args => some (.setProperty slice args)
  | _ => none

theorem decode_setProperty (systemctl slice : String) (args : List String) :
    decode ([systemctl, "set-property", "--runtime", slice] ++ args) =
      some (.setProperty slice args) := by
  cases args <;> rfl

/-- The cgroup entries a unit's processes may be in: those below the slice of
the user it belongs to. -/
def unitEntry (unit path : String) : Prop :=
  ∃ u : ℕ, (unit = sliceName u ∨ unit = serviceName u) ∧ below (slicePath u) path = true

/-- A unit starts, stops or loses processes. -/
def unitChange (unit : String) (w' : World) : Prop :=
  ∃ active cgroup, w' = { w with units := Function.update w.units unit active, cgroup } ∧
    ∀ path, ¬ unitEntry unit path → cgroup path = w.cgroup path

/-- A command's effect; `took` says whether a property operation did what it
was asked. Of a command the scripts do not run nothing is known. -/
def command (p : Pid) (took : Bool) (w' : World) : Option Command → Prop
  | some (.setProperty slice args) => w' = { w with
      slices := if took then Function.update w.slices slice ((w.slices slice).assignAll args)
        else w.slices
      source := if took then Function.update w.source slice (some (w.draft p)) else w.source
      last := Function.update w.last slice (some .set) }
  | some (.revert slice) => w' = { w with
      slices := if took then Function.update w.slices slice SliceProps.fresh else w.slices
      source := Function.update w.source slice none
      last := Function.update w.last slice (some .revert) }
  | some (.start unit) => w.unitChange unit w'
  | some (.stop unit) => w.unitChange unit w'
  | some (.kill unit) => w.unitChange unit w'
  | some .showUser => w' = w
  | none => True

/-! ### Operations -/

/-- How an operation of the process `p`, answered so, changes the state. -/
def effect (p : Pid) (rank : ℕ) : (o : Op) → Res o → World → Prop
  | .lstat path, r, w' => (∀ kind, r = .ok kind → kind = w.files path) ∧ w' = w
  | .openFile path flags _, .ok _, w' =>
    (w.files path = .absent → .O_CREAT ∈ flags) ∧ (w.files path = .symlink → .O_NOFOLLOW ∉ flags) ∧
      w.files path ≠ .directory ∧ w' = w.create path
  | .close fd, _, w' => w' = w.unlock p fd.path
  | .flock fd .LOCK_UN, .ok (), w' => w' = w.unlock p fd.path
  | .flock fd .LOCK_EX, .ok (), w' =>
    w.locks fd.path = none ∧ w' = { w with locks := Function.update w.locks fd.path (some p) }
  | .flock fd .LOCK_EX_NB, .ok (), w' =>
    w.locks fd.path = none ∧ w' = { w with locks := Function.update w.locks fd.path (some p) }
  | .unlink path, .ok (), w' => w' = { w with files := Function.update w.files path .absent }
  | .unlink path, .error e, w' => (e = .ENOENT → w.files path = .absent) ∧ w' = w
  | .pathExists path, r, w' => (r = true ↔ (w.cgroup path).isSome) ∧ w' = w
  | .walk top, r, w' =>
    (∀ path, below top path = true → (path ∈ r ↔ w.cgroup path = some .directory)) ∧ w' = w
  | .readLines path, r, w' =>
    (∀ lines, r = .ok lines → w.cgroup path = some (.procs lines)) ∧ w' = w
  | .run argv _, r, w' =>
    ∃ took : Bool, (∀ out, r = .ok out → took = true) ∧ w.command p took w' (decode argv)
  | .jobList user rankstr, r, w' =>
    (∀ ids, r = .ok ids → rankstr = numeral rank → ∀ u, user = numeral u →
      ∀ j, j ∈ ids ↔ w.running u j = true) ∧ w' = w
  | .kvsLookupR ids, .ok _, w' => w' = { w with draft := Function.update w.draft p ⟨ids, none⟩ }
  | .mapperLookup _, .ok (some props), w' =>
    w' = { w with draft := Function.update w.draft p { w.draft p with props := some props } }
  | .busCall _ args, r, w' =>
    ∃ jobs, (∀ job ∈ jobs, args = ScopeJob.message job) ∧ jobs.length ≤ 1 ∧
      (r = true → ∀ job, args = ScopeJob.message job → jobs = [job]) ∧
      w' = { w with
        queue := w.queue ++ jobs
        request := if r then Function.update w.request p (jobs.head?) else w.request }
  | _, _, w' => w' = w

end World

/-! ### The setting -/

/-- What stays the same during a run. -/
structure Setting where
  X : Externals
  paths : Paths
  lockDirVar : Option String
  libsystemd : Bool
  rank : ℕ
  conf : Json
  attrs : String → String
  jobText : ℕ → String
  R : ℕ → String
  /-- the mapper may answer these properties for a resource set -/
  maps : String → Properties → Prop
  rank_attr : pyInt (attrs "rank") = some (rank : ℤ)
  jobID_text : ∀ j, X.jobID (jobText j) = some j

namespace Setting

variable (K : Setting)

def lockDir : String := K.lockDirVar.getD "/run/flux-pam"

/-- The environment Flux runs a script of the user's job in. -/
def environ (u j : ℕ) : Environ := fun name =>
  if name = "FLUX_JOB_USERID" then some (numeral u)
  else if name = "FLUX_JOB_ID" then some (K.jobText j)
  else if name = "FLUX_PAM_LOCK_DIR" then K.lockDirVar
  else none

/-- What may be answered whatever the state is. -/
def answers (p : Pid) : (o : Op) → Res o → Prop
  | .getpid, r => r = p.n
  | .attrGet name, r => ∀ s, r = .ok s → s = K.attrs name
  | .confGet key, r => ∀ v, r = .ok v → v = K.conf.dotted key
  | .configGet uri, r => uri = none → ∀ v, r = .ok v → v = K.conf
  | .kvsLookupR ids, r => ∀ results, r = .ok (results, []) → results = ids.map fun j => (j, K.R j)
  | .mapperLookup R, r => ∀ props, r = .ok (some props) → K.maps R props
  | .getpwnam _, r => ∀ u, r = some u → u.toNat = p.uid
  | .openFile path _ _, r => ∀ fd, r = .ok fd → fd = ⟨path⟩
  | .walk top, r => ∀ path ∈ r, below top path = true
  | .stuck, _ => False
  | _, _ => True

def exec (p : Pid) (w : World) (o : Op) (r : Res o) (w' : World) : Prop :=
  K.answers p o r ∧ w.effect p K.rank o r w'

theorem answered {α : Type} {K : Setting} {x : Cmd α} {p : Pid} {w w' : World} {t : List Event} {a : α}
    (h : Prog.Runs (K.exec p) x w t a w') : ∀ e ∈ t, K.answers p e.1 e.2 :=
  h.answered fun _ _ _ _ he => he.1

end Setting

/-! ### The system -/

/-- What a process runs. A script has fuel for its polling loops; a session is
opened with the PAM module's arguments. -/
inductive Task where
  | prolog (job fuel : ℕ)
  | housekeeping (job fuel : ℕ)
  | session (argv : List String)

/-- What it returns. -/
inductive Exit where
  | status (n : ℤ)
  | pam (ret : PamRet)
  deriving DecidableEq

/-- The world's own steps, each on behalf of a user. -/
inductive Act where
  | report (u j : ℕ)
  | unreport (u j : ℕ)
  | endJob (u j : ℕ)
  | attach (u : ℕ) (job : ScopeJob)
  | unit (u : ℕ) (name : String)

abbrev NodeLabel : Type := Label Pid Op Res Task Act Exit

/-- What Flux promises of a job's life. -/
structure Contract where
  /-- a prolog starts only while its job is reported as running -/
  reported : Prop
  /-- a job reported as running is reported until it ends -/
  steady : Prop
  /-- housekeeping starts only after its job ended, and is reported no more -/
  afterwards : Prop
  /-- housekeeping starts only after its job's prolog ended -/
  sequential : Prop

variable (K : Setting) (C : Contract)

def Setting.program (p : Pid) : Task → Cmd Exit
  | .prolog j fuel => do return .status (← Prolog.main K.X fuel K.paths (K.environ p.uid j))
  | .housekeeping j fuel => do
    return .status (← Housekeeping.main K.X fuel K.paths (K.environ p.uid j))
  | .session argv => do return .pam (← pamSmOpenSession K.libsystemd argv)

namespace World

/-- A process has looked up and requested nothing yet. -/
def begin (w : World) (p : Pid) : World :=
  { w with draft := Function.update w.draft p ⟨[], none⟩
           request := Function.update w.request p none }

/-- A session's options name the scripts' lock directory. -/
def start (p : Pid) (w w' : World) : Task → Prop
  | .prolog j _ => (C.reported → w.running p.uid j = true) ∧
      (C.sequential → w.begun p.uid j = false) ∧
      w' = { w.begin p with prologOf := Function.update w.prologOf p (some j) }
  | .housekeeping j _ => (C.afterwards → w.ended p.uid j = true) ∧
      (C.sequential → ∀ n, w.prologOf ⟨p.uid, n⟩ ≠ some j) ∧
      w' = { w.begin p with begun := setAt w.begun p.uid j true }
  | .session argv =>
    (∀ opts, parseOptions sessionDefaults argv = some opts → opts.lockDir = K.lockDir) ∧ w' = w.begin p

/-- A script that returns is gone; a login process goes on. -/
def finish (p : Pid) (a : Exit) (w w' : World) : Task → Prop
  | .prolog j _ => w' = { w.unlockAll p with
      prologOf := Function.update w.prologOf p none
      prologOk := if a = .status 0 then setAt w.prologOk p.uid j true else w.prologOk }
  | .housekeeping j _ => w' = { w.unlockAll p with
      hkOk := if a = .status 0 then setAt w.hkOk p.uid j true else w.hkOk }
  | .session _ => w' = w

def kill (p : Pid) (w w' : World) : Prop :=
  w' = { w.unlockAll p with prologOf := Function.update w.prologOf p none }

/-- systemd runs a queued scope job: the process is moved into the slice. -/
def attach (u : ℕ) (job : ScopeJob) (w w' : World) : Prop :=
  job ∈ w.queue ∧ job.slice = sliceName u ∧ ∃ cgroup, w' = { w with
    queue := w.queue.erase job, attached := w.attached ++ [job], cgroup } ∧
    ∀ path, below (slicePath u) path = false → cgroup path = w.cgroup path

def act (w w' : World) : Act → Prop
  | .report u j => w.ended u j = false ∧ w' = { w with
      running := setAt w.running u j true, reported := setAt w.reported u j true }
  | .unreport u j => ¬ C.steady ∧ w' = { w with running := setAt w.running u j false }
  | .endJob u j => w' = { w with
      running := setAt w.running u j false, ended := setAt w.ended u j true }
  | .attach u job => attach u job w w'
  | .unit u name => (name = sliceName u ∨ name = serviceName u) ∧ w.unitChange name w'

end World

/-- The node: any number of scripts and sessions of any users. -/
def node : System Pid Op Res Task Act Exit World where
  body := K.program
  exec := K.exec
  start p t w w' := World.start K C p w w' t
  finish p t a w w' := World.finish p a w w' t
  kill p _ w w' := World.kill p w w'
  world a w w' := World.act C w w' a

/-- A state of the node is reached from a start in which nothing runs. -/
structure Reached (K : Setting) (C : Contract) (c₀ c : Config Pid Op Res Task Exit World) : Prop where
  initial : c₀.world.initial
  idle : ∀ p, c₀.procs p = none
  run : ∃ ls, (node K C).Run c₀ ls c

end FluxPam
