/-
# The prolog and housekeeping helper (`flux/pam.py`)

`PAMHelper` and its functions, in the source's order. The helper is passed
along where the source updates it in place. A loop that polls until a deadline
takes fuel: out of fuel it is `stuck`, an operation nobody answers, so a run
with little fuel is a run that has not got further yet.
-/
import FluxPam.Ops
import FluxPam.Names
import Mathlib.Algebra.Order.Ring.Rat

namespace FluxPam

open Interaction

/-- The process environment, `os.environ`. -/
abbrev Environ := String → Option String

/-- `oct (n)`. -/
def oct (n : ℕ) : String := "0o" ++ String.ofList (Nat.toDigits 8 n)

/-- Out of fuel: no world answers, so nothing that follows is reached. -/
def stuck {α : Type} : Py α := do
  call .stuck
  throw (.runtimeError "out of fuel")

/-- `try: x except CalledProcessError`: a command that exits non-zero is
tolerated, any other exception is not. -/
def tolerating {α : Type} (x : Py α) : Py Unit := do
  match ← attempt x with
  | .ok _ => pure ()
  | .error (.calledProcessError _ _) => pure ()
  | .error e => throw e

/-! ### The user lock -/

/-- The loop of `acquire_lock`. -/
def acquireLoop (uid : ℤ) (timeout : ℚ) (fd : Fd) (start : ℚ) : ℕ → Py Fd
  | 0 => stuck
  | fuel + 1 => do
    match ← call (.flock fd .LOCK_EX_NB) with
    | .ok () => return fd
    | .error e =>
      if e ≠ .EWOULDBLOCK then
        callOS (perform (.close fd))
        throw e.toExn
      else
        let now ← call .time
        if now - start ≥ timeout then
          callOS (perform (.close fd))
          throw (.osError .ETIMEDOUT
            ("Could not acquire lock for uid " ++ toString uid ++ " within " ++ pyNumber timeout ++ "s"))
        else
          call (.sleep (1 / 10))
          acquireLoop uid timeout fd start fuel

def acquireLock (fuel : ℕ) (uid : ℤ) (timeout : ℚ) (lockDir : String) : Py Fd := do
  callOS (perform (.makedirs lockDir 0o700))
  let mode ← callOS (perform (.stat lockDir))
  if mode &&& 0o022 ≠ 0 then
    throw (.osError .EPERM
      ("Lock directory " ++ lockDir ++ " must not be group/other writable (mode=" ++
        oct (mode &&& 0o777) ++ ")"))
  else
    match ← call (.openFile (lockPath lockDir uid) [.O_CREAT, .O_RDWR, .O_NOFOLLOW] 0o600) with
    | .error .ELOOP => throw (.valueError ("Lock path " ++ lockPath lockDir uid ++ " is a symlink"))
    | .error e => throw e.toExn
    | .ok fd =>
      let start ← call .time
      acquireLoop uid timeout fd start fuel

/-- `release_lock`: the descriptor is closed whether or not it could be
unlocked. -/
def releaseLock (fd : Fd) : Py Unit := do
  let unlocked ← call (.flock fd .LOCK_UN)
  callOS (perform (.close fd))
  match unlocked with
  | .ok () => pure ()
  | .error e => throw e.toExn

def runSubprocess (args : List String) (timeout : ℚ) : Py String :=
  match args with
  | [] => throw (.valueError "Command must use absolute path: (empty)")
  | arg :: _ =>
    if isabs arg then raising RunError.toExn (perform (.run args timeout))
    else throw (.valueError ("Command must use absolute path: " ++ arg))

/-! ### The helper -/

structure PAMHelper where
  userid : ℤ
  jobid : ℕ
  systemctl : String
  loginctl : String
  rank : ℤ
  manageUserSlice : Json
  applyResources : Json
  killUserSlice : Json
  killGraceTime : ℚ
  lockDir : String
  markerPath : String
  lockFd : Option Fd
  cachedJobids : Option (List ℕ)

/-- `self.handle.conf_get (key, default)`. -/
def confGet (key : String) (default : Json) : Py Json := do
  let v ← callOS (perform (.confGet key))
  return v.getD default

/-- `int (s)`. -/
def intOf (s : String) : Py ℤ :=
  match pyInt s with
  | some n => return n
  | none => throw (.valueError "")

/-- `int (self.handle.attr_get (name))`. -/
def attrInt (name : String) : Py ℤ := do
  let s ← callOS (perform (.attrGet name))
  intOf s

variable (X : Externals) (fuel : ℕ)

namespace PAMHelper

/-- `PAMHelper.__init__`. -/
def init (environ : Environ) (userid : ℤ) (jobid : ℕ) (systemctl loginctl : String) :
    Py PAMHelper := do
  callOS (perform (.fluxOpen none))
  let rank ← attrInt "rank"
  let _debug ← confGet "pam.debug" (.bool false)
  let manageUserSlice ← confGet "pam.manage-user-slice" (.bool false)
  let applyResources ← confGet "exec.sdexec-constrain-resources" (.bool false)
  let killUserSlice ← confGet "pam.kill-user-slice" (.bool false)
  let grace ← confGet "pam.kill-slice-grace-time" (.str "30s")
  let killGraceTime ← ExceptT.mk (pure (X.parseFsd grace))
  let lockDir := (environ "FLUX_PAM_LOCK_DIR").getD "/run/flux-pam"
  let fd ← acquireLock fuel userid 60 lockDir
  return { userid, jobid, systemctl, loginctl, rank, manageUserSlice, applyResources, killUserSlice,
           killGraceTime, lockDir, markerPath := FluxPam.markerPath lockDir userid,
           lockFd := some fd, cachedJobids := none }

variable (self : PAMHelper)

/-- `PAMHelper.__exit__`. -/
def exit : Py Unit :=
  match self.lockFd with
  | some fd => releaseLock fd
  | none => pure ()

def shouldSkip : Py Bool := do
  let ownerUid ← attrInt "security.owner"
  if self.userid = ownerUid then return true
  else return !self.manageUserSlice.truthy

/-- `check_linger` of the output of `loginctl`. -/
def lingerOutput (stdout : String) : Except Exn Bool :=
  let output := String.ofList (strip stdout.toList)
  if output = "Linger=yes" then .ok true
  else if output = "Linger=no" then .ok false
  else .error (.valueError ("Unexpected loginctl output: " ++ output))

/-- `check_linger` of a `loginctl` that failed. -/
def lingerFailure (stderr : String) : Except Exn Bool :=
  let stderr := String.ofList (strip stderr.toList)
  if contains "not logged in or lingering" stderr then .ok false
  else .error (.valueError ("loginctl failed: " ++ stderr))

def checkLinger (timeout : ℚ) : Py Bool := do
  match ← attempt (runSubprocess
      [self.loginctl, "show-user", toString self.userid, "--property=Linger"] timeout) with
  | .error (.calledProcessError _ stderr) => ExceptT.mk (pure (lingerFailure stderr))
  | .error e => throw e
  | .ok stdout => ExceptT.mk (pure (lingerOutput stdout))

/-- `active_local_jobs`: the helper with the other jobs cached, and their
number. -/
def activeLocalJobs : Py (PAMHelper × ℕ) := do
  let jobs ← callOS (perform (.jobList (toString self.userid) (toString self.rank)))
  let ids := jobs.filter (· ≠ self.jobid)
  return ({ self with cachedJobids := some ids }, ids.length)

/-- The loop of `resource_union`: the union of the results' resource sets. -/
def unionLoop : Option X.RSet → List String → Except Exn (Option X.RSet)
  | union, [] => .ok union
  | union, R :: results =>
    match X.resourceSet R with
    | .error e => .error e
    | .ok rset =>
      match union with
      | none => unionLoop (some rset) results
      | some u => unionLoop (some (X.union u rset)) results

/-- `resource_union` of a list of jobs; `none` is its empty dictionary. -/
def unionOf (jobids : List ℕ) : Py (Option X.RSet) := do
  if jobids = [] then return none
  else
    let (results, errors) ← callOS (perform (.kvsLookupR jobids))
    if errors ≠ [] then
      throw (.osError Errno.EIO ("failed to look up R for " ++ toString jobids.length ++ " job(s): " ++
        ", ".intercalate errors))
    else
      match ← ExceptT.mk (pure (unionLoop X none (results.map Prod.snd))) with
      | none => throw (.osError Errno.EIO ("no R returned for " ++ toString jobids.length ++ " active job(s)"))
      | some union => return some union

def resourceUnion (includeCurrent : Bool) : Py (Option X.RSet) :=
  match self.cachedJobids with
  | none => throw (.runtimeError "Must call active_local_jobs() first")
  | some cached => unionOf X (if includeCurrent then cached ++ [self.jobid] else cached)

/-- `lookup_properties`; `none` is a mapper answer without a payload. A
`ResourceSet` is true in Python, the empty dictionary is not. -/
def lookupProperties : Option X.RSet → Py (Option Properties)
  | none => return some ∅
  | some R => callOS (perform (.mapperLookup (X.encode R)))

def modifySlice : Option Properties → Py Unit
  | none => pure ()
  | some properties => do
    let _ ← runSubprocess ([self.systemctl, "set-property", "--runtime", sliceName self.userid] ++
      assignments properties) 30

def applyResourceConstraints (includeCurrent : Bool) : Py Unit := do
  if !self.applyResources.truthy then return ()
  else
    let R ← resourceUnion X self includeCurrent
    match ← lookupProperties X R with
    -- `len (properties)` of the log line
    | none => throw (.typeError "object of type 'NoneType' has no len()")
    | some properties => modifySlice self (some properties)

def setActiveMarker : Py Unit := do
  let fd ← callOS (perform (.openFile self.markerPath [.O_CREAT, .O_WRONLY, .O_NOFOLLOW] 0o600))
  callOS (perform (.close fd))

def clearActiveMarker : Py Unit := do
  match ← call (.unlink self.markerPath) with
  | .ok () => pure ()
  | .error .ENOENT => pure ()
  | .error e => throw e.toExn

def revertSlice : Py Unit :=
  tolerating (runSubprocess [self.systemctl, "revert", sliceName self.userid] 30)

def userServiceStart : Py Unit := do
  let _ ← runSubprocess [self.systemctl, "start", serviceName self.userid] 30

/-! ### Orphan processes -/

/-- `os.path.relpath (path, top)` of a path at or below `top`. -/
def relpath (path top : String) : String :=
  if path = top then "." else String.ofList (path.toList.drop (top.toList.length + 1))

/-- The loop of `check_orphan_processes` over the directories of the walk. -/
def orphanLoop : List String → Py (List String)
  | [] => return []
  | root :: roots => do
    if below (servicePath self.userid) root then orphanLoop roots
    else if ← call (.pathExists (root ++ "/cgroup.procs")) then
      match ← call (.readLines (root ++ "/cgroup.procs")) with
      | .error _ => orphanLoop roots
      | .ok lines =>
        let pids := lines.filter fun line => strip line.toList ≠ []
        if pids = [] then orphanLoop roots
        else
          let orphans ← orphanLoop roots
          return (relpath root (slicePath self.userid) ++ ": " ++ toString pids.length ++
            " process(es)") :: orphans
    else orphanLoop roots

def checkOrphanProcesses : Py (List String) := do
  if ← call (.pathExists (slicePath self.userid)) then
    let roots ← call (.walk (slicePath self.userid))
    orphanLoop self roots
  else return []

/-- The loop of `_wait_for_slice_empty`. -/
def waitLoop (timeout start : ℚ) : ℕ → ℚ → Py Bool
  | 0, _ => stuck
  | fuel + 1, interval => do
    let now ← call .time
    if now - start < timeout then
      let orphans ← checkOrphanProcesses self
      if orphans = [] then return true
      else
        call (.sleep interval)
        waitLoop timeout start fuel (min (interval * (3 / 2)) (1 / 2))
    else return false

def waitForSliceEmpty (timeout : ℚ) : Py Bool := do
  let start ← call .time
  waitLoop self timeout start fuel (1 / 100)

def killSliceProcesses (signal : String) : Py Unit := do
  let _ ← runSubprocess [self.systemctl, "kill", "--signal=" ++ signal, sliceName self.userid] 30

/-- The message `_cleanup_user_slice` fails with. -/
def remainMsg (finalOrphans : List String) : String :=
  "Processes remain in " ++ sliceName self.userid ++ " after SIGKILL + " ++
    reprFloat self.killGraceTime ++ "s grace time: " ++ ", ".intercalate finalOrphans

def cleanupUserSlice : Py Unit := do
  let orphans ← checkOrphanProcesses self
  if orphans = [] then return ()
  else
    killSliceProcesses self "SIGTERM"
    if ← waitForSliceEmpty fuel self self.killGraceTime then return ()
    else
      let _remaining ← checkOrphanProcesses self
      killSliceProcesses self "SIGKILL"
      if ← waitForSliceEmpty fuel self self.killGraceTime then return ()
      else
        let finalOrphans ← checkOrphanProcesses self
        throw (.runtimeError (remainMsg self finalOrphans))

/-- The orphan cleanup of `user_slice_teardown`: a `RuntimeError` is kept for
after the revert. -/
def cleanupError : Py (Option Exn) := do
  if self.killUserSlice.truthy then
    match ← attempt (cleanupUserSlice fuel self) with
    | .ok () => return none
    | .error (.runtimeError msg) => return some (.runtimeError msg)
    | .error e => throw e
  else return none

def userSliceTeardown : Py Unit := do
  clearActiveMarker self
  tolerating (runSubprocess [self.systemctl, "stop", serviceName self.userid] 30)
  let error ← cleanupError fuel self
  revertSlice self
  match error with
  | none => pure ()
  | some e => throw e

end PAMHelper

/-- `with PAMHelper (...) as helper: body`: the lock is released whether or not
the body raises. -/
def withHelper {α : Type} (environ : Environ) (userid : ℤ) (jobid : ℕ) (systemctl loginctl : String)
    (body : PAMHelper → Py α) : Py α := do
  let helper ← PAMHelper.init X fuel environ userid jobid systemctl loginctl
  let result ← attempt (body helper)
  helper.exit
  match result with
  | .ok a => return a
  | .error e => throw e

end FluxPam
