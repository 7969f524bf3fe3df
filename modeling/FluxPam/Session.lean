/-
# The session module (`pam_sm_open_session`)

For a login that carries the job-owner sentinel, with `pam.manage-user-slice`
set and a user other than the instance owner: take the user lock, check the
active marker, ask systemd for a scope in the user's slice, release the lock
and set the session's environment.
-/
import FluxPam.Account

namespace FluxPam

open Interaction

def PATH_MAX : ℕ := 4096

/-! ### The lock and the marker -/

/-- `user_lock_acquire`; `none` is its failure. -/
def userLockAcquire (uid : Uid) (lockDir : String) : Cmd (Option Fd) := do
  match ← perform (.stat lockDir) with
  | .error _ => return none
  | .ok mode =>
    if mode &&& 0o022 ≠ 0 then return none
    else
      let (n, path) := snprintf PATH_MAX (lockDir ++ "/uid." ++ numeral uid.toNat ++ ".lock")
      if n ≥ PATH_MAX then return none
      else
        match ← perform (.openFile path [.O_CREAT, .O_RDWR, .O_NOFOLLOW] 0o600) with
        | .error _ => return none
        | .ok fd =>
          match ← perform (.flock fd .LOCK_EX) with
          | .ok () => return some fd
          | .error _ =>
            let _ ← perform (.close fd)
            return none

def userLockRelease (fd : Fd) : Cmd Unit := do
  let _ ← perform (.close fd)
  return ()

/-- `check_active_marker`: whether the marker is present, as a regular file. -/
def checkActiveMarker (uid : Uid) (lockDir : String) : Cmd Bool := do
  let (n, path) := snprintf PATH_MAX (lockDir ++ "/uid." ++ numeral uid.toNat ++ ".active")
  if n ≥ PATH_MAX then return false
  else
    match ← perform (.lstat path) with
    | .error _ => return false
    | .ok kind => return kind = .regular

/-! ### The scope -/

/-- A scope systemd is asked to start: its name, its slice and the process to
move into it. -/
structure ScopeJob where
  scope : String
  slice : String
  pid : ℕ
  deriving DecidableEq

/-- The calls that build the message of `StartTransientUnit`. -/
def ScopeJob.message (job : ScopeJob) : List BusArg :=
  [.append "ss" [.str job.scope, .str "fail"],
   .openContainer 'a' "(sv)",
   -- the Slice property
   .openContainer 'r' "sv", .append "s" [.str "Slice"], .openContainer 'v' "s",
   .append "s" [.str job.slice], .closeContainer, .closeContainer,
   -- the PIDs property
   .openContainer 'r' "sv", .append "s" [.str "PIDs"], .openContainer 'v' "au",
   .openContainer 'a' "u", .append "u" [.u32 job.pid], .closeContainer, .closeContainer,
   .closeContainer,
   .closeContainer,
   .append "a(sa(sv))" [.u32 0]]

theorem message_inj {job job' : ScopeJob} (h : job.message = job'.message) : job = job' := by
  obtain ⟨scope, slice, pid⟩ := job
  obtain ⟨scope', slice', pid'⟩ := job'
  simp only [ScopeJob.message, List.cons.injEq, BusArg.append.injEq, BusVal.str.injEq,
    BusVal.u32.injEq, true_and, and_true] at h
  rw [h.1, h.2.1, h.2.2]

/-- Make the calls in turn; any failure is `goto out`. -/
def busAppendAll : List BusArg → Cmd Bool
  | [] => return true
  | arg :: args => do
    if ← perform (.busAppend arg) then busAppendAll args
    else return false

/-- `create_session_scope`: whether the request succeeded. -/
def createSessionScope (scopeName : String) (uid : Uid) (pid : ℕ) : Cmd Bool := do
  let (n, slice) := snprintf 64 ("user-" ++ numeral uid.toNat ++ ".slice")
  if n ≥ 64 then return false
  else if ← perform .busOpenSystem then
    if ← perform (.busNewMethodCall "StartTransientUnit") then
      let message := ScopeJob.message ⟨scopeName, slice, pid⟩
      if ← busAppendAll message then perform (.busCall "StartTransientUnit" message)
      else return false
    else return false
  else return false

/-! ### The entry point -/

/-- `check_pam_manage_user_slice`: the flag and the instance owner, if the
configuration could be fetched. -/
def checkPamManageUserSlice : Cmd (Option (Bool × Uid)) := do
  match ← perform (.fluxOpen none) with
  | .error _ => return none
  | .ok () =>
    let owner ← attrGetUid "security.owner"
    match ← perform (.configGet none) with
    | .error _ => return none
    | .ok config => return (unpackFlag "pam" "manage-user-slice" config).map (·, owner)

/-- The environment of the login shell, set after the lock is released. -/
def setEnvironment (uid : Uid) : Cmd PamRet := do
  let (n, xdg) := snprintf 64 ("XDG_RUNTIME_DIR=/run/user/" ++ numeral uid.toNat)
  if n ≥ 64 then return .PAM_SESSION_ERR
  else
    let (m, dbus) := snprintf 128
      ("DBUS_SESSION_BUS_ADDRESS=unix:path=/run/user/" ++ numeral uid.toNat ++ "/bus")
    if m ≥ 128 then return .PAM_SESSION_ERR
    else if ← perform (.pamPutenv xdg) then
      if ← perform (.pamPutenv dbus) then return .PAM_SUCCESS
      else return .PAM_SESSION_ERR
    else return .PAM_SESSION_ERR

/-- What is done with the lock held: the marker check and the scope request,
and the release of the lock on every path. -/
def attachLocked (user : String) (uid : Uid) (lockDir scopeName : String) (pid : ℕ) (fd : Fd) :
    Cmd PamRet := do
  if ← checkActiveMarker uid lockDir then
    if ← createSessionScope scopeName uid pid then
      userLockRelease fd
      setEnvironment uid
    else
      userLockRelease fd
      return .PAM_SESSION_ERR
  else
    sendDenialMsg user
    userLockRelease fd
    return .PAM_SESSION_ERR

/-- The session setup of a managed user, in a build with libsystemd. -/
def attachSession (opts : Options) (user : String) (uid : Uid) : Cmd PamRet := do
  let pid ← perform .getpid
  let (n, scopeName) := snprintf 128 (opts.scopePrefix ++ "-" ++ numeral pid ++ ".scope")
  if n ≥ 128 then return .PAM_SESSION_ERR
  else
    match ← userLockAcquire uid opts.lockDir with
    | none => return .PAM_SESSION_ERR
    | some fd => attachLocked user uid opts.lockDir scopeName pid fd

/-- The defaults of `pam_sm_open_session`. -/
def sessionDefaults : Options := ⟨false, false, "flux-pam", "/run/flux-pam"⟩

/-- The session setup once the user is known: who is not managed is admitted
without a scope. -/
def manageSession (libsystemd : Bool) (opts : Options) (user : String) (uid : Uid) : Cmd PamRet := do
  match ← checkPamManageUserSlice with
  | none => return .PAM_SESSION_ERR
  | some (manage, owner) =>
    if !manage then return .PAM_SUCCESS
    else if owner ≠ noUid ∧ uid = owner then return .PAM_SUCCESS
    else if libsystemd then attachSession opts user uid
    else
      sendDenialMsg user
      return .PAM_SESSION_ERR

/-- The session setup of a user the account module has let in. -/
def authorizedSession (libsystemd : Bool) (opts : Options) : Cmd PamRet := do
  match ← getPamUserUid with
  | none => return .PAM_SESSION_ERR
  | some (user, uid) => manageSession libsystemd opts user uid

/-- `pam_sm_open_session`; `libsystemd` is the build's `HAVE_LIBSYSTEMD`. -/
def pamSmOpenSession (libsystemd : Bool) (argv : List String) : Cmd PamRet :=
  match parseOptions sessionDefaults argv with
  | none => return .PAM_SESSION_ERR
  | some opts => do
    let service ← perform .pamGetService
    if service = some "systemd-user" then return .PAM_IGNORE
    else if ← perform (.pamGetData "pam_flux_authorized") then authorizedSession libsystemd opts
    else return .PAM_IGNORE

end FluxPam
