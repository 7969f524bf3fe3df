/-
# The prolog and housekeeping scripts

`main` of `flux-pam-prolog` and `flux-pam-housekeeping`: the exit status, for
an environment that names the job's user and id.
-/
import FluxPam.Helper

namespace FluxPam

open Interaction PAMHelper

variable (X : Externals) (fuel : ℕ)

/-- The user and job a script is run for; `none` where `main` reports a missing
or invalid variable. -/
def jobInfo (environ : Environ) : Option (ℤ × ℕ) := do
  let userid ← (environ "FLUX_JOB_USERID").bind pyInt
  let jobid ← (environ "FLUX_JOB_ID").bind X.jobID
  return (userid, jobid)

/-- The paths the build puts into the scripts. -/
structure Paths where
  systemctl : String
  loginctl : String

namespace Prolog

/-- The last part of the prolog: publish the marker, then try to start the user
manager. -/
def publish (helper : PAMHelper) : Py ℤ := do
  match ← attempt (setActiveMarker helper) with
  | .error _ => return 1
  | .ok () =>
    let _ ← attempt (userServiceStart helper)
    return 0

/-- The prolog after the linger check. -/
def constrain (helper : PAMHelper) : Py ℤ := do
  let (helper, _count) ← activeLocalJobs helper
  match ← attempt (applyResourceConstraints X helper true) with
  | .error _ => return 1
  | .ok () => publish helper

/-- The body of the `with` statement. -/
def body (helper : PAMHelper) : Py ℤ := do
  if ← shouldSkip helper then return 0
  else
    match ← attempt (checkLinger helper 30) with
    | .ok true => return 1
    | .ok false => constrain X helper
    | .error .timeoutExpired => return 1
    | .error (.valueError _) => return 1
    | .error e => throw e

def main (paths : Paths) (environ : Environ) : Cmd ℤ :=
  match jobInfo X environ with
  | none => pure 1
  | some (userid, jobid) => do
    match ← (withHelper X fuel environ userid jobid paths.systemctl paths.loginctl (body X)).run with
    | .ok status => return status
    | .error _ => return 1

end Prolog

namespace Housekeeping

/-- The body of the `with` statement. -/
def body (helper : PAMHelper) : Py ℤ := do
  if ← shouldSkip helper then return 0
  else
    let (helper, count) ← activeLocalJobs helper
    if count = 0 then
      userSliceTeardown fuel helper
      return 0
    else
      applyResourceConstraints X helper false
      return 0

/-- Housekeeping leaves `loginctl` at the helper's default, `/usr/bin/loginctl`. -/
def main (paths : Paths) (environ : Environ) : Cmd ℤ :=
  match jobInfo X environ with
  | none => pure 1
  | some (userid, jobid) => do
    match ← (withHelper X fuel environ userid jobid paths.systemctl "/usr/bin/loginctl"
        (body X fuel)).run with
    | .ok status => return status
    | .error _ => return 1

end Housekeeping

end FluxPam
