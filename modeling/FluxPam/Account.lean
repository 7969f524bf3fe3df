/-
# The account module (`pam_sm_acct_mgmt`)

Who may log in: `flux_check_user` asks `job-list` for the running jobs on this
node of the user, and with `allow-guest-user` of the instance owner, and
`check_jobs_array` classifies the login by the first entry that grants
anything. A job owner is recorded by the sentinel `pam_flux_authorized` for
the session module.
-/
import FluxPam.Ops

namespace FluxPam

open Interaction

/-- `uid_t`. -/
abbrev Uid := BitVec 32

/-- `(uid_t) -1`. -/
def noUid : Uid := BitVec.ofInt 32 (-1)

inductive PamRet where
  | PAM_SUCCESS
  | PAM_IGNORE
  | PAM_PERM_DENIED
  | PAM_SYSTEM_ERR
  | PAM_SESSION_ERR
  | PAM_USER_UNKNOWN
  deriving DecidableEq

/-- `flux_auth_t`. -/
inductive FluxAuth where
  | denied
  | jobOwner
  | guest
  deriving DecidableEq

/-- `struct options`. -/
structure Options where
  allowGuestUser : Bool
  debug : Bool
  scopePrefix : String
  lockDir : String

/-- `s` without the prefix `pre`, if it has it (`strncmp` and an offset). -/
def afterPrefix (pre s : String) : Option String :=
  if pre.toList.isPrefixOf s.toList then some (String.ofList (s.toList.drop pre.toList.length))
  else none

def parseOptions (opts : Options) : List String → Option Options
  | [] => some opts
  | arg :: argv =>
    if arg = "allow-guest-user" then parseOptions { opts with allowGuestUser := true } argv
    else if arg = "debug" then parseOptions { opts with debug := true } argv
    else match afterPrefix "scope-prefix=" arg with
      | some scopePrefix => parseOptions { opts with scopePrefix } argv
      | none => match afterPrefix "lock-dir=" arg with
        | some lockDir => parseOptions { opts with lockDir } argv
        | none => none

/-! ### Guests -/

/-- `ssh://host/path` becomes `local:///path`. -/
def uriToLocal (uri : String) : Option String :=
  match afterPrefix "ssh://" uri with
  | none => none
  | some rest =>
    match rest.toList.dropWhile (· ≠ '/') with
    | [] => none
    | p => some ("local://" ++ String.ofList p)

/-- The format `{s?{s?b}}` of two nested keys: the boolean found, if any. -/
def unpackFlag (table key : String) (v : Json) : Option Bool :=
  (Json.optField table (Json.optField key Json.asBool) v).map fun r => (r.bind id).getD false

theorem unpackFlag_of_get {table key : String} {config : Json} {b : Bool}
    (h : (config.get? table).bind (Json.get? key) = some (.bool b)) :
    unpackFlag table key config = some b := by
  have hobj : ∀ {key : String} {v x : Json}, v.get? key = some x → v.isObj = true := by
    intro key v x h
    cases v <;> first | rfl | cases h
  obtain ⟨v, hv, hb⟩ := Option.bind_eq_some_iff.mp h
  simp only [unpackFlag, Json.optField_eq (hobj hv), hv, Json.optField_eq (hobj hb), hb]
  rfl

def checkGuestAllowed : Option String → Cmd Bool
  | none => pure false
  | some uri =>
    match uriToLocal uri with
    | none => pure false
    | some localUri => do
      match ← perform (.fluxOpen (some localUri)) with
      | .error _ => return false
      | .ok () =>
        match ← perform (.configGet (some localUri)) with
        | .error _ => return false
        | .ok config => return (unpackFlag "access" "allow-guest-user" config).getD false

/-! ### The job list -/

/-- What `check_jobs_array` reads of an entry, by the format
`{s:i s:s s?{s?{s?s}}}`. -/
structure JobEntry where
  userid : Uid
  ranks : String
  uri : Option String

def unpackEntry (entry : Json) : Option JobEntry := do
  let userid ← Json.reqField "userid" Json.asInt entry
  let ranks ← Json.reqField "ranks" Json.asStr entry
  let annotations ← Json.optField "annotations" (Json.optField "user" (Json.optField "uri" Json.asStr))
    entry
  return { userid, ranks, uri := (annotations.bind id).bind id }

variable (X : Externals)

/-- `idset_first`. -/
def idsetFirst (ids : List ℕ) : ℕ := ids.min?.getD X.IDSET_INVALID_ID

/-- Whether an entry of `allow_if_user` lets a guest in. -/
def guestGranted (rank : ℕ) (job : JobEntry) : Cmd Bool :=
  match X.idsetDecode job.ranks with
  | none => pure false
  | some ids => if rank = idsetFirst X ids then checkGuestAllowed job.uri else pure false

def checkJobsArray (rank : ℕ) (uid allowIfUser : Uid) : List Json → Cmd FluxAuth
  | [] => return .denied
  | entry :: jobs =>
    match unpackEntry entry with
    | none => return .denied
    | some job =>
      if job.userid = uid then return .jobOwner
      else if job.userid = allowIfUser then do
        if ← guestGranted X rank job then return .guest
        else checkJobsArray rank uid allowIfUser jobs
      else checkJobsArray rank uid allowIfUser jobs

/-- The value `attr_get_uid` returns for an attribute's text. -/
def attrUid (s : String) : Uid :=
  match strtol s.toList with
  | (i, errno, rest) => if errno = true ∨ rest ≠ [] then noUid else BitVec.ofInt 32 i

def attrGetUid (name : String) : Cmd Uid := do
  match ← perform (.attrGet name) with
  | .error _ => return noUid
  | .ok s => return attrUid s

/-- The elements `json_array_foreach` visits. -/
def arrayElems : Json → List Json
  | .arr vs => vs
  | _ => []

/-- Whose jobs grant guest access: the instance owner's, or, without
`allow-guest-user` or a readable owner, nobody else's than the user's own. -/
def allowIfUser (opts : Options) (uid : Uid) : Cmd Uid := do
  if opts.allowGuestUser then
    let owner ← attrGetUid "security.owner"
    if owner ≠ noUid then return owner else return uid
  else return uid

def fluxCheckUser (opts : Options) (uid : Uid) : Cmd FluxAuth := do
  match ← perform (.fluxOpen none) with
  | .error _ => return .denied
  | .ok () =>
    match ← perform .getRank with
    | .error _ => return .denied
    | .ok rank =>
      let allow ← allowIfUser opts uid
      let (n, rankstr) := snprintf 16 (numeral rank)
      if n ≥ 16 then return .denied
      else
        match ← perform (.jobListRpc uid allow rankstr) with
        | .error _ => return .denied
        | .ok payload =>
          match Json.reqField "jobs" some payload with
          | none => return .denied
          | some jobs => checkJobsArray X rank uid allow (arrayElems jobs)

/-! ### The entry point -/

/-- `send_denial_msg`; `PAM_MAX_MSG_SIZE` is 512. -/
def sendDenialMsg (user : String) : Cmd Unit := do
  if ← perform .pamGetConv then
    let (_, str) := snprintf 512 ("Access denied: user " ++ user ++ " has no active jobs on this node")
    perform (.pamConverse str)
  else return ()

/-- `get_pam_user_uid`; `none` is its failure. -/
def getPamUserUid : Cmd (Option (String × Uid)) := do
  match ← perform .pamGetUser with
  | .error () => return none
  | .ok none => return none
  | .ok (some user) =>
    if user = "" then return none
    else
      match ← perform (.getpwnam user) with
      | none => return none
      | some uid => return some (user, uid)

/-- What `pam_sm_acct_mgmt` does with the classification. -/
def acctResult (user : String) : FluxAuth → Cmd PamRet
  | .denied => do
    sendDenialMsg user
    return .PAM_PERM_DENIED
  | .guest => return .PAM_SUCCESS
  | .jobOwner => do
    if ← perform (.pamSetData "pam_flux_authorized") then return .PAM_SUCCESS
    else return .PAM_SYSTEM_ERR

/-- `pam_sm_acct_mgmt` up to the classification: its return value if it returns
before, else the user, the uid and the options. -/
def acctPrelude (argv : List String) : Cmd (PamRet ⊕ (String × Uid × Options)) := do
  match ← getPamUserUid with
  | none => return .inl .PAM_USER_UNKNOWN
  | some (user, uid) =>
    match parseOptions ⟨false, false, "", ""⟩ argv with
    | none => return .inl .PAM_SYSTEM_ERR
    | some opts =>
      let service ← perform .pamGetService
      if service = some "systemd-user" then return .inl .PAM_IGNORE
      else return .inr (user, uid, opts)

def pamSmAcctMgmt (argv : List String) : Cmd PamRet := do
  match ← acctPrelude argv with
  | .inl ret => return ret
  | .inr (user, uid, opts) =>
    let result ← fluxCheckUser X opts uid
    acctResult user result

end FluxPam
