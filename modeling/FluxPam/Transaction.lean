/-
# The login transaction

A login of a job owner, through both entry points of the PAM module on one
handle: `pam_sm_acct_mgmt` leaves the sentinel, `pam_sm_open_session` finds it.
Whatever step fails, a managed user is let in only after the marker was seen
and the scope requested in one hold of the lock, and a lock that was taken is
given up once (`login_transaction`). What a run did with files, the lock and
the bus is its log (`noted`); everything else a session does is quiet.
-/
import FluxPam.Calls
import FluxPam.Names
import FluxPam.Interaction.Play

namespace FluxPam

open Interaction Interaction.Monitor

/-- The operations on the lock and the marker, and the request. -/
def noted : Op → Bool
  | .openFile _ _ _ | .flock _ _ | .close _ | .lstat _ | .unlink _ | .busCall _ _ => true
  | _ => false

/-- The lock is taken and given up. -/
def lockOp : Op → Bool
  | .flock _ _ | .close _ => true
  | _ => false

/-- What the world of a login answers: one handle, one user, who is not the
instance owner, and a configuration that has the user's slice managed. -/
structure Handle {σ : Type} (exec : σ → (o : Op) → Res o → σ → Prop) (uid : Uid) (pid : ℕ) where
  /-- the handle has the data `pam_flux_authorized` -/
  sentinel : σ → Prop
  set : ∀ s s', exec s (.pamSetData "pam_flux_authorized") true s' → sentinel s'
  get : ∀ s r s', exec s (.pamGetData "pam_flux_authorized") r s' → sentinel s → r = true
  keeps : ∀ s o r s', exec s o r s' → sentinel s → sentinel s'
  service : ∀ s r s', exec s .pamGetService r s' → r ≠ some "systemd-user"
  user : ∀ s name v s', exec s (.getpwnam name) (some v) s' → v = uid
  pid_eq : ∀ s r s', exec s .getpid r s' → r = pid
  managed : ∀ s config s', exec s (.configGet none) (.ok config) s' →
    (config.get? "pam").bind (Json.get? "manage-user-slice") = some (.bool true)
  owner : ∀ s text s', exec s (.attrGet "security.owner") (.ok text) s' →
    attrUid text ≠ noUid → uid ≠ attrUid text

/-- The log of a session that is let in: the lock is taken, the marker seen as a
regular file, the scope of the caller requested, and the lock given up. -/
def Admits (uid : Uid) (pid : ℕ) (lockDir : String) (log : List Event) : Prop :=
  ∃ scope fd r,
    log = [⟨.openFile (lockPath lockDir uid.toNat) [.O_CREAT, .O_RDWR, .O_NOFOLLOW] 0o600, .ok fd⟩,
      ⟨.flock fd .LOCK_EX, .ok ()⟩,
      ⟨.lstat (markerPath lockDir uid.toNat), .ok .regular⟩,
      ⟨.busCall "StartTransientUnit" (ScopeJob.message ⟨scope, sliceName uid.toNat, pid⟩), true⟩,
      ⟨.close fd, r⟩]

/-- What a log has of the lock. -/
def locks (log : List Event) : List Event := log.filter (lockOp ·.1)

/-- The log of a session that leaves no lock behind: where the lock was tried
for, the same descriptor is closed, once and last. -/
def Released (log : List Event) : Prop :=
  locks log = [] ∨ ∃ fd r r', locks log = [⟨.flock fd .LOCK_EX, r⟩, ⟨.close fd, r'⟩]

/-- What a session may return, with what it did. -/
structure FailClosed (libsystemd : Bool) (uid : Uid) (pid : ℕ) (lockDir : String) (ret : PamRet)
    (log : List Event) : Prop where
  managed : ret ≠ .PAM_IGNORE
  admits : ret = .PAM_SUCCESS → libsystemd = true ∧ Admits uid pid lockDir log
  released : Released log

/-- The monitor of a session's log. -/
abbrev sessionLog (answers : (o : Op) → Res o → Prop) : Monitor Op Res (List Event) := log noted answers

variable {answers : (o : Op) → Res o → Prop} {uid : Uid} {pid : ℕ} {lockDir : String}

theorem noted_of_talk (o : Op) (h : talk o) : noted o = false := by
  cases o <;> first | rfl | exact h.elim

/-! ### The session -/

section Session

variable {φ : List Event}

theorem released_nil : Released [] := .inl rfl

/-- A session that is denied and leaves no lock behind. -/
theorem FailClosed.denied {libsystemd : Bool} (h : Released φ) :
    FailClosed libsystemd uid pid lockDir .PAM_SESSION_ERR φ where
  managed := by decide
  admits h := by cases h
  released := h

/-- The log of taking the lock. -/
def taking (uid : Uid) (lockDir : String) (fd : Fd) (r : Except Errno Unit) : List Event :=
  [⟨.openFile (lockPath lockDir uid.toNat) [.O_CREAT, .O_RDWR, .O_NOFOLLOW] 0o600, .ok fd⟩,
    ⟨.flock fd .LOCK_EX, r⟩]

theorem log_userLockAcquire : (sessionLog answers).Accepts
    (fun r φ => (∀ fd, r = some fd → φ = taking uid lockDir fd (.ok ())) ∧ (r = none → Released φ))
    [] (userLockAcquire uid lockDir) := by
  have hnone : ∀ φ : List Event, Released φ →
      (∀ fd, (none : Option Fd) = some fd → φ = taking uid lockDir fd (.ok ())) ∧
        ((none : Option Fd) = none → Released φ) := by
    intro φ hφ
    refine ⟨fun fd h => ?_, fun _ => hφ⟩
    cases h
  unfold userLockAcquire
  refine ⟨trivial, fun r _ => ?_⟩
  rcases r with e | mode
  · exact hnone _ released_nil
  refine accepts_ite (fun _ => hnone _ released_nil) fun _ =>
    accepts_ite (fun _ => hnone _ released_nil) fun hn => ?_
  rw [if_pos (Nat.lt_of_not_le hn)]
  refine ⟨trivial, fun r _ => ?_⟩
  rcases r with e | fd
  · exact hnone _ released_nil
  refine ⟨trivial, fun r _ => ?_⟩
  rcases r with e | ⟨⟩
  · -- the lock is not acquired: the descriptor is closed
    exact ⟨trivial, fun r _ => hnone _ (.inr ⟨fd, .error e, r, rfl⟩)⟩
  · refine ⟨fun fd' h => ?_, fun h => ?_⟩
    · cases h
      rfl
    · cases h

theorem log_checkActiveMarker : (sessionLog answers).Accepts
    (fun b φ' => (b = true → φ' = φ ++ [⟨.lstat (markerPath lockDir uid.toNat), .ok .regular⟩]) ∧
      locks φ' = locks φ) φ (checkActiveMarker uid lockDir) := by
  unfold checkActiveMarker
  have hlocks : ∀ r, locks (φ ++ [⟨.lstat (markerPath lockDir uid.toNat), r⟩]) = locks φ := by
    intro r
    simp [locks, lockOp]
  refine accepts_ite (fun _ => ⟨fun h => ?_, rfl⟩) fun hn => ?_
  · cases h
  rw [if_pos (Nat.lt_of_not_le hn)]
  refine ⟨trivial, fun r _ => ?_⟩
  rcases r with e | kind
  · refine ⟨fun h => ?_, hlocks _⟩
    cases h
  · refine ⟨fun h => ?_, hlocks _⟩
    rw [← of_decide_eq_true h]
    rfl

theorem log_createSessionScope {scope : String} : (sessionLog answers).Accepts
    (fun b φ' => (b = true → φ' = φ ++
      [⟨.busCall "StartTransientUnit" (ScopeJob.message ⟨scope, sliceName uid.toNat, pid⟩), true⟩]) ∧
      locks φ' = locks φ) φ (createSessionScope scope uid pid) := by
  have hfail : (false = true → φ = φ ++
      [⟨.busCall "StartTransientUnit" (ScopeJob.message ⟨scope, sliceName uid.toNat, pid⟩), true⟩]) ∧
      locks φ = locks φ := by
    refine ⟨fun h => ?_, rfl⟩
    cases h
  have hlocks : ∀ args r, locks (φ ++ [⟨.busCall "StartTransientUnit" args, r⟩]) = locks φ := by
    intro args r
    simp [locks, lockOp]
  unfold createSessionScope
  refine accepts_ite (fun _ => hfail) fun hn => ?_
  rw [if_pos (Nat.lt_of_not_le hn)]
  refine ⟨trivial, fun r _ => ?_⟩
  cases r
  · exact hfail
  refine ⟨trivial, fun r _ => ?_⟩
  cases r
  · exact hfail
  refine (only_busAppendAll noted_of_talk _).log_of_only.bind fun b φ' hb => ?_
  obtain rfl : φ' = φ := hb.2
  cases b
  · exact hfail
  · refine ⟨trivial, fun r _ => ?_⟩
    cases r
    · refine ⟨fun h => ?_, hlocks _ _⟩
      cases h
    · exact ⟨fun _ => rfl, hlocks _ _⟩

theorem locks_close {ψ : List Event} {fd : Fd} {r r' : Except Errno Unit}
    (h : locks ψ = [⟨.flock fd .LOCK_EX, r⟩]) : Released (ψ ++ [⟨.close fd, r'⟩]) := by
  refine .inr ⟨fd, r, r', ?_⟩
  rw [locks, List.filter_append]
  exact congrArg (· ++ _) h

/-- With the lock held: whatever is found, the lock is released. -/
theorem log_attachLocked {user scope : String} {fd : Fd} : (sessionLog answers).Accepts
    (FailClosed true uid pid lockDir) (taking uid lockDir fd (.ok ()))
    (attachLocked user uid lockDir scope pid fd) := by
  have hdeny : ∀ φ : List Event, locks φ = locks (taking uid lockDir fd (.ok ())) →
      (sessionLog answers).Accepts (FailClosed true uid pid lockDir) φ
        (userLockRelease fd >>= fun _ => pure .PAM_SESSION_ERR) :=
    fun φ h => ⟨trivial, fun r _ => .denied (locks_close h)⟩
  refine log_checkActiveMarker.bind fun found φ ⟨hfound, hφ⟩ => ?_
  cases found
  · refine (only_sendDenialMsg noted_of_talk user).log_of_only.bind fun _ φ' h => ?_
    obtain rfl : φ' = φ := h.2
    exact hdeny φ' hφ
  · refine log_createSessionScope.bind fun requested φ' ⟨hrequested, hφ'⟩ => ?_
    cases requested
    · exact hdeny φ' (hφ'.trans hφ)
    · refine ⟨trivial, fun r _ => (only_setEnvironment noted_of_talk uid).log_of_only.mono ?_⟩
      rintro ret ψ ⟨hret, rfl⟩
      refine ⟨hret, fun _ => ⟨rfl, scope, fd, r, ?_⟩, locks_close (hφ'.trans hφ)⟩
      rw [hrequested rfl, hfound rfl]
      rfl

theorem log_attachSession (hpid : ∀ r, answers .getpid r → r = pid) {opts : Options} {user : String} :
    (sessionLog answers).Accepts (FailClosed true uid pid opts.lockDir) []
      (attachSession opts user uid) := by
  refine ⟨trivial, fun r hr => ?_⟩
  obtain rfl := hpid r hr
  refine accepts_ite (fun _ => .denied released_nil) fun _ => ?_
  refine log_userLockAcquire.bind fun fd φ ⟨hsome, hnone⟩ => ?_
  rcases fd with _ | fd
  · exact .denied (hnone rfl)
  · rw [hsome fd rfl]
    exact log_attachLocked

/-- A session without libsystemd is denied. -/
theorem log_attach (hpid : ∀ r, answers .getpid r → r = pid) {libsystemd : Bool} {opts : Options}
    {user : String} : (sessionLog answers).Accepts (FailClosed libsystemd uid pid opts.lockDir) []
      (if libsystemd then attachSession opts user uid
        else do sendDenialMsg user; return .PAM_SESSION_ERR) := by
  cases libsystemd
  · refine (only_sendDenialMsg noted_of_talk user).log_of_only.bind fun _ φ h => ?_
    rw [h.2]
    exact .denied released_nil
  · exact log_attachSession hpid

end Session

/-! ### Both entry points -/

section Transaction

variable {σ : Type} {exec : σ → (o : Op) → Res o → σ → Prop} {X : Externals}

/-- A run of `pam_sm_acct_mgmt` that gets to `flux_check_user`, which classifies
the user as `auth`. -/
def Classified (exec : σ → (o : Op) → Res o → σ → Prop) (X : Externals) (argv : List String)
    (auth : FluxAuth) (s : σ) (t : List Event) (ret : PamRet) (s' : σ) : Prop :=
  ∃ user uid opts t₁ s₁ t₂ s₂ t₃, Prog.Runs exec (acctPrelude argv) s t₁ (.inr (user, uid, opts)) s₁ ∧
    Prog.Runs exec (fluxCheckUser X opts uid) s₁ t₂ auth s₂ ∧
    Prog.Runs exec (acctResult user auth) s₂ t₃ ret s' ∧ t = t₁ ++ (t₂ ++ t₃)

/-- A job owner who is let in has the sentinel. -/
theorem Classified.sentinel (H : Handle exec uid pid) {argv : List String} {s s' : σ} {t : List Event}
    (h : Classified exec X argv .jobOwner s t .PAM_SUCCESS s') : H.sentinel s' := by
  obtain ⟨user, uid', opts, t₁, s₁, t₂, s₂, t₃, -, -, h, -⟩ := h
  obtain ⟨r, s₃, t', he, -, h⟩ := h
  cases r
  · obtain ⟨-, h, -⟩ := h
    cases h
  · obtain ⟨-, -, rfl⟩ := h
    exact H.set s₂ s' he

/-- What a login is answered. -/
def loginAnswers (uid : Uid) (pid : ℕ) : (o : Op) → Res o → Prop
  | .getpid, r => r = pid
  | .getpwnam _, r => ∀ v, r = some v → v = uid
  | .configGet none, r => ∀ config, r = .ok config →
    unpackFlag "pam" "manage-user-slice" config = some true
  | .attrGet "security.owner", r => ∀ text, r = .ok text → attrUid text ≠ noUid → uid ≠ attrUid text
  | _, _ => True

theorem Handle.answered (H : Handle exec uid pid) (s : σ) (o : Op) (r : Res o) (s' : σ)
    (h : exec s o r s') : loginAnswers uid pid o r := by
  unfold loginAnswers
  split
  · exact H.pid_eq s _ s' h
  · rintro v rfl
    exact H.user s _ v s' h
  · rintro config rfl
    exact unpackFlag_of_get (H.managed s config s' h)
  · rintro text rfl
    exact H.owner s text s' h
  · trivial

/-- A managed user's session, who is not the owner. -/
theorem log_manageSession {libsystemd : Bool} {opts : Options} {user : String} :
    (sessionLog (loginAnswers uid pid)).Accepts (FailClosed libsystemd uid pid opts.lockDir) []
      (manageSession libsystemd opts user uid) := by
  refine (only_checkPamManageUserSlice noted_of_talk).log_of_only.bind fun found φ ⟨hfound, hφ⟩ => ?_
  subst hφ
  rcases found with _ | ⟨manage, owner⟩
  · exact .denied released_nil
  obtain ⟨⟨config, hconfig, hflag⟩, howner⟩ := hfound manage owner rfl
  obtain rfl : manage = true := Option.some.inj (hflag.symm.trans (hconfig config rfl))
  have hne : ¬ (owner ≠ noUid ∧ uid = owner) := by
    rintro ⟨hno, hu⟩
    rcases howner with h | ⟨text, htext, rfl⟩
    · exact hno h
    · exact htext text rfl hno hu
  exact accepts_ite (fun h => absurd h (by decide)) fun _ => accepts_ite (fun h => absurd h hne) fun _ =>
    log_attach fun r hr => hr

theorem log_authorizedSession {libsystemd : Bool} {opts : Options} :
    (sessionLog (loginAnswers uid pid)).Accepts (FailClosed libsystemd uid pid opts.lockDir) []
      (authorizedSession libsystemd opts) := by
  refine Accepts.bind (Accepts.log_of_only
    (only_getPamUserUid (U := (· = uid)) rfl (fun _ => rfl) fun _ v h => h v rfl)) fun r φ h => ?_
  obtain ⟨huser, rfl⟩ := h
  rcases r with _ | ⟨user, uid'⟩
  · exact .denied released_nil
  · obtain rfl := huser user uid' rfl
    exact log_manageSession

/-- What a session on the handle comes to, whatever its options are. -/
def SessionOutcome (libsystemd : Bool) (uid : Uid) (pid : ℕ) (argv : List String) (ret : PamRet)
    (log : List Event) : Prop :=
  match parseOptions sessionDefaults argv with
  | none => ret = .PAM_SESSION_ERR ∧ log = []
  | some opts => FailClosed libsystemd uid pid opts.lockDir ret log

/-- The session's run on a handle with the sentinel, with what it noted. -/
theorem session_outcome (H : Handle exec uid pid) {libsystemd : Bool} {argv : List String} {s s' : σ}
    {t : List Event} {ret : PamRet} (hs : H.sentinel s)
    (h : Prog.Runs exec (pamSmOpenSession libsystemd argv) s t ret s') :
    SessionOutcome libsystemd uid pid argv ret (t.filter (noted ·.1)) := by
  unfold SessionOutcome
  unfold pamSmOpenSession at h
  cases hopts : parseOptions sessionDefaults argv with
  | none =>
    rw [hopts] at h
    obtain ⟨rfl, rfl, -⟩ := h
    exact ⟨rfl, rfl⟩
  | some opts =>
    rw [hopts] at h
    obtain ⟨service, s₁, t₁, hservice, rfl, h⟩ := h
    change Prog.Runs exec (if service = some "systemd-user" then _ else _) s₁ t₁ ret s' at h
    rw [if_neg (H.service s service s₁ hservice)] at h
    obtain ⟨r, s₂, t₂, hdata, rfl, h⟩ := h
    obtain rfl : r = true := H.get s₁ r s₂ hdata (H.keeps s _ service s₁ hservice hs)
    exact log_authorizedSession.filter_of_runs (t := t₂) (h.answered H.answered) h

/-- **A login fails closed.** A job owner whose slice is managed and who is not
the instance owner is refused by `pam_sm_acct_mgmt`, or a session on the handle
ends as `SessionOutcome` says. -/
theorem login_transaction (H : Handle exec uid pid) (libsystemd : Bool) (argv argv' : List String)
    {s s₁ s₂ s' : σ} {t t' : List Event} {ret ret' : PamRet}
    (hacct : Classified exec X argv .jobOwner s t ret s₁) (hgap : H.sentinel s₁ → H.sentinel s₂)
    (hsession : Prog.Runs exec (pamSmOpenSession libsystemd argv') s₂ t' ret' s') :
    ret ≠ .PAM_SUCCESS ∨ SessionOutcome libsystemd uid pid argv' ret' (t'.filter (noted ·.1)) := by
  by_cases hret : ret = .PAM_SUCCESS
  · subst hret
    exact .inr (session_outcome H (hgap (hacct.sentinel H)) hsession)
  · exact .inl hret

/-- The node of a login that succeeds: a job of the user 1000 runs on it, whose
marker is there. The state is whether the handle has the sentinel. -/
def answerLogin (sentinel : Bool) : (o : Op) → Option (Res o × Bool)
  | .pamGetUser => some (.ok (some "alice"), sentinel)
  | .getpwnam _ => some (some 1000, sentinel)
  | .pamGetService => some (some "sshd", sentinel)
  | .fluxOpen _ => some (.ok (), sentinel)
  | .getRank => some (.ok 0, sentinel)
  | .jobListRpc _ _ _ => some (.ok (.obj [("jobs", .arr [
      .obj [("userid", .int 1000), ("ranks", .str "0")]])]), sentinel)
  | .pamSetData _ => some (true, true)
  | .pamGetData _ => some (sentinel, sentinel)
  | .attrGet _ => some (.ok "100", sentinel)
  | .configGet _ => some (.ok (.obj [("pam", .obj [("manage-user-slice", .bool true)])]), sentinel)
  | .getpid => some (7, sentinel)
  | .stat _ => some (.ok 0o755, sentinel)
  | .openFile path _ _ => some (.ok ⟨path⟩, sentinel)
  | .flock _ _ => some (.ok (), sentinel)
  | .close _ => some (.ok (), sentinel)
  | .lstat _ => some (.ok .regular, sentinel)
  | .busOpenSystem => some (true, sentinel)
  | .busNewMethodCall _ => some (true, sentinel)
  | .busAppend _ => some (true, sentinel)
  | .busCall _ _ => some (true, sentinel)
  | .pamPutenv _ => some (true, sentinel)
  | _ => none

/-- What may happen on that node. -/
def execLogin (s : Bool) (o : Op) (r : Res o) (s' : Bool) : Prop := answerLogin s o = some (r, s')

def handleLogin : Handle execLogin 1000 7 where
  sentinel s := s = true
  set s s' h := by cases h; rfl
  get s r s' h hs := by cases h; exact hs
  keeps s o r s' h hs := by
    subst hs
    cases o <;> first | (cases h; done) | (cases h; rfl)
  service s r s' h := by cases h; decide
  user s name v s' h := by cases h; rfl
  pid_eq s r s' h := by cases h; rfl
  managed s config s' h := by cases h; rfl
  owner s text s' h := by cases h; intro _; decide

theorem serves_login : Serves answerLogin execLogin fun _ => True :=
  ⟨fun _ _ _ _ _ h => h, fun _ _ _ _ _ _ => trivial⟩

/-- The login of the job owner 1000 on that node is let in. -/
theorem login_transaction_small : ∃ t, Prog.Runs execLogin (pamSmOpenSession true []) true t .PAM_SUCCESS true ∧
    (PamRet.PAM_SUCCESS ≠ .PAM_SUCCESS ∨
      SessionOutcome true 1000 7 [] .PAM_SUCCESS (t.filter (noted ·.1))) := by
  have hprelude : ∃ t, Prog.Runs execLogin (acctPrelude []) false t
      (.inr ("alice", 1000, ⟨false, false, "", ""⟩)) false := ⟨_, serves_login.runs (n := 20) trivial rfl⟩
  have hcheck : ∃ t, Prog.Runs execLogin (fluxCheckUser .single ⟨false, false, "", ""⟩ 1000) false t
      .jobOwner false := ⟨_, serves_login.runs (n := 20) trivial rfl⟩
  have hacct : ∃ t, Prog.Runs execLogin (acctResult "alice" .jobOwner) false t .PAM_SUCCESS true :=
    ⟨_, serves_login.runs (n := 20) trivial rfl⟩
  have hsession : ∃ t, Prog.Runs execLogin (pamSmOpenSession true []) true t .PAM_SUCCESS true :=
    ⟨_, serves_login.runs (n := 60) trivial rfl⟩
  obtain ⟨t₁, h₁⟩ := hprelude
  obtain ⟨t₂, h₂⟩ := hcheck
  obtain ⟨t₃, h₃⟩ := hacct
  obtain ⟨t, h⟩ := hsession
  exact ⟨t, h, login_transaction (X := .single) handleLogin true [] []
    ⟨_, _, _, t₁, _, t₂, _, t₃, h₁, h₂, h₃, rfl⟩ id h⟩

end Transaction

end FluxPam
