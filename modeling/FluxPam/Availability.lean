/-
# Nothing fails by itself

The programs are strict about what they are answered; this says that they are
not stricter. A step is *granted* if it is answered as the program hopes, where
a failure the program tolerates counts as granted. A script that got the lock
and was granted every step exits with 0, and a session that was granted every
step is let in (`granted_succeeds`). With what every run keeps, a user with a
running job whose prolog succeeded is let in unless a step fails
(`login_available`): the gate that is closed to others is open to them.
-/
import FluxPam.FailClosed
import FluxPam.Cleanup
import FluxPam.Progress
import FluxPam.Interaction.Project
import FluxPam.Interaction.Given

namespace FluxPam

open Interaction Monitor Prog PAMHelper

/-! ### Granted steps -/

/-- A command that succeeded, or whose failure is tolerated; the linger check
found linger off. -/
def grantedCommand : Option World.Command → Except RunError String → Prop
  | some (.start _), _ => True
  | some (.stop _), r => (∃ out, r = .ok out) ∨ ∃ code stderr, r = .error (.calledProcess code stderr)
  | some (.revert _), r => (∃ out, r = .ok out) ∨ ∃ code stderr, r = .error (.calledProcess code stderr)
  | some .showUser, r => lingerOff r
  | _, r => ∃ out, r = .ok out

/-- The step is answered as the program hopes. Processes that outlive `SIGTERM`
are not hoped for. -/
def granted : (o : Op) → Res o → Prop
  | .lstat _, r => r = .ok .regular
  | .stat _, r => ∃ mode, r = .ok mode ∧ mode &&& 0o022 = 0
  | .openFile _ _ _, r => ∃ fd, r = .ok fd
  | .close _, r => r = .ok ()
  | .flock _ .LOCK_EX_NB, r => r = .ok () ∨ r = .error .EWOULDBLOCK
  | .flock _ _, r => r = .ok ()
  | .unlink _, r => r = .ok () ∨ r = .error .ENOENT
  | .run argv _, r => "--signal=SIGKILL" ∉ argv ∧ grantedCommand (World.decode argv) r
  | .fluxOpen _, r => r = .ok ()
  | .attrGet _, r => ∃ text, r = .ok text
  | .jobList _ _, r => ∃ ids, r = .ok ids
  | .kvsLookupR _, r => ∃ results, r = .ok (results, [])
  | .mapperLookup _, r => ∃ props, r = .ok (some props)
  | .configGet _, r => ∃ config, r = .ok config
  | .pamGetUser, r => ∃ user, user ≠ "" ∧ r = .ok (some user)
  | .pamGetService, r => r ≠ some "systemd-user"
  | .pamGetData _, r => r = true
  | .pamPutenv _, r => r = true
  | .getpwnam _, r => r.isSome = true
  | .busOpenSystem, r => r = true
  | .busNewMethodCall _, r => r = true
  | .busAppend _, r => r = true
  | .busCall _ _, r => r = true
  | _, _ => True

instance decidableOk {α ε : Type} : (r : Except ε α) → Decidable (∃ a, r = .ok a)
  | .ok a => .isTrue ⟨a, rfl⟩
  | .error _ => .isFalse fun ⟨_, h⟩ => by cases h

instance : (r : Except RunError String) →
    Decidable ((∃ out, r = .ok out) ∨ ∃ code stderr, r = .error (.calledProcess code stderr))
  | .ok out => .isTrue (.inl ⟨out, rfl⟩)
  | .error (.calledProcess code stderr) => .isTrue (.inr ⟨code, stderr, rfl⟩)
  | .error .timeout => .isFalse (by rintro (⟨_, ⟨⟩⟩ | ⟨_, _, ⟨⟩⟩))
  | .error (.os _) => .isFalse (by rintro (⟨_, ⟨⟩⟩ | ⟨_, _, ⟨⟩⟩))

instance : (r : Except RunError String) → Decidable (lingerOff r)
  | .ok _ => inferInstanceAs (Decidable (_ = _))
  | .error (.calledProcess _ _) => inferInstanceAs (Decidable (_ = _))
  | .error .timeout => .isFalse id
  | .error (.os _) => .isFalse id

instance : (cmd : Option World.Command) → (r : Except RunError String) →
    Decidable (grantedCommand cmd r)
  | some (.start _), _ => .isTrue trivial
  | some (.stop _), r => inferInstanceAs (Decidable ((∃ out, r = .ok out) ∨ _))
  | some (.revert _), r => inferInstanceAs (Decidable ((∃ out, r = .ok out) ∨ _))
  | some .showUser, r => inferInstanceAs (Decidable (lingerOff r))
  | some (.kill _), r => inferInstanceAs (Decidable (∃ out, r = .ok out))
  | some (.setProperty _ _), r => inferInstanceAs (Decidable (∃ out, r = .ok out))
  | none, r => inferInstanceAs (Decidable (∃ out, r = .ok out))

instance : (o : Op) → (r : Res o) → Decidable (granted o r)
  | .lstat _, r => inferInstanceAs (Decidable (r = .ok .regular))
  | .stat _, .ok mode => decidable_of_iff (mode &&& 0o022 = 0)
    ⟨fun h => ⟨mode, rfl, h⟩, fun ⟨_, hr, h⟩ => by cases hr; exact h⟩
  | .stat _, .error _ => .isFalse (by rintro ⟨_, ⟨⟩, _⟩)
  | .openFile _ _ _, r => inferInstanceAs (Decidable (∃ fd, r = .ok fd))
  | .close _, r => inferInstanceAs (Decidable (r = .ok ()))
  | .flock _ .LOCK_EX_NB, r => inferInstanceAs (Decidable (r = .ok () ∨ r = .error .EWOULDBLOCK))
  | .flock _ .LOCK_EX, r => inferInstanceAs (Decidable (r = .ok ()))
  | .flock _ .LOCK_UN, r => inferInstanceAs (Decidable (r = .ok ()))
  | .unlink _, r => inferInstanceAs (Decidable (r = .ok () ∨ r = .error .ENOENT))
  | .run argv _, r => inferInstanceAs
    (Decidable ("--signal=SIGKILL" ∉ argv ∧ grantedCommand (World.decode argv) r))
  | .fluxOpen _, r => inferInstanceAs (Decidable (r = .ok ()))
  | .attrGet _, r => inferInstanceAs (Decidable (∃ text, r = .ok text))
  | .jobList _ _, r => inferInstanceAs (Decidable (∃ ids, r = .ok ids))
  | .kvsLookupR _, .ok (results, []) => .isTrue ⟨results, rfl⟩
  | .kvsLookupR _, .ok (_, _ :: _) => .isFalse (by rintro ⟨_, ⟨⟩⟩)
  | .kvsLookupR _, .error _ => .isFalse (by rintro ⟨_, ⟨⟩⟩)
  | .mapperLookup _, .ok (some props) => .isTrue ⟨props, rfl⟩
  | .mapperLookup _, .ok none => .isFalse (by rintro ⟨_, ⟨⟩⟩)
  | .mapperLookup _, .error _ => .isFalse (by rintro ⟨_, ⟨⟩⟩)
  | .configGet _, r => inferInstanceAs (Decidable (∃ config, r = .ok config))
  | .pamGetUser, .ok (some user) => decidable_of_iff (user ≠ "")
    ⟨fun h => ⟨user, h, rfl⟩, fun ⟨_, h, hr⟩ => by cases hr; exact h⟩
  | .pamGetUser, .ok none => .isFalse (by rintro ⟨_, _, ⟨⟩⟩)
  | .pamGetUser, .error _ => .isFalse (by rintro ⟨_, _, ⟨⟩⟩)
  | .pamGetService, r => inferInstanceAs (Decidable (r ≠ some "systemd-user"))
  | .pamGetData _, r => inferInstanceAs (Decidable (r = true))
  | .pamPutenv _, r => inferInstanceAs (Decidable (r = true))
  | .getpwnam _, r => inferInstanceAs (Decidable (r.isSome = true))
  | .busOpenSystem, r => inferInstanceAs (Decidable (r = true))
  | .busNewMethodCall _, r => inferInstanceAs (Decidable (r = true))
  | .busAppend _, r => inferInstanceAs (Decidable (r = true))
  | .busCall _ _, r => inferInstanceAs (Decidable (r = true))
  | .time, _ | .sleep _, _ | .getpid, _ | .makedirs _ _, _ | .pathExists _, _ | .walk _, _
  | .readLines _, _ | .getRank, _ | .confGet _, _ | .jobListRpc _ _ _, _ | .pamGetConv, _
  | .pamConverse _, _ | .pamSetData _, _ | .stuck, _ => .isTrue trivial

/-- What the node is configured with can be read. -/
structure Setting.Sound (K : Setting) : Prop where
  owner : (pyInt (K.attrs "security.owner")).isSome = true
  flag : (unpackFlag "pam" "manage-user-slice" K.conf).isSome = true
  systemctl : isabs K.paths.systemctl = true
  loginctl : isabs K.paths.loginctl = true
  decodes : ∀ j, ∃ rset, K.X.resourceSet (K.R j) = .ok rset

variable {K : Setting} {p : Pid} {α β : Type}

variable (K p) in
/-- The answers of a process that is granted every step. -/
abbrev grants (o : Op) (r : Res o) : Prop := K.answers p o r ∧ granted o r

/-! ### The helper -/

/-- Nothing is claimed of what a program returns. -/
theorem given_true : ∀ x : Cmd α, Given (grants K p) (fun _ => True) x
  | .pure _ => trivial
  | .op _ k => ⟨trivial, fun r _ => given_true (k r)⟩

theorem given_runSubprocess {arg : String} {rest : List String} {timeout : ℚ} (habs : isabs arg = true) :
    Given (grants K p)
      (fun r => ∃ a, grantedCommand (World.decode (arg :: rest)) a ∧ r = a.mapError RunError.toExn)
      (runSubprocess (arg :: rest) timeout).run := by
  rw [runSubprocess, if_pos habs]
  exact ⟨trivial, fun r hr => ⟨r, hr.2.2, rfl⟩⟩

/-- A command that is to succeed. -/
theorem returns_runSubprocess {arg : String} {rest : List String} {timeout : ℚ} (habs : isabs arg = true)
    (h : ∀ r, grantedCommand (World.decode (arg :: rest)) r → ∃ out, r = .ok out) :
    Returns (grants K p) (fun _ => True) (runSubprocess (arg :: rest) timeout) := by
  refine Accepts.mono ?_ (given_runSubprocess habs)
  rintro _ _ ⟨a, ha, rfl⟩
  obtain ⟨out, rfl⟩ := h a ha
  exact ⟨out, rfl, trivial⟩

/-- A command whose non-zero exit is tolerated. -/
theorem returns_tolerating {arg : String} {rest : List String} {timeout : ℚ} (habs : isabs arg = true)
    (h : ∀ r, grantedCommand (World.decode (arg :: rest)) r →
      (∃ out, r = .ok out) ∨ ∃ code stderr, r = .error (.calledProcess code stderr)) :
    Returns (grants K p) (fun _ => True) (tolerating (runSubprocess (arg :: rest) timeout)) := by
  refine Accepts.attemptBind (given_runSubprocess habs) ?_
  rintro _ _ ⟨a, ha, rfl⟩
  rcases h a ha with ⟨out, rfl⟩ | ⟨code, stderr, rfl⟩
  · exact returns_pure trivial
  · exact returns_pure trivial

section Helper

variable {self : PAMHelper} {j : ℕ}

theorem returns_shouldSkip (hK : K.Sound) :
    Returns (grants K p) (fun _ => True) (shouldSkip self) := by
  refine Returns.bind (R := fun _ => True) ⟨trivial, fun r hr => ?_⟩ fun owner _ => ?_
  · obtain ⟨text, rfl⟩ := hr.2
    obtain rfl := hr.1 text rfl
    obtain ⟨owner, howner⟩ := Option.isSome_iff_exists.mp hK.owner
    change Given (grants K p) _ (intOf (K.attrs "security.owner")).run
    rw [intOf, howner]
    exact returns_pure trivial
  · exact accepts_iteExcept (fun _ => returns_pure trivial) fun _ => returns_pure trivial

theorem lingerOutput_of_off {stdout : String} (h : lingerOff (.ok stdout)) :
    lingerOutput stdout = .ok false := by
  rw [lingerOff] at h
  simp [lingerOutput, h]

theorem lingerFailure_of_off {code : ℤ} {stderr : String}
    (h : lingerOff (.error (.calledProcess code stderr))) : lingerFailure stderr = .ok false := by
  rw [lingerOff] at h
  simp [lingerFailure, h]

theorem returns_checkLinger {timeout : ℚ} (habs : isabs self.loginctl = true) :
    Returns (grants K p) (· = false) (checkLinger self timeout) := by
  refine Accepts.attemptBind (given_runSubprocess habs) ?_
  rintro _ _ ⟨a, hoff, rfl⟩
  change lingerOff a at hoff
  rcases a with e | stdout
  · cases e with
    | calledProcess code stderr => exact returns_mk (lingerFailure_of_off hoff) rfl
    | _ => exact hoff.elim
  · exact returns_mk (lingerOutput_of_off hoff) rfl

theorem returns_activeLocalJobs : Returns (grants K p)
    (fun x => ∃ ids, x.1 = { self with cachedJobids := some ids } ∧ x.2 = ids.length)
    (activeLocalJobs self) := by
  refine ⟨trivial, fun r hr => ?_⟩
  obtain ⟨ids, rfl⟩ := hr.2
  exact ⟨_, rfl, _, rfl, rfl⟩

/-- A union of resource sets that decode. -/
theorem unionLoop_of_decodes {X : Externals} : ∀ {Rs : List String} {acc : Option X.RSet},
    (∀ R ∈ Rs, ∃ rset, X.resourceSet R = .ok rset) → (Rs ≠ [] ∨ acc ≠ none) →
      ∃ union, unionLoop X acc Rs = .ok (some union)
  | [], none, _, h => absurd h (by simp)
  | [], some acc, _, _ => ⟨acc, rfl⟩
  | R :: Rs, acc, hR, _ => by
    obtain ⟨rset, hrset⟩ := hR R List.mem_cons_self
    have hrest : ∀ S ∈ Rs, ∃ rset, X.resourceSet S = .ok rset := fun S hS =>
      hR S (List.mem_cons_of_mem _ hS)
    rw [unionLoop, hrset]
    cases acc with
    | none => exact unionLoop_of_decodes hrest (.inr (Option.some_ne_none _))
    | some acc => exact unionLoop_of_decodes hrest (.inr (Option.some_ne_none _))

theorem returns_unionOf (hK : K.Sound) (ids : List ℕ) :
    Returns (grants K p) (fun _ => True) (unionOf K.X ids) := by
  refine accepts_iteExcept (fun _ => returns_pure trivial) fun hne => ?_
  refine Returns.bind (R := (· = (ids.map fun j => (j, K.R j), []))) ⟨trivial, fun r hr => ?_⟩ ?_
  · obtain ⟨results, rfl⟩ := hr.2
    obtain rfl := hr.1 results rfl
    exact ⟨_, rfl, rfl⟩
  rintro _ rfl
  refine accepts_iteExcept (c := ¬ ([] : List String) = []) (fun h => absurd rfl h) fun _ => ?_
  obtain ⟨union, hunion⟩ : ∃ union,
      unionLoop K.X none ((ids.map fun j => (j, K.R j)).map Prod.snd) = .ok (some union) := by
    refine unionLoop_of_decodes (fun R hR => ?_) (.inl (by simpa using hne))
    simp only [List.map_map, List.mem_map] at hR
    obtain ⟨j, -, rfl⟩ := hR
    exact hK.decodes j
  rw [hunion]
  exact returns_pure trivial

theorem returns_modifySlice (habs : isabs self.systemctl = true) (props : Properties) :
    Returns (grants K p) (fun _ => True) (modifySlice self (some props)) :=
  Returns.bind (returns_runSubprocess habs fun r hr => by
    change grantedCommand (World.decode ([self.systemctl, "set-property", "--runtime",
      sliceName self.userid] ++ assignments props)) r at hr
    rwa [World.decode_setProperty] at hr) fun _ _ => returns_pure trivial

theorem returns_apply (hK : K.Sound) (habs : isabs self.systemctl = true) {ids : List ℕ}
    (hids : self.cachedJobids = some ids) (includeCurrent : Bool) :
    Returns (grants K p) (fun _ => True) (applyResourceConstraints K.X self includeCurrent) := by
  refine accepts_iteExcept (fun _ => returns_pure trivial) fun _ => ?_
  rw [resourceUnion, hids]
  refine Returns.bind (returns_unionOf hK _) fun R _ => ?_
  refine Returns.bind (R := (∃ props, · = some props)) ?_ ?_
  · cases R with
    | none => exact returns_pure ⟨_, rfl⟩
    | some R =>
      refine ⟨trivial, fun r hr => ?_⟩
      obtain ⟨props, rfl⟩ := hr.2
      exact ⟨_, rfl, props, rfl⟩
  · rintro _ ⟨props, rfl⟩
    exact returns_modifySlice habs props

theorem returns_close {fd : Fd} : Returns (grants K p) (fun _ => True) (callOS (perform (.close fd))) := by
  refine ⟨trivial, fun r hr => ?_⟩
  obtain rfl := hr.2
  exact ⟨(), rfl, trivial⟩

theorem returns_setActiveMarker : Returns (grants K p) (fun _ => True) (setActiveMarker self) := by
  refine Returns.bind (R := fun _ => True) ⟨trivial, fun r hr => ?_⟩ fun fd _ => returns_close
  obtain ⟨fd, rfl⟩ := hr.2
  exact ⟨fd, rfl, trivial⟩

/-! ### The scripts -/

theorem returns_publish : Returns (grants K p) (· = 0) (Prolog.publish self) := by
  refine Returns.attemptBind returns_setActiveMarker fun _ _ => ?_
  exact Accepts.attemptBind (given_true (userServiceStart self).run) fun _ _ _ => returns_pure rfl

theorem returns_prologBody (hK : K.Sound) (hs : self.systemctl = K.paths.systemctl)
    (hl : self.loginctl = K.paths.loginctl) :
    Returns (grants K p) (· = 0) (Prolog.body K.X self) := by
  refine Returns.bind (returns_shouldSkip hK) fun skip _ => ?_
  refine accepts_iteExcept (fun _ => returns_pure rfl) fun _ => ?_
  refine Returns.attemptBind (returns_checkLinger (hl ▸ hK.loginctl)) ?_
  rintro _ rfl
  refine Returns.bind returns_activeLocalJobs ?_
  rintro ⟨self', count⟩ ⟨ids, rfl, rfl⟩
  refine Returns.attemptBind (returns_apply hK (hs ▸ hK.systemctl) rfl _) fun _ _ => ?_
  exact returns_publish

theorem returns_orphanLoop : ∀ roots : List String,
    Returns (grants K p) (fun _ => True) (orphanLoop self roots)
  | [] => returns_pure trivial
  | root :: roots => by
    have ih := returns_orphanLoop roots
    rw [orphanLoop]
    refine accepts_iteExcept (fun _ => ih) fun _ => ?_
    refine Returns.bind (returns_lift (R := fun _ => True) fun _ _ => trivial) fun found _ => ?_
    refine accepts_iteExcept (fun _ => ?_) fun _ => ih
    refine Returns.bind (returns_lift (R := fun _ => True) fun _ _ => trivial) fun r _ => ?_
    rcases r with e | lines
    · exact ih
    · exact accepts_iteExcept (fun _ => ih) fun _ => Returns.bind ih fun _ _ => returns_pure trivial

theorem returns_checkOrphanProcesses :
    Returns (grants K p) (fun _ => True) (checkOrphanProcesses self) := by
  refine Returns.bind (returns_lift (R := fun _ => True) fun _ _ => trivial) fun found _ => ?_
  refine accepts_iteExcept (fun _ => ?_) fun _ => returns_pure trivial
  exact Returns.bind (returns_lift (R := fun _ => True) fun _ _ => trivial)
    fun roots _ => returns_orphanLoop roots

theorem returns_waitLoop (timeout start : ℚ) : ∀ (fuel : ℕ) (interval : ℚ),
    Returns (grants K p) (fun _ => True) (waitLoop self timeout start fuel interval)
  | 0, _ => ⟨trivial, fun _ hr => hr.1.elim⟩
  | fuel + 1, interval => by
    refine Returns.bind (returns_lift (R := fun _ => True) fun _ _ => trivial) fun now _ => ?_
    refine accepts_iteExcept (fun _ => ?_) fun _ => returns_pure trivial
    refine Returns.bind returns_checkOrphanProcesses fun orphans _ => ?_
    refine accepts_iteExcept (fun _ => returns_pure trivial) fun _ => ?_
    exact Returns.bind (returns_lift (R := fun _ => True) fun _ _ => trivial)
      fun _ _ => returns_waitLoop timeout start fuel _

/-- As long as `SIGTERM` suffices, the cleanup does not fail. -/
theorem returns_cleanupUserSlice (habs : isabs self.systemctl = true) (fuel : ℕ) :
    Returns (grants K p) (fun _ => True) (cleanupUserSlice fuel self) := by
  have hkill : Returns (grants K p) (fun _ => False) (killSliceProcesses self "SIGKILL") := by
    refine Returns.bind (R := fun _ => False) ?_ fun _ h => h.elim
    rw [runSubprocess, if_pos habs]
    exact ⟨trivial, fun r hr => absurd (by simp) hr.2.1⟩
  refine Returns.bind returns_checkOrphanProcesses fun orphans _ => ?_
  refine accepts_iteExcept (fun _ => returns_pure trivial) fun _ => ?_
  refine Returns.bind (R := fun _ => True) ?_ fun _ _ => ?_
  · exact Returns.bind (returns_runSubprocess habs fun r hr => hr) fun _ _ => returns_pure trivial
  refine Returns.bind (R := fun _ => True) ?_ fun empty _ => ?_
  · exact Returns.bind (returns_lift (R := fun _ => True) fun _ _ => trivial)
      fun start _ => returns_waitLoop _ _ _ _
  refine accepts_iteExcept (fun _ => returns_pure trivial) fun _ => ?_
  exact Returns.bind returns_checkOrphanProcesses fun _ _ => Returns.bind hkill fun _ h => h.elim

theorem returns_teardown (habs : isabs self.systemctl = true) (fuel : ℕ) :
    Returns (grants K p) (fun _ => True) (userSliceTeardown fuel self) := by
  refine Returns.bind (R := fun _ => True) ⟨trivial, fun r hr => ?_⟩ fun _ _ => ?_
  · rcases hr.2 with rfl | rfl
    · exact returns_pure trivial
    · exact returns_pure trivial
  refine Returns.bind (returns_tolerating habs fun r hr => hr) fun _ _ => ?_
  refine Returns.bind (R := (· = none)) ?_ ?_
  · refine accepts_iteExcept (fun _ => ?_) fun _ => returns_pure rfl
    exact Returns.attemptBind (returns_cleanupUserSlice habs fuel) fun _ _ => returns_pure rfl
  · rintro _ rfl
    exact Returns.bind (returns_tolerating habs fun r hr => hr) fun _ _ => returns_pure trivial

theorem returns_housekeepingBody (hK : K.Sound) (hs : self.systemctl = K.paths.systemctl) (fuel : ℕ) :
    Returns (grants K p) (· = 0) (Housekeeping.body K.X fuel self) := by
  refine Returns.bind (returns_shouldSkip hK) fun skip _ => ?_
  refine accepts_iteExcept (fun _ => returns_pure rfl) fun _ => ?_
  refine Returns.bind returns_activeLocalJobs ?_
  rintro ⟨self', count⟩ ⟨ids, rfl, rfl⟩
  refine accepts_iteExcept (fun _ => ?_) fun _ => ?_
  · exact Returns.bind (returns_teardown (hs ▸ hK.systemctl) fuel) fun _ _ => returns_pure rfl
  · exact Returns.bind (returns_apply hK (hs ▸ hK.systemctl) rfl _) fun _ _ => returns_pure rfl

end Helper

/-! ### The session module -/

/-- The session's options are accepted, and the names made of them fit their
buffers. -/
structure Fitting (p : Pid) (argv : List String) (opts : Options) : Prop where
  parsed : parseOptions sessionDefaults argv = some opts
  scope : (opts.scopePrefix ++ "-" ++ numeral p.n ++ ".scope").utf8ByteSize < 128
  path : (opts.lockDir ++ "/uid." ++ numeral p.uid ++ ".active").utf8ByteSize < PATH_MAX

section Session

variable {uid : Uid} {user : String} {opts : Options} {argv : List String}

/-- A name with a uid in it fits a buffer that leaves ten bytes for the uid. -/
theorem uid_name_lt {before after : String} {size : ℕ}
    (h : before.utf8ByteSize + 10 + after.utf8ByteSize < size) :
    (before ++ numeral uid.toNat ++ after).utf8ByteSize < size := by
  have hu : (numeral uid.toNat).utf8ByteSize ≤ 10 :=
    numeral_size (by decide) (lt_trans uid.isLt (by decide))
  rw [String.utf8ByteSize_append, String.utf8ByteSize_append]
  omega

theorem given_setEnvironment : Given (grants K p) (· = .PAM_SUCCESS) (setEnvironment uid) := by
  have hxdg : ("XDG_RUNTIME_DIR=/run/user/" ++ numeral uid.toNat ++ "").utf8ByteSize < 64 :=
    uid_name_lt (by decide)
  rw [String.append_empty] at hxdg
  refine accepts_ite (fun h => absurd hxdg (Nat.not_lt.mpr h)) fun _ =>
    accepts_ite (fun h => absurd (uid_name_lt (by decide)) (Nat.not_lt.mpr h)) fun _ =>
      ⟨trivial, fun r hr => ?_⟩
  obtain rfl := hr.2
  exact ⟨trivial, fun r hr => by obtain rfl := hr.2; exact rfl⟩

/-- The lock's name is shorter than the marker's. -/
theorem Fitting.lock_lt (hf : Fitting p argv opts) :
    (opts.lockDir ++ "/uid." ++ numeral p.uid ++ ".lock").utf8ByteSize < PATH_MAX := by
  have h := hf.path
  have hlock : ".lock".utf8ByteSize = 5 := by decide
  have hactive : ".active".utf8ByteSize = 7 := by decide
  simp only [String.utf8ByteSize_append] at h ⊢
  omega

theorem given_userLockAcquire (hu : uid.toNat = p.uid) (hf : Fitting p argv opts) :
    Given (grants K p) (· ≠ none) (userLockAcquire uid opts.lockDir) := by
  unfold userLockAcquire
  rw [hu]
  refine ⟨trivial, fun r hr => ?_⟩
  obtain ⟨mode, rfl, hmode⟩ := hr.2
  refine accepts_ite (fun h => absurd hmode h) fun _ =>
    accepts_ite (fun h => absurd hf.lock_lt (Nat.not_lt.mpr h)) fun _ => ?_
  refine ⟨trivial, fun r hr => ?_⟩
  obtain ⟨fd, rfl⟩ := hr.2
  refine ⟨trivial, fun r hr => ?_⟩
  obtain rfl := hr.2
  exact Option.some_ne_none fd

theorem given_checkActiveMarker (hu : uid.toNat = p.uid) (hf : Fitting p argv opts) :
    Given (grants K p) (· = true) (checkActiveMarker uid opts.lockDir) := by
  unfold checkActiveMarker
  rw [hu]
  refine accepts_ite (fun h => absurd hf.path (Nat.not_lt.mpr h)) fun _ => ⟨trivial, fun r hr => ?_⟩
  obtain rfl := hr.2
  exact rfl

theorem given_busAppendAll : ∀ args : List BusArg, Given (grants K p) (· = true) (busAppendAll args)
  | [] => rfl
  | arg :: args => by
    refine ⟨trivial, fun r hr => ?_⟩
    obtain rfl := hr.2
    exact given_busAppendAll args

theorem given_createSessionScope {scope : String} {n : ℕ} :
    Given (grants K p) (· = true) (createSessionScope scope uid n) := by
  refine accepts_ite (fun h => absurd (uid_name_lt (by decide)) (Nat.not_lt.mpr h)) fun _ =>
    ⟨trivial, fun r hr => ?_⟩
  obtain rfl := hr.2
  refine ⟨trivial, fun r hr => ?_⟩
  obtain rfl := hr.2
  refine (given_busAppendAll _).bind ?_
  rintro _ _ rfl
  exact ⟨trivial, fun r hr => hr.2⟩

theorem given_attachSession (hu : uid.toNat = p.uid) (hf : Fitting p argv opts) :
    Given (grants K p) (· = .PAM_SUCCESS) (attachSession opts user uid) := by
  refine ⟨trivial, fun pid hpid => ?_⟩
  obtain rfl : pid = p.n := hpid.1
  refine accepts_ite (fun h => absurd hf.scope (Nat.not_lt.mpr h)) fun _ => ?_
  refine (given_userLockAcquire hu hf).bind fun fd _ hfd => ?_
  cases fd with
  | none => exact absurd rfl hfd
  | some fd =>
    refine (given_checkActiveMarker hu hf).bind ?_
    rintro _ _ rfl
    refine given_createSessionScope.bind ?_
    rintro _ _ rfl
    exact ⟨trivial, fun _ _ => given_setEnvironment⟩

theorem given_getPamUserUid : Given (grants K p)
    (fun r => ∃ user uid, r = some (user, uid) ∧ uid.toNat = p.uid) getPamUserUid := by
  refine ⟨trivial, fun r hr => ?_⟩
  obtain ⟨user, hne, rfl⟩ := hr.2
  refine accepts_ite (fun h => absurd h hne) fun _ => ⟨trivial, fun r hr => ?_⟩
  obtain ⟨uid, rfl⟩ := Option.isSome_iff_exists.mp hr.2
  exact ⟨user, uid, rfl, hr.1 uid rfl⟩

theorem given_checkPamManageUserSlice (hK : K.Sound) :
    Given (grants K p) (· ≠ none) checkPamManageUserSlice := by
  refine ⟨trivial, fun r hr => ?_⟩
  obtain rfl := hr.2
  refine (given_true (attrGetUid "security.owner")).bind fun owner _ _ => ⟨trivial, fun r hr => ?_⟩
  obtain ⟨config, rfl⟩ := hr.2
  obtain rfl := hr.1 rfl config rfl
  obtain ⟨flag, hflag⟩ := Option.isSome_iff_exists.mp hK.flag
  exact fun h => by simp [hflag] at h

theorem given_session (hK : K.Sound) (hf : Fitting p argv opts) :
    Given (grants K p) (· = .PAM_SUCCESS) (pamSmOpenSession true argv) := by
  unfold pamSmOpenSession
  rw [hf.parsed]
  refine ⟨trivial, fun r hr => accepts_ite (fun h => absurd h hr.2) fun _ => ⟨trivial, fun r hr => ?_⟩⟩
  obtain rfl := hr.2
  refine given_getPamUserUid.bind ?_
  rintro _ _ ⟨user, uid, rfl, hu⟩
  refine (given_checkPamManageUserSlice hK).bind fun r _ hr => ?_
  rcases r with _ | ⟨manage, owner⟩
  · exact absurd rfl hr
  · exact accepts_ite (fun _ => rfl) fun _ => accepts_ite (fun _ => rfl) fun _ =>
      accepts_ite (fun _ => given_attachSession hu hf) fun h => absurd rfl h

end Session

/-! ### Processes of the node -/

/-- What a task returns if all is well. -/
def Task.success : Task → Exit
  | .prolog _ _ => .status 0
  | .housekeeping _ _ => .status 0
  | .session _ => .pam .PAM_SUCCESS

/-- A script gets the lock; a session's module can attach it, and its options
fit. -/
def Task.ready (K : Setting) (p : Pid) (t : List Event) : Task → Prop
  | .prolog _ _ => ∃ fd, ⟨.flock fd .LOCK_EX_NB, .ok ()⟩ ∈ t
  | .housekeeping _ _ => ∃ fd, ⟨.flock fd .LOCK_EX_NB, .ok ()⟩ ∈ t
  | .session argv => K.libsystemd = true ∧ ∃ opts, Fitting p argv opts

section Traces

variable {t : List Event}

/-- A `with` statement that got the lock and whose body returns 0. -/
theorem traces_withHelper {j fuel : ℕ} {systemctl loginctl : String} {body : PAMHelper → Py ℤ}
    {r : Except Exn ℤ} (hbody : ∀ self : PAMHelper, self.systemctl = systemctl → self.loginctl = loginctl →
      Returns (grants K p) (· = 0) (body self))
    (h : Traces (withHelper K.X fuel (K.environ p.uid j) p.uid j systemctl loginctl body).run t r)
    (ht : ∀ e ∈ t, grants K p e.1 e.2) (hlock : ∃ fd, ⟨.flock fd .LOCK_EX_NB, .ok ()⟩ ∈ t) :
    r = .ok 0 := by
  have hstuck : ⟨.stuck, ()⟩ ∉ t := fun hmem => (ht _ hmem).1
  rcases runs_withHelper.mp h with
    ⟨t₁, self, w₁, c, rb, w₂, t₂, rx, hinit, hrun, hexit, rfl, rfl⟩ | ⟨e, hinit, rfl⟩
  · obtain ⟨-, hrest⟩ := List.forall_mem_append.mp ht
    obtain ⟨hc, ht₂⟩ := List.forall_mem_append.mp hrest
    rcases runs_init hinit fun hmem => hstuck (List.mem_append_left _ hmem) with
      ⟨e, he, -⟩ | ⟨_, _, rfl, -, r', -, ⟨e, -, he⟩ | ⟨fd, helper, -, he, hfd, hs, hl⟩⟩
    · cases he
    · cases he
    · cases he
      obtain ⟨_, rfl, rfl⟩ := (hbody self hs hl).of_traces hrun.traces hc
      obtain ⟨a, b, rfl, hok⟩ := runs_exit hfd hexit
      have ha : a = .ok () := (ht₂ ⟨.flock fd .LOCK_UN, a⟩ List.mem_cons_self).2
      have hb : b = .ok () := (ht₂ ⟨.close fd, b⟩ (.tail _ List.mem_cons_self)).2
      rw [hok ha hb]
      rfl
  · obtain ⟨fd, hmem⟩ := hlock
    rcases runs_init hinit hstuck with
      ⟨e, -, hall⟩ | ⟨t₁, t₂, rfl, hall, r', hout, ⟨e, rfl, -⟩ | ⟨_, _, -, he, -⟩⟩
    · exact (hall _ hmem).elim
    · rcases List.mem_append.mp hmem with hmem | hmem
      · exact (hall _ hmem).elim
      · cases hout.free fd hmem
    · cases he

/-- A script exits with 0 if its `with` statement returns 0. -/
theorem traces_main {x : Py ℤ} {a : ℤ} (h : Traces (do
      match ← x.run with
      | .ok status => return status
      | .error _ => return 1 : Cmd ℤ) t a) : ∃ r, Traces x.run t r ∧ (r = .ok 0 → a = 0) := by
  obtain ⟨t₁, r, w₁, t₂, hrun, hrest, rfl⟩ := runs_bind.mp h
  refine ⟨r, ?_⟩
  rcases r with e | n
  · obtain ⟨rfl, -, -⟩ := hrest
    rw [List.append_nil]
    exact ⟨hrun.traces, fun he => by cases he⟩
  · obtain ⟨rfl, rfl, -⟩ := hrest
    rw [List.append_nil]
    exact ⟨hrun.traces, fun he => by cases he; rfl⟩

/-- **Granted is enough.** A process that is granted every step succeeds. -/
theorem traces_program {task : Task} {a : Exit} (hK : K.Sound) (h : Traces (K.program p task) t a)
    (ht : ∀ e ∈ t, grants K p e.1 e.2) (hready : task.ready K p t) : a = task.success := by
  cases task with
  | prolog j fuel =>
    obtain ⟨t₁, n, _, t₂, hmain, ⟨rfl, rfl, -⟩, rfl⟩ := runs_bind.mp h
    rw [List.append_nil] at ht hready
    rw [Prolog.main] at hmain
    rcases jobInfo_environ (K := K) p.uid j with hj | hj <;> rw [hj] at hmain
    · obtain ⟨rfl, -⟩ := hmain
      obtain ⟨fd, hmem⟩ := hready
      cases hmem
    obtain ⟨r, hrun, hr⟩ := traces_main hmain
    rw [hr (traces_withHelper (fun self hs hl => returns_prologBody hK hs hl) hrun ht hready)]
    rfl
  | housekeeping j fuel =>
    obtain ⟨t₁, n, _, t₂, hmain, ⟨rfl, rfl, -⟩, rfl⟩ := runs_bind.mp h
    rw [List.append_nil] at ht hready
    rw [Housekeeping.main] at hmain
    rcases jobInfo_environ (K := K) p.uid j with hj | hj <;> rw [hj] at hmain
    · obtain ⟨rfl, -⟩ := hmain
      obtain ⟨fd, hmem⟩ := hready
      cases hmem
    obtain ⟨r, hrun, hr⟩ := traces_main hmain
    rw [hr (traces_withHelper (fun self hs _ => returns_housekeepingBody hK hs fuel) hrun ht hready)]
    rfl
  | session argv =>
    obtain ⟨t₁, ret, _, t₂, hret, ⟨rfl, rfl, -⟩, rfl⟩ := runs_bind.mp h
    rw [List.append_nil] at ht
    obtain ⟨hlib, opts, hf⟩ := hready
    rw [hlib] at hret
    rw [(given_session hK hf).of_traces hret ht]
    rfl

end Traces

/-! ### Processes of the small node -/

namespace Server

theorem eventsOf_map {p : Pid} {t : Task} : ∀ tr : List Event,
    System.eventsOf p (tr.map fun e => (.op p t e.1 e.2 : NodeLabel)) = tr
  | [] => rfl
  | e :: tr => by rw [List.map_cons, System.eventsOf, if_pos rfl, eventsOf_map tr]

/-- A process of the small node that is started after a scenario and returns. -/
theorem small_process {γ : Type} (scenes : List Scene) (p : Pid) (t : Task)
    (f : World → List Event → Exit → World → γ) {b : γ}
    (h : ((small.play scenes .empty).bind fun x => (small.launch 1000 p t x.2).bind fun y =>
      y.2.1.result?.map fun a => f x.2 y.1 a y.2.2) = some b) :
    ∃ c c₁ c₂ c' ls a, Reached .small .strict idle c ∧ (node .small .strict).Step c (.start p t) c₁ ∧
      (node .small .strict).Run c₁ ls c₂ ∧ (∀ l ∈ ls, ¬ l.bounds p) ∧
      (node .small .strict).Step c₂ (.finish p t a) c' ∧
      f c.world (System.eventsOf p ls) a c₂.world = b := by
  obtain ⟨⟨ls, w⟩, hw, hl⟩ := Option.bind_eq_some_iff.mp h
  obtain ⟨⟨tr, y, w₂⟩, hl, hy⟩ := Option.bind_eq_some_iff.mp hl
  obtain ⟨a, ha, hb⟩ := Option.map_eq_some_iff.mp hy
  obtain ⟨hr, hf⟩ : (node .small .strict).Run idle ls ⟨w, fun _ => none⟩ ∧
      small.fits (fun _ => none) w := play_run small_fits (fun _ => rfl) hw
  obtain ⟨w₁, hs, hadv⟩ := Option.bind_eq_some_iff.mp hl
  have hrun := (small.serves p w₁.prologOf).advance (S := node .small .strict) (start_fits hf hs)
    (Function.update_self p (some (t, Setting.small.program p t)) fun _ => none) hadv
  cases y with
  | op o k => cases ha
  | pure a =>
    cases ha
    refine ⟨_, _, _, _, _, a, idle_reached hr, .start rfl (start_start (.inr hf.2) hs), hrun, ?_,
      .finish (Function.update_self ..) (finish_finish a), ?_⟩
    · intro l hl
      obtain ⟨e, -, rfl⟩ := List.mem_map.mp hl
      exact id
    · rw [eventsOf_map]
      exact hb

end Server

theorem Setting.small_sound : Setting.small.Sound where
  owner := by decide
  flag := by decide
  systemctl := by decide
  loginctl := by decide
  decodes j := by
    refine ⟨[j], ?_⟩
    change Externals.single.resourceSet (numeral j) = _
    simp only [Externals.single, decimal_numeral]
    rfl

/-- The user lock is taken. -/
def gotLock : Event → Bool
  | ⟨.flock _ .LOCK_EX_NB, .ok ()⟩ => true
  | _ => false

theorem gotLock_iff {e : Event} (h : gotLock e = true) : ∃ fd, e = ⟨.flock fd .LOCK_EX_NB, .ok ()⟩ := by
  unfold gotLock at h
  split at h
  · exact ⟨_, rfl⟩
  · cases h

theorem Fitting.default : Fitting ⟨1000, 8⟩ [] sessionDefaults where
  parsed := rfl
  scope := by decide
  path := by decide

/-! ### Runs -/

section Runs

variable {C : Contract} {c₀ c c₁ c₂ c' : Config Pid Op Res Task Exit World} {ls : List NodeLabel}

/-- **Nothing fails by itself.** In every run, a script that got the user lock and
was granted every step exits with 0, and a session that was granted every step,
the marker among them, is let in. -/
theorem granted_succeeds {task : Task} {a : Exit} (hK : K.Sound)
    (hstart : (node K C).Step c (.start p task) c₁) (h : (node K C).Run c₁ ls c₂)
    (hls : ∀ l ∈ ls, ¬ l.bounds p) (hfin : (node K C).Step c₂ (.finish p task a) c')
    (hg : ∀ e ∈ System.eventsOf p ls, granted e.1 e.2)
    (hready : task.ready K p (System.eventsOf p ls)) : a = task.success :=
  traces_program hK (System.Run.traces hstart h hls hfin)
    (fun e he => ⟨System.Run.answered h (fun _ _ _ _ he => he.1) e he, hg e he⟩) hready

/-- The prolog of job 1. -/
theorem granted_succeeds_small : ∃ c c₁ c₂ c' ls, (node .small .strict).Step c
    (.start ⟨1000, 7⟩ (.prolog 1 10)) c₁ ∧ (node .small .strict).Run c₁ ls c₂ ∧
      (node .small .strict).Step c₂ (.finish ⟨1000, 7⟩ (.prolog 1 10) (.status 0)) c' := by
  obtain ⟨c, c₁, c₂, c', ls, a, -, hstart, hls, halive, hfin, hf⟩ :=
    Server.small_process [.act (.report 1000 1)] ⟨1000, 7⟩ (.prolog 1 10)
      (fun _ t _ _ => (t.all fun e => decide (granted e.1 e.2), t.any gotLock))
      (show _ = some (true, true) from by rfl)
  obtain ⟨hg, hlock⟩ := Prod.ext_iff.mp hf
  obtain ⟨e, he, hlocked⟩ := List.any_eq_true.mp hlock
  obtain ⟨fd, rfl⟩ := gotLock_iff hlocked
  obtain rfl : a = .status 0 := granted_succeeds Setting.small_sound hstart hls halive hfin
    (fun e he => of_decide_eq_true (List.all_eq_true.mp hg e he)) ⟨fd, he⟩
  exact ⟨c, c₁, c₂, c', ls, hstart, hls, hfin⟩

/-- What every move of a user keeps, a run keeps that goes on. -/
theorem Reached.keeps (h : Reached K C c₀ c) (hr : (node K C).Run c ls c') {u : ℕ}
    {I : Control → Prop} (hI : ∀ s s' : UserState, I s.ctl → Move K C u s s' → I s'.ctl)
    (hi : I (c.world.control K u)) : I (c'.world.control K u) := by
  obtain ⟨ls₀, hr₀⟩ := h.run
  obtain ⟨m, hm, hf⟩ := Watch.follows_run (watch_sound K C) (Watch.Follows.of_none h.idle) hr₀
  obtain ⟨m', hm', hf'⟩ := Watch.follows_run (watch_sound K C) hf hr
  have hlocks : m.world.locksOwned K := hm.invariant (I := fun m => m.world.locksOwned K)
    (fun m l m' hi hs => locksOwned_step hi hs) h.initial.locksOwned
  have hinv := hm'.invariant (I := fun m => m.world.locksOwned K ∧ I (m.world.control K u))
    (fun m l m' hi hs => ⟨locksOwned_step hi.1 hs, hI _ _ hi.2 (step_move hi.1 hs)⟩)
    ⟨hlocks, hf.1 ▸ hi⟩
  exact hf'.1 ▸ hinv.2

theorem ended_of_move {u j : ℕ} {s s' : UserState} (h : s.ctl.ended j = true) (hm : Move K C u s s') :
    s'.ctl.ended j = true := by
  cases hm with
  | endJob => exact update_true_iff.mpr (.inr h)
  | _ => exact h

theorem prologOk_of_move {u j : ℕ} {s s' : UserState} (h : s.ctl.prologOk j = true)
    (hm : Move K C u s s') : s'.ctl.prologOk j = true := by
  cases hm with
  | @finishProlog n i fuel φ a hp hpost =>
    change (if a = .status 0 then Function.update s.ctl.prologOk i true else s.ctl.prologOk) j = true
    split
    · exact update_true_iff.mpr (.inr h)
    · exact h
  | _ => exact h

theorem Reached.timeline {u : ℕ} (h : Reached K C c₀ c) :
    ∃ s : UserState, s.ctl = c.world.control K u ∧ Timeline C s := by
  obtain ⟨m, hf, ht⟩ := h.invariant (u := u) h.initial.timeline fun s s' hi hm => hi.move hm
  exact ⟨_, by rw [hf.1]; rfl, ht⟩

/-- A job whose prolog succeeded and which runs later on runs now. -/
theorem Reached.runs_on {u j : ℕ} (h : Reached K C c₀ c) (hr : C.reported) (hS : C.steady)
    (hls : (node K C).Run c ls c') (hok : c.world.prologOk u j = true)
    (hrun : c'.world.running u j = true) : c.world.running u j = true := by
  obtain ⟨s, hs, ht⟩ := h.timeline (u := u)
  have hkept : c.world.running u j = true ∨ c.world.ended u j = true := by
    have := ht.kept hr hS j
    rw [hs] at this
    exact this hok
  refine hkept.resolve_right fun hend => ?_
  have hend' : c'.world.ended u j = true := h.keeps (u := u) (I := fun ctl => ctl.ended j = true) hls
    (fun s s' hi hm => ended_of_move hi hm) hend
  obtain ⟨ls₀, hr₀⟩ := h.run
  obtain ⟨s', hs', ht'⟩ := Reached.timeline (u := u) ⟨h.initial, h.idle, _, hr₀.append hls⟩
  have := ht'.ended j
  rw [hs'] at this
  cases hrun.symm.trans (this hend')

/-- A marker that is made is a regular file. -/
theorem regular_of_move {u : ℕ} {s s' : UserState} (hm : Move K C u s s')
    (h : s.ctl.marker = .absent ∨ s.ctl.marker = .regular) :
    s'.ctl.marker = .absent ∨ s'.ctl.marker = .regular := by
  cases hm with
  | @publish n t φ hp hpub => rcases h with h | h <;> simp [UserState.put, h]
  | clear => exact .inl rfl
  | _ => exact h

/-- While a job whose prolog succeeded runs, the marker is a regular file, also
where a marker was left over. -/
theorem Reached.marked {u j : ℕ} (h : Reached K C c₀ c) (hr : C.reported) (hS : C.steady)
    (ho : C.afterwards) (hK : K.managed u)
    (hm : c₀.world.files (markerPath K.lockDir u) = .absent ∨
      c₀.world.files (markerPath K.lockDir u) = .regular)
    (hok : c.world.prologOk u j = true) (hrun : c.world.running u j = true) :
    c.world.files (markerPath K.lockDir u) = .regular := by
  obtain ⟨m, hf, -, -, hreg, hmarks⟩ := h.invariant (u := u)
    (I := fun s => Orderly u s ∧ Timeline C s ∧
      (s.ctl.marker = .absent ∨ s.ctl.marker = .regular) ∧ Marks s)
    ⟨.init, h.initial.timeline, hm, h.initial.marks⟩ (by
      rintro s s' ⟨hs, ht, hreg, hi⟩ hm
      exact ⟨hs.move hm, ht.move hm, regular_of_move hm hreg, hi.move hK hr hS ho hs ht hm⟩)
  rw [hf.1] at hok hrun ⊢
  exact hreg.resolve_left (hmarks.marked j (.inl hok) hrun)

/-- **A login is let in.** Constraints or not, while a job of the user whose
prolog succeeded is running, a session that is granted every step but the look
at the marker finds it and is let in, where a look fails only if there is no
file. -/
theorem login_available {u j n : ℕ} {argv : List String} {opts : Options} {a : Exit}
    (h : Reached K C c₀ c) (hr : C.reported) (hS : C.steady) (ho : C.afterwards) (hK : K.Sound)
    (hmanaged : K.managed u) (hlib : K.libsystemd = true)
    (hm : c₀.world.files (markerPath K.lockDir u) = .absent ∨
      c₀.world.files (markerPath K.lockDir u) = .regular) (hf : Fitting ⟨u, n⟩ argv opts)
    (hok : c.world.prologOk u j = true) (hrun : c₂.world.running u j = true)
    (hstart : (node K C).Step c (.start ⟨u, n⟩ (.session argv)) c₁) (hls : (node K C).Run c₁ ls c₂)
    (halive : ∀ l ∈ ls, ¬ l.bounds ⟨u, n⟩)
    (hfin : (node K C).Step c₂ (.finish ⟨u, n⟩ (.session argv) a) c')
    (hg : ∀ e ∈ System.eventsOf ⟨u, n⟩ ls, granted e.1 e.2 ∨ ∃ path r, e = ⟨.lstat path, r⟩)
    (hlook : ∀ ls₁ ls₂ d d' task path e, ls = ls₁ ++ .op ⟨u, n⟩ task (.lstat path) (.error e) :: ls₂ →
      (node K C).Run c₁ ls₁ d → (node K C).Step d (.op ⟨u, n⟩ task (.lstat path) (.error e)) d' →
        d.world.files path = .absent) : a = .pam .PAM_SUCCESS := by
  refine granted_succeeds hK hstart hls halive hfin (fun e he => ?_) ⟨hlib, opts, hf⟩
  rcases hg e he with hg | ⟨path, r, rfl⟩
  · exact hg
  -- the marker is there when the session looks
  obtain ⟨task, hmem⟩ := System.mem_eventsOf he
  obtain ⟨ls₁, ls₂, rfl⟩ := List.append_of_mem hmem
  obtain ⟨d, d', hbefore, hstep, hafter⟩ := hls.split
  have hstarted : (node K C).Run c (.start ⟨u, n⟩ (.session argv) :: ls₁) d := .cons hstart hbefore
  have hd : Reached K C c₀ d := by
    obtain ⟨ls₀, hr₀⟩ := h.run
    exact ⟨h.initial, h.idle, _, hr₀.append hstarted⟩
  have hok' : d.world.prologOk u j = true := h.keeps (u := u) (I := fun ctl => ctl.prologOk j = true)
    hstarted (fun s s' hi hm => prologOk_of_move hi hm) hok
  have hrun' : d.world.running u j = true := hd.runs_on hr hS (.cons hstep hafter) hok' hrun
  have hmark := hd.marked hr hS ho hmanaged hm hok' hrun'
  obtain ⟨m, hfollow, -⟩ := hd.invariant (u := u) (I := Orderly u) .init fun _ _ hs => hs.move
  cases hstep with
  | op hp he =>
    obtain ⟨φ, -, ha⟩ := hfollow.live hp
    obtain rfl : path = markerPath K.lockDir u := ha.1.1
    cases r with
    | ok kind => exact congrArg Except.ok ((he.2.1 kind rfl).trans hmark)
    | error e => cases hmark.symm.trans (hlook _ _ _ _ _ _ _ rfl hbefore (.op hp he))

/-- A login while job 1 runs. -/
theorem login_available_small : ∃ c c₁ c₂ c' ls, (node .small .strict).Step c
    (.start ⟨1000, 8⟩ (.session [])) c₁ ∧ (node .small .strict).Run c₁ ls c₂ ∧
      (node .small .strict).Step c₂ (.finish ⟨1000, 8⟩ (.session []) (.pam .PAM_SUCCESS)) c' := by
  obtain ⟨c, c₁, c₂, c', ls, a, hreached, hstart, hls, halive, hfin, hf⟩ :=
    Server.small_process [.act (.report 1000 1), .task ⟨1000, 7⟩ (.prolog 1 10)] ⟨1000, 8⟩ (.session [])
      (fun w t _ w' => (w.prologOk 1000 1, w'.running 1000 1, t.all fun e => decide (granted e.1 e.2)))
      (show _ = some (true, true, true) from by rfl)
  obtain ⟨hok, hrest⟩ := Prod.ext_iff.mp hf
  obtain ⟨hrun, hg⟩ := Prod.ext_iff.mp hrest
  obtain rfl : a = .pam .PAM_SUCCESS := login_available hreached trivial trivial trivial Setting.small_sound
    (by decide) rfl (.inl rfl) Fitting.default hok hrun hstart hls halive hfin
    (fun e he => .inl (of_decide_eq_true (List.all_eq_true.mp hg e he)))
    fun ls₁ ls₂ d d' task path e hls' _ _ => by
      have he := System.event_mem (hls' ▸ List.mem_append_right ls₁ List.mem_cons_self)
      cases (of_decide_eq_true (List.all_eq_true.mp hg _ he) : granted (.lstat path) (.error e))
  exact ⟨c, c₁, c₂, c', ls, hstart, hls, hfin⟩

end Runs

end FluxPam
