/-
# What the helper's functions perform

For any set of operations `q`, a function of `flux/pam.py` keeps to `q` if the
operations its text names are in `q`. The properties that only ask which
operations a function performs (which files it opens, that it leaves a slice or
a lock alone) are read off these.
-/
import FluxPam.Scripts
import FluxPam.Interaction.Monitor

namespace FluxPam

open Interaction Monitor PAMHelper

variable {q : Op → Prop} {self : PAMHelper}

theorem keeps_perform {o : Op} (h : q o) : Keeps q (fun _ => True) (perform o) :=
  ⟨h, fun _ _ => trivial⟩

theorem keeps_callOS {α : Type} {x : Cmd (Except Errno α)} (h : Keeps q (fun _ => True) x) :
    Keeps q (fun _ => True) (callOS x).run :=
  h.bind fun _ _ _ => trivial

theorem keeps_attrInt {name : String} (h : q (.attrGet name)) :
    Keeps q (fun _ => True) (attrInt name).run := by
  refine ⟨h, fun r _ => ?_⟩
  rcases r with e | text
  · exact trivial
  · change Keeps q _ (intOf text).run
    unfold intOf
    cases pyInt text <;> exact trivial

theorem keeps_confGet {key : String} {default : Json} (h : q (.confGet key)) :
    Keeps q (fun _ => True) (confGet key default).run :=
  ⟨h, fun r _ => by cases r <;> exact trivial⟩

theorem keeps_runSubprocess {args : List String} {timeout : ℚ} (h : q (.run args timeout)) :
    Keeps q (fun _ => True) (runSubprocess args timeout).run := by
  cases args with
  | nil => exact trivial
  | cons arg args =>
    rw [runSubprocess]
    refine accepts_iteExcept (fun _ => ⟨h, fun r _ => ?_⟩) fun _ => trivial
    cases r <;> exact trivial

/-! ### The lock -/

/-- The operations on an open lock file. -/
structure Polls (q : Op → Prop) : Prop where
  flock : ∀ fd, q (.flock fd .LOCK_EX_NB)
  close : ∀ fd, q (.close fd)
  time : q .time
  sleep : ∀ d, q (.sleep d)
  stuck : q .stuck

theorem keeps_acquireLoop {uid : ℤ} {timeout start : ℚ} {fd : Fd} (hq : Polls q) : ∀ fuel,
    Keeps q (fun _ => True) (acquireLoop uid timeout fd start fuel).run
  | 0 => ⟨hq.stuck, fun _ _ => trivial⟩
  | fuel + 1 => by
    have hgive : ∀ e : Exn, Keeps q (fun _ => True)
        (do callOS (perform (.close fd)); throw e : Py Fd).run := fun e =>
      ⟨hq.close fd, fun r _ => by cases r <;> exact trivial⟩
    refine ⟨hq.flock _, fun r _ => ?_⟩
    rcases r with e | ⟨⟩
    · refine accepts_iteExcept (fun _ => hgive _) fun _ => ⟨hq.time, fun now _ => ?_⟩
      refine accepts_iteExcept (fun _ => hgive _) fun _ => ⟨hq.sleep _, fun _ _ => ?_⟩
      exact keeps_acquireLoop hq fuel
    · exact trivial

theorem keeps_acquireLock {fuel : ℕ} {uid : ℤ} {timeout : ℚ} {lockDir : String} (hq : Polls q)
    (hmake : q (.makedirs lockDir 0o700)) (hstat : q (.stat lockDir))
    (hopen : q (.openFile (lockPath lockDir uid) [.O_CREAT, .O_RDWR, .O_NOFOLLOW] 0o600)) :
    Keeps q (fun _ => True) (acquireLock fuel uid timeout lockDir).run := by
  refine ⟨hmake, fun r _ => ?_⟩
  rcases r with e | ⟨⟩
  · exact trivial
  refine ⟨hstat, fun r _ => ?_⟩
  rcases r with e | mode
  · exact trivial
  refine accepts_iteExcept (fun _ => trivial) fun _ => ⟨hopen, fun r _ => ?_⟩
  rcases r with e | fd
  · cases e <;> exact trivial
  · exact ⟨hq.time, fun start _ => keeps_acquireLoop hq fuel⟩

/-- What `__init__` reads, and the lock file it opens. -/
structure Opens (q : Op → Prop) (uid : ℤ) (lockDir : String) : Prop extends Polls q where
  flux : ∀ uri, q (.fluxOpen uri)
  attr : ∀ name, q (.attrGet name)
  conf : ∀ key, q (.confGet key)
  makedirs : q (.makedirs lockDir 0o700)
  stat : q (.stat lockDir)
  lock : q (.openFile (lockPath lockDir uid) [.O_CREAT, .O_RDWR, .O_NOFOLLOW] 0o600)

theorem keeps_init {X : Externals} {fuel : ℕ} {environ : Environ} {uid : ℤ} {jobid : ℕ}
    {systemctl loginctl lockDir : String}
    (hd : (environ "FLUX_PAM_LOCK_DIR").getD "/run/flux-pam" = lockDir) (hq : Opens q uid lockDir) :
    Keeps q (fun r => ∀ helper, r = .ok helper → helper.markerPath = markerPath lockDir uid)
      (PAMHelper.init X fuel environ uid jobid systemctl loginctl).run := by
  unfold PAMHelper.init
  refine (keeps_callOS (keeps_perform (hq.flux none))).bindReturn fun _ _ _ => ?_
  refine (keeps_attrInt (hq.attr _)).bindReturn fun _ _ _ => ?_
  refine (keeps_confGet (hq.conf _)).bindReturn fun _ _ _ => ?_
  refine (keeps_confGet (hq.conf _)).bindReturn fun _ _ _ => ?_
  refine (keeps_confGet (hq.conf _)).bindReturn fun _ _ _ => ?_
  refine (keeps_confGet (hq.conf _)).bindReturn fun _ _ _ => ?_
  refine (keeps_confGet (hq.conf _)).bindReturn fun _ _ _ => ?_
  refine Accepts.bindReturn (A := fun _ _ => True) (accepts_pure trivial) fun _ _ _ => ?_
  rw [hd]
  refine (keeps_acquireLock hq.toPolls hq.makedirs hq.stat hq.lock).bindReturn fun _ _ _ => ?_
  refine accepts_pure fun helper h => ?_
  cases h
  rfl

theorem keeps_exit (hflock : ∀ fd, q (.flock fd .LOCK_UN)) (hclose : ∀ fd, q (.close fd)) :
    Keeps q (fun _ => True) self.exit.run := by
  unfold PAMHelper.exit
  cases self.lockFd with
  | none => exact trivial
  | some fd =>
    refine ⟨hflock fd, fun unlocked _ => ⟨hclose fd, fun r _ => ?_⟩⟩
    rcases r with e | ⟨⟩
    · exact trivial
    · rcases unlocked with e | ⟨⟩ <;> exact trivial

/-! ### The helper -/

theorem keeps_shouldSkip (h : q (.attrGet "security.owner")) :
    Keeps q (fun _ => True) (shouldSkip self).run :=
  (keeps_attrInt h).bindExcept (fun _ _ _ => accepts_iteExcept (fun _ => trivial) fun _ => trivial)
    fun _ _ _ => trivial

theorem keeps_checkLinger {timeout : ℚ}
    (h : q (.run [self.loginctl, "show-user", toString self.userid, "--property=Linger"] timeout)) :
    Keeps q (fun _ => True) (checkLinger self timeout).run := by
  refine Accepts.attemptBind (keeps_runSubprocess h) fun r _ _ => ?_
  rcases r with e | stdout
  · cases e <;> exact trivial
  · exact trivial

theorem keeps_activeLocalJobs (h : ∀ user rank, q (.jobList user rank)) :
    Keeps q (fun _ => True) (activeLocalJobs self).run :=
  ⟨h _ _, fun r _ => by cases r <;> exact trivial⟩

theorem keeps_unionOf {X : Externals} {ids : List ℕ} (h : q (.kvsLookupR ids)) :
    Keeps q (fun _ => True) (unionOf X ids).run := by
  unfold unionOf
  refine accepts_iteExcept (fun _ => trivial) fun _ => ⟨h, fun r _ => ?_⟩
  rcases r with e | ⟨results, errors⟩
  · exact trivial
  refine accepts_iteExcept (fun _ => trivial) fun _ => ?_
  refine Accepts.bindExcept (A := fun _ _ => True) (accepts_pure trivial) (fun u _ _ => ?_)
    fun _ _ _ => trivial
  cases u <;> exact trivial

theorem keeps_modifySlice {P : Properties} (h : ∀ args,
      q (.run ([self.systemctl, "set-property", "--runtime", sliceName self.userid] ++ args) 30)) :
    Keeps q (fun _ => True) (modifySlice self (some P)).run :=
  (keeps_runSubprocess (h _)).bindExcept (fun _ _ _ => trivial) fun _ _ _ => trivial

theorem keeps_applyResourceConstraints {X : Externals} {includeCurrent : Bool}
    (hlookup : ∀ ids, q (.kvsLookupR ids)) (hmapper : ∀ R, q (.mapperLookup R))
    (hset : ∀ args,
      q (.run ([self.systemctl, "set-property", "--runtime", sliceName self.userid] ++ args) 30)) :
    Keeps q (fun _ => True) (applyResourceConstraints X self includeCurrent).run := by
  have hunion : Keeps q (fun _ => True) (resourceUnion X self includeCurrent).run := by
    unfold resourceUnion
    cases self.cachedJobids with
    | none => exact trivial
    | some cached => exact keeps_unionOf (hlookup _)
  unfold applyResourceConstraints
  refine accepts_iteExcept (fun _ => trivial) fun _ => ?_
  refine hunion.bindExcept (fun R _ _ => ?_) fun _ _ _ => trivial
  refine Accepts.bindExcept (A := fun _ _ => True) ?_ (fun props _ _ => ?_) fun _ _ _ => trivial
  · cases R with
    | none => exact trivial
    | some R => exact keeps_callOS (keeps_perform (hmapper _))
  · cases props with
    | none => exact trivial
    | some P => exact keeps_modifySlice hset

theorem keeps_setActiveMarker
    (hopen : q (.openFile self.markerPath [.O_CREAT, .O_WRONLY, .O_NOFOLLOW] 0o600))
    (hclose : ∀ fd, q (.close fd)) : Keeps q (fun _ => True) (setActiveMarker self).run := by
  refine ⟨hopen, fun r _ => ?_⟩
  rcases r with e | fd
  · exact trivial
  · exact ⟨hclose fd, fun r _ => by cases r <;> exact trivial⟩

theorem keeps_clearActiveMarker (h : q (.unlink self.markerPath)) :
    Keeps q (fun _ => True) (clearActiveMarker self).run := by
  refine ⟨h, fun r _ => ?_⟩
  rcases r with e | ⟨⟩
  · cases e <;> exact trivial
  · exact trivial

theorem keeps_userServiceStart (h : q (.run [self.systemctl, "start", serviceName self.userid] 30)) :
    Keeps q (fun _ => True) (userServiceStart self).run :=
  (keeps_runSubprocess h).bindExcept (fun _ _ _ => trivial) fun _ _ _ => trivial

theorem keeps_publish
    (hopen : q (.openFile self.markerPath [.O_CREAT, .O_WRONLY, .O_NOFOLLOW] 0o600))
    (hclose : ∀ fd, q (.close fd)) (hstart : q (.run [self.systemctl, "start", serviceName self.userid] 30)) :
    Keeps q (fun _ => True) (Prolog.publish self).run := by
  refine Accepts.attemptBind (keeps_setActiveMarker hopen hclose) fun r _ _ => ?_
  rcases r with e | ⟨⟩
  · exact trivial
  · exact Accepts.attemptBind (keeps_userServiceStart hstart) fun _ _ _ => trivial

end FluxPam
