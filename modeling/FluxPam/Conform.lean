/-
# The programs keep the discipline

Along the text of each function, what it performs is allowed and what it has
done when it returns (`prolog_accepts`, `housekeeping_accepts`,
`session_accepts`). Most functions are quiet; the others are followed in the
source's order.
-/
import FluxPam.Watch
import FluxPam.Calls

namespace FluxPam

open Interaction Monitor

variable {K : Setting} {p : Pid} {t : Task} {φ : Phase}

/-! ### Commands -/

/-- A command that changes something, if it succeeds. -/
theorem accepts_runSubprocess {args : List String} {timeout : ℚ} {A : Except Exn String → Phase → Prop}
    (ha : φ.allowed K p t (.run args timeout))
    (hok : ∀ out, A (.ok out) (φ.nextCommand true (World.decode args)))
    (he : ∀ e φ', A (.error e) φ') : (watch K p t).Accepts A φ (runSubprocess args timeout).run := by
  cases args with
  | nil => exact he _ _
  | cons arg args =>
    rw [runSubprocess]
    refine accepts_iteExcept (fun _ => ⟨ha, fun r _ => ?_⟩) fun _ => he _ _
    cases r with
    | error e => exact he _ _
    | ok out => exact hok out

/-! ### Quiet functions -/

/-- A quiet step that may raise, then the rest. -/
theorem Quietly.bindExcept {α β : Type} {Q : Except Exn α → Prop} {B : Except Exn β → Prop}
    {x : Py α} {f : α → Py β} (hx : Quietly K p Q x.run)
    (hf : ∀ a, Q (.ok a) → Quietly K p B (f a).run) (he : ∀ e, Q (.error e) → B (.error e)) :
    Quietly K p B (x >>= f).run :=
  Accepts.bindExcept hx (fun a _ h => hf a h) fun e _ h => he e h

/-- The program is quiet, whatever it returns. -/
abbrev Quiet {α : Type} (K : Setting) (p : Pid) (x : Cmd α) : Prop := Quietly K p (fun _ => True) x

theorem Quiet.bindExcept {α β : Type} {x : Py α} {f : α → Py β} (hx : Quiet K p x.run)
    (hf : ∀ a, Quiet K p (f a).run) : Quiet K p (x >>= f).run :=
  Quietly.bindExcept hx (fun a _ => hf a) fun _ _ => trivial

theorem Quiet.attempt {α : Type} {x : Py α} (hx : Quiet K p x.run) : Quiet K p (attempt x).run :=
  Accepts.attempt hx fun _ _ _ => trivial

theorem quiet_call {o : Op} (h : quiet K p o) : Quiet K p (call o).run := ⟨h, fun _ _ => trivial⟩

theorem quiet_runSubprocess {args : List String} {timeout : ℚ} (h : quiet K p (.run args timeout)) :
    Quiet K p (runSubprocess args timeout).run := by
  cases args with
  | nil => exact trivial
  | cons arg args =>
    rw [runSubprocess]
    exact accepts_iteExcept (fun _ => ⟨h, fun _ _ => trivial⟩) fun _ => trivial

theorem quiet_tolerating {α : Type} {x : Py α} (h : Quiet K p x.run) :
    Quiet K p (tolerating x).run := by
  refine Quiet.bindExcept h.attempt fun r => ?_
  split <;> exact trivial

theorem quiet_attrInt (name : String) : Quietly K p
    (fun r => ∀ n, r = .ok n → pyInt (K.attrs name) = some n) (attrInt name).run := by
  refine ⟨trivial, fun r hr => ?_⟩
  cases r with
  | error e =>
    intro n h
    cases h
  | ok s =>
    obtain rfl := hr s rfl
    change Quietly K p _ (intOf (K.attrs name)).run
    unfold intOf
    cases pyInt (K.attrs name) with
    | some n =>
      rintro n' ⟨⟩
      rfl
    | none => exact raised _

theorem quiet_confGet (key : String) (default : Json) : Quietly K p
    (fun r => ∀ v, r = .ok v → v = (K.conf.dotted key).getD default) (confGet key default).run := by
  refine ⟨trivial, fun r hr => ?_⟩
  cases r with
  | error e =>
    intro v h
    cases h
  | ok v =>
    obtain rfl := hr v rfl
    rintro v' ⟨⟩
    rfl

theorem quiet_checkLinger (self : PAMHelper) (timeout : ℚ) :
    Quiet K p (self.checkLinger timeout).run := by
  have hq : quiet K p (.run [self.loginctl, "show-user", toString self.userid, "--property=Linger"]
      timeout) := trivial
  unfold PAMHelper.checkLinger
  refine Quiet.bindExcept (quiet_runSubprocess hq).attempt fun r => ?_
  rcases r with e | stdout
  · cases e <;> exact trivial
  · exact trivial

/-- The helper of a script that runs for the user's job `j`. -/
structure Helps (K : Setting) (p : Pid) (j : ℕ) (helper : PAMHelper) : Prop where
  userid : helper.userid = p.uid
  jobid : helper.jobid = j
  rank : helper.rank = K.rank
  manage : helper.manageUserSlice = K.manage
  constrain : helper.applyResources = K.constrain
  marker : helper.markerPath = markerPath K.lockDir p.uid
  lock : helper.lockFd = some ⟨lockPath K.lockDir p.uid⟩

namespace Helps

open PAMHelper

variable {j : ℕ} {self : PAMHelper}

/-- A helper that skips does so for a user it does not manage. -/
theorem quiet_shouldSkip (h : Helps K p j self) : Quietly K p
    (fun r => ∀ b, r = .ok b → (b = true ↔ ¬ K.managed p.uid)) (shouldSkip self).run := by
  refine Quietly.bindExcept (quiet_attrInt _) (fun n hn => ?_) fun e _ => raised e
  have hn := hn n rfl
  refine accepts_iteExcept (fun he b hb => ?_) fun he b hb => ?_
  · cases hb
    simp [Setting.managed, hn, ← he, h.userid]
  · cases hb
    rw [h.userid] at he
    simp [Setting.managed, hn, h.manage, Ne.symm he]

theorem quiet_orphanLoop (h : Helps K p j self) : ∀ (roots : List String),
    (∀ root ∈ roots, below (slicePath p.uid) root = true) → Quiet K p (orphanLoop self roots).run
  | [], _ => trivial
  | root :: roots, hr => by
    have ih := quiet_orphanLoop h roots fun d hd => hr d (by simp [hd])
    have hroot : below (slicePath p.uid) (root ++ "/cgroup.procs") = true :=
      below_append (hr root (by simp)) "cgroup.procs".toList
    rw [orphanLoop]
    refine accepts_iteExcept (fun _ => ih) fun _ => ?_
    refine Quiet.bindExcept (quiet_call hroot) fun found => ?_
    refine accepts_iteExcept (fun _ => ?_) fun _ => ih
    refine Quiet.bindExcept (quiet_call hroot) fun r => ?_
    rcases r with e | lines
    · exact ih
    · exact accepts_iteExcept (fun _ => ih) fun _ => Quiet.bindExcept ih fun _ => trivial

theorem quiet_checkOrphanProcesses (h : Helps K p j self) :
    Quiet K p (checkOrphanProcesses self).run := by
  unfold checkOrphanProcesses
  rw [h.userid]
  refine Quiet.bindExcept (quiet_call (below_self _)) fun found => ?_
  refine accepts_iteExcept (fun _ => ?_) fun _ => trivial
  exact ⟨rfl, fun roots hr => h.quiet_orphanLoop _ hr⟩

theorem quiet_waitLoop (h : Helps K p j self) (timeout start : ℚ) :
    ∀ (fuel : ℕ) (interval : ℚ), Quiet K p (waitLoop self timeout start fuel interval).run
  | 0, _ => ⟨trivial, fun _ _ => trivial⟩
  | fuel + 1, interval => by
    refine Quiet.bindExcept (quiet_call trivial) fun now => ?_
    refine accepts_iteExcept (fun _ => ?_) fun _ => trivial
    refine Quiet.bindExcept h.quiet_checkOrphanProcesses fun orphans => ?_
    refine accepts_iteExcept (fun _ => trivial) fun _ => ?_
    exact Quiet.bindExcept (quiet_call trivial) fun _ => quiet_waitLoop h timeout start fuel _

theorem quiet_waitForSliceEmpty (h : Helps K p j self) (fuel : ℕ) (timeout : ℚ) :
    Quiet K p (waitForSliceEmpty fuel self timeout).run :=
  Quiet.bindExcept (quiet_call trivial) fun start => h.quiet_waitLoop timeout start fuel _

theorem quiet_killSliceProcesses (h : Helps K p j self) (signal : String) :
    Quiet K p (killSliceProcesses self signal).run :=
  Quiet.bindExcept (quiet_runSubprocess (congrArg sliceName h.userid)) fun _ => trivial

theorem quiet_cleanupUserSlice (h : Helps K p j self) (fuel : ℕ) :
    Quiet K p (cleanupUserSlice fuel self).run := by
  refine Quiet.bindExcept h.quiet_checkOrphanProcesses fun orphans => ?_
  refine accepts_iteExcept (fun _ => trivial) fun _ => ?_
  refine Quiet.bindExcept (h.quiet_killSliceProcesses _) fun _ => ?_
  refine Quiet.bindExcept (h.quiet_waitForSliceEmpty fuel _) fun empty => ?_
  refine accepts_iteExcept (fun _ => trivial) fun _ => ?_
  refine Quiet.bindExcept h.quiet_checkOrphanProcesses fun _ => ?_
  refine Quiet.bindExcept (h.quiet_killSliceProcesses _) fun _ => ?_
  refine Quiet.bindExcept (h.quiet_waitForSliceEmpty fuel _) fun empty => ?_
  refine accepts_iteExcept (fun _ => trivial) fun _ => ?_
  exact Quiet.bindExcept h.quiet_checkOrphanProcesses fun _ => trivial

theorem quiet_cleanupError (h : Helps K p j self) (fuel : ℕ) :
    Quiet K p (cleanupError fuel self).run := by
  refine accepts_iteExcept (fun _ => ?_) fun _ => trivial
  refine Quiet.bindExcept (h.quiet_cleanupUserSlice fuel).attempt fun r => ?_
  rcases r with e | ⟨⟩
  · cases e <;> exact trivial
  · exact trivial

theorem quiet_userServiceStart (h : Helps K p j self) :
    Quiet K p (userServiceStart self).run :=
  Quiet.bindExcept (quiet_runSubprocess (congrArg serviceName h.userid)) fun _ => trivial

end Helps

/-! ### The lock -/

theorem release_release (φ : Phase) : φ.release.release = φ.release := by
  rcases φ with ⟨hold, _⟩
  cases hold <;> rfl

theorem release_of_ne (h : φ.hold ≠ .held) : φ.release = φ := by
  rcases φ with ⟨hold, _⟩
  cases hold
  · rfl
  · exact absurd rfl h
  · rfl

/-- Closing the lock file gives up the lock, if it is held. -/
theorem accepts_close {fd : Fd} (hfd : fd.path = lockPath K.lockDir p.uid)
    {Q : Except Exn Unit → Phase → Prop} (h : ∀ r, Q r φ.release) :
    (watch K p t).Accepts Q φ (callOS (perform (.close fd))).run := by
  refine ⟨.inl hfd, fun r _ => ?_⟩
  have hnext : φ.next K p t (.close fd) r = φ.release := if_pos hfd
  change Q _ (φ.next K p t (.close fd) r)
  rw [hnext]
  exact h _

/-- The result of trying to take the lock. -/
def acquired (fd : Fd) (φ : Phase) (r : Except Exn Fd) (φ' : Phase) : Prop :=
  match r with
  | .ok fd' => fd' = fd ∧ φ' = { φ with hold := .held }
  | .error _ => φ' = φ

/-- The lock was not acquired: the file is closed and an exception raised. -/
theorem accepts_giveUp {fd : Fd} {e : Exn} (hfd : fd.path = lockPath K.lockDir p.uid)
    (hφ : φ.hold = .before) : (watch K p t).Accepts (acquired fd φ) φ
      (do callOS (perform (.close fd)); throw e : Py Fd).run := by
  have hr : φ.release = φ := release_of_ne (by rw [hφ]; decide)
  refine Accepts.bindExcept (accepts_close (Q := fun _ φ' => φ' = φ) hfd fun _ => hr)
    (fun _ _ h => h) fun _ _ h => h

theorem accepts_acquireLoop {uid : ℤ} {timeout start : ℚ} {fd : Fd}
    (hfd : fd.path = lockPath K.lockDir p.uid) (hφ : φ.hold = .before) : ∀ fuel,
      (watch K p t).Accepts (acquired fd φ) φ (acquireLoop uid timeout fd start fuel).run
  | 0 => ⟨trivial, fun _ h => h.elim⟩
  | fuel + 1 => by
    refine ⟨⟨hfd, hφ⟩, fun r _ => ?_⟩
    rcases r with e | ⟨⟩
    · refine accepts_iteExcept (fun _ => accepts_giveUp hfd hφ) fun _ => ⟨trivial, fun now _ => ?_⟩
      refine accepts_iteExcept (fun _ => accepts_giveUp hfd hφ) fun _ => ⟨trivial, fun _ _ => ?_⟩
      exact accepts_acquireLoop hfd hφ fuel
    · exact ⟨rfl, rfl⟩

theorem accepts_acquireLock {timeout : ℚ} (hφ : φ.hold = .before) (fuel : ℕ) :
    (watch K p t).Accepts (acquired ⟨lockPath K.lockDir p.uid⟩ φ) φ
      (acquireLock fuel p.uid timeout K.lockDir).run := by
  refine ⟨rfl, fun r _ => ?_⟩
  rcases r with e | ⟨⟩
  · exact rfl
  refine ⟨rfl, fun r _ => ?_⟩
  rcases r with e | mode
  · exact rfl
  refine accepts_iteExcept (fun _ => rfl) fun _ => ?_
  refine ⟨.inl rfl, fun r hr => ?_⟩
  rcases r with e | fd
  · cases e <;> exact rfl
  · obtain rfl := hr fd rfl
    have hnext : φ.next K p t (.openFile (lockPath K.lockDir p.uid) [.O_CREAT, .O_RDWR, .O_NOFOLLOW]
        0o600) (.ok ⟨lockPath K.lockDir p.uid⟩) = φ := by
      simp [Phase.next, lockPath_ne_markerPath]
    exact Accepts.of_eq hnext ⟨trivial, fun start _ => accepts_acquireLoop rfl hφ fuel⟩

theorem accepts_releaseLock {fd : Fd} (hfd : fd.path = lockPath K.lockDir p.uid) :
    (watch K p t).Accepts (fun _ φ' => φ' = φ.release) φ (releaseLock fd).run := by
  refine ⟨hfd, fun r _ => ?_⟩
  rcases r with e | ⟨⟩
  · exact Accepts.bindExcept (accepts_close (Q := fun _ φ' => φ' = φ.release) hfd fun _ => rfl)
      (fun _ _ h => h) fun _ _ h => h
  · exact Accepts.bindExcept (accepts_close (Q := fun _ φ' => φ' = φ.release) hfd fun _ =>
      release_release φ) (fun _ _ h => h) fun _ _ h => h

/-! ### The helper -/

theorem Setting.environ_lockDir (u j : ℕ) :
    ((K.environ u j) "FLUX_PAM_LOCK_DIR").getD "/run/flux-pam" = K.lockDir := rfl

/-- The phase of a script that has just taken the lock. -/
def Phase.locked : Phase := { Phase.init with hold := .held }

theorem accepts_init {j fuel : ℕ} {systemctl loginctl : String} :
    (watch K p t).Accepts (fun r φ' => ∀ helper, r = .ok helper → Helps K p j helper ∧ φ' = .locked)
      .init (PAMHelper.init K.X fuel (K.environ p.uid j) p.uid j systemctl loginctl).run := by
  unfold PAMHelper.init
  refine Accepts.bindReturn (Quietly.accepts (Q := fun _ => True) ⟨trivial, fun _ _ => trivial⟩)
    fun _ φ' hφ => ?_
  obtain rfl := hφ.2
  refine (quiet_attrInt "rank").accepts.bindReturn fun rank φ' hφ => ?_
  obtain ⟨hrank, rfl⟩ := hφ
  have hrank : rank = K.rank := by
    have h := hrank rank rfl
    rw [K.rank_attr] at h
    exact (Option.some.inj h).symm
  refine (quiet_confGet _ _).accepts.bindReturn fun _ φ' hφ => ?_
  obtain rfl := hφ.2
  refine (quiet_confGet _ _).accepts.bindReturn fun manage φ' hφ => ?_
  obtain ⟨hmanage, rfl⟩ := hφ
  refine (quiet_confGet _ _).accepts.bindReturn fun constrain φ' hφ => ?_
  obtain ⟨hconstrain, rfl⟩ := hφ
  refine (quiet_confGet _ _).accepts.bindReturn fun _ φ' hφ => ?_
  obtain rfl := hφ.2
  refine (quiet_confGet _ _).accepts.bindReturn fun grace φ' hφ => ?_
  obtain rfl := hφ.2
  refine Accepts.bindReturn (Monitor.accepts_pure (Q := fun _ φ' => φ' = Phase.init) rfl)
    fun graceTime φ' hφ => ?_
  subst hφ
  rw [Setting.environ_lockDir]
  refine (accepts_acquireLock rfl fuel).bindReturn fun fd φ' hφ => ?_
  obtain ⟨rfl, rfl⟩ := hφ
  refine Monitor.accepts_pure fun helper h => ?_
  cases h
  exact ⟨⟨rfl, rfl, hrank, hmanage manage rfl, hconstrain constrain rfl, rfl, rfl⟩, rfl⟩

/-- The `with` statement: the body runs with the lock, which is released before
the statement is left. -/
theorem accepts_withHelper {α : Type} {j fuel : ℕ} {systemctl loginctl : String}
    {body : PAMHelper → Py α} {B : Except Exn α → Phase → Prop}
    (hb : ∀ helper, Helps K p j helper → (watch K p t).Accepts B .locked (body helper).run) :
    (watch K p t).Accepts (fun r φ' => ∀ a, r = .ok a → ∃ φ, B (.ok a) φ ∧ φ' = φ.release) .init
      (withHelper K.X fuel (K.environ p.uid j) p.uid j systemctl loginctl body).run := by
  unfold withHelper
  refine accepts_init.bindReturn fun helper φ hφ => ?_
  obtain ⟨hh, rfl⟩ := hφ helper rfl
  refine (hb helper hh).attemptBind fun r φ hB => ?_
  have hexit : (watch K p t).Accepts (fun _ φ' => φ' = φ.release) φ helper.exit.run := by
    unfold PAMHelper.exit
    rw [hh.lock]
    exact accepts_releaseLock rfl
  refine hexit.bindReturn fun _ φ' hφ' => ?_
  subst hφ'
  cases r with
  | ok a =>
    rintro a' ⟨⟩
    exact ⟨φ, hB, rfl⟩
  | error e => exact raised e

namespace Helps

open PAMHelper

variable {j : ℕ} {self : PAMHelper}

/-- The jobs listed are kept, without the script's own. -/
def listed (K : Setting) (p : Pid) (j : ℕ) (φ : Phase) (r : Except Exn (PAMHelper × ℕ)) (φ' : Phase) :
    Prop :=
  ∀ helper n, r = .ok (helper, n) → ∃ others, φ' = { φ with others := some others } ∧
    Helps K p j helper ∧ helper.cachedJobids = some others ∧ n = others.length

theorem accepts_activeLocalJobs (h : Helps K p j self) (ht : ∀ ids, t.others ids = ids.filter (· ≠ j))
    (hs : t.isProlog ∨ t.isHousekeeping) (hhold : φ.hold = .held) (hothers : φ.others = none) :
    (watch K p t).Accepts (listed K p j φ) φ (activeLocalJobs self).run := by
  have hrank : toString self.rank = numeral K.rank := by rw [h.rank]; rfl
  have huser : toString self.userid = numeral p.uid := by rw [h.userid]; rfl
  refine ⟨⟨huser, hrank, hhold, hothers, hs⟩, fun r _ => ?_⟩
  rcases r with e | ids
  · intro helper n hr
    cases hr
  · intro helper n hr
    cases hr
    refine ⟨_, rfl, ⟨h.userid, h.jobid, h.rank, h.manage, h.constrain, h.marker, h.lock⟩, ?_, ?_⟩
    · rw [ht, h.jobid]
    · rw [ht, h.jobid]

/-! ### An update -/

variable {others : List ℕ} {includeCurrent : Bool}

/-- The union of the resource sets looked up. -/
def united (K : Setting) (φ : Phase) (ids : List ℕ) (r : Except Exn (Option K.X.RSet)) (φ' : Phase) :
    Prop :=
  ∀ R, r = .ok R → φ' = { φ with draft := ⟨ids, none⟩ } ∧ ∃ union, R = some union ∧
    PAMHelper.unionLoop K.X none (ids.map K.R) = .ok (some union)

theorem accepts_unionOf {ids : List ℕ} (hids : ids ≠ []) :
    (watch K p t).Accepts (united K φ ids) φ (unionOf K.X ids).run := by
  have hraise : ∀ (e : Exn) (φ' : Phase), united K φ ids (.error e) φ' := fun e _ => raised e
  refine accepts_iteExcept (fun he => absurd he hids) fun _ => ?_
  refine ⟨trivial, fun r hr => ?_⟩
  rcases r with e | ⟨results, errors⟩
  · exact hraise _ _
  refine accepts_iteExcept (fun _ => hraise _ _) fun he => ?_
  obtain rfl : errors = [] := by simpa using he
  obtain rfl := hr results rfl
  rw [List.map_map, Function.comp_def]
  cases hu : unionLoop K.X none (ids.map K.R) with
  | error e => exact hraise e _
  | ok union =>
    cases union with
    | none => exact hraise _ _
    | some union =>
      intro R hR
      cases hR
      exact ⟨rfl, union, rfl, hu⟩

theorem accepts_modifySlice (h : Helps K p j self) {props : Properties}
    (hu : φ.updates K t (assignments props)) :
    (watch K p t).Accepts (fun r φ' => ∀ u, r = .ok u → φ' = { φ with updated := true }) φ
      (modifySlice self (some props)).run := by
  have hd := World.decode_setProperty self.systemctl (sliceName p.uid) (assignments props)
  unfold modifySlice
  rw [h.userid]
  have hrun : (watch K p t).Accepts (fun r φ' => ∀ out, r = .ok out → φ' = { φ with updated := true })
      φ (runSubprocess ([self.systemctl, "set-property", "--runtime", sliceName p.uid] ++
        assignments props) 30).run := by
    refine accepts_runSubprocess ?_ (fun out _ _ => ?_) fun e _ => raised e
    · rw [Phase.allowed_run, hd]
      exact ⟨rfl, hu⟩
    · rw [hd]
      simp [Phase.nextCommand]
  exact hrun.bindReturn fun out φ' hφ u _ => hφ out rfl

/-- An update of the slice for the jobs just listed, the script's own included
as its task wants. -/
theorem accepts_applyResourceConstraints (h : Helps K p j self) (includeCurrent : Bool)
    (hc : self.cachedJobids = some others)
    (hw : (if includeCurrent then others ++ [j] else others) = t.wanted others)
    (hne : t.wanted others ≠ []) (hhold : φ.hold = .held) (ho : φ.others = some others) :
    (watch K p t).Accepts (fun r φ' => ∀ u, r = .ok u → φ'.hold = .held ∧ φ'.others = some others ∧
      (K.constrain.truthy = true → φ'.updated = true)) φ
      (applyResourceConstraints K.X self includeCurrent).run := by
  unfold applyResourceConstraints
  rw [h.constrain]
  refine accepts_iteExcept (fun hn u _ => ⟨hhold, ho, fun hy => ?_⟩) fun _ => ?_
  · rw [hy] at hn
    cases hn
  have hunion : (watch K p t).Accepts (united K φ (t.wanted others)) φ
      (resourceUnion K.X self includeCurrent).run := by
    unfold resourceUnion
    rw [hc, h.jobid]
    dsimp only
    rw [hw]
    exact accepts_unionOf hne
  refine hunion.bindReturn fun R φ' hφ' => ?_
  obtain ⟨rfl, union, rfl, hu⟩ := hφ' R rfl
  refine ⟨⟨union, hu, rfl⟩, fun r hr => ?_⟩
  rcases r with e | props
  · exact raised _
  cases props with
  | none => exact raised _
  | some props =>
    have hmaps : K.maps (K.X.encode union) props := hr props rfl
    have hupd : ({ φ with draft := ⟨t.wanted others, some props⟩ } : Phase).updates K t
        (assignments props) := ⟨hhold, others, props, ho, rfl, hne, ⟨rfl, union, hu, hmaps⟩, rfl⟩
    refine (h.accepts_modifySlice hupd).mono fun r φ' hφ' u hr => ?_
    rw [hφ' u hr]
    exact ⟨hhold, ho, fun _ => rfl⟩

/-! ### The marker -/

theorem accepts_closeMarker {Q : Except Exn Unit → Phase → Prop} (h : ∀ r, Q r φ) :
    (watch K p t).Accepts Q φ (callOS (perform (.close ⟨markerPath K.lockDir p.uid⟩))).run := by
  refine ⟨.inr rfl, fun r _ => ?_⟩
  have hnext : φ.next K p t (.close ⟨markerPath K.lockDir p.uid⟩) r = φ :=
    if_neg (lockPath_ne_markerPath _ _ _ _).symm
  change Q _ (φ.next K p t (.close _) r)
  rw [hnext]
  exact h _

theorem accepts_setActiveMarker (h : Helps K p j self) (hp : φ.publishes K p t) :
    (watch K p t).Accepts (fun r φ' => ∀ u, r = .ok u → φ'.published = true) φ
      (setActiveMarker self).run := by
  unfold setActiveMarker
  rw [h.marker]
  refine ⟨.inr ⟨rfl, hp⟩, fun r hr => ?_⟩
  rcases r with e | fd
  · exact raised _
  obtain rfl := hr fd rfl
  exact accepts_closeMarker fun r u _ => by simp [watch, Phase.next]

theorem accepts_clearActiveMarker (h : Helps K p j self) (hc : φ.clears K p t) :
    (watch K p t).Accepts (fun r φ' => ∀ u, r = .ok u → φ' = φ.clear) φ
      (clearActiveMarker self).run := by
  unfold clearActiveMarker
  rw [h.marker]
  refine ⟨⟨rfl, hc⟩, fun r _ => ?_⟩
  rcases r with e | ⟨⟩
  · cases e
    case ENOENT => exact fun u _ => by simp [watch, Phase.next]
    all_goals exact raised _
  · exact fun u _ => rfl

theorem accepts_revertSlice (h : Helps K p j self) (hhold : φ.hold = .held) (hc : φ.cleared = true) :
    (watch K p t).Accepts (fun r φ' => ∀ u, r = .ok u → φ' = { φ with reverted := true }) φ
      (revertSlice self).run := by
  unfold revertSlice
  rw [h.userid]
  have hrun : (watch K p t).Accepts (fun r φ' => φ' = { φ with reverted := true } ∨
      ∃ msg, r = .error (.valueError msg)) φ
      (runSubprocess [self.systemctl, "revert", sliceName p.uid] 30).run := by
    rw [runSubprocess]
    exact accepts_iteExcept (fun _ => ⟨⟨rfl, hhold, hc⟩, fun r _ => .inl rfl⟩) fun _ => .inr ⟨_, rfl⟩
  refine hrun.attemptBind fun r φ' hφ => ?_
  rcases hφ with rfl | ⟨msg, rfl⟩
  · rcases r with e | out
    · cases e <;> exact fun u _ => rfl
    · exact fun u _ => rfl
  · exact raised _

/-- The teardown of a user without other jobs. -/
theorem accepts_userSliceTeardown (h : Helps K p j self) (fuel : ℕ) (hc : φ.clears K p t) :
    (watch K p t).Accepts (fun r φ' => ∀ u, r = .ok u → φ'.others = φ.others ∧
      φ'.cleared = true ∧ φ'.reverted = true) φ (userSliceTeardown fuel self).run := by
  unfold userSliceTeardown
  refine (h.accepts_clearActiveMarker hc).bindReturn fun _ φ' hφ => ?_
  obtain rfl := hφ () rfl
  have hstop : Quiet K p (tolerating (runSubprocess [self.systemctl, "stop", serviceName self.userid]
      30)).run := quiet_tolerating (quiet_runSubprocess (congrArg serviceName h.userid))
  refine hstop.accepts.bindReturn fun _ φ' hφ => ?_
  obtain rfl := hφ.2
  refine (h.quiet_cleanupError fuel).accepts.bindReturn fun error φ' hφ => ?_
  obtain rfl := hφ.2
  refine (h.accepts_revertSlice (φ := φ.clear) hc.1 rfl).bindReturn
    fun _ φ' hφ => ?_
  obtain rfl := hφ () rfl
  cases error with
  | none => exact fun u _ => ⟨rfl, rfl, rfl⟩
  | some e => exact raised e

end Helps

/-! ### The scripts -/

section Scripts

open PAMHelper

variable {j fuel : ℕ} {self : PAMHelper}

/-- What a body that returns 0 has done. -/
def zeroes (Q : Phase → Prop) (r : Except Exn ℤ) (φ' : Phase) : Prop := r = .ok 0 → Q φ'

theorem zeroes_error {Q : Phase → Prop} {e : Exn} {φ' : Phase} : zeroes Q (.error e) φ' :=
  fun h => by cases h

theorem accepts_publish (h : Helps K p j self) (hp : φ.publishes K p t) :
    (watch K p t).Accepts (zeroes fun φ' => φ'.published = true) φ (Prolog.publish self).run := by
  unfold Prolog.publish
  refine (h.accepts_setActiveMarker hp).attemptBind fun r φ' hφ => ?_
  rcases r with e | ⟨⟩
  · intro h
    cases h
  · have hpub := hφ () rfl
    refine h.quiet_userServiceStart.accepts.attemptBind fun _ φ'' hφ'' => ?_
    obtain rfl := hφ''.2
    exact fun _ => hpub

theorem accepts_constrain (h : Helps K p j self) (hm : K.managed p.uid) (hhold : φ.hold = .held)
    (ho : φ.others = none) : (watch K p (.prolog j fuel)).Accepts
      (zeroes fun φ' => φ'.published = true) φ (Prolog.constrain K.X self).run := by
  unfold Prolog.constrain
  refine (h.accepts_activeLocalJobs (t := .prolog j fuel) (fun _ => rfl) (.inl trivial) hhold
    ho).bindExcept (fun r φ' hφ => ?_) fun _ _ _ => zeroes_error
  obtain ⟨helper, n⟩ := r
  obtain ⟨others, rfl, hh, hc, -⟩ := hφ helper n rfl
  have hne : Task.wanted (.prolog j fuel) others ≠ [] := by simp [Task.wanted]
  refine (hh.accepts_applyResourceConstraints (φ := { φ with others := some others })
    true hc rfl hne hhold rfl).attemptBind fun r φ' hφ => ?_
  rcases r with e | ⟨⟩
  · intro h
    cases h
  · obtain ⟨h₁, -, h₂⟩ := hφ () rfl
    exact accepts_publish hh ⟨h₁, trivial, hm, h₂⟩

theorem accepts_prologBody (h : Helps K p j self) :
    (watch K p (.prolog j fuel)).Accepts (zeroes fun φ' => K.managed p.uid → φ'.published = true)
      .locked (Prolog.body K.X self).run := by
  unfold Prolog.body
  refine h.quiet_shouldSkip.accepts.bindExcept (fun b φ' hφ => ?_) fun _ _ _ => zeroes_error
  obtain ⟨hb, rfl⟩ := hφ
  have hb := hb b rfl
  refine accepts_iteExcept (fun hs _ hm => absurd hm (hb.mp hs)) fun hs => ?_
  have hm : K.managed p.uid := by
    by_contra hm
    exact hs (hb.mpr hm)
  refine (quiet_checkLinger self 30).accepts.attemptBind fun r φ' hφ => ?_
  obtain rfl := hφ.2
  rcases r with e | linger
  · cases e <;> exact fun h => by cases h
  · cases linger with
    | true =>
      intro h
      cases h
    | false => exact (accepts_constrain h hm rfl rfl).mono fun r φ' hr h₀ _ => hr h₀

theorem accepts_housekeepingBody (h : Helps K p j self) :
    (watch K p (.housekeeping j fuel)).Accepts (zeroes fun φ' => K.managed p.uid → φ'.cleaned K)
      .locked (Housekeeping.body K.X fuel self).run := by
  unfold Housekeeping.body
  refine h.quiet_shouldSkip.accepts.bindExcept (fun b φ' hφ => ?_) fun _ _ _ => zeroes_error
  obtain ⟨hb, rfl⟩ := hφ
  have hb := hb b rfl
  refine accepts_iteExcept (fun hs _ hm => absurd hm (hb.mp hs)) fun hs => ?_
  have hm : K.managed p.uid := by
    by_contra hm
    exact hs (hb.mpr hm)
  refine (h.accepts_activeLocalJobs (t := .housekeeping j fuel) (fun _ => rfl) (.inr trivial) rfl
    rfl).bindExcept (fun r φ' hφ => ?_) fun _ _ _ => zeroes_error
  obtain ⟨helper, n⟩ := r
  obtain ⟨others, rfl, hh, hc, rfl⟩ := hφ helper n rfl
  refine accepts_iteExcept (fun hz => ?_) fun hz => ?_
  · obtain rfl := List.length_eq_zero_iff.mp hz
    refine (hh.accepts_userSliceTeardown (t := .housekeeping j fuel) fuel
      ⟨rfl, trivial, hm, rfl⟩).bindExcept (fun _ φ' hφ => ?_) fun _ _ _ => zeroes_error
    obtain ⟨ho, hcl, hre⟩ := hφ () rfl
    exact fun _ _ => ⟨[], ho, fun _ => ⟨hcl, hre⟩, fun hne => absurd rfl hne⟩
  · have hne : Task.wanted (.housekeeping j fuel) others ≠ [] := fun he => hz (by
      rw [show others = [] from he]; rfl)
    refine (hh.accepts_applyResourceConstraints false hc rfl hne rfl rfl).bindExcept
      (fun _ φ' hφ => ?_) fun _ _ _ => zeroes_error
    obtain ⟨-, ho, hu⟩ := hφ () rfl
    exact fun _ _ => ⟨others, ho, fun he => absurd he hne, fun _ => hu⟩

/-- A script reads its user and its job, unless the uid is too long for `int ()`. -/
theorem jobInfo_environ (u j : ℕ) :
    jobInfo K.X (K.environ u j) = none ∨ jobInfo K.X (K.environ u j) = some ((u : ℤ), j) := by
  have hu : (K.environ u j) "FLUX_JOB_USERID" = some (numeral u) := rfl
  have hj : (K.environ u j) "FLUX_JOB_ID" = some (K.jobText j) := rfl
  simp only [jobInfo, hu, hj, Option.bind_some, K.jobID_text]
  cases hread : pyInt (numeral u) with
  | none => exact .inl rfl
  | some i =>
    obtain rfl := eq_of_pyInt_numeral hread
    exact .inr rfl

/-- What holds when a `with` statement is left holds when the script exits. -/
theorem accepts_exit {Q : Phase → Prop} {x : Py ℤ}
    (hx : (watch K p t).Accepts (fun r φ' => ∀ a, r = .ok a → ∃ φ, zeroes Q (.ok a) φ ∧ φ' = φ.release)
      .init x.run) (hQ : ∀ φ, Q φ → Q φ.release) :
    (watch K p t).Accepts (fun a φ' => a = .status 0 → Q φ') .init (do
      let status ← (do
        match ← x.run with
        | .ok status => return status
        | .error _ => return 1 : Cmd ℤ)
      return Exit.status status : Cmd Exit) := by
  have hmain : (watch K p t).Accepts (fun n φ' => n = 0 → Q φ') .init (do
      match ← x.run with
      | .ok status => return status
      | .error _ => return 1 : Cmd ℤ) := by
    refine hx.bind fun r φ' hr => ?_
    cases r with
    | error e =>
      intro h
      cases h
    | ok a =>
      rintro rfl
      obtain ⟨φ, hφ, rfl⟩ := hr 0 rfl
      exact hQ φ (hφ rfl)
  refine hmain.bind fun n φ' h => ?_
  rintro hn
  cases hn
  exact h rfl

theorem prolog_accepts : (watch K p (.prolog j fuel)).Accepts (Phase.post K p (.prolog j fuel)) .init
    (K.program p (.prolog j fuel)) := by
  dsimp only [Setting.program, Prolog.main]
  rcases jobInfo_environ (K := K) p.uid j with hj | hj <;> rw [hj]
  · exact fun h => by cases h
  · exact accepts_exit (accepts_withHelper fun helper hh => accepts_prologBody hh) fun φ h => h

theorem housekeeping_accepts : (watch K p (.housekeeping j fuel)).Accepts
    (Phase.post K p (.housekeeping j fuel)) .init (K.program p (.housekeeping j fuel)) := by
  dsimp only [Setting.program, Housekeeping.main]
  rcases jobInfo_environ (K := K) p.uid j with hj | hj <;> rw [hj]
  · exact fun h => by cases h
  · exact accepts_exit (accepts_withHelper fun helper hh => accepts_housekeepingBody hh) fun φ h => h

end Scripts

/-! ### The session -/

theorem quiet_of_talk (o : Op) (h : talk o) : quiet K p o := by
  cases o <;> trivial

theorem quiet_getPamUserUid :
    Quietly K p (fun r => ∀ user uid, r = some (user, uid) → uid.toNat = p.uid) getPamUserUid :=
  only_getPamUserUid trivial (fun _ => trivial) fun _ uid h => h uid rfl

theorem quiet_sendDenialMsg (user : String) : Quiet K p (sendDenialMsg user) :=
  only_sendDenialMsg quiet_of_talk user

theorem quiet_checkPamManageUserSlice : Quiet K p checkPamManageUserSlice :=
  (only_checkPamManageUserSlice quiet_of_talk).mono fun _ _ _ => trivial

theorem quiet_busAppendAll (args : List BusArg) : Quiet K p (busAppendAll args) :=
  only_busAppendAll quiet_of_talk args

theorem quiet_setEnvironment (uid : Uid) : Quiet K p (setEnvironment uid) :=
  (only_setEnvironment quiet_of_talk uid).mono fun _ _ _ => trivial

variable {uid : Uid}

/-- The result of taking the lock in a session. -/
def took (K : Setting) (p : Pid) (φ : Phase) (r : Option Fd) (φ' : Phase) : Prop :=
  match r with
  | some fd => fd = ⟨lockPath K.lockDir p.uid⟩ ∧ φ' = { φ with hold := .held }
  | none => φ' = φ

theorem accepts_userLockRelease {fd : Fd} (hfd : fd.path = lockPath K.lockDir p.uid) :
    (watch K p t).Accepts (fun _ φ' => φ' = φ.release) φ (userLockRelease fd) :=
  ⟨.inl hfd, fun _ _ => if_pos hfd⟩

/-- Wait for the lock; the file is closed if that fails. -/
theorem accepts_flock {fd : Fd} (hfd : fd = ⟨lockPath K.lockDir p.uid⟩) (hφ : φ.hold = .before) :
    (watch K p t).Accepts (took K p φ) φ (do
      match ← perform (.flock fd .LOCK_EX) with
      | .ok () => return some fd
      | .error _ =>
        let _ ← perform (.close fd)
        return none : Cmd (Option Fd)) := by
  subst hfd
  refine ⟨⟨rfl, hφ⟩, fun r _ => ?_⟩
  rcases r with e | ⟨⟩
  · have hr : φ.release = φ := release_of_ne (by rw [hφ]; decide)
    refine ⟨.inl rfl, fun r _ => ?_⟩
    have hnext : φ.next K p t (.close ⟨lockPath K.lockDir p.uid⟩) r = φ := (if_pos rfl).trans hr
    exact hnext
  · exact ⟨rfl, rfl⟩

theorem accepts_userLockAcquire (hu : uid.toNat = p.uid) (hφ : φ.hold = .before) :
    (watch K p t).Accepts (took K p φ) φ (userLockAcquire uid K.lockDir) := by
  unfold userLockAcquire
  rw [hu]
  refine ⟨rfl, fun r _ => ?_⟩
  rcases r with e | mode
  · exact rfl
  refine accepts_ite (fun _ => rfl) fun _ => accepts_ite (fun _ => rfl) fun hn => ?_
  rw [if_pos (Nat.lt_of_not_le hn)]
  refine ⟨.inl rfl, fun r hr => ?_⟩
  rcases r with e | fd
  · exact rfl
  obtain rfl := hr fd rfl
  have hnext : φ.next K p t (.openFile (lockPath K.lockDir p.uid) [.O_CREAT, .O_RDWR, .O_NOFOLLOW]
      0o600) (.ok ⟨lockPath K.lockDir p.uid⟩) = φ := by
    simp [Phase.next, lockPath_ne_markerPath]
  exact Accepts.of_eq hnext (accepts_flock rfl hφ)

theorem accepts_checkActiveMarker (hu : uid.toNat = p.uid) (hφ : φ.hold = .held) :
    (watch K p t).Accepts (fun b φ' => φ'.hold = .held ∧ (b = true → φ'.seen = true)) φ
      (checkActiveMarker uid K.lockDir) := by
  unfold checkActiveMarker
  rw [hu]
  refine accepts_ite (fun _ => ⟨hφ, fun h => by cases h⟩) fun hn => ?_
  rw [if_pos (Nat.lt_of_not_le hn)]
  refine ⟨⟨rfl, hφ⟩, fun r _ => ?_⟩
  rcases r with e | kind
  · exact ⟨hφ, fun h => by cases h⟩
  · refine ⟨hφ, fun h => ?_⟩
    simp only [decide_eq_true_eq] at h
    simp [watch, Phase.next, h]

theorem accepts_createSessionScope {scope : String} (hu : uid.toNat = p.uid) (hφ : φ.hold = .held)
    (hs : φ.seen = true) : (watch K p t).Accepts (fun _ φ' => φ' = φ) φ
      (createSessionScope scope uid p.n) := by
  unfold createSessionScope
  rw [hu]
  refine accepts_ite (fun _ => rfl) fun hn => ?_
  rw [if_pos (Nat.lt_of_not_le hn)]
  refine ⟨trivial, fun r _ => ?_⟩
  cases r
  · exact rfl
  refine ⟨trivial, fun r _ => ?_⟩
  cases r
  · exact rfl
  refine (quiet_busAppendAll _).accepts.bind fun b φ' hφ' => ?_
  obtain rfl := hφ'.2
  cases b
  · exact rfl
  · exact ⟨⟨hφ, hs, scope, rfl⟩, fun _ _ => rfl⟩

/-- A session that returns has no lock. -/
abbrev unlocked (φ : Phase) : Prop := φ.hold ≠ .held

theorem unlocked_release (φ : Phase) : unlocked φ.release := by
  rcases φ with ⟨hold, _⟩
  cases hold <;> exact fun h => by cases h

theorem accepts_attachLocked {user scope : String} (hu : uid.toNat = p.uid) (hφ : φ.hold = .held) :
    (watch K p t).Accepts (fun _ φ' => unlocked φ') φ
      (attachLocked user uid K.lockDir scope p.n ⟨lockPath K.lockDir p.uid⟩) := by
  unfold attachLocked
  refine (accepts_checkActiveMarker hu hφ).bind fun b φ' hφ' => ?_
  obtain ⟨hh, hs⟩ := hφ'
  cases b
  · refine (quiet_sendDenialMsg user).accepts.bind fun _ φ'' h => ?_
    obtain rfl := h.2
    refine (accepts_userLockRelease rfl).bind fun _ φ'' h => ?_
    rw [show φ'' = _ from h]
    exact unlocked_release _
  · refine (accepts_createSessionScope hu hh (hs rfl)).bind fun b φ'' h => ?_
    subst h
    cases b
    · refine (accepts_userLockRelease rfl).bind fun _ φ₁ h => ?_
      rw [h]
      exact unlocked_release φ''
    · refine (accepts_userLockRelease rfl).bind fun _ φ₁ h => ?_
      subst h
      exact (quiet_setEnvironment uid).accepts.mono fun _ φ₂ h => by
        rw [h.2]; exact unlocked_release φ''

theorem accepts_attachSession {opts : Options} {user : String} (hu : uid.toNat = p.uid)
    (hd : opts.lockDir = K.lockDir) (hφ : φ.hold = .before) :
    (watch K p t).Accepts (fun _ φ' => unlocked φ') φ (attachSession opts user uid) := by
  have hφ' : unlocked φ := by rw [unlocked, hφ]; decide
  refine ⟨trivial, fun pid hpid => ?_⟩
  obtain rfl : pid = p.n := hpid
  refine accepts_ite (fun _ => hφ') fun hn => ?_
  rw [hd]
  refine (accepts_userLockAcquire hu hφ).bind fun r φ' h => ?_
  cases r with
  | none => rw [show φ' = φ from h]; exact hφ'
  | some fd =>
    obtain ⟨rfl, rfl⟩ := h
    exact accepts_attachLocked hu rfl

theorem accepts_manageSession {opts : Options} {user : String} (hu : uid.toNat = p.uid)
    (hd : opts.lockDir = K.lockDir) (hφ : φ.hold = .before) :
    (watch K p t).Accepts (fun _ φ' => unlocked φ') φ
      (manageSession K.libsystemd opts user uid) := by
  have hφ' : unlocked φ := by rw [unlocked, hφ]; decide
  refine quiet_checkPamManageUserSlice.accepts.bind fun r φ' h => ?_
  obtain rfl := h.2
  rcases r with _ | ⟨manage, owner⟩
  · exact hφ'
  refine accepts_ite (fun _ => hφ') fun _ => accepts_ite (fun _ => hφ') fun _ =>
    accepts_ite (fun _ => accepts_attachSession hu hd hφ) fun _ => ?_
  refine (quiet_sendDenialMsg user).accepts.bind fun _ φ' h => ?_
  rw [h.2]
  exact hφ'

theorem session_accepts {argv : List String}
    (hd : ∀ opts, parseOptions sessionDefaults argv = some opts → opts.lockDir = K.lockDir) :
    (watch K p (.session argv)).Accepts (Phase.post K p (.session argv)) .init
      (K.program p (.session argv)) := by
  have hφ : unlocked .init := fun h => by cases h
  suffices (watch K p (.session argv)).Accepts (fun _ φ' => unlocked φ') .init
      (pamSmOpenSession K.libsystemd argv) from this.bind fun ret φ' h => h
  unfold pamSmOpenSession
  cases ho : parseOptions sessionDefaults argv with
  | none => exact hφ
  | some opts =>
    refine ⟨trivial, fun service _ => accepts_ite (fun _ => hφ) fun _ => ⟨trivial, fun r _ => ?_⟩⟩
    cases r
    · exact hφ
    refine quiet_getPamUserUid.accepts.bind fun r φ' h => ?_
    obtain ⟨hu, rfl⟩ := h
    rcases r with _ | ⟨user, uid⟩
    · exact hφ
    · exact accepts_manageSession (hu user uid rfl) (hd opts ho) rfl

/-! ### All of them -/

/-- **The programs keep the discipline.** -/
theorem watch_sound (K : Setting) (C : Contract) : Watch.Sound (node K C) (watchAll K) where
  answers _ _ _ _ _ _ h := h.1
  accepts p t w w' h := by
    cases t with
    | prolog j fuel => exact prolog_accepts
    | housekeeping j fuel => exact housekeeping_accepts
    | session argv => exact session_accepts h.1

end FluxPam
