/-
# What is asked of systemd, and of whom

The watch says which units a process may name; this says when. Commands are run
for managed users only. The user's service is started by a prolog that has
published the marker, and stopped, and the slice's processes killed, by a
housekeeping that has removed it, both with the lock held (`Phase.orders`). So a
service is started over a slice with constraints, and no job whose prolog
succeeded is torn down (`units_in_order`); a user who is not managed is left
alone (`unmanaged_untouched`).
-/
import FluxPam.Containment
import FluxPam.Calls
import FluxPam.Deeds
import FluxPam.Footprint
import FluxPam.Server
import FluxPam.Interaction.Strengthen

namespace FluxPam

open Interaction Monitor PAMHelper

/-- When a command may be run. -/
def Phase.orders (φ : Phase) : Option World.Command → Prop
  | some (.start _) => φ.hold = .held ∧ φ.published = true
  | some (.stop _) => φ.hold = .held ∧ φ.cleared = true
  | some (.kill _) => φ.hold = .held ∧ φ.cleared = true
  | _ => True

/-- Commands are run in order, and for managed users only. -/
def ordered (K : Setting) (p : Pid) (φ : Phase) : Op → Prop
  | .run argv _ => K.managed p.uid ∧ φ.orders (World.decode argv)
  | _ => True

/-- Of commands, the operation runs one of these. -/
def commands (D : World.Command → Prop) : Op → Prop
  | .run argv _ => ∃ c, World.decode argv = some c ∧ D c
  | _ => True

variable {K : Setting} {p : Pid} {t : Task} {φ : Phase} {α : Type}

theorem ordered_of_commands {D : World.Command → Prop} (hK : K.managed p.uid)
    (hD : ∀ c, D c → φ.orders (some c)) {o : Op} (h : commands D o) : ordered K p φ o := by
  cases o with
  | run argv timeout =>
    obtain ⟨c, hd, hc⟩ := h
    refine ⟨hK, ?_⟩
    rw [hd]
    exact hD c hc
  | _ => exact trivial

/-- No command is run. -/
abbrev commandless : Op → Prop := commands fun _ => False

theorem ordered_of_commandless {o : Op} (h : commandless o) : ordered K p φ o := by
  cases o with
  | run argv timeout =>
    obtain ⟨c, -, hc⟩ := h
    exact hc.elim
  | _ => exact trivial

variable (K p t) in
/-- The watch, with commands in order. -/
abbrev orderly : Monitor Op Res Phase := (watch K p t).restrict (ordered K p)

theorem orderly_of_commandless {Q : α → Phase → Prop} {R : α → Prop} {x : Cmd α}
    (hx : (watch K p t).Accepts Q φ x) (h : Keeps commandless R x) : (orderly K p t).Accepts Q φ x :=
  hx.restrict_keeps (fun _ _ => ordered_of_commandless) h

/-- A quiet program that runs only commands that are in order here. -/
theorem Quietly.ordered {Q R : α → Prop} {x : Cmd α} (hx : Quietly K p Q x)
    {D : World.Command → Prop} (hK : K.managed p.uid) (hD : ∀ c, D c → φ.orders (some c))
    (h : Keeps (commands D) R x) : (orderly K p t).Accepts (fun a φ' => Q a ∧ φ' = φ) φ x :=
  Accepts.restrict_still (M := watch K p t) (C := FluxPam.ordered K p) (N := hush K p)
    (fun _ => quiet_allowed) (fun _ r ho => quiet_next ho r)
    (fun _ _ hr => hr) (fun _ ho => ordered_of_commands hK hD ho) hx h

/-! ### The cleanup -/

variable {q : Op → Prop} {self : PAMHelper}

/-- What a cleanup performs. -/
structure Sweeps (q : Op → Prop) (helper : PAMHelper) : Prop where
  looks : ∀ o, looks o → q o
  time : q .time
  sleep : ∀ d, q (.sleep d)
  stuck : q .stuck
  kill : ∀ signal,
    q (.run [helper.systemctl, "kill", "--signal=" ++ signal, sliceName helper.userid] 30)

theorem sweeps_kills : Sweeps (commands fun c => ∃ unit, c = .kill unit) self where
  looks o h := by
    cases o with
    | run => exact h.elim
    | _ => exact trivial
  time := trivial
  sleep _ := trivial
  stuck := trivial
  kill _ := ⟨_, rfl, _, rfl⟩

theorem Sweeps.check (hq : Sweeps q self) : Keeps q (fun _ => True) (checkOrphanProcesses self).run :=
  (keeps_checkOrphanProcesses.imp hq.looks).mono fun _ _ _ => trivial

theorem Sweeps.waitLoop (hq : Sweeps q self) (timeout start : ℚ) : ∀ (fuel : ℕ) (interval : ℚ),
    Keeps q (fun _ => True) (waitLoop self timeout start fuel interval).run
  | 0, _ => ⟨hq.stuck, fun _ _ => trivial⟩
  | fuel + 1, interval => by
    refine ⟨hq.time, fun now _ => accepts_iteExcept (fun _ => ?_) fun _ => trivial⟩
    refine hq.check.bindExcept (fun orphans _ _ => ?_) fun _ _ _ => trivial
    refine accepts_iteExcept (fun _ => trivial) fun _ => ⟨hq.sleep interval, fun _ _ => ?_⟩
    exact hq.waitLoop timeout start fuel _

theorem Sweeps.round (hq : Sweeps q self) (fuel : ℕ) (signal : String) {x : Py Unit}
    (hx : Keeps q (fun _ => True) x.run) : Keeps q (fun _ => True) (do
      killSliceProcesses self signal
      if ← waitForSliceEmpty fuel self self.killGraceTime then return ()
      else x : Py Unit).run := by
  refine Accepts.bindExcept (A := fun _ _ => True) ?_ (fun _ _ _ => ?_) fun _ _ _ => trivial
  · exact (keeps_runSubprocess (hq.kill signal)).bindExcept (fun _ _ _ => trivial) fun _ _ _ => trivial
  refine Accepts.bindExcept (A := fun _ _ => True) ?_ (fun _ _ _ => ?_) fun _ _ _ => trivial
  · exact ⟨hq.time, fun start _ => hq.waitLoop _ start fuel _⟩
  · exact accepts_iteExcept (fun _ => trivial) fun _ => hx

theorem Sweeps.cleanupUserSlice (hq : Sweeps q self) (fuel : ℕ) :
    Keeps q (fun _ => True) (cleanupUserSlice fuel self).run := by
  refine hq.check.bindExcept (fun orphans _ _ => ?_) fun _ _ _ => trivial
  refine accepts_iteExcept (fun _ => trivial) fun _ => hq.round fuel "SIGTERM" ?_
  refine hq.check.bindExcept (fun _ _ _ => ?_) fun _ _ _ => trivial
  refine hq.round fuel "SIGKILL" ?_
  exact hq.check.bindExcept (fun _ _ _ => trivial) fun _ _ _ => trivial

theorem Sweeps.cleanupError (hq : Sweeps q self) (fuel : ℕ) :
    Keeps q (fun _ => True) (cleanupError fuel self).run := by
  refine accepts_iteExcept (fun _ => ?_) fun _ => trivial
  refine (hq.cleanupUserSlice fuel).attemptBind fun r _ _ => ?_
  rcases r with e | ⟨⟩
  · cases e <;> exact trivial
  · exact trivial

/-! ### The scripts -/

variable {j : ℕ}

/-- An update is in order at any time. -/
theorem orderly_update {X : Externals} {includeCurrent : Bool} {Q : Except Exn Unit → Phase → Prop}
    (h : (watch K p t).Accepts Q φ (applyResourceConstraints X self includeCurrent).run)
    (hm : K.managed p.uid) :
    (orderly K p t).Accepts Q φ (applyResourceConstraints X self includeCurrent).run := by
  have hkeeps : Keeps (commands fun c => ∃ slice args, c = .setProperty slice args) (fun _ => True)
      (applyResourceConstraints X self includeCurrent).run :=
    keeps_applyResourceConstraints (fun _ => trivial) (fun _ => trivial) fun args =>
      ⟨_, World.decode_setProperty _ _ args, _, _, rfl⟩
  refine h.restrict_keeps (fun φ o => ordered_of_commands hm ?_) hkeeps
  rintro _ ⟨slice, args, rfl⟩
  exact trivial

/-- A prolog that has published the marker. -/
theorem orderly_publish (h : Helps K p j self) (hp : φ.publishes K p t) :
    (orderly K p t).Accepts (fun _ _ => True) φ (Prolog.publish self).run := by
  unfold Prolog.publish
  have hset : (watch K p t).Accepts (fun r φ' => ∀ u, r = .ok u →
      φ'.hold = .held ∧ φ'.published = true) φ (setActiveMarker self).run := by
    unfold setActiveMarker
    rw [h.marker]
    refine ⟨.inr ⟨rfl, hp⟩, fun r hr => ?_⟩
    rcases r with e | fd
    · exact raised _
    obtain rfl := hr fd rfl
    exact Helps.accepts_closeMarker fun r u _ => ⟨hp.1, by simp [watch, Phase.next]⟩
  refine (orderly_of_commandless hset
    (keeps_setActiveMarker trivial fun _ => trivial)).attemptBind fun r φ' hφ => ?_
  rcases r with e | ⟨⟩
  · exact trivial
  · have hpub := hφ () rfl
    refine Accepts.attemptBind (A := fun _ _ => True) ?_ fun _ _ _ => trivial
    have horder : ∀ c : World.Command, (∃ unit, c = .start unit) → φ'.orders (some c) := by
      rintro _ ⟨unit, rfl⟩
      exact hpub
    exact (h.quiet_userServiceStart.ordered hp.2.2.1 horder
      (keeps_userServiceStart ⟨_, rfl, _, rfl⟩)).mono fun _ _ _ => trivial

theorem orderly_constrain (h : Helps K p j self) (hm : K.managed p.uid) (hhold : φ.hold = .held)
    (ho : φ.others = none) {fuel : ℕ} : (orderly K p (.prolog j fuel)).Accepts (fun _ _ => True) φ
      (Prolog.constrain K.X self).run := by
  unfold Prolog.constrain
  refine (orderly_of_commandless (h.accepts_activeLocalJobs (t := .prolog j fuel) (fun _ => rfl) (.inl trivial)
    hhold ho) (keeps_activeLocalJobs fun _ _ => trivial)).bindExcept (fun r φ' hφ => ?_)
    fun _ _ _ => trivial
  obtain ⟨helper, n⟩ := r
  obtain ⟨others, rfl, hh, hc, -⟩ := hφ helper n rfl
  have hne : Task.wanted (.prolog j fuel) others ≠ [] := by simp [Task.wanted]
  refine (orderly_update (hh.accepts_applyResourceConstraints (φ := { φ with others := some others })
    true hc rfl hne hhold rfl) hm).attemptBind fun r φ' hφ => ?_
  rcases r with e | ⟨⟩
  · exact trivial
  · obtain ⟨h₁, -, h₂⟩ := hφ () rfl
    exact orderly_publish hh ⟨h₁, trivial, hm, h₂⟩

theorem orderly_prologBody (h : Helps K p j self) {fuel : ℕ} :
    (orderly K p (.prolog j fuel)).Accepts (fun _ _ => True) .locked (Prolog.body K.X self).run := by
  unfold Prolog.body
  refine (orderly_of_commandless h.quiet_shouldSkip.accepts (keeps_shouldSkip trivial)).bindExcept
    (fun b φ' hφ => ?_) fun _ _ _ => trivial
  obtain ⟨hb, rfl⟩ := hφ
  have hb := hb b rfl
  refine accepts_iteExcept (fun _ => trivial) fun hs => ?_
  have hm : K.managed p.uid := by
    by_contra hm
    exact hs (hb.mpr hm)
  have horder : ∀ c : World.Command, c = .showUser → Phase.locked.orders (some c) := by
    rintro _ rfl
    exact trivial
  refine ((quiet_checkLinger self 30).ordered hm horder
    (keeps_checkLinger ⟨_, rfl, rfl⟩)).attemptBind fun r φ' hφ => ?_
  obtain rfl := hφ.2
  rcases r with e | linger
  · cases e <;> exact trivial
  · cases linger with
    | true => exact trivial
    | false => exact orderly_constrain h hm rfl rfl

theorem keeps_tolerating {x : Py String} (hx : Keeps q (fun _ => True) x.run) :
    Keeps q (fun _ => True) (tolerating x).run := by
  refine hx.attemptBind fun r _ _ => ?_
  split <;> exact trivial

/-- A housekeeping that has removed the marker. -/
theorem orderly_teardown (h : Helps K p j self) (fuel : ℕ) (hc : φ.clears K p t) :
    (orderly K p t).Accepts (fun _ _ => True) φ (userSliceTeardown fuel self).run := by
  have hm : K.managed p.uid := hc.2.2.1
  unfold userSliceTeardown
  refine (orderly_of_commandless (h.accepts_clearActiveMarker hc) (keeps_clearActiveMarker trivial)).bindExcept
    (fun _ φ' hφ => ?_) fun _ _ _ => trivial
  obtain rfl := hφ () rfl
  have hstop : Quiet K p (tolerating (runSubprocess [self.systemctl, "stop", serviceName self.userid]
      30)).run := quiet_tolerating (quiet_runSubprocess (congrArg serviceName h.userid))
  have hstops : ∀ c : World.Command, (∃ unit, c = .stop unit) → φ.clear.orders (some c) := by
    rintro _ ⟨unit, rfl⟩
    exact ⟨hc.1, rfl⟩
  refine (hstop.ordered hm hstops (keeps_tolerating (keeps_runSubprocess ⟨_, rfl, _, rfl⟩))).bindExcept
    (fun _ φ' hφ => ?_) fun _ _ _ => trivial
  obtain rfl := hφ.2
  have hkills : ∀ c : World.Command, (∃ unit, c = .kill unit) → φ.clear.orders (some c) := by
    rintro _ ⟨unit, rfl⟩
    exact ⟨hc.1, rfl⟩
  refine ((h.quiet_cleanupError fuel).ordered hm hkills
    (sweeps_kills.cleanupError fuel)).bindExcept (fun error φ' hφ => ?_) fun _ _ _ => trivial
  obtain rfl := hφ.2
  have hrevert : Keeps (commands fun c => ∃ slice, c = .revert slice) (fun _ => True) (revertSlice self).run :=
    keeps_tolerating (keeps_runSubprocess ⟨_, rfl, _, rfl⟩)
  refine ((h.accepts_revertSlice (φ := φ.clear) hc.1 rfl).restrict_keeps
    (fun φ o => ordered_of_commands hm ?_) hrevert).bindExcept (fun _ φ' _ => ?_) fun _ _ _ => trivial
  · rintro _ ⟨slice, rfl⟩
    exact trivial
  · cases error <;> exact trivial

theorem orderly_housekeepingBody (h : Helps K p j self) {fuel : ℕ} :
    (orderly K p (.housekeeping j fuel)).Accepts (fun _ _ => True) .locked
      (Housekeeping.body K.X fuel self).run := by
  unfold Housekeeping.body
  refine (orderly_of_commandless h.quiet_shouldSkip.accepts (keeps_shouldSkip trivial)).bindExcept
    (fun b φ' hφ => ?_) fun _ _ _ => trivial
  obtain ⟨hb, rfl⟩ := hφ
  have hb := hb b rfl
  refine accepts_iteExcept (fun _ => trivial) fun hs => ?_
  have hm : K.managed p.uid := by
    by_contra hm
    exact hs (hb.mpr hm)
  refine (orderly_of_commandless (h.accepts_activeLocalJobs (t := .housekeeping j fuel) (fun _ => rfl)
    (.inr trivial) rfl rfl) (keeps_activeLocalJobs fun _ _ => trivial)).bindExcept (fun r φ' hφ => ?_)
    fun _ _ _ => trivial
  obtain ⟨helper, n⟩ := r
  obtain ⟨others, rfl, hh, hc, rfl⟩ := hφ helper n rfl
  refine accepts_iteExcept (fun hz => ?_) fun hz => ?_
  · obtain rfl := List.length_eq_zero_iff.mp hz
    exact (orderly_teardown (t := .housekeeping j fuel) hh fuel ⟨rfl, trivial, hm, rfl⟩).bindExcept
      (fun _ _ _ => trivial) fun _ _ _ => trivial
  · have hne : Task.wanted (.housekeeping j fuel) others ≠ [] := fun he => hz (by
      rw [show others = [] from he]; rfl)
    exact (orderly_update (hh.accepts_applyResourceConstraints false hc rfl hne rfl rfl) hm).bindExcept
      (fun _ _ _ => trivial) fun _ _ _ => trivial

/-- A helper is made, used and left. -/
theorem accepts_with {Φ α : Type} {M : Monitor Op Res Φ} {X : Externals} {fuel : ℕ} {environ : Environ}
    {uid : ℤ} {jobid : ℕ} {systemctl loginctl : String} {body : PAMHelper → Py α} {φ : Φ}
    {A : Except Exn PAMHelper → Φ → Prop} {B : PAMHelper → Φ → Prop} {R : Φ → Prop}
    (hinit : M.Accepts A φ (PAMHelper.init X fuel environ uid jobid systemctl loginctl).run)
    (hraise : ∀ e φ, A (.error e) φ → R φ)
    (hbody : ∀ helper φ, A (.ok helper) φ → M.Accepts (fun _ φ => B helper φ) φ (body helper).run)
    (hexit : ∀ helper φ, B helper φ → M.Accepts (fun _ φ => R φ) φ helper.exit.run) :
    M.Accepts (fun _ φ => R φ) φ (withHelper X fuel environ uid jobid systemctl loginctl body).run := by
  refine hinit.bindExcept (fun helper φ hφ => ?_) hraise
  refine (hbody helper φ hφ).attemptBind fun r φ hφ => ?_
  refine (hexit helper φ hφ).bindExcept (fun _ φ hφ => ?_) fun _ _ hφ => hφ
  cases r <;> exact hφ

/-- What holds when the `with` statement is left holds when the script exits. -/
theorem accepts_status {Φ : Type} {M : Monitor Op Res Φ} {R : Φ → Prop} {φ : Φ} {x : Py ℤ}
    (hx : M.Accepts (fun _ φ => R φ) φ x.run) : M.Accepts (fun _ φ => R φ) φ (do
      let status ← (do
        match ← x.run with
        | .ok status => return status
        | .error _ => return 1 : Cmd ℤ)
      return Exit.status status : Cmd Exit) := by
  refine Accepts.bind (Q := fun _ φ => R φ) ?_ fun _ _ hφ => accepts_pure hφ
  exact hx.bind fun r _ hφ => by cases r <;> exact accepts_pure hφ

/-- Around the body a script runs no command. -/
theorem orderly_withHelper {α : Type} {fuel : ℕ} {systemctl loginctl : String} {body : PAMHelper → Py α}
    (hb : ∀ helper, Helps K p j helper → (orderly K p t).Accepts (fun _ _ => True) .locked (body helper).run) :
    (orderly K p t).Accepts (fun _ _ => True) .init
      (withHelper K.X fuel (K.environ p.uid j) p.uid j systemctl loginctl body).run := by
  have hopens : Opens commandless p.uid K.lockDir :=
    ⟨⟨fun _ => trivial, fun _ => trivial, trivial, fun _ => trivial, trivial⟩, fun _ => trivial,
      fun _ => trivial, fun _ => trivial, trivial, trivial, trivial⟩
  refine accepts_with (B := fun helper _ => Helps K p j helper)
    (orderly_of_commandless accepts_init (keeps_init (Setting.environ_lockDir p.uid j) hopens))
    (fun _ _ _ => trivial) (fun helper φ hφ => ?_) fun helper φ hh => ?_
  · obtain ⟨hh, rfl⟩ := hφ helper rfl
    exact (hb helper hh).mono fun _ _ _ => hh
  · have hexit : (watch K p t).Accepts (fun _ φ' => φ' = φ.release) φ helper.exit.run := by
      unfold PAMHelper.exit
      rw [hh.lock]
      exact accepts_releaseLock rfl
    exact (orderly_of_commandless hexit (keeps_exit (fun _ => trivial) fun _ => trivial)).mono
      fun _ _ _ => trivial

theorem commandless_of_talk (o : Op) (h : talk o) : commandless o := by
  cases o <;> first | exact trivial | exact h.elim

theorem commandless_userLockAcquire (uid : Uid) (lockDir : String) :
    Keeps commandless (fun _ => True) (userLockAcquire uid lockDir) := by
  refine ⟨trivial, fun r _ => ?_⟩
  rcases r with e | mode
  · exact trivial
  refine accepts_ite (fun _ => trivial) fun _ =>
    accepts_ite (fun _ => trivial) fun _ => ⟨trivial, fun r _ => ?_⟩
  rcases r with e | fd
  · exact trivial
  refine ⟨trivial, fun r _ => ?_⟩
  rcases r with e | ⟨⟩
  · exact ⟨trivial, fun _ _ => trivial⟩
  · exact trivial

theorem commandless_checkActiveMarker (uid : Uid) (lockDir : String) :
    Keeps commandless (fun _ => True) (checkActiveMarker uid lockDir) := by
  refine accepts_ite (fun _ => trivial) fun _ => ⟨trivial, fun r _ => ?_⟩
  cases r <;> exact trivial

theorem keeps_createSessionScope {scope : String} {uid : Uid} {n : ℕ} (htalk : ∀ o, talk o → q o)
    (hopen : q .busOpenSystem) (hnew : ∀ member, q (.busNewMethodCall member))
    (hcall : ∀ member args, q (.busCall member args)) :
    Keeps q (fun _ => True) (createSessionScope scope uid n) := by
  refine accepts_ite (fun _ => trivial) fun _ => ⟨hopen, fun r _ => ?_⟩
  refine accepts_ite (fun _ => ⟨hnew _, fun r _ => ?_⟩) fun _ => trivial
  refine accepts_ite (fun _ => ?_) fun _ => trivial
  refine (only_busAppendAll htalk _).bind fun r _ _ => ?_
  exact accepts_ite (fun _ => ⟨hcall _ _, fun _ _ => trivial⟩) fun _ => trivial

theorem commandless_attachSession (opts : Options) (user : String) (uid : Uid) :
    Keeps commandless (fun _ => True) (attachSession opts user uid) := by
  refine ⟨trivial, fun pid _ => accepts_ite (fun _ => trivial) fun _ => ?_⟩
  refine (commandless_userLockAcquire _ _).bind fun fd _ _ => ?_
  cases fd with
  | none => exact trivial
  | some fd =>
    refine (commandless_checkActiveMarker _ _).bind fun marked _ _ => accepts_ite (fun _ => ?_) fun _ => ?_
    · refine Accepts.bind (keeps_createSessionScope commandless_of_talk trivial (fun _ => trivial)
        fun _ _ => trivial) fun ok _ _ => accepts_ite (fun _ => ?_) fun _ => ?_
      · exact ⟨trivial, fun _ _ => (only_setEnvironment commandless_of_talk uid).mono fun _ _ _ => trivial⟩
      · exact ⟨trivial, fun _ _ => trivial⟩
    · exact (only_sendDenialMsg commandless_of_talk user).bind fun _ _ _ => ⟨trivial, fun _ _ => trivial⟩

theorem commandless_manageSession (libsystemd : Bool) (opts : Options) (user : String) (uid : Uid) :
    Keeps commandless (fun _ => True) (manageSession libsystemd opts user uid) := by
  refine (only_checkPamManageUserSlice commandless_of_talk).bind fun r _ _ => ?_
  rcases r with _ | ⟨manage, owner⟩
  · exact trivial
  refine accepts_ite (fun _ => trivial) fun _ => accepts_ite (fun _ => trivial) fun _ => ?_
  refine accepts_ite (fun _ => commandless_attachSession _ _ _) fun _ => ?_
  exact (only_sendDenialMsg commandless_of_talk user).bind fun _ _ _ => trivial

/-- A session runs no command. -/
theorem commandless_session (libsystemd : Bool) (argv : List String) :
    Keeps commandless (fun _ => True) (pamSmOpenSession libsystemd argv) := by
  refine accepts_pamSmOpenSession (U := fun _ => True) (fun o ho => ⟨?_, fun _ => rfl⟩)
    (fun _ _ _ => trivial) (fun _ _ => trivial) fun opts user uid _ =>
      commandless_manageSession libsystemd opts user uid
  cases o <;> first | exact trivial | exact ho.elim

theorem orderly_session {argv : List String}
    (hd : ∀ opts, parseOptions sessionDefaults argv = some opts → opts.lockDir = K.lockDir) :
    (orderly K p (.session argv)).Accepts (fun _ _ => True) .init (K.program p (.session argv)) := by
  have hidle : Keeps commandless (fun _ => True) (K.program p (.session argv)) :=
    (commandless_session K.libsystemd argv).bind fun _ _ _ => trivial
  exact orderly_of_commandless ((session_accepts hd).mono fun _ _ _ => trivial) hidle

/-- **Commands are run in order.** -/
theorem orderly_sound (K : Setting) (C : Contract) :
    Watch.Sound (node K C) ((watchAll K).restrict fun p _ => ordered K p) :=
  (watch_sound K C).restrict fun p t w w' h => by
    cases t with
    | prolog j fuel =>
      dsimp only [node, Setting.program, Prolog.main]
      rcases jobInfo_environ (K := K) p.uid j with hj | hj <;> rw [hj]
      · exact trivial
      · exact accepts_status (orderly_withHelper fun helper hh => orderly_prologBody hh)
    | housekeeping j fuel =>
      dsimp only [node, Setting.program, Housekeeping.main]
      rcases jobInfo_environ (K := K) p.uid j with hj | hj <;> rw [hj]
      · exact trivial
      · exact accepts_status (orderly_withHelper fun helper hh => orderly_housekeepingBody hh)
    | session argv => exact orderly_session h.1

/-! ### Every run -/

section Runs

variable {C : Contract} {c₀ c c' : Config Pid Op Res Task Exit World} {u n : ℕ} {s s' : UserState}

/-- What every move of a user keeps, seen together with commands in order. -/
theorem Reached.ordered (h : Reached K C c₀ c) {I : UserState → Prop}
    (h₀ : I ⟨c₀.world.control K u, fun _ => none⟩) (hI : ∀ s s', I s → Move K C u s s' → I s') :
    ∃ m, Watch.Follows ((watchAll K).restrict fun p _ => FluxPam.ordered K p) c m ∧
      I (userState K u m) := by
  obtain ⟨ls, hr⟩ := h.run
  obtain ⟨m, hm, hf⟩ := Watch.follows_run (orderly_sound K C) (Watch.Follows.of_none h.idle) hr
  have hlocks : c₀.world.locksOwned K := h.initial.locksOwned
  have hinv := hm.invariant (I := fun m => m.world.locksOwned K ∧ I (userState K u m))
    (fun m l m' hi hs => ⟨locksOwned_step hi.1 hs.of_restrict,
      hI _ _ hi.2 (step_move hi.1 hs.of_restrict)⟩) ⟨hlocks, h₀⟩
  exact ⟨m, hf, hinv.2⟩

/-- A process that has published the marker and still has the lock finds it
there. -/
structure Posts (φ : Phase) (marker : FileKind) : Prop where
  before : φ.hold = .before → φ.published = false
  held : φ.hold = .held → φ.published = true → marker ≠ .absent

def Posted (s : UserState) : Prop := ∀ n t φ, s.phases n = some (t, φ) → Posts φ s.ctl.marker

theorem Posts.init (marker : FileKind) : Posts .init marker :=
  ⟨fun _ => rfl, fun h => by cases h⟩

theorem Posts.release {marker : FileKind} (h : Posts φ marker) : Posts φ.release marker :=
  ⟨fun hb => h.before (before_of_release hb), fun hh => absurd hh release_held⟩

/-- The marker may change where the process does not have the lock. -/
theorem Posts.bystander {marker marker' : FileKind} (h : Posts φ marker) (hh : φ.hold ≠ .held) :
    Posts φ marker' := ⟨h.before, fun hh' => absurd hh' hh⟩

theorem Posted.move (h : Posted s) (ho : Orderly u s) (hm : Move K C u s s') : Posted s' := by
  have hkept : ∀ {n : ℕ} (m : ℕ) (t : Task) (φ : Phase), m ≠ n → s.phases m = some (t, φ) →
      Posts φ s.ctl.marker := fun m t φ _ hp => h m t φ hp
  cases hm with
  | idle => exact h
  | @acquire n t φ hp hb hl =>
    refine UserState.forall_put ⟨fun hb' => (by cases hb'), fun _ hpub => ?_⟩ hkept
    cases ((h n t φ hp).before hb).symm.trans hpub
  | @release n t φ hp => exact UserState.forall_put (h n t φ hp).release hkept
  | @list n t φ ids hp => exact UserState.forall_put ⟨(h n t φ hp).before, (h n t φ hp).held⟩ hkept
  | @look n t φ f hp => exact UserState.forall_put ⟨(h n t φ hp).before, (h n t φ hp).held⟩ hkept
  | @see n t φ b hp => exact UserState.forall_put ⟨(h n t φ hp).before, (h n t φ hp).held⟩ hkept
  | @update n t φ args took ok hp =>
    exact UserState.forall_put ⟨(h n t φ hp).before, (h n t φ hp).held⟩ hkept
  | @publish n t φ hp hpub =>
    refine UserState.forall_put ⟨fun hb => ?_, fun _ _ => ?_⟩ fun m t' φ' hne hp' =>
      (h m t' φ' hp').bystander (ho.alone hp hpub.1 hp' hne)
    · cases hpub.1.symm.trans hb
    · change (if s.ctl.marker = .absent then FileKind.regular else s.ctl.marker) ≠ .absent
      split
      · exact fun h => by cases h
      · exact ‹_›
  | @clear n t φ hp hcl =>
    refine UserState.forall_put ⟨(h n t φ hp).before, fun _ hpub => ?_⟩ fun m t' φ' hne hp' =>
      (h m t' φ' hp').bystander (ho.alone hp hcl.1 hp' hne)
    exact absurd ((ho n t φ hp).publishing hpub) (Task.not_isProlog_of_isHousekeeping hcl.2.1)
  | @revert n t φ took hp => exact UserState.forall_put ⟨(h n t φ hp).before, (h n t φ hp).held⟩ hkept
  | @request n t φ jobs ok hp => exact UserState.forall_put (h n t φ hp) hkept
  | startProlog | startHousekeeping | startSession => exact UserState.forall_put (.init _) hkept
  | finishProlog | finishHousekeeping | finishSession | kill => exact UserState.forall_drop hkept
  | _ => exact h

/-- **Units in order.** The user's service is started only by a prolog that has
the lock, over the marker and a slice with constraints; a service is stopped,
processes are killed and the slice is reverted only by a housekeeping that has
the lock and has removed the marker, and then no running job of the user is one
whose prolog has succeeded. -/
theorem units_in_order {argv : List String} {timeout : ℚ} {r : Except RunError String}
    (h : Reached K C c₀ c) (hr : C.reported) (hS : C.steady) (ho : C.afterwards)
    (hK : K.managed u) (hk : K.constrain.truthy = true)
    (hm : c₀.world.files (markerPath K.lockDir u) = .absent)
    (hs : (node K C).Step c (.op ⟨u, n⟩ t (.run argv timeout) r) c') :
    (∀ unit, World.decode argv = some (.start unit) → t.isProlog ∧
      c.world.locks (lockPath K.lockDir u) = some ⟨u, n⟩ ∧
      c.world.files (markerPath K.lockDir u) = .regular ∧ ∃ d, K.carries u c.world d) ∧
    (∀ unit, World.decode argv = some (.stop unit) ∨ World.decode argv = some (.kill unit) ∨
        World.decode argv = some (.revert unit) → t.isHousekeeping ∧
      c.world.locks (lockPath K.lockDir u) = some ⟨u, n⟩ ∧
      c.world.files (markerPath K.lockDir u) = .absent ∧
      ∀ j, c.world.running u j = true → c.world.prologOk u j = false) := by
  obtain ⟨m, hf, hsane, -, hpost, hcont⟩ := h.ordered (u := u)
    (I := fun s => Sane K u s ∧ Timeline C s ∧ Posted s ∧ Contains s)
    ⟨h.initial.sane hm, h.initial.timeline, fun _ _ _ h => (by cases h), h.initial.contains⟩ (by
      rintro s s' ⟨hs, ht, hp, hc⟩ hm
      exact ⟨hs.move hm, ht.move hm, hp.move hs.process hm, hc.move hK hk hr hS ho hs ht hm⟩)
  obtain ⟨φ, hφ, ha⟩ : ∃ φ, m.phases ⟨u, n⟩ = some (t, φ) ∧
      φ.allowed K ⟨u, n⟩ t (.run argv timeout) ∧ ordered K ⟨u, n⟩ φ (.run argv timeout) := by
    cases hs with
    | op hp he =>
      obtain ⟨φ, hφ, ha⟩ := hf.live hp
      exact ⟨φ, hφ, ha.1⟩
  obtain ⟨hallowed, -, horder⟩ := ha
  have hcons := hsane.process n t φ hφ
  rw [hf.1]
  constructor
  · intro unit hd
    rw [hd] at horder
    obtain ⟨hhold, hpub⟩ := horder
    have hmark := (hpost n t φ hφ).held hhold hpub
    obtain ⟨d, hd⟩ := Option.ne_none_iff_exists'.mp (hsane.control.constrained hk hmark)
    exact ⟨hcons.publishing hpub, hcons.lock hhold, hsane.control.kind.resolve_left hmark, d,
      hsane.control.carries hd⟩
  · intro unit hd
    have hcl : φ.hold = .held ∧ φ.cleared = true := by
      rw [Phase.allowed_run] at hallowed
      rcases hd with hd | hd | hd <;> rw [hd] at horder hallowed
      · exact horder
      · exact horder
      · exact hallowed.2
    have hmark := hcons.cleared hcl.1 hcl.2
    refine ⟨(hcons.clearing hcl.2).1, hcons.lock hcl.1, hmark, fun j hrun => ?_⟩
    by_contra hok
    exact hcont.marked j (.inl (Bool.eq_true_of_not_eq_false hok)) hrun hmark

/-- The service is stopped after job 1 of user 1000. -/
theorem units_in_order_small : ∃ c t r c', (node Setting.small .strict).Step c (.op ⟨1000, 8⟩ t
      (.run ["/bin/systemctl", "stop", "user@1000.service"] 30) r) c' ∧
    c.world.files (markerPath Setting.small.lockDir (1000 : ℕ)) = .absent ∧
      ∀ j, c.world.running 1000 j = true → c.world.prologOk 1000 j = false := by
  obtain ⟨ls, y, w, hr, hy⟩ := Server.small_launch
    [.act (.report 1000 1), .task ⟨1000, 7⟩ (.prolog 1 10), .act (.endJob 1000 1)] 15 ⟨1000, 8⟩
    (.housekeeping 1 10) (fun _ y _ => y.head?)
    (a := some (.run ["/bin/systemctl", "stop", "user@1000.service"] 30)) (by rfl)
  cases y with
  | pure a => cases hy
  | op o k =>
    cases hy
    have he : Setting.small.exec ⟨1000, 8⟩ w (.run ["/bin/systemctl", "stop", "user@1000.service"] 30)
        (.error .timeout) w :=
      ⟨trivial, false, fun _ h => (by cases h), w.units "user@1000.service", w.cgroup,
        by rw [Function.update_eq_self], fun _ _ => rfl⟩
    obtain ⟨-, -, hmark, hjobs⟩ := (units_in_order (u := 1000) (n := 8) (Server.idle_reached hr) trivial
      trivial trivial (by decide) rfl rfl (.op (Function.update_self ..) he)).2 _ (.inl rfl)
    exact ⟨_, _, _, _, .op (Function.update_self ..) he, hmark, hjobs⟩

/-! ### Who is not managed -/

/-- Nothing of the user's is done or asked for. -/
structure Unmanaged (K : Setting) (u : ℕ) (w₀ : World) (m : Watched Pid Task Phase World) : Prop where
  owned : m.world.locksOwned K
  marker : m.world.files (markerPath K.lockDir u) = w₀.files (markerPath K.lockDir u)
  slice : m.world.slices (sliceName u) = w₀.slices (sliceName u)
  last : m.world.last (sliceName u) = none
  unseen : w₀.files (markerPath K.lockDir u) ≠ .regular →
    ∀ n t φ, m.phases ⟨u, n⟩ = some (t, φ) → φ.seen = false

/-- A step that leaves the marker and the slice alone and shows nobody a marker. -/
theorem Unmanaged.frame {w₀ w w' : World} {phases : Pid → Option (Task × Phase)} {v : Option (Task × Phase)}
    (h : Unmanaged K u w₀ ⟨w, phases⟩) (howned : w'.locksOwned K)
    (hm : w'.files (markerPath K.lockDir u) = w.files (markerPath K.lockDir u))
    (hs : w'.slices (sliceName u) = w.slices (sliceName u)) (hl : w'.last (sliceName u) = w.last (sliceName u))
    (hv : p.uid = u → ∀ t φ, v = some (t, φ) → w₀.files (markerPath K.lockDir u) ≠ .regular →
      φ.seen = false) : Unmanaged K u w₀ ⟨w', Function.update phases p v⟩ where
  owned := howned
  marker := hm.trans h.marker
  slice := hs.trans h.slice
  last := hl.trans h.last
  unseen hne n t φ hφ := by
    change Function.update phases p v ⟨u, n⟩ = some (t, φ) at hφ
    by_cases hp : (⟨u, n⟩ : Pid) = p
    · subst hp
      rw [Function.update_self] at hφ
      exact hv rfl t φ hφ hne
    · rw [Function.update_of_ne hp] at hφ
      exact h.unseen hne n t φ hφ

theorem Unmanaged.frame_view {w₀ w w' : World} {phases : Pid → Option (Task × Phase)}
    {v : Option (Task × Phase)} (h : Unmanaged K u w₀ ⟨w, phases⟩) (howned : w'.locksOwned K)
    (hview : w'.view K u = w.view K u) (hp : p.uid ≠ u) :
    Unmanaged K u w₀ ⟨w', Function.update phases p v⟩ :=
  h.frame howned (congrArg (·.marker) hview) (congrArg (·.slice) hview) (congrArg (·.last) hview)
    fun hu => absurd hu hp

/-- What is allowed to a process of a user who is not managed leaves the marker
and the slice alone. -/
theorem effect_unmanaged {o : Op} {r : Res o} {w w' : World} (hK : ¬ K.managed p.uid)
    (ha : φ.allowed K p t o) (ho : ordered K p φ o) (he : w.effect p K.rank o r w') :
    w'.files (markerPath K.lockDir p.uid) = w.files (markerPath K.lockDir p.uid) ∧
      w'.slices = w.slices ∧ w'.last = w.last := by
  have hsame : w' = w → w'.files (markerPath K.lockDir p.uid) = w.files (markerPath K.lockDir p.uid) ∧
      w'.slices = w.slices ∧ w'.last = w.last := by
    rintro rfl
    exact ⟨rfl, rfl, rfl⟩
  cases o with
  | openFile path flags mode =>
    cases r with
    | error e => exact hsame he
    | ok fd =>
      obtain ⟨-, -, -, rfl⟩ := he
      rcases ha with rfl | ⟨-, hpub⟩
      · exact ⟨Function.update_of_ne (lockPath_ne_markerPath _ _ _ _).symm .., rfl, rfl⟩
      · exact absurd hpub.2.2.1 hK
  | close fd =>
    obtain rfl : w' = _ := he
    exact ⟨rfl, rfl, rfl⟩
  | flock fd operation =>
    rcases r with e | ⟨⟩
    · cases operation <;> exact hsame he
    · cases operation with
      | LOCK_UN =>
        obtain rfl : w' = _ := he
        exact ⟨rfl, rfl, rfl⟩
      | _ =>
        obtain ⟨-, rfl⟩ := he
        exact ⟨rfl, rfl, rfl⟩
  | unlink path => exact absurd ha.2.2.2.1 hK
  | run argv timeout => exact absurd ho.1 hK
  | kvsLookupR ids =>
    cases r with
    | error e => exact hsame he
    | ok _ =>
      obtain rfl : w' = _ := he
      exact ⟨rfl, rfl, rfl⟩
  | mapperLookup R =>
    rcases r with e | _ | props
    · exact hsame he
    · exact hsame he
    · obtain rfl : w' = _ := he
      exact ⟨rfl, rfl, rfl⟩
  | busCall member args =>
    obtain ⟨jobs, -, -, -, rfl⟩ := he
    exact ⟨rfl, rfl, rfl⟩
  | lstat | pathExists | walk | readLines | jobList => exact hsame he.2
  | _ => exact hsame he

/-- Where the marker is no regular file, nobody sees one. -/
theorem seen_next {o : Op} {r : Res o} {w w' : World} (ha : φ.allowed K p t o)
    (he : w.effect p K.rank o r w') (hm : w.files (markerPath K.lockDir p.uid) ≠ .regular)
    (hs : φ.seen = false) : (φ.next K p t o r).seen = false := by
  cases o with
  | lstat path =>
    cases r with
    | error e => exact hs
    | ok kind =>
      obtain ⟨rfl, -⟩ := ha
      have hk := he.1 kind rfl
      simp [Phase.next, hs, hk, hm]
  | run argv timeout =>
    change (φ.nextCommand r.isOk (World.decode argv)).seen = false
    rcases World.decode argv with _ | cmd
    · exact hs
    · cases cmd <;> exact hs
  | close fd =>
    change (if fd.path = _ then φ.release else φ).seen = false
    split <;> exact hs
  | flock fd operation =>
    rcases r with e | ⟨⟩
    · cases operation <;> exact hs
    · cases operation <;> exact hs
  | unlink path =>
    rcases r with e | ⟨⟩
    · change (if e = .ENOENT then φ.clear else φ).seen = false
      split
      · rfl
      · exact hs
    · rfl
  | openFile | jobList | kvsLookupR => cases r <;> exact hs
  | mapperLookup R => rcases r with e | _ | props <;> exact hs
  | _ => exact hs

theorem Unmanaged.step {w₀ : World} {m m' : Watched Pid Task Phase World} {l : NodeLabel}
    (h : Unmanaged K u w₀ m) (hK : ¬ K.managed u)
    (hs : Watch.Step (node K C) ((watchAll K).restrict fun p _ => ordered K p) m l m') :
    Unmanaged K u w₀ m' := by
  have howned := locksOwned_step h.owned hs.of_restrict
  cases hs with
  | @op w w' phases p t φ o r hφ ha hr he =>
    by_cases hu : p.uid = u
    · subst hu
      obtain ⟨hm, hs, hl⟩ := effect_unmanaged hK ha.1 ha.2 he.2
      refine h.frame howned hm (by rw [hs]) (by rw [hl]) ?_
      rintro - _ _ ⟨⟩ hne
      refine seen_next ha.1 he.2 ?_ (h.unseen hne _ _ _ hφ)
      rwa [show w.files _ = _ from h.marker]
    · exact h.frame_view howned (frame_effect hu (allowed_touches ha.1) he.2) hu
  | @start w w' phases p t hp hs =>
    by_cases hu : p.uid = u
    · subst hu
      have hw : w'.files = w.files ∧ w'.slices = w.slices ∧ w'.last = w.last := by
        cases t with
        | session argv => rw [hs.2]; exact ⟨rfl, rfl, rfl⟩
        | _ => rw [hs.2.2]; exact ⟨rfl, rfl, rfl⟩
      refine h.frame howned (by rw [hw.1]) (by rw [hw.2.1]) (by rw [hw.2.2]) ?_
      rintro - _ _ ⟨⟩ -
      rfl
    · exact h.frame_view howned (frame_start hu hs) hu
  | @finish w w' phases p t φ a hφ hpost hf =>
    by_cases hu : p.uid = u
    · have hw : w'.files = w.files ∧ w'.slices = w.slices ∧ w'.last = w.last := by
        cases t with
        | session argv => rw [show w' = w from hf]; exact ⟨rfl, rfl, rfl⟩
        | _ => rw [show w' = _ from hf]; exact ⟨rfl, rfl, rfl⟩
      exact h.frame howned (by rw [hw.1]) (by rw [hw.2.1]) (by rw [hw.2.2]) fun _ _ _ hv => by cases hv
    · exact h.frame_view howned (frame_finish h.owned hu hf) hu
  | @kill w w' phases p t φ hφ hk =>
    by_cases hu : p.uid = u
    · obtain rfl : w' = _ := hk
      exact h.frame howned rfl rfl rfl fun _ _ _ hv => by cases hv
    · exact h.frame_view howned (frame_kill h.owned hu hk) hu
  | @world w w' phases a hw =>
    have hsame : w'.files = w.files ∧ w'.slices = w.slices ∧ w'.last = w.last := by
      cases a with
      | report v j | unreport v j => rw [hw.2]; exact ⟨rfl, rfl, rfl⟩
      | endJob v j => rw [show w' = _ from hw]; exact ⟨rfl, rfl, rfl⟩
      | attach v job =>
        obtain ⟨-, -, cgroup, rfl, -⟩ := hw
        exact ⟨rfl, rfl, rfl⟩
      | unit v name =>
        obtain ⟨-, active, cgroup, rfl, -⟩ := hw
        exact ⟨rfl, rfl, rfl⟩
    exact ⟨howned, (congrFun hsame.1 _).trans h.marker, (congrFun hsame.2.1 _).trans h.slice,
      (congrFun hsame.2.2 _).trans h.last, h.unseen⟩

/-- **Who is not managed is left alone.** No process of a user who is not managed
ever runs a command, the user's marker and slice stay as they were, and unless a
marker was left there at the start, no scope is requested in the slice. -/
theorem unmanaged_untouched (h : Reached K C c₀ c) (hK : ¬ K.managed u) :
    c.world.files (markerPath K.lockDir u) = c₀.world.files (markerPath K.lockDir u) ∧
      c.world.slices (sliceName u) = c₀.world.slices (sliceName u) ∧
      c.world.last (sliceName u) = none ∧
      (∀ n t argv timeout r c', ¬ (node K C).Step c (.op ⟨u, n⟩ t (.run argv timeout) r) c') ∧
      (c₀.world.files (markerPath K.lockDir u) ≠ .regular → ∀ n t member args r c',
        ¬ (node K C).Step c (.op ⟨u, n⟩ t (.busCall member args) r) c') := by
  obtain ⟨ls, hr⟩ := h.run
  obtain ⟨m, hm, hf⟩ := Watch.follows_run (orderly_sound K C) (Watch.Follows.of_none h.idle) hr
  have hstart : Unmanaged K u c₀.world ⟨c₀.world, fun _ => none⟩ := by
    refine ⟨h.initial.locksOwned, rfl, rfl, ?_, fun _ _ _ _ h => by cases h⟩
    obtain ⟨-, -, -, -, -, -, hlast, -⟩ := h.initial
    rw [hlast]
  have hkept := hm.invariant (I := Unmanaged K u c₀.world) (fun m l m' hi hs => hi.step hK hs) hstart
  rw [hf.1]
  refine ⟨hkept.marker, hkept.slice, hkept.last, ?_, ?_⟩
  · intro n t argv timeout r c' hs
    cases hs with
    | op hp he =>
      obtain ⟨φ, -, ha⟩ := hf.live hp
      exact hK ha.1.2.1
  · intro hne n t member args r c' hs
    cases hs with
    | op hp he =>
      obtain ⟨φ, hφ, ha⟩ := hf.live hp
      cases (hkept.unseen hne n t φ hφ).symm.trans ha.1.1.2.1

/-- The prolog of a job of the instance owner. -/
theorem unmanaged_untouched_small : ∃ w : World, w.prologOk 100 1 = true ∧
    w.files (markerPath Setting.small.lockDir (100 : ℕ)) = .absent ∧ w.last (sliceName (100 : ℕ)) = none := by
  obtain ⟨ls, w, hr, hok⟩ := Server.small_play
    [.act (.report 100 1), .task ⟨100, 7⟩ (.prolog 1 10)] (fun _ w => w.prologOk 100 1) (a := true) (by rfl)
  obtain ⟨hm, -, hl, -⟩ := unmanaged_untouched (u := 100) (Server.idle_reached hr) (by decide)
  exact ⟨w, hok, hm, hl⟩

end Runs

end FluxPam
