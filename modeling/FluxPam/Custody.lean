/-
# What the processes open

Scripts and sessions open files as root in a directory whose name they are
given. `Custody` is what one process has open of these, with `os.open` or
`open(2)`, and which directory it has found safe, and `Custody.careful` what it may
then do: open the user's lock file in that directory, never through a link, close
what is open, and with the lock only touch the marker, run commands, ask for a
scope and look at the slice's processes. Every program keeps to it and returns with
nothing open, whatever raises on the way (`custody_withHelper`,
`custody_session`), so every process of every run does (`files_in_custody`). The
lists of processes are read with Python's `open`, whose `with` statement closes
them: `readLines` is one operation, and no descriptor is kept of it.
-/
import FluxPam.Availability
import FluxPam.Units

namespace FluxPam

open Interaction Monitor PAMHelper

/-- The directory a process has found safe last, the descriptors it has open
and the one it has locked. -/
structure Custody where
  trusted : Option String
  held : List Fd
  locked : Option Fd

namespace Custody

def none : Custody := ⟨.none, [], .none⟩

/-- The custody of the user's lock. -/
def lock (d : String) (u : ℤ) : Custody := ⟨some d, [⟨lockPath d u⟩], some ⟨lockPath d u⟩⟩

/-- A descriptor is closed whatever `close` returns. -/
def next (φ : Custody) : (o : Op) → Res o → Custody
  | .stat path, .ok mode => { φ with trusted := if mode &&& 0o022 = 0 then some path else .none }
  | .stat _, .error _ => { φ with trusted := .none }
  | .openFile _ _ _, .ok fd => { φ with held := fd :: φ.held }
  | .close fd, _ => { φ with held := φ.held.erase fd
                             locked := if φ.locked = some fd then .none else φ.locked }
  | .flock _ .LOCK_UN, .ok () => { φ with locked := .none }
  | .flock fd .LOCK_EX, .ok () => { φ with locked := some fd }
  | .flock fd .LOCK_EX_NB, .ok () => { φ with locked := some fd }
  | _, _ => φ

/-- The user's lock is held, in the directory `d`. -/
def locks (φ : Custody) (u : ℤ) (d : String) : Prop :=
  φ.trusted = some d ∧ φ.locked = some ⟨lockPath d u⟩

/-- The marker of the user whose lock is held. -/
def ownMarker (φ : Custody) (u : ℤ) (path : String) : Prop := ∃ d, φ.locks u d ∧ path = markerPath d u

/-- The user's lock file, before any other. -/
def ownLock (φ : Custody) (u : ℤ) (path : String) : Prop :=
  ∃ d, φ.trusted = some d ∧ φ.held = [] ∧ path = lockPath d u

/-- What a process for the user `u` may do in this custody. -/
def careful (φ : Custody) (u : ℤ) : Op → Prop
  | .openFile path flags mode =>
    .O_CREAT ∈ flags ∧ .O_NOFOLLOW ∈ flags ∧ mode = 0o600 ∧ (φ.ownLock u path ∨ φ.ownMarker u path)
  | .lstat path => φ.ownMarker u path
  | .unlink path => φ.ownMarker u path
  | .flock fd _ => fd ∈ φ.held
  | .close fd => fd ∈ φ.held
  | .run _ _ => ∃ d, φ.locks u d
  | .busCall _ _ => ∃ d, φ.locks u d
  | .pathExists _ => ∃ d, φ.locks u d
  | .walk _ => ∃ d, φ.locks u d
  | .readLines _ => ∃ d, φ.locks u d
  | _ => True

end Custody

/-- The monitor of a process's custody. -/
def custody (K : Setting) (p : Pid) : Monitor Op Res Custody where
  allowed φ := φ.careful p.uid
  answers := K.answers p
  next := Custody.next

/-- What leaves the custody alone. -/
def handless : Op → Prop
  | .stat _ | .openFile _ _ _ | .close _ | .flock _ _ | .unlink _ | .lstat _ => False
  | _ => True

/-- What also needs no lock. -/
def lockless : Op → Prop
  | .run _ _ | .busCall _ _ | .pathExists _ | .walk _ | .readLines _ => False
  | o => handless o

variable {K : Setting} {p : Pid} {φ : Custody} {self : PAMHelper} {d : String}

theorem next_of_handless {o : Op} {r : Res o} (h : handless o) : φ.next o r = φ := by
  cases o <;> first | rfl | exact h.elim

theorem lockless_handless {o : Op} (h : lockless o) : handless o := by
  cases o <;> first | exact trivial | exact h.elim

theorem careful_of_lockless {o : Op} {u : ℤ} (h : lockless o) : φ.careful u o := by
  cases o <;> first | exact trivial | exact h.elim

theorem careful_of_handless {o : Op} {u : ℤ} (h : handless o) : (Custody.lock d u).careful u o := by
  cases o <;> first | exact trivial | exact h.elim | exact ⟨d, rfl, rfl⟩

theorem still {α : Type} {R : α → Prop} {x : Cmd α}
    (hx : (only lockless (K.answers p)).Accepts (fun a _ => R a) () x) :
    (custody K p).Accepts (fun a φ' => R a ∧ φ' = φ) φ x :=
  Accepts.embed (M := custody K p) (N := only lockless (K.answers p)) (fun _ => careful_of_lockless)
    (fun _ _ ho => next_of_handless (lockless_handless ho)) (fun _ _ h => h) hx

theorem still_of_keeps {α : Type} {x : Cmd α} (hx : Keeps lockless (fun _ => True) x) :
    (custody K p).Accepts (fun _ φ' => φ' = φ) φ x :=
  (Accepts.embed (M := custody K p) (N := only lockless fun _ _ => True) (fun _ => careful_of_lockless)
    (fun _ _ ho => next_of_handless (lockless_handless ho)) (fun _ _ _ => trivial) hx).mono
    fun _ _ h => h.2

/-- With the lock held, commands may be run. -/
theorem locked_of_keeps {α : Type} {x : Cmd α} (hx : Keeps handless (fun _ => True) x) :
    (custody K p).Accepts (fun _ φ => φ = .lock d p.uid) (.lock d p.uid) x :=
  (Accepts.embed (M := custody K p) (N := only handless fun _ _ => True) (fun _ => careful_of_handless)
    (fun _ _ ho => next_of_handless ho) (fun _ _ _ => trivial) hx).mono fun _ _ h => h.2

/-! ### The lock -/

/-- A descriptor is returned with the lock on it, or nothing is open. -/
def Took (d : String) (u : ℤ) : Except Exn Fd → Custody → Prop
  | .ok fd, φ => fd = ⟨lockPath d u⟩ ∧ φ = .lock d u
  | .error _, φ => φ.held = []

theorem custody_giveUp {e : Exn} {u : ℤ} : (custody K p).Accepts (Took d u)
    ⟨some d, [⟨lockPath d u⟩], .none⟩
    (do callOS (perform (.close ⟨lockPath d u⟩)); throw e : Py Fd).run := by
  refine ⟨List.mem_singleton.mpr rfl, fun r _ => ?_⟩
  cases r <;> exact List.erase_cons_head ..

theorem custody_acquireLoop {u : ℤ} {timeout start : ℚ} : ∀ fuel, (custody K p).Accepts (Took d u)
    ⟨some d, [⟨lockPath d u⟩], .none⟩ (acquireLoop u timeout ⟨lockPath d u⟩ start fuel).run
  | 0 => ⟨trivial, fun _ hr => hr.elim⟩
  | fuel + 1 => by
    refine ⟨List.mem_singleton.mpr rfl, fun r _ => ?_⟩
    rcases r with e | ⟨⟩
    · refine accepts_iteExcept (fun _ => custody_giveUp) fun _ => ⟨trivial, fun now _ => ?_⟩
      refine accepts_iteExcept (fun _ => custody_giveUp) fun _ => ⟨trivial, fun _ _ => ?_⟩
      exact custody_acquireLoop fuel
    · exact ⟨rfl, rfl⟩

theorem custody_acquireLock {fuel : ℕ} {timeout : ℚ} : (custody K p).Accepts (Took d p.uid) .none
    (acquireLock fuel p.uid timeout d).run := by
  refine ⟨trivial, fun r _ => ?_⟩
  rcases r with e | ⟨⟩
  · exact rfl
  refine ⟨trivial, fun r _ => ?_⟩
  rcases r with e | mode
  · exact rfl
  refine accepts_iteExcept (fun _ => rfl) fun hmode => ?_
  have hsafe : mode &&& 0o022 = 0 := not_not.mp hmode
  refine ⟨⟨by simp, by simp, rfl, .inl ⟨d, if_pos hsafe, rfl, rfl⟩⟩, fun r hr => ?_⟩
  rcases r with e | fd
  · cases e <;> exact rfl
  · obtain rfl := hr fd rfl
    refine ⟨trivial, fun start _ => ?_⟩
    have hcustody : Custody.next (Custody.next Custody.none (.stat d) (.ok mode))
        (.openFile (lockPath d p.uid) [.O_CREAT, .O_RDWR, .O_NOFOLLOW] 0o600)
        (.ok ⟨lockPath d p.uid⟩) = ⟨some d, [⟨lockPath d p.uid⟩], .none⟩ := by
      simp only [Custody.next, hsafe]
      rfl
    exact (custody_acquireLoop fuel).of_eq hcustody

/-! ### The helper -/

/-- The helper has the user's lock and the marker beside it. -/
structure Keeper (d : String) (u : ℤ) (helper : PAMHelper) : Prop where
  lock : helper.lockFd = some ⟨lockPath d u⟩
  marker : helper.markerPath = markerPath d u

/-- A helper is made that has the lock, or nothing is open. -/
def Made (p : Pid) : Except Exn PAMHelper → Custody → Prop
  | .ok helper, φ => ∃ d, Keeper d p.uid helper ∧ φ = .lock d p.uid
  | .error _, φ => φ.held = []

theorem custody_init {X : Externals} {fuel : ℕ} {environ : Environ} {j : ℕ}
    {systemctl loginctl : String} : (custody K p).Accepts (Made p) .none
      (PAMHelper.init X fuel environ p.uid j systemctl loginctl).run := by
  have hasks : ∀ {α : Type} {x : Py α} {f : α → Py PAMHelper}, Keeps lockless (fun _ => True) x.run →
      (∀ a, (custody K p).Accepts (Made p) .none (f a).run) →
      (custody K p).Accepts (Made p) .none (x >>= f).run := by
    intro α x f hx hf
    refine (still_of_keeps hx).bindExcept (fun a φ hφ => ?_) fun e φ hφ => ?_
    · exact (hf a).of_eq hφ
    · exact hφ ▸ rfl
  unfold PAMHelper.init
  refine hasks (keeps_callOS (keeps_perform trivial)) fun _ => ?_
  refine hasks (keeps_attrInt trivial) fun rank => ?_
  refine hasks (keeps_confGet trivial) fun debug => ?_
  refine hasks (keeps_confGet trivial) fun manage => ?_
  refine hasks (keeps_confGet trivial) fun constrain => ?_
  refine hasks (keeps_confGet trivial) fun kill => ?_
  refine hasks (keeps_confGet trivial) fun grace => ?_
  refine hasks (x := ExceptT.mk (pure (X.parseFsd grace))) trivial fun killGrace => ?_
  refine custody_acquireLock.bindExcept (fun fd φ hφ => ?_) fun _ _ hφ => hφ
  obtain ⟨rfl, rfl⟩ := hφ
  exact ⟨_, ⟨rfl, rfl⟩, rfl⟩

theorem custody_exit {u : ℤ} (h : Keeper d u self) :
    (custody K p).Accepts (fun _ φ => φ.held = []) (.lock d u) self.exit.run := by
  unfold PAMHelper.exit
  rw [h.lock]
  refine ⟨List.mem_singleton.mpr rfl, fun unlocked _ => ?_⟩
  have hheld : (Custody.next (.lock d u) (.flock ⟨lockPath d u⟩ .LOCK_UN) unlocked).held =
      [⟨lockPath d u⟩] := by
    cases unlocked <;> rfl
  refine ⟨List.mem_of_mem_head? (congrArg List.head? hheld), fun r _ => ?_⟩
  have hclosed : (Custody.next (.lock d u) (.flock ⟨lockPath d u⟩ .LOCK_UN) unlocked).held.erase
      ⟨lockPath d u⟩ = [] := by
    rw [hheld]
    exact List.erase_cons_head ..
  cases r <;> cases unlocked <;> exact hclosed

theorem custody_setActiveMarker (h : Keeper d p.uid self) :
    (custody K p).Accepts (fun _ φ => φ = .lock d p.uid) (.lock d p.uid)
      self.setActiveMarker.run := by
  unfold setActiveMarker
  rw [h.marker]
  refine ⟨⟨by simp, by simp, rfl, .inr ⟨d, ⟨rfl, rfl⟩, rfl⟩⟩, fun r hr => ?_⟩
  rcases r with e | fd
  · exact rfl
  obtain rfl := hr fd rfl
  refine ⟨List.mem_cons_self, fun r _ => ?_⟩
  have hne : (⟨lockPath d p.uid⟩ : Fd) ≠ ⟨markerPath d p.uid⟩ := fun he =>
    lockPath_ne_markerPath _ _ _ _ (Fd.mk.inj he)
  have hclosed : Custody.next (Custody.next (.lock d p.uid)
      (.openFile (markerPath d p.uid) [.O_CREAT, .O_WRONLY, .O_NOFOLLOW] 0o600)
      (.ok ⟨markerPath d p.uid⟩))
      (.close ⟨markerPath d p.uid⟩) r = .lock d p.uid := by
    simp [Custody.next, Custody.lock, hne]
  cases r <;> exact hclosed

theorem custody_clearActiveMarker (h : Keeper d p.uid self) :
    (custody K p).Accepts (fun _ φ => φ = .lock d p.uid) (.lock d p.uid)
      self.clearActiveMarker.run := by
  unfold clearActiveMarker
  rw [h.marker]
  refine ⟨⟨d, ⟨rfl, rfl⟩, rfl⟩, fun r _ => ?_⟩
  rcases r with e | ⟨⟩
  · cases e <;> exact rfl
  · exact rfl

/-! ### The scripts -/

/-- A step that leaves the custody alone, then the rest. -/
theorem custody_then {α β : Type} {x : Py α} {f : α → Py β}
    (hx : (custody K p).Accepts (fun _ φ' => φ' = φ) φ x.run)
    (hf : ∀ a, (custody K p).Accepts (fun _ φ' => φ' = φ) φ (f a).run) :
    (custody K p).Accepts (fun _ φ' => φ' = φ) φ (x >>= f).run :=
  hx.bindExcept (fun a _ hφ => hφ ▸ hf a) fun _ _ hφ => hφ

theorem custody_try {α β : Type} {x : Py α} {f : Except Exn α → Py β}
    (hx : (custody K p).Accepts (fun _ φ' => φ' = φ) φ x.run)
    (hf : ∀ r, (custody K p).Accepts (fun _ φ' => φ' = φ) φ (f r).run) :
    (custody K p).Accepts (fun _ φ' => φ' = φ) φ (attempt x >>= f).run :=
  hx.attemptBind fun r _ hφ => hφ ▸ hf r

/-- The helper that has listed the jobs has the lock as before. -/
theorem custody_activeLocalJobs {β : Type} {f : PAMHelper × ℕ → Py β} (h : Keeper d p.uid self)
    (hf : ∀ helper count, Keeper d p.uid helper →
      (custody K p).Accepts (fun _ φ' => φ' = φ) φ (f (helper, count)).run) :
    (custody K p).Accepts (fun _ φ' => φ' = φ) φ (activeLocalJobs self >>= f).run := by
  refine ⟨trivial, fun r _ => ?_⟩
  rcases r with e | jobs
  · exact rfl
  · exact hf _ _ ⟨h.lock, h.marker⟩

theorem custody_applyResourceConstraints (includeCurrent : Bool) :
    (custody K p).Accepts (fun _ φ => φ = .lock d p.uid) (.lock d p.uid)
      (applyResourceConstraints K.X self includeCurrent).run :=
  locked_of_keeps (keeps_applyResourceConstraints (fun _ => trivial) (fun _ => trivial) fun _ => trivial)

theorem custody_prologBody (h : Keeper d p.uid self) :
    (custody K p).Accepts (fun _ φ => φ = .lock d p.uid) (.lock d p.uid)
      (Prolog.body K.X self).run := by
  unfold Prolog.body
  refine custody_then (still_of_keeps (keeps_shouldSkip trivial)) fun skip => ?_
  refine accepts_iteExcept (fun _ => rfl) fun _ => ?_
  refine custody_try (locked_of_keeps (keeps_checkLinger trivial)) fun r => ?_
  rcases r with e | linger
  · cases e <;> exact rfl
  cases linger with
  | true => exact rfl
  | false =>
    refine custody_activeLocalJobs h fun helper _ hk => ?_
    refine custody_try (custody_applyResourceConstraints true) fun r => ?_
    rcases r with e | ⟨⟩
    · exact rfl
    refine custody_try (custody_setActiveMarker hk) fun r => ?_
    rcases r with e | ⟨⟩
    · exact rfl
    · exact custody_try (locked_of_keeps (keeps_userServiceStart trivial)) fun _ => rfl

theorem sweeps_handless : Sweeps handless self where
  looks o h := by
    cases o <;> first | exact trivial | exact h.elim
  time := trivial
  sleep _ := trivial
  stuck := trivial
  kill _ := trivial

theorem custody_userSliceTeardown (h : Keeper d p.uid self) (fuel : ℕ) :
    (custody K p).Accepts (fun _ φ => φ = .lock d p.uid) (.lock d p.uid)
      (userSliceTeardown fuel self).run := by
  have hcommand : ∀ args, (custody K p).Accepts (fun _ φ => φ = .lock d p.uid) (.lock d p.uid)
      (tolerating (runSubprocess args 30)).run := fun args =>
    locked_of_keeps (keeps_tolerating (keeps_runSubprocess trivial))
  unfold userSliceTeardown
  refine custody_then (custody_clearActiveMarker h) fun _ => ?_
  refine custody_then (hcommand _) fun _ => ?_
  refine custody_then (locked_of_keeps (sweeps_handless.cleanupError fuel)) fun error => ?_
  refine custody_then (hcommand _) fun _ => ?_
  cases error <;> exact rfl

theorem custody_housekeepingBody (h : Keeper d p.uid self) (fuel : ℕ) :
    (custody K p).Accepts (fun _ φ => φ = .lock d p.uid) (.lock d p.uid)
      (Housekeeping.body K.X fuel self).run := by
  unfold Housekeeping.body
  refine custody_then (still_of_keeps (keeps_shouldSkip trivial)) fun skip => ?_
  refine accepts_iteExcept (fun _ => rfl) fun _ => ?_
  refine custody_activeLocalJobs h fun helper count hk => accepts_iteExcept (fun _ => ?_) fun _ => ?_
  · exact custody_then (custody_userSliceTeardown hk fuel) fun _ => rfl
  · exact custody_then (custody_applyResourceConstraints false) fun _ => rfl

/-- The helper is made and left, whatever the body does that leaves it the lock. -/
theorem custody_withHelper {α : Type} {fuel : ℕ} {environ : Environ} {j : ℕ}
    {systemctl loginctl : String} {body : PAMHelper → Py α} (hb : ∀ d helper, Keeper d p.uid helper →
      (custody K p).Accepts (fun _ φ => φ = .lock d p.uid) (.lock d p.uid) (body helper).run) :
    (custody K p).Accepts (fun _ φ => φ.held = []) .none
      (withHelper K.X fuel environ p.uid j systemctl loginctl body).run := by
  refine accepts_with (B := fun helper φ => ∃ d, Keeper d p.uid helper ∧ φ = .lock d p.uid) custody_init
    (fun _ _ hφ => hφ) (fun helper φ hφ => ?_) fun helper φ hφ => ?_
  · obtain ⟨d, hk, rfl⟩ := hφ
    exact (hb d helper hk).mono fun _ φ hφ => ⟨d, hk, hφ⟩
  · obtain ⟨d, hk, rfl⟩ := hφ
    exact custody_exit hk

/-! ### The session -/

theorem lockless_of_talk (o : Op) (h : talk o) : lockless o := by
  cases o <;> first | exact trivial | exact h.elim

theorem custody_sendDenialMsg (user : String) :
    (custody K p).Accepts (fun _ φ' => φ' = φ) φ (sendDenialMsg user) :=
  (still (only_sendDenialMsg lockless_of_talk user)).mono fun _ _ h => h.2

theorem custody_userLockAcquire {uid : Uid} (hu : uid.toNat = p.uid) {lockDir : String} :
    (custody K p).Accepts (fun r φ => (∀ fd, r = some fd → fd = ⟨lockPath lockDir p.uid⟩ ∧
      φ = .lock lockDir p.uid) ∧ (r = none → φ.held = [])) .none (userLockAcquire uid lockDir) := by
  have hnone : ∀ φ : Custody, φ.held = [] → (∀ fd, (none : Option Fd) = some fd →
      fd = ⟨lockPath lockDir p.uid⟩ ∧ φ = .lock lockDir p.uid) ∧
        ((none : Option Fd) = none → φ.held = []) :=
    fun φ hφ => ⟨fun fd h => (by cases h), fun _ => hφ⟩
  unfold userLockAcquire
  refine ⟨trivial, fun r _ => ?_⟩
  rcases r with e | mode
  · exact hnone _ rfl
  refine accepts_ite (fun _ => hnone _ rfl) fun hmode =>
    accepts_ite (fun _ => hnone _ rfl) fun hn => ?_
  have hsafe : mode &&& 0o022 = 0 := not_not.mp hmode
  rw [if_pos (Nat.lt_of_not_le hn), hu]
  refine ⟨⟨by simp, by simp, rfl, .inl ⟨lockDir, if_pos hsafe, rfl, rfl⟩⟩, fun r hr => ?_⟩
  rcases r with e | fd
  · exact hnone _ rfl
  obtain rfl := hr fd rfl
  refine ⟨List.mem_singleton.mpr rfl, fun r _ => ?_⟩
  rcases r with e | ⟨⟩
  · exact ⟨List.mem_singleton.mpr rfl, fun r _ => hnone _ (List.erase_cons_head ..)⟩
  · refine ⟨fun fd h => ?_, fun h => ?_⟩
    · cases h
      refine ⟨rfl, ?_⟩
      change Custody.next (Custody.next (Custody.next .none (.stat lockDir) (.ok mode))
        (.openFile (lockPath lockDir p.uid) [.O_CREAT, .O_RDWR, .O_NOFOLLOW] 0o600)
        (.ok ⟨lockPath lockDir p.uid⟩)) (.flock ⟨lockPath lockDir p.uid⟩ .LOCK_EX) (.ok ()) = _
      simp only [Custody.next, hsafe]
      rfl
    · cases h

theorem custody_checkActiveMarker {uid : Uid} (hu : uid.toNat = p.uid) : (custody K p).Accepts
    (fun _ φ => φ = .lock d p.uid) (.lock d p.uid) (checkActiveMarker uid d) := by
  unfold checkActiveMarker
  refine accepts_ite (fun _ => rfl) fun hn => ?_
  rw [if_pos (Nat.lt_of_not_le hn), hu]
  refine ⟨⟨d, ⟨rfl, rfl⟩, rfl⟩, fun r _ => ?_⟩
  cases r <;> exact rfl

theorem custody_createSessionScope {scope : String} {uid : Uid} {n : ℕ} : (custody K p).Accepts
    (fun _ φ => φ = .lock d p.uid) (.lock d p.uid) (createSessionScope scope uid n) :=
  locked_of_keeps (keeps_createSessionScope (fun o h => lockless_handless (lockless_of_talk o h)) trivial
    (fun _ => trivial) fun _ _ => trivial)

theorem custody_attachLocked {user scope : String} {uid : Uid} {n : ℕ} (hu : uid.toNat = p.uid) :
    (custody K p).Accepts (fun _ φ => φ.held = []) (.lock d p.uid)
      (attachLocked user uid d scope n ⟨lockPath d p.uid⟩) := by
  have hclose : ⟨lockPath d p.uid⟩ ∈ (Custody.lock d p.uid).held := List.mem_singleton.mpr rfl
  have hgone : (Custody.next (.lock d p.uid) (.close ⟨lockPath d p.uid⟩) (.ok ())).held = [] :=
    List.erase_cons_head ..
  unfold attachLocked
  refine (custody_checkActiveMarker hu).bind fun found φ hφ => accepts_ite (fun _ => ?_) fun _ => ?_
  · subst hφ
    refine custody_createSessionScope.bind fun ok φ hφ => accepts_ite (fun _ => ?_) fun _ => ?_
    · subst hφ
      refine ⟨hclose, fun r _ => ?_⟩
      refine (still (only_setEnvironment lockless_of_talk uid)).mono fun _ φ hφ => ?_
      rw [hφ.2]
      exact hgone
    · subst hφ
      exact ⟨hclose, fun r _ => hgone⟩
  · subst hφ
    refine (custody_sendDenialMsg user).bind fun _ φ hφ => ?_
    subst hφ
    exact ⟨hclose, fun r _ => hgone⟩

theorem custody_attachSession {opts : Options} {user : String} {uid : Uid} (hu : uid.toNat = p.uid) :
    (custody K p).Accepts (fun _ φ => φ.held = []) .none (attachSession opts user uid) := by
  refine ⟨trivial, fun n _ => accepts_ite (fun _ => rfl) fun _ => ?_⟩
  refine (custody_userLockAcquire hu).bind fun fd φ ⟨hsome, hnone⟩ => ?_
  rcases fd with _ | fd
  · exact hnone rfl
  · obtain ⟨rfl, rfl⟩ := hsome fd rfl
    exact custody_attachLocked hu

theorem custody_manageSession {libsystemd : Bool} {opts : Options} {user : String} {uid : Uid}
    (hu : uid.toNat = p.uid) : (custody K p).Accepts (fun _ φ => φ.held = []) .none
      (manageSession libsystemd opts user uid) := by
  refine (still (only_checkPamManageUserSlice lockless_of_talk)).bind fun r φ hφ => ?_
  obtain rfl := hφ.2
  rcases r with _ | ⟨manage, owner⟩
  · exact rfl
  refine accepts_ite (fun _ => rfl) fun _ => accepts_ite (fun _ => rfl) fun _ => ?_
  refine accepts_ite (fun _ => custody_attachSession hu) fun _ => ?_
  exact (custody_sendDenialMsg user).bind fun _ _ hφ => hφ ▸ rfl

theorem custody_session {libsystemd : Bool} {argv : List String} : (custody K p).Accepts
    (fun _ φ => φ.held = []) .none (pamSmOpenSession libsystemd argv) := by
  refine accepts_pamSmOpenSession (U := fun uid => uid.toNat = p.uid) (fun o ho => ?_)
    (fun _ v h => h v rfl) (fun _ _ => rfl) fun opts user uid hu => custody_manageSession hu
  cases o <;> first | exact ⟨trivial, fun _ => rfl⟩ | exact ho.elim

/-! ### Every run -/

/-- Every program keeps to its custody, and returns with nothing open. -/
theorem custody_program (t : Task) :
    (custody K p).Accepts (fun _ φ => φ.held = []) .none (K.program p t) := by
  cases t with
  | prolog j fuel =>
    dsimp only [Setting.program, Prolog.main]
    rcases jobInfo_environ (K := K) p.uid j with hj | hj <;> rw [hj]
    · exact rfl
    · exact accepts_status (custody_withHelper fun d helper hk => custody_prologBody hk)
  | housekeeping j fuel =>
    dsimp only [Setting.program, Housekeeping.main]
    rcases jobInfo_environ (K := K) p.uid j with hj | hj <;> rw [hj]
    · exact rfl
    · exact accepts_status (custody_withHelper fun d helper hk => custody_housekeepingBody hk fuel)
  | session argv => exact custody_session.bind fun _ _ hφ => hφ

/-- What a process has in custody after its events. -/
def Custody.after (t : List Event) : Custody := t.foldl (fun φ e => φ.next e.1 e.2) .none

variable {C : Contract} {c c₁ c₂ : Config Pid Op Res Task Exit World} {ls : List NodeLabel}

/-- The program of a process that has started keeps the discipline. -/
theorem program_accepts {t : Task} {w w' : World} (h : World.start K C p w w' t) :
    (watch K p t).Accepts (Phase.post K p t) .init (K.program p t) :=
  (watch_sound K C).accepts p t w w' h

/-- **Nothing is opened unguarded, nothing is left open.** In every run, whatever
the process is answered and wherever it is killed: each file a process opens to
create or lock it is the user's own, in a directory it has found safe; only with
the user's lock does it create, look at or remove the marker, run a command, ask
for a scope or look at processes, and it looks below the user's own slice only; and
when it returns it has closed all that it opened. -/
theorem files_in_custody {t : Task} (hstart : (node K C).Step c (.start p t) c₁)
    (h : (node K C).Run c₁ ls c₂) (hls : ∀ l ∈ ls, ¬ l.bounds p) :
    (∀ before e rest, System.eventsOf p ls = before ++ e :: rest →
      (Custody.after before).careful p.uid e.1 ∧ touches K p e.1) ∧
    ∀ a c', (node K C).Step c₂ (.finish p t a) c' →
      (Custody.after (System.eventsOf p ls)).held = [] := by
  have hanswers : ∀ e ∈ System.eventsOf p ls, K.answers p e.1 e.2 :=
    System.Run.answered h fun _ _ _ _ he => he.1
  cases hstart with
  | start hnone hw =>
    obtain ⟨y, hy, hlead⟩ := System.Run.leads h (Function.update_self ..) hls
    obtain ⟨hbefore, hleft⟩ := hlead.accepts (custody_program (K := K) (p := p) t) hanswers
    obtain ⟨hallowed, -⟩ := hlead.accepts (program_accepts hw) hanswers
    refine ⟨fun before e rest he => ⟨hbefore before e rest he,
      allowed_touches (hallowed before e rest he)⟩, fun a c' hfin => ?_⟩
    cases hfin with
    | finish hp he =>
      cases hp.symm.trans hy
      exact hleft

/-- The prolog of job 1. -/
theorem files_in_custody_small : ∃ c c₁ c₂ ls, (node .small .strict).Step c
    (.start ⟨1000, 7⟩ (.prolog 1 10)) c₁ ∧ (node .small .strict).Run c₁ ls c₂ ∧
      (∀ before e rest, System.eventsOf ⟨1000, 7⟩ ls = before ++ e :: rest →
        (Custody.after before).careful (1000 : ℕ) e.1 ∧ touches .small ⟨1000, 7⟩ e.1) ∧
      (Custody.after (System.eventsOf ⟨1000, 7⟩ ls)).held = [] := by
  obtain ⟨c, c₁, c₂, c', ls, a, -, hstart, hls, halive, hfin, -⟩ :=
    Server.small_process [.act (.report 1000 1)] ⟨1000, 7⟩ (.prolog 1 10) (fun _ _ a _ => a)
      (show _ = some (.status 0) from by rfl)
  obtain ⟨hcareful, hclosed⟩ := files_in_custody hstart hls halive
  exact ⟨c, c₁, c₂, ls, hstart, hls, hcareful, hclosed a c' hfin⟩

end FluxPam
