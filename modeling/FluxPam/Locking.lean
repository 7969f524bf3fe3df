/-
# Taking the user lock

`acquire_lock` polls a lock file that it has opened. With a clock that advances
by what is slept, the polls reach the deadline (`safe_acquireLoop`), so the loop
ends; how it ended is told by its last events (`Tries`). It returns the
descriptor with the lock just taken, or raises with the descriptor closed once
(`acquire_lock_ends`). An error other than `EWOULDBLOCK` is passed on as it is,
also where it is `ETIMEDOUT` itself (`acquire_lock_passes_on`).
-/
import FluxPam.Backoff
import FluxPam.Footprint

namespace FluxPam

open Interaction Prog Monitor

/-! ### How the polling ends -/

/-- What a `finally` close does to an exception on its way out. -/
def closing (e : Exn) : Except Errno Unit → Except Exn Fd
  | .ok () => .error e
  | .error e' => .error e'.toExn

/-- The polls of `acquire_lock` on an open descriptor, and its outcome. -/
inductive Tries (fd : Fd) (timeout start : ℚ) : List Event → Except Exn Fd → Prop where
  | acquired : Tries fd timeout start [⟨.flock fd .LOCK_EX_NB, .ok ()⟩] (.ok fd)
  | failed {e c} : e ≠ .EWOULDBLOCK →
      Tries fd timeout start [⟨.flock fd .LOCK_EX_NB, .error e⟩, ⟨.close fd, c⟩] (closing e.toExn c)
  | expired {q c msg} : timeout ≤ q - start →
      Tries fd timeout start
        [⟨.flock fd .LOCK_EX_NB, .error .EWOULDBLOCK⟩, ⟨.time, q⟩, ⟨.close fd, c⟩]
        (closing (.osError .ETIMEDOUT msg) c)
  | again {q t r} : q - start < timeout → Tries fd timeout start t r →
      Tries fd timeout start
        (⟨.flock fd .LOCK_EX_NB, .error .EWOULDBLOCK⟩ :: ⟨.time, q⟩ :: ⟨.sleep (1 / 10), ()⟩ :: t) r

section Loop

variable {σ : Type} {exec : σ → (o : Op) → Res o → σ → Prop} {w w' : σ} {t : List Event} {fd : Fd}
  {uid : ℤ} {timeout start : ℚ} {r : Except Exn Fd}

theorem runs_closing {e : Exn}
    (h : Runs exec (do callOS (perform (.close fd)); throw e : Py Fd).run w t r w') :
    ∃ c, t = [⟨.close fd, c⟩] ∧ r = closing e c := by
  rcases runs_raisingBind.mp h with ⟨t₁, u, w₁, t₂, hclose, ⟨rfl, rfl, -⟩, rfl⟩ | ⟨e', hclose, rfl⟩
  · obtain ⟨-, rfl⟩ := runs_perform.mp hclose
    exact ⟨.ok (), rfl, rfl⟩
  · obtain ⟨-, rfl⟩ := runs_perform.mp hclose
    exact ⟨.error e', rfl, rfl⟩

theorem tries_of_runs : ∀ {fuel : ℕ} {w : σ} {t : List Event},
    Runs exec (acquireLoop uid timeout fd start fuel).run w t r w' → ⟨.stuck, ()⟩ ∉ t →
      Tries fd timeout start t r
  | 0, w, t, h, hstuck => by
    obtain ⟨a, w₁, t', -, rfl, -⟩ := h
    exact absurd List.mem_cons_self hstuck
  | fuel + 1, w, t, h, hstuck => by
    rw [acquireLoop] at h
    obtain ⟨a, w₁, t₁, -, hrest, rfl⟩ := runs_performBind.mp h
    rcases a with e | ⟨⟩
    · dsimp only at hrest
      by_cases he : e = .EWOULDBLOCK
      · subst he
        rw [if_neg (by simp)] at hrest
        obtain ⟨q, w₂, t₂, -, hpoll, rfl⟩ := runs_performBind.mp hrest
        by_cases hq : q - start ≥ timeout
        · rw [if_pos hq] at hpoll
          obtain ⟨c, rfl, rfl⟩ := runs_closing hpoll
          exact .expired hq
        · rw [if_neg hq] at hpoll
          obtain ⟨u, w₃, t₃, -, hloop, rfl⟩ := runs_performBind.mp hpoll
          refine .again (lt_of_not_ge hq) (tries_of_runs hloop fun hmem => hstuck ?_)
          exact .tail _ (.tail _ (.tail _ hmem))
      · rw [if_pos he] at hrest
        obtain ⟨c, rfl, rfl⟩ := runs_closing hrest
        exact .failed he
    · obtain ⟨rfl, rfl, -⟩ := hrest
      exact .acquired

/-! ### The polls reach the deadline -/

/-- A clock whose readings are as far apart as the time slept between them, or
further. -/
structure SleptClock (exec : σ → (o : Op) → Res o → σ → Prop) (clock : σ → ℚ) : Prop where
  time : ∀ w q w', exec w .time q w' → q = clock w ∧ clock w ≤ clock w'
  sleep : ∀ w d r w', exec w (.sleep d) r w' → clock w + d ≤ clock w'
  flock : ∀ w fd r w', exec w (.flock fd .LOCK_EX_NB) r w' → clock w ≤ clock w'

variable {clock : σ → ℚ}

theorem safe_closing {e : Exn} :
    Safe exec (· = .stuck) (fun _ _ => True) w
      (do callOS (perform (.close fd)); throw e : Py Fd).run := by
  refine ⟨by simp, fun a w₁ _ => ?_⟩
  cases a <;> exact trivial

/-- A poll takes 1/10 s off the time that is left. -/
theorem safe_acquireLoop (h : SleptClock exec clock) : ∀ (fuel : ℕ) (w : σ),
    timeout - (clock w - start) ≤ fuel / 10 →
      Safe exec (· = .stuck) (fun _ _ => True) w (acquireLoop uid timeout fd start (fuel + 1)).run
  | fuel, w, hleft => by
    rw [acquireLoop]
    refine ⟨by simp, fun a w₁ hflock => ?_⟩
    have hw₁ := h.flock _ _ _ _ hflock
    rcases a with e | ⟨⟩
    · refine safe_iteExcept (fun _ => safe_closing) fun _ => ⟨by simp, fun q w₂ htime => ?_⟩
      obtain ⟨rfl, hw₂⟩ := h.time _ _ _ htime
      refine safe_iteExcept (fun _ => safe_closing) fun hq => ⟨by simp, fun u w₃ hsleep => ?_⟩
      have hw₃ := h.sleep _ _ _ _ hsleep
      cases fuel with
      | zero =>
        simp only [ge_iff_le, not_le, Nat.cast_zero, zero_div] at hq hleft
        linarith
      | succ fuel =>
        refine safe_acquireLoop h fuel w₃ ?_
        push_cast at hleft
        linarith
    · exact trivial

/-! ### `acquire_lock` -/

/-- How `acquire_lock` goes: it raises before the lock file is open, or it
polls. -/
inductive Acquires (uid : ℤ) (timeout : ℚ) (lockDir : String) : List Event → Except Exn Fd → Prop where
  | makedirs {e} : Acquires uid timeout lockDir [⟨.makedirs lockDir 0o700, .error e⟩] (.error e.toExn)
  | stat {e} : Acquires uid timeout lockDir
      [⟨.makedirs lockDir 0o700, .ok ()⟩, ⟨.stat lockDir, .error e⟩] (.error e.toExn)
  | writable {mode msg} : Acquires uid timeout lockDir
      [⟨.makedirs lockDir 0o700, .ok ()⟩, ⟨.stat lockDir, .ok mode⟩] (.error (.osError .EPERM msg))
  | unopened {mode e exn} : exn = e.toExn ∨ (∃ msg, exn = .valueError msg) → Acquires uid timeout lockDir
      [⟨.makedirs lockDir 0o700, .ok ()⟩, ⟨.stat lockDir, .ok mode⟩,
        ⟨.openFile (lockPath lockDir uid) [.O_CREAT, .O_RDWR, .O_NOFOLLOW] 0o600, .error e⟩] (.error exn)
  | opened {mode fd start t r} : Tries fd timeout start t r → Acquires uid timeout lockDir
      (⟨.makedirs lockDir 0o700, .ok ()⟩ :: ⟨.stat lockDir, .ok mode⟩ ::
        ⟨.openFile (lockPath lockDir uid) [.O_CREAT, .O_RDWR, .O_NOFOLLOW] 0o600, .ok fd⟩ ::
          ⟨.time, start⟩ :: t) r

theorem acquires_of_runs {fuel : ℕ} {lockDir : String}
    (h : Runs exec (acquireLock fuel uid timeout lockDir).run w t r w') (hstuck : ⟨.stuck, ()⟩ ∉ t) :
    Acquires uid timeout lockDir t r := by
  rw [acquireLock] at h
  rcases runs_raisingBind.mp h with ⟨t₁, u, w₁, t', hmake, hrest, rfl⟩ | ⟨e, hmake, rfl⟩
  · obtain ⟨-, rfl⟩ := runs_perform.mp hmake
    rcases runs_raisingBind.mp hrest with ⟨t₂, mode, w₂, t', hstat, hopen, rfl⟩ | ⟨e, hstat, rfl⟩
    · obtain ⟨-, rfl⟩ := runs_perform.mp hstat
      by_cases hmode : mode &&& 0o022 ≠ 0
      · rw [if_pos hmode] at hopen
        obtain ⟨rfl, rfl, -⟩ := hopen
        exact .writable
      · rw [if_neg hmode] at hopen
        obtain ⟨a, w₃, t₃, -, hloop, rfl⟩ := runs_performBind.mp hopen
        rcases a with e | fd
        · cases e <;> obtain ⟨rfl, rfl, -⟩ := hloop
          case ELOOP => exact .unopened (.inr ⟨_, rfl⟩)
          all_goals exact .unopened (.inl rfl)
        · obtain ⟨start, w₄, t₄, -, hpolls, rfl⟩ := runs_performBind.mp hloop
          refine .opened (tries_of_runs hpolls fun hmem => hstuck ?_)
          exact List.mem_append_right _ (List.mem_append_right _ (.tail _ (.tail _ hmem)))
    · obtain ⟨-, rfl⟩ := runs_perform.mp hstat
      exact .stat
  · obtain ⟨-, rfl⟩ := runs_perform.mp hmake
    exact .makedirs

theorem safe_acquireLock (h : SleptClock exec clock) {fuel : ℕ} {lockDir : String} (hpos : 0 < fuel)
    (hfuel : 10 * timeout + 1 ≤ fuel) :
    Safe exec (· = .stuck) (fun _ _ => True) w (acquireLock fuel uid timeout lockDir).run := by
  obtain ⟨fuel, rfl⟩ := Nat.exists_eq_add_of_lt hpos
  rw [acquireLock]
  refine ⟨by simp, fun a w₁ _ => ?_⟩
  rcases a with e | ⟨⟩
  · exact trivial
  refine ⟨by simp, fun a w₂ _ => ?_⟩
  rcases a with e | mode
  · exact trivial
  refine safe_iteExcept (fun _ => trivial) fun _ => ⟨by simp, fun a w₃ _ => ?_⟩
  rcases a with e | fd
  · cases e <;> exact trivial
  refine ⟨by simp, fun start w₄ htime => ?_⟩
  obtain ⟨rfl, hw₄⟩ := h.time _ _ _ htime
  rw [Nat.zero_add] at hfuel ⊢
  refine safe_acquireLoop h fuel w₄ ?_
  push_cast at hfuel
  linarith

end Loop

/-! ### The outcome -/

/-- The error an operation of `acquire_lock` failed with. -/
def failure : Event → Option Errno
  | ⟨.makedirs _ _, .error e⟩ => some e
  | ⟨.stat _, .error e⟩ => some e
  | ⟨.openFile _ _ _, .error e⟩ => some e
  | ⟨.flock _ _, .error e⟩ => some e
  | ⟨.close _, .error e⟩ => some e
  | _ => none

/-- The lock file was opened with the descriptor `fd`. -/
def Opened (t : List Event) (fd : Fd) : Prop :=
  ∃ path flags mode, ⟨.openFile path flags mode, .ok fd⟩ ∈ t

/-- How often the descriptor was closed. -/
def closes (fd : Fd) (t : List Event) : ℕ := (t.map Sigma.fst).count (.close fd)

def readingAt : Event → Option ℚ
  | ⟨.time, q⟩ => some q
  | _ => none

/-- What an attempt to take the lock comes to. -/
structure LockOutcome (timeout : ℚ) (t : List Event) (r : Except Exn Fd) : Prop where
  attempted : ∀ fd, Opened t fd → ∃ a, ⟨.flock fd .LOCK_EX_NB, a⟩ ∈ t
  held : ∀ fd, r = .ok fd → Opened t fd ∧ t.getLast? = some ⟨.flock fd .LOCK_EX_NB, .ok ()⟩ ∧
    closes fd t = 0
  free : ∀ fd, ⟨.flock fd .LOCK_EX_NB, .ok ()⟩ ∈ t → r = .ok fd
  expired : ∀ msg, r = .error (.osError .ETIMEDOUT msg) →
    (∃ e ∈ t, failure e = some .ETIMEDOUT) ∨ ∃ before fd q a start,
      t = before ++ [⟨.flock fd .LOCK_EX_NB, .error .EWOULDBLOCK⟩, ⟨.time, q⟩, ⟨.close fd, a⟩] ∧
        before.findSome? readingAt = some start ∧ timeout ≤ q - start
  closed : ∀ e, r = .error e → ∀ fd, Opened t fd → closes fd t = 1

section Outcome

variable {fd : Fd} {timeout start : ℚ} {t : List Event} {r : Except Exn Fd}

theorem closing_eq {e e' : Exn} {c : Except Errno Unit} (h : closing e c = .error e') :
    e = e' ∨ ∃ errno, c = .error errno ∧ errno.toExn = e' := by
  rcases c with errno | ⟨⟩
  · exact .inr ⟨errno, rfl, Except.error.inj h⟩
  · exact .inl (Except.error.inj h)

theorem Tries.attempted (h : Tries fd timeout start t r) : ∃ a, ⟨.flock fd .LOCK_EX_NB, a⟩ ∈ t := by
  cases h <;> exact ⟨_, List.mem_cons_self⟩

/-- The lock is taken by the last event, or not at all. -/
theorem Tries.held (h : Tries fd timeout start t r) {fd' : Fd} (hr : r = .ok fd') :
    fd' = fd ∧ t.getLast? = some ⟨.flock fd .LOCK_EX_NB, .ok ()⟩ ∧ closes fd t = 0 := by
  induction h with
  | acquired => exact ⟨(Except.ok.inj hr).symm, rfl, by simp [closes]⟩
  | @failed e c _ => cases c <;> cases hr
  | @expired q c msg _ => cases c <;> cases hr
  | @again q t r _ _ ih =>
    obtain ⟨hfd, hlast, hcloses⟩ := ih hr
    refine ⟨hfd, ?_, by simpa [closes] using hcloses⟩
    rw [List.getLast?_cons, List.getLast?_cons, List.getLast?_cons, hlast]
    rfl

theorem Tries.free (h : Tries fd timeout start t r) {fd' : Fd}
    (hfree : ⟨.flock fd' .LOCK_EX_NB, .ok ()⟩ ∈ t) : r = .ok fd' := by
  induction h with
  | acquired => simp_all
  | failed _ => simp at hfree
  | expired _ => simp at hfree
  | again _ _ ih =>
    simp at hfree
    exact ih hfree

theorem Tries.closed (h : Tries fd timeout start t r) {e : Exn} (hr : r = .error e) : closes fd t = 1 := by
  induction h with
  | acquired => cases hr
  | failed _ => simp [closes]
  | expired _ => simp [closes]
  | again _ _ ih => simpa [closes] using ih hr

/-- A poll that gives up has found the lock held, past the deadline. -/
theorem Tries.expired_of (h : Tries fd timeout start t r) {msg : String}
    (hr : r = .error (.osError .ETIMEDOUT msg)) :
    (∃ e ∈ t, failure e = some .ETIMEDOUT) ∨ ∃ before q a,
      t = before ++ [⟨.flock fd .LOCK_EX_NB, .error .EWOULDBLOCK⟩, ⟨.time, q⟩, ⟨.close fd, a⟩] ∧
        timeout ≤ q - start := by
  have hclose : ∀ {e : Exn} {c : Except Errno Unit}, closing e c = .error (.osError .ETIMEDOUT msg) →
      e = .osError .ETIMEDOUT msg ∨ failure ⟨.close fd, c⟩ = some .ETIMEDOUT := by
    intro e c hc
    rcases closing_eq hc with he | ⟨errno, rfl, he⟩
    · exact .inl he
    · cases he
      exact .inr rfl
  induction h with
  | acquired => cases hr
  | @failed e c _ =>
    rcases hclose hr with he | hfail
    · cases he
      exact .inl ⟨_, List.mem_cons_self, rfl⟩
    · exact .inl ⟨_, by simp, hfail⟩
  | @expired q c _ hq => exact .inr ⟨[], q, c, rfl, hq⟩
  | @again q t r _ _ ih =>
    rcases ih hr with ⟨e, he, hfail⟩ | ⟨before, q', a, rfl, hq⟩
    · exact .inl ⟨e, by simp [he], hfail⟩
    · exact .inr ⟨_ :: _ :: _ :: before, q', a, rfl, hq⟩

theorem Tries.not_opened (h : Tries fd timeout start t r) {fd' : Fd} : ¬ Opened t fd' := by
  induction h with
  | acquired => simp [Opened]
  | failed _ => simp [Opened]
  | expired _ => simp [Opened]
  | again _ _ ih => simpa [Opened] using ih

/-- An attempt that raises before the lock file is open. -/
theorem LockOutcome.of_unopened {exn : Exn} (hopen : ∀ fd, ¬ Opened t fd)
    (hflock : ∀ fd, ⟨.flock fd .LOCK_EX_NB, .ok ()⟩ ∉ t)
    (hfail : ∀ msg, exn = .osError .ETIMEDOUT msg → ∃ e ∈ t, failure e = some .ETIMEDOUT) :
    LockOutcome timeout t (.error exn) where
  attempted fd h := absurd h (hopen fd)
  held fd h := by cases h
  free fd h := absurd h (hflock fd)
  expired msg h := .inl (hfail msg (Except.error.inj h))
  closed e _ fd h := absurd h (hopen fd)

theorem Acquires.outcome {uid : ℤ} {lockDir : String} (h : Acquires uid timeout lockDir t r) :
    LockOutcome timeout t r := by
  cases h with
  | makedirs =>
    refine .of_unopened (by simp [Opened]) (by simp) fun msg he => ⟨_, List.mem_cons_self, ?_⟩
    cases he
    rfl
  | stat =>
    refine .of_unopened (by simp [Opened]) (by simp) fun msg he => ⟨_, .tail _ (.head _), ?_⟩
    cases he
    rfl
  | writable => exact .of_unopened (by simp [Opened]) (by simp) (by simp)
  | unopened hexn =>
    refine .of_unopened (by simp [Opened]) (by simp) fun msg he =>
      ⟨_, .tail _ (.tail _ (.head _)), ?_⟩
    subst he
    rcases hexn with he | ⟨msg', he⟩
    · cases he
      rfl
    · cases he
  | @opened mode fd start t _ htries =>
    have hopened : ∀ fd', Opened (⟨.makedirs lockDir 0o700, .ok ()⟩ :: ⟨.stat lockDir, .ok mode⟩ ::
        ⟨.openFile (lockPath lockDir uid) [.O_CREAT, .O_RDWR, .O_NOFOLLOW] 0o600, .ok fd⟩ ::
          ⟨.time, start⟩ :: t) fd' ↔ fd' = fd := by
      intro fd'
      have hnot : ¬ Opened t fd' := htries.not_opened
      simp only [Opened, not_exists] at hnot
      simp [Opened, hnot]
    have hcloses : ∀ fd', closes fd' (⟨.makedirs lockDir 0o700, .ok ()⟩ :: ⟨.stat lockDir, .ok mode⟩ ::
        ⟨.openFile (lockPath lockDir uid) [.O_CREAT, .O_RDWR, .O_NOFOLLOW] 0o600, .ok fd⟩ ::
          ⟨.time, start⟩ :: t) = closes fd' t := by
      intro fd'
      simp [closes]
    refine ⟨fun fd' h => ?_, fun fd' h => ?_, fun fd' h => ?_, fun msg h => ?_, fun e h fd' h' => ?_⟩
    · obtain rfl := (hopened fd').mp h
      obtain ⟨a, ha⟩ := htries.attempted
      exact ⟨a, by simp [ha]⟩
    · obtain ⟨rfl, hlast, hzero⟩ := htries.held h
      refine ⟨(hopened fd').mpr rfl, ?_, (hcloses fd').trans hzero⟩
      simp [List.getLast?_cons, hlast]
    · simp at h
      exact htries.free h
    · rcases htries.expired_of h with ⟨e, he, hfail⟩ | ⟨before, q, a, rfl, hq⟩
      · exact .inl ⟨e, by simp [he], hfail⟩
      · exact .inr ⟨_ :: _ :: _ :: _ :: before, fd, q, a, start, rfl, rfl, hq⟩
    · obtain rfl := (hopened fd').mp h'
      exact (hcloses fd').trans (htries.closed h)

end Outcome

/-! ### The context manager -/

/-- Neither opens a file nor touches a lock or a descriptor. -/
def offLock : Op → Prop
  | .openFile _ _ _ => False
  | .flock _ _ => False
  | .close _ => False
  | _ => True

/-- `acquire_lock`, as `__init__` ends with it. -/
def Constructs (systemctl loginctl : String) (t : List Event) (r : Except Exn PAMHelper) : Prop :=
  ∃ r', LockOutcome 60 t r' ∧
    ((∃ e, r' = .error e ∧ r = .error e) ∨
      ∃ fd helper, r' = .ok fd ∧ r = .ok helper ∧ helper.lockFd = some fd ∧
        helper.systemctl = systemctl ∧ helper.loginctl = loginctl)

section Manager

variable {X : Externals} {fuel : ℕ} {environ : Environ} {uid : ℤ} {jobid : ℕ}
  {systemctl loginctl : String} {σ : Type} {exec : σ → (o : Op) → Res o → σ → Prop} {w w' : σ}
  {t : List Event}

theorem runs_init {r : Except Exn PAMHelper}
    (h : Runs exec (PAMHelper.init X fuel environ uid jobid systemctl loginctl).run w t r w')
    (hstuck : ⟨.stuck, ()⟩ ∉ t) : Prefixed offLock (Constructs systemctl loginctl) t r := by
  suffices hinit : Prefixed offLock
      (fun t r => ⟨.stuck, ()⟩ ∉ t → Constructs systemctl loginctl t r) t r by
    rcases hinit with hraised | ⟨t₁, t₂, rfl, hall, hlock⟩
    · exact .inl hraised
    · exact .inr ⟨t₁, t₂, rfl, hall, hlock fun hmem => hstuck (List.mem_append_right _ hmem)⟩
  rw [PAMHelper.init] at h
  refine .bind (keeps_callOS (keeps_perform trivial)) (fun _ _ _ h => ?_) h
  refine .bind (keeps_attrInt trivial) (fun rank _ _ h => ?_) h
  refine .bind (keeps_confGet trivial) (fun _ _ _ h => ?_) h
  refine .bind (keeps_confGet trivial) (fun manage _ _ h => ?_) h
  refine .bind (keeps_confGet trivial) (fun apply _ _ h => ?_) h
  refine .bind (keeps_confGet trivial) (fun kill _ _ h => ?_) h
  refine .bind (keeps_confGet trivial) (fun grace _ _ h => ?_) h
  refine .bind (accepts_pure trivial) (fun graceTime _ t h => ?_) h
  refine .inr ⟨[], t, rfl, by simp, fun hstuck => ?_⟩
  rcases runs_exceptBind.mp h with ⟨t₁, fd, w₁, t₂, hlock, ⟨rfl, rfl, -⟩, rfl⟩ | ⟨e, hlock, rfl⟩
  · rw [List.append_nil] at hstuck ⊢
    exact ⟨.ok fd, (acquires_of_runs hlock hstuck).outcome, .inr ⟨fd, _, rfl, rfl, rfl, rfl, rfl⟩⟩
  · exact ⟨.error e, (acquires_of_runs hlock hstuck).outcome, .inl ⟨e, rfl, rfl⟩⟩

/-- The lock is given up and its descriptor closed, whatever the calls are
answered. -/
theorem runs_releaseLock {fd : Fd} {r : Except Exn Unit} (h : Runs exec (releaseLock fd).run w t r w') :
    ∃ a c, t = [⟨.flock fd .LOCK_UN, a⟩, ⟨.close fd, c⟩] ∧ (a = .ok () → c = .ok () → r = .ok ()) := by
  obtain ⟨a, w₁, t', -, hrest, rfl⟩ := runs_performBind.mp h
  rcases runs_raisingBind.mp hrest with ⟨t₁, u, w₂, t₂, hclose, hraise, rfl⟩ | ⟨e, hclose, -⟩
  · obtain ⟨-, rfl⟩ := runs_perform.mp hclose
    rcases a with e | ⟨⟩ <;> obtain ⟨rfl, rfl, -⟩ := hraise
    · exact ⟨_, _, rfl, fun ha _ => by cases ha⟩
    · exact ⟨_, _, rfl, fun _ _ => rfl⟩
  · obtain ⟨-, rfl⟩ := runs_perform.mp hclose
    exact ⟨_, _, rfl, fun _ hc => by cases hc⟩

theorem closes_append {fd : Fd} {t t' : List Event} : closes fd (t ++ t') = closes fd t + closes fd t' := by
  simp [closes]

theorem closes_of_offLock {fd : Fd} (h : ∀ e ∈ t, offLock e.1) : closes fd t = 0 := by
  rw [closes, List.count_eq_zero]
  intro hmem
  obtain ⟨e, he, heq⟩ := List.mem_map.mp hmem
  have := h e he
  rw [heq] at this
  exact this

theorem opened_append {fd : Fd} {t t' : List Event} (h : ∀ e ∈ t, offLock e.1) :
    Opened (t ++ t') fd ↔ Opened t' fd := by
  constructor
  · rintro ⟨path, flags, mode, hmem⟩
    rcases List.mem_append.mp hmem with hmem | hmem
    · exact (h _ hmem).elim
    · exact ⟨path, flags, mode, hmem⟩
  · rintro ⟨path, flags, mode, hmem⟩
    exact ⟨path, flags, mode, List.mem_append_right _ hmem⟩

/-- A run of a `with` statement: of `__init__`, and if that returns of the body
and of `__exit__`, whose exception replaces the body's outcome. -/
theorem runs_withHelper {α : Type} {body : PAMHelper → Py α} {r : Except Exn α} :
    Runs exec (withHelper X fuel environ uid jobid systemctl loginctl body).run w t r w' ↔
      (∃ t₁ helper w₁ c rb w₂ t₂ rx,
        Runs exec (PAMHelper.init X fuel environ uid jobid systemctl loginctl).run w t₁ (.ok helper) w₁ ∧
          Runs exec (body helper).run w₁ c rb w₂ ∧ Runs exec helper.exit.run w₂ t₂ rx w' ∧
            t = t₁ ++ (c ++ t₂) ∧ r = rx.bind fun _ => rb) ∨
      ∃ e, Runs exec (PAMHelper.init X fuel environ uid jobid systemctl loginctl).run w t (.error e) w' ∧
        r = .error e := by
  refine runs_exceptBind.trans (or_congr ⟨?_, ?_⟩ Iff.rfl)
  · rintro ⟨t₁, helper, w₁, t₂, hinit, hrest, rfl⟩
    obtain ⟨c, rb, w₂, t₃, hbody, hexit, rfl⟩ := runs_attemptBind.mp hrest
    rcases runs_exceptBind.mp hexit with ⟨t₄, u, w₃, t₅, hrun, hraise, rfl⟩ | ⟨e, hrun, rfl⟩
    · refine ⟨t₁, helper, w₁, c, rb, w₂, t₄, .ok u, ?_⟩
      rcases rb with e | a <;> obtain ⟨rfl, rfl, rfl⟩ := hraise <;>
        exact ⟨hinit, hbody, hrun, by rw [List.append_nil], rfl⟩
    · exact ⟨t₁, helper, w₁, c, rb, w₂, t₃, .error e, hinit, hbody, hrun, rfl, rfl⟩
  · rintro ⟨t₁, helper, w₁, c, rb, w₂, t₂, rx, hinit, hbody, hexit, rfl, rfl⟩
    refine ⟨t₁, helper, w₁, _, hinit, runs_attemptBind.mpr ⟨c, rb, w₂, t₂, hbody, ?_, rfl⟩, rfl⟩
    refine runs_exceptBind.mpr ?_
    rcases rx with e | u
    · exact .inr ⟨e, hexit, rfl⟩
    · refine .inl ⟨t₂, u, w', [], hexit, ?_, (List.append_nil t₂).symm⟩
      rcases rb with e | a <;> exact ⟨rfl, rfl, rfl⟩

theorem runs_exit {helper : PAMHelper} {fd : Fd} (hfd : helper.lockFd = some fd) {rx : Except Exn Unit}
    (h : Runs exec helper.exit.run w t rx w') : ∃ a c, t = [⟨.flock fd .LOCK_UN, a⟩, ⟨.close fd, c⟩] ∧
      (a = .ok () → c = .ok () → rx = .ok ()) := by
  rw [PAMHelper.exit, hfd] at h
  exact runs_releaseLock h

/-- A `with` statement: `__init__` raises, with the descriptor it opened closed
once; or it holds the lock while the body runs, and `__exit__` closes the
descriptor once, whatever the body returned or raised. -/
inductive Within {α : Type} (init : List Event → Except Exn PAMHelper → Prop)
    (body : PAMHelper → List Event → Except Exn α → Prop) : List Event → Except Exn α → Prop where
  | raised {t e} : init t (.error e) → (∀ fd, Opened t fd → closes fd t = 1) →
      Within init body t (.error e)
  | entered {before helper fd c rb after r} : init before (.ok helper) → helper.lockFd = some fd →
      Opened before fd → before.getLast? = some ⟨.flock fd .LOCK_EX_NB, .ok ()⟩ →
      closes fd before = 0 → body helper c rb → after.map Sigma.fst = [.flock fd .LOCK_UN, .close fd] →
      Within init body (before ++ (c ++ after)) r

theorem within_of_runs {α : Type} {body : PAMHelper → Py α} {r : Except Exn α}
    (h : Runs exec (withHelper X fuel environ uid jobid systemctl loginctl body).run w t r w')
    (hstuck : ⟨.stuck, ()⟩ ∉ t) :
    Within (Traces (PAMHelper.init X fuel environ uid jobid systemctl loginctl).run)
      (fun helper => Traces (body helper).run) t r := by
  rcases runs_withHelper.mp h with
    ⟨t₁, helper, w₁, c, rb, w₂, t₂, rx, hinit, hbody, hexit, rfl, rfl⟩ | ⟨e, hinit, rfl⟩
  · have hstuck₁ : ⟨.stuck, ()⟩ ∉ t₁ := fun hmem => hstuck (List.mem_append_left _ hmem)
    rcases runs_init hinit hstuck₁ with ⟨e, he, -⟩ | ⟨t₃, t₄, rfl, hall, r', hlock, hr⟩
    · cases he
    rcases hr with ⟨e, -, he⟩ | ⟨fd, helper', rfl, he, hfd, -⟩
    · cases he
    cases he
    obtain ⟨hopened, hlast, hzero⟩ := hlock.held fd rfl
    obtain ⟨a, c', rfl, -⟩ := runs_exit hfd hexit
    refine .entered hinit.traces hfd ((opened_append hall).mpr hopened) ?_ ?_ hbody.traces rfl
    · rw [List.getLast?_append, hlast]
      rfl
    · rw [closes_append, closes_of_offLock hall, hzero]
  · refine .raised hinit.traces fun fd hopened => ?_
    rcases runs_init hinit hstuck with ⟨e', -, hall⟩ | ⟨t₃, t₄, rfl, hall, r', hlock, hr⟩
    · obtain ⟨path, flags, mode, hmem⟩ := hopened
      exact (hall _ hmem).elim
    · rcases hr with ⟨e', rfl, -⟩ | ⟨fd', helper', -, he, -⟩
      · rw [closes_append, closes_of_offLock hall, hlock.closed e' rfl fd ((opened_append hall).mp hopened)]
      · cases he

end Manager

/-- **Taking the user lock.** With a clock that advances by what is slept, the
polls end after 10 of them for each second of the timeout, and one more, at
most; whatever the clock does, a call comes to one of the outcomes of
`LockOutcome`; and a `with` statement closes the descriptor once. -/
theorem acquire_lock_ends (uid : ℤ) (timeout : ℚ) (lockDir : String) :
    (∀ (σ : Type) (exec : σ → (o : Op) → Res o → σ → Prop) (clock : σ → ℚ) (fuel : ℕ),
      SleptClock exec clock → 0 < fuel → 10 * timeout + 1 ≤ fuel → ∀ w,
        Safe exec (· = .stuck) (fun _ _ => True) w (acquireLock fuel uid timeout lockDir).run ∧
          ∀ t r w', Runs exec (acquireLock fuel uid timeout lockDir).run w t r w' →
            LockOutcome timeout t r) ∧
    (∀ (fuel : ℕ) (t : List Event) (r : Except Exn Fd),
      Traces (acquireLock fuel uid timeout lockDir).run t r → ⟨.stuck, ()⟩ ∉ t →
        LockOutcome timeout t r) ∧
    ∀ (X : Externals) (fuel : ℕ) (environ : Environ) (jobid : ℕ) (systemctl loginctl : String)
      (α : Type) (body : PAMHelper → Py α) (t : List Event) (r : Except Exn α),
      Traces (withHelper X fuel environ uid jobid systemctl loginctl body).run t r →
        ⟨.stuck, ()⟩ ∉ t →
          Within (Traces (PAMHelper.init X fuel environ uid jobid systemctl loginctl).run)
            (fun helper => Traces (body helper).run) t r := by
  refine ⟨fun σ exec clock fuel hclock hpos hfuel w => ?_, fun fuel t r h hstuck => ?_, ?_⟩
  · have hsafe : Safe exec (· = .stuck) (fun _ _ => True) w (acquireLock fuel uid timeout lockDir).run :=
      safe_acquireLock hclock hpos hfuel
    exact ⟨hsafe, fun t r w' h => (acquires_of_runs h (hsafe.notMem h rfl)).outcome⟩
  · exact (acquires_of_runs h hstuck).outcome
  · intro X fuel environ jobid systemctl loginctl α body t r h hstuck
    exact within_of_runs h hstuck

theorem ticking_slept : SleptClock ticking id where
  time _ _ _ h := ⟨h.1, h.2.symm.le⟩
  sleep _ _ _ _ h := le_of_eq h.symm
  flock _ _ _ _ h := le_of_eq h.symm

/-- A lock that is held at the first poll is taken at the second. -/
theorem acquire_lock_ends_released : ∃ t,
    Runs ticking (acquireLock 601 1000 60 "/run/flux-pam").run 0 t
      (.ok ⟨"/run/flux-pam/uid.1000.lock"⟩) (1 / 10) ∧
    ⟨.flock ⟨"/run/flux-pam/uid.1000.lock"⟩ .LOCK_EX_NB, .error .EWOULDBLOCK⟩ ∈ t ∧
    LockOutcome 60 t (.ok ⟨"/run/flux-pam/uid.1000.lock"⟩) := by
  have htrace : Traces (acquireLock 601 1000 60 "/run/flux-pam").run
      [⟨.makedirs "/run/flux-pam" 0o700, .ok ()⟩, ⟨.stat "/run/flux-pam", .ok 0o40700⟩,
        ⟨.openFile "/run/flux-pam/uid.1000.lock" [.O_CREAT, .O_RDWR, .O_NOFOLLOW] 0o600,
          .ok ⟨"/run/flux-pam/uid.1000.lock"⟩⟩,
        ⟨.time, 0⟩, ⟨.flock ⟨"/run/flux-pam/uid.1000.lock"⟩ .LOCK_EX_NB, .error .EWOULDBLOCK⟩,
        ⟨.time, 0⟩, ⟨.sleep (1 / 10), ()⟩,
        ⟨.flock ⟨"/run/flux-pam/uid.1000.lock"⟩ .LOCK_EX_NB, .ok ()⟩]
      (.ok ⟨"/run/flux-pam/uid.1000.lock"⟩) :=
    traces_of_script (n := 10) (by with_unfolding_all rfl)
  have hruns : Runs ticking _ 0 _ _ (1 / 10) := htrace.runs (by simp [Happens, ticking])
  have hends := (acquire_lock_ends 1000 60 "/run/flux-pam").1 ℚ ticking id 601 ticking_slept
    (by norm_num) (by norm_num) 0
  exact ⟨_, hruns, by simp, hends.2 _ _ _ hruns⟩

/-- A lock file that `flock` fails on with `ETIMEDOUT` was not observed held. -/
theorem acquire_lock_passes_on : ∃ t,
    Traces (acquireLock 601 1000 60 "/run/flux-pam").run t (.error (.osError .ETIMEDOUT "")) ∧
      ∀ fd, ⟨.flock fd .LOCK_EX_NB, .error .EWOULDBLOCK⟩ ∉ t := by
  refine ⟨[⟨.makedirs "/run/flux-pam" 0o700, .ok ()⟩, ⟨.stat "/run/flux-pam", .ok 0o40700⟩,
      ⟨.openFile "/run/flux-pam/uid.1000.lock" [.O_CREAT, .O_RDWR, .O_NOFOLLOW] 0o600,
        .ok ⟨"/run/flux-pam/uid.1000.lock"⟩⟩,
      ⟨.time, 0⟩, ⟨.flock ⟨"/run/flux-pam/uid.1000.lock"⟩ .LOCK_EX_NB, .error .ETIMEDOUT⟩,
      ⟨.close ⟨"/run/flux-pam/uid.1000.lock"⟩, .ok ()⟩], ?_, by simp⟩
  exact traces_of_script (n := 10) (by with_unfolding_all rfl)

end FluxPam
