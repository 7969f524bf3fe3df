/-
# How long the scripts take

`pam_sm_open_session` waits for the user lock as long as it takes, so a login waits
for the prolog or housekeeping that holds it. Both end. A clock is assumed on
which a request to Flux takes `request` at most, a command its timeout and `op`, a
sleep its length and up to `op`, and everything else `op`; a walk of the slice finds
`dirs` directories at most, which bounds a look for orphans (`Costs.look`). Then
the polls of every loop reach its deadline, so no loop goes on for ever, and the
times add up: what a script does under the lock takes 90 s and four requests if it
is the prolog, and 121 s, twice the grace time, five looks and four requests if it
is housekeeping, besides the operations (`scripts_end`).
-/
import FluxPam.Interaction.Budget
import FluxPam.Locking

namespace FluxPam

open Interaction Prog Monitor PAMHelper

/-- A request to Flux. -/
def requests : Op → Prop
  | .fluxOpen _ | .attrGet _ | .confGet _ | .jobList _ _ | .kvsLookupR _ | .mapperLookup _ => True
  | _ => False

/-- What the scripts do besides with files and directories, locks and the clock. -/
def handles : Op → Prop
  | .makedirs _ _ | .stat _ | .openFile _ _ _ | .flock _ _ | .close _ | .unlink _ | .time |
    .pathExists _ | .walk _ | .readLines _ => True
  | _ => False

/-- What is assumed of the machine. -/
structure Costs where
  request : ℚ
  op : ℚ
  dirs : ℕ
  request_nonneg : 0 ≤ request
  op_nonneg : 0 ≤ op

/-- A look for orphans: the slice, its directories, and the processes of each. -/
def Costs.look (costs : Costs) : ℚ := (2 + 2 * costs.dirs) * costs.op

/-- A clock that does not go back, and that advances by what is slept, by no more
than its timeout in a command, and by no more than is assumed otherwise. -/
structure Timed {σ : Type} (exec : σ → (o : Op) → Res o → σ → Prop) (clock : σ → ℚ) (costs : Costs) :
    Prop where
  forward : ∀ w o r w', exec w o r w' → clock w ≤ clock w'
  time : ∀ w q w', exec w .time q w' → clock w ≤ q ∧ q ≤ clock w'
  sleep : ∀ w d r w', 0 ≤ d → exec w (.sleep d) r w' →
    clock w + d ≤ clock w' ∧ clock w' ≤ clock w + d + costs.op
  run : ∀ w args timeout r w', 0 ≤ timeout → exec w (.run args timeout) r w' →
    clock w' ≤ clock w + timeout + costs.op
  request : ∀ w o r w', requests o → exec w o r w' → clock w' ≤ clock w + costs.request
  op : ∀ w o r w', handles o → exec w o r w' → clock w' ≤ clock w + costs.op
  walk : ∀ w top roots w', exec w (.walk top) roots w' → roots.length ≤ costs.dirs

section Functions

variable {σ : Type} {exec : σ → (o : Op) → Res o → σ → Prop} {clock : σ → ℚ} {costs : Costs}
  {self : PAMHelper} {w : σ}

/-- Takes `b` at most, and gets stuck in no loop. -/
abbrev Takes (exec : σ → (o : Op) → Res o → σ → Prop) (clock : σ → ℚ) {α : Type} (R : α → Prop) (b : ℚ)
    (x : Cmd α) : Prop :=
  Spends exec (· = .stuck) clock R b x

theorem Costs.look_nonneg : 0 ≤ costs.look :=
  mul_nonneg (by positivity) costs.op_nonneg

theorem handles_ne_stuck {o : Op} (ho : handles o) : ¬ o = .stuck := by
  rintro rfl
  exact ho

theorem takes_op (h : Timed exec clock costs) {o : Op} (ho : handles o) :
    Takes exec clock (fun _ => True) costs.op (perform o) :=
  spends_perform (handles_ne_stuck ho) fun s r s' he => ⟨trivial, h.op s o r s' ho he⟩

/-- An operation, then the rest. -/
theorem takes_call (h : Timed exec clock costs) {o : Op} (ho : handles o) {β : Type} {f : Res o → Py β}
    {b : ℚ} (hf : ∀ r, Takes exec clock (fun _ => True) b (f r).run) :
    Takes exec clock (fun _ => True) (costs.op + b) (call o >>= f).run :=
  spends_op (handles_ne_stuck ho) (fun s r s' he => ⟨trivial, h.op s o r s' ho he⟩) fun r _ => hf r

theorem takes_request (h : Timed exec clock costs) {o : Op} (ho : requests o) :
    Takes exec clock (fun _ => True) costs.request (perform o) := by
  refine spends_perform (fun hstuck => ?_) fun s r s' he => ⟨trivial, h.request s o r s' ho he⟩
  rw [hstuck] at ho
  exact ho

theorem takes_callOS {α : Type} {x : Cmd (Except Errno α)} {b : ℚ}
    (hx : Takes exec clock (fun _ => True) b x) : Takes exec clock (fun _ => True) b (callOS x).run :=
  Spends.raising hx fun _ _ => trivial

/-- One after the other. -/
theorem takes_then {α β : Type} {x : Py α} {f : α → Py β} {b b' : ℚ}
    (hx : Takes exec clock (fun _ => True) b x.run) (hf : ∀ a, Takes exec clock (fun _ => True) b' (f a).run)
    (hb : 0 ≤ b') : Takes exec clock (fun _ => True) (b + b') (x >>= f).run :=
  hx.bindExcept (fun a _ => hf a) (fun _ _ => trivial) hb

theorem takes_pure {α : Type} {r : Except Exn α} {b : ℚ} (hb : 0 ≤ b) :
    Takes exec clock (fun _ => True) b (.pure r : Cmd (Except Exn α)) :=
  (spends_pure trivial).mono hb

/-- One, then what takes no time. -/
theorem takes_last {α β : Type} {x : Py α} {f : α → Py β} {b : ℚ}
    (hx : Takes exec clock (fun _ => True) b x.run) (hf : ∀ a, Takes exec clock (fun _ => True) 0 (f a).run) :
    Takes exec clock (fun _ => True) b (x >>= f).run := by
  have h : Takes exec clock (fun _ => True) (b + 0) (x >>= f).run := takes_then hx hf (le_refl 0)
  rwa [add_zero] at h

/-- The same, where what is raised is caught. -/
theorem takes_caught {α β : Type} {x : Py α} {f : Except Exn α → Py β} {b : ℚ}
    (hx : Takes exec clock (fun _ => True) b x.run) (hf : ∀ r, Takes exec clock (fun _ => True) 0 (f r).run) :
    Takes exec clock (fun _ => True) b (attempt x >>= f).run := by
  have h : Takes exec clock (fun _ => True) (b + 0) (attempt x >>= f).run :=
    Spends.attemptBind hx fun r _ => hf r
  rwa [add_zero] at h

theorem takes_attrInt (h : Timed exec clock costs) {name : String} :
    Takes exec clock (fun _ => True) costs.request (attrInt name).run := by
  have hint : ∀ text, Takes exec clock (fun _ => True) 0 (intOf text).run := by
    intro text
    unfold intOf
    split <;> exact spends_pure trivial
  exact takes_last (takes_callOS (takes_request h trivial)) hint

theorem takes_confGet (h : Timed exec clock costs) {key : String} {default : Json} :
    Takes exec clock (fun _ => True) costs.request (confGet key default).run :=
  takes_last (takes_callOS (takes_request h trivial)) fun _ => takes_pure (le_refl 0)

/-- A command takes its timeout. -/
theorem takes_runSubprocess (h : Timed exec clock costs) {args : List String} {timeout : ℚ}
    (ht : 0 ≤ timeout) :
    Takes exec clock (fun _ => True) (timeout + costs.op) (runSubprocess args timeout).run := by
  have hnonneg : 0 ≤ timeout + costs.op := add_nonneg ht costs.op_nonneg
  cases args with
  | nil => exact takes_pure hnonneg
  | cons arg args =>
    unfold runSubprocess
    refine spends_iteExcept (fun _ => ?_) fun _ => takes_pure hnonneg
    have hrun : Takes exec clock (fun _ => True) (timeout + costs.op)
        (perform (.run (arg :: args) timeout)) := by
      refine spends_perform (by simp) fun s r s' he => ⟨trivial, ?_⟩
      rw [← add_assoc]
      exact h.run s _ timeout r s' ht he
    exact Spends.raising hrun fun _ _ => trivial

theorem takes_tolerating {α : Type} {x : Py α} {b : ℚ} (hx : Takes exec clock (fun _ => True) b x.run) :
    Takes exec clock (fun _ => True) b (tolerating x).run := by
  refine takes_caught hx fun r => ?_
  rcases r with e | _
  · cases e <;> exact takes_pure (le_refl 0)
  · exact takes_pure (le_refl 0)

/-! ### The lock -/

/-- The polls of `acquire_lock`: a tenth of a second after the deadline the loop is
over, but for the operations of its last round. -/
theorem takes_acquireLoop (h : Timed exec clock costs) {uid : ℤ} {timeout start : ℚ} {fd : Fd} :
    ∀ (fuel : ℕ) (w : σ), timeout - (clock w - start) ≤ fuel / 10 →
      clock w ≤ start + timeout + 1 / 10 + 2 * costs.op →
        Safe exec (· = .stuck) (fun _ w' => clock w' ≤ start + timeout + 1 / 10 + 5 * costs.op) w
          (acquireLoop uid timeout fd start (fuel + 1)).run
  | fuel, w, hleft, hclock => by
    have hop := costs.op_nonneg
    have hclosing : ∀ (e : Exn) (w : σ), clock w ≤ start + timeout + 1 / 10 + 4 * costs.op →
        Safe exec (· = .stuck) (fun _ w' => clock w' ≤ start + timeout + 1 / 10 + 5 * costs.op) w
          (do callOS (perform (.close fd)); throw e : Py Fd).run := by
      intro e w hw
      refine ⟨by simp, fun a w₁ hclose => ?_⟩
      have hw₁ : clock w₁ ≤ clock w + costs.op := h.op _ (.close fd) _ _ trivial hclose
      have hend : clock w₁ ≤ start + timeout + 1 / 10 + 5 * costs.op := by linarith
      cases a <;> exact hend
    rw [acquireLoop]
    refine ⟨by simp, fun a w₁ hflock => ?_⟩
    have hw₁ : clock w₁ ≤ clock w + costs.op := h.op _ (.flock fd .LOCK_EX_NB) _ _ trivial hflock
    have hw : clock w ≤ clock w₁ := h.forward _ _ _ _ hflock
    rcases a with e | ⟨⟩
    · refine safe_iteExcept (fun _ => hclosing _ _ (by linarith)) fun _ => ⟨by simp, fun q w₂ htime => ?_⟩
      have hw₂ : clock w₂ ≤ clock w₁ + costs.op := h.op _ .time _ _ trivial htime
      obtain ⟨hq₁, hq₂⟩ := h.time _ _ _ htime
      refine safe_iteExcept (fun _ => hclosing _ _ (by linarith)) fun hlate => ⟨by simp, fun u w₃ hsleep => ?_⟩
      obtain ⟨hslept, hw₃⟩ := h.sleep _ _ _ _ (by norm_num) hsleep
      have hearly : q - start < timeout := lt_of_not_ge hlate
      cases fuel with
      | zero =>
        simp only [Nat.cast_zero, zero_div] at hleft
        linarith
      | succ fuel =>
        push_cast at hleft
        exact takes_acquireLoop h fuel w₃ (by linarith) (by linarith)
    · show clock w₁ ≤ start + timeout + 1 / 10 + 5 * costs.op
      linarith

theorem takes_acquireLock (h : Timed exec clock costs) {fuel : ℕ} {uid : ℤ} {lockDir : String}
    (hfuel : 601 ≤ fuel) :
    Takes exec clock (fun _ => True) (60 + 1 / 10 + 9 * costs.op) (acquireLock fuel uid 60 lockDir).run := by
  intro w
  have hop := costs.op_nonneg
  obtain ⟨fuel, rfl⟩ : ∃ n, fuel = n + 1 := ⟨fuel - 1, by omega⟩
  have hdone : ∀ w' : σ, clock w' ≤ clock w + 3 * costs.op →
      True ∧ clock w' ≤ clock w + (60 + 1 / 10 + 9 * costs.op) := by
    intro w' hw'
    exact ⟨trivial, by linarith⟩
  rw [acquireLock]
  refine ⟨by simp, fun a w₁ hmake => ?_⟩
  have hw₁ : clock w₁ ≤ clock w + costs.op := h.op _ (.makedirs lockDir 0o700) _ _ trivial hmake
  rcases a with e | ⟨⟩
  · exact hdone w₁ (by linarith)
  refine ⟨by simp, fun a w₂ hstat => ?_⟩
  have hw₂ : clock w₂ ≤ clock w₁ + costs.op := h.op _ (.stat lockDir) _ _ trivial hstat
  rcases a with e | mode
  · exact hdone w₂ (by linarith)
  refine safe_iteExcept (fun _ => hdone w₂ (by linarith)) fun _ => ⟨by simp, fun a w₃ hopen => ?_⟩
  have hw₃ : clock w₃ ≤ clock w₂ + costs.op := h.op _ (.openFile _ _ _) _ _ trivial hopen
  rcases a with e | fd
  · have hlast : clock w₃ ≤ clock w + 3 * costs.op := by linarith
    cases e <;> exact hdone w₃ hlast
  refine ⟨by simp, fun start w₄ htime => ?_⟩
  have hw₄ : clock w₄ ≤ clock w₃ + costs.op := h.op _ .time _ _ trivial htime
  obtain ⟨hstart₁, hstart₂⟩ := h.time _ _ _ htime
  have hpolls : (600 : ℚ) ≤ fuel := by exact_mod_cast Nat.le_of_succ_le_succ hfuel
  have hloop : Safe exec (· = .stuck) (fun _ w' => clock w' ≤ start + 60 + 1 / 10 + 5 * costs.op) w₄
      (acquireLoop uid 60 fd start (fuel + 1)).run :=
    takes_acquireLoop h fuel w₄ (by linarith) (by linarith)
  exact hloop.mono fun _ w' hw' => ⟨trivial, by linarith⟩

/-! ### The looks for orphans -/

theorem takes_orphanLoop (h : Timed exec clock costs) : ∀ roots : List String,
    Takes exec clock (fun _ => True) (2 * roots.length * costs.op) (orphanLoop self roots).run
  | [] => takes_pure (by simp)
  | root :: roots => by
    have hop := costs.op_nonneg
    have ih := takes_orphanLoop h roots
    have hrest : 0 ≤ 2 * (roots.length : ℚ) * costs.op := by positivity
    have hbudget : 2 * ((root :: roots).length : ℚ) * costs.op =
        costs.op + (costs.op + 2 * roots.length * costs.op) := by
      push_cast [List.length_cons]
      ring
    rw [hbudget, orphanLoop]
    refine spends_iteExcept (fun _ => ih.mono (by linarith)) fun _ => ?_
    refine takes_call h (by exact trivial) fun present => ?_
    refine spends_iteExcept (fun _ => ?_) fun _ => ih.mono (by linarith)
    refine takes_call h (by exact trivial) fun lines => ?_
    rcases lines with e | lines
    · exact ih
    refine spends_iteExcept (fun _ => ih) fun _ => ?_
    exact takes_last ih fun _ => takes_pure (le_refl 0)

theorem takes_checkOrphanProcesses (h : Timed exec clock costs) :
    Takes exec clock (fun _ => True) costs.look self.checkOrphanProcesses.run := by
  have hop := costs.op_nonneg
  have hbudget : costs.look = costs.op + (costs.op + 2 * costs.dirs * costs.op) := by
    unfold Costs.look
    ring
  rw [hbudget]
  unfold checkOrphanProcesses
  refine takes_call h (by exact trivial) fun present => ?_
  refine spends_iteExcept (fun _ => ?_) fun _ => takes_pure (by positivity)
  refine spends_op (by simp) (fun s roots s' he =>
    ⟨h.walk s _ roots s' he, h.op s (.walk _) roots s' trivial he⟩) fun roots hroots => ?_
  refine (takes_orphanLoop h roots).mono ?_
  have hroots : (roots.length : ℚ) ≤ costs.dirs := by exact_mod_cast hroots
  gcongr

/-- A look, with both ends of what it takes. -/
theorem look_checkOrphanProcesses (h : Timed exec clock costs) (w : σ) :
    Safe exec (· = .stuck) (fun _ w' => clock w ≤ clock w' ∧ clock w' ≤ clock w + costs.look) w
      self.checkOrphanProcesses.run := by
  have hbad : ∀ o, looks o → ¬ o = .stuck := by
    rintro o ho rfl
    exact ho
  have hlooks : Keeps looks (fun r => ∃ orphans, r = .ok orphans) self.checkOrphanProcesses.run :=
    keeps_checkOrphanProcesses
  have hforward := Safe.of_keeps (I := fun w' => clock w ≤ clock w') hbad
    (fun s o r s' ho he hs => hs.trans (h.forward s o r s' he)) hlooks (le_refl (clock w))
  exact (hforward.and (takes_checkOrphanProcesses h w)).mono fun _ _ ha => ⟨ha.1.2, ha.2.2⟩

/-- The polls of a wait: half a second and a look after the deadline it is over. -/
theorem takes_waitLoop (h : Timed exec clock costs) {timeout start limit : ℚ}
    (hlimit : start + timeout + 1 / 2 + costs.look + 2 * costs.op ≤ limit) :
    ∀ (fuel : ℕ) (interval : ℚ) (w : σ),
      1 / 100 ≤ interval → interval ≤ 1 / 2 → timeout - (clock w - start) ≤ fuel / 100 →
        clock w ≤ limit → Safe exec (· = .stuck) (fun _ w' => clock w' ≤ limit + costs.op) w
          (waitLoop self timeout start (fuel + 1) interval).run
  | fuel, interval, w, hlo, hcap, hleft, hclock => by
    have hop := costs.op_nonneg
    rw [waitLoop]
    refine ⟨by simp, fun q w₁ htime => ?_⟩
    have hw₁ : clock w₁ ≤ clock w + costs.op := h.op _ .time _ _ trivial htime
    obtain ⟨hq₁, hq₂⟩ := h.time _ _ _ htime
    refine safe_iteExcept (fun hearly => ?_) fun _ => show clock w₁ ≤ limit + costs.op by linarith
    refine safe_exceptBind.mpr ((look_checkOrphanProcesses h w₁).mono fun r w₂ hcheck => ?_)
    obtain ⟨hw₂, hlook⟩ := hcheck
    have hdone : clock w₂ ≤ limit + costs.op := by linarith
    rcases r with e | orphans
    · exact hdone
    refine safe_iteExcept (fun _ => hdone) fun _ => ⟨by simp, fun u w₃ hsleep => ?_⟩
    obtain ⟨hslept, hw₃⟩ := h.sleep _ _ _ _ (by linarith) hsleep
    have hnext : interval ≤ min (interval * (3 / 2)) (1 / 2) := le_next (by linarith) hcap
    cases fuel with
    | zero =>
      simp only [Nat.cast_zero, zero_div] at hleft
      linarith
    | succ fuel =>
      push_cast at hleft
      exact takes_waitLoop h hlimit fuel _ w₃ (hlo.trans hnext) (min_le_right _ _) (by linarith) (by linarith)

/-! ### Housekeeping -/

variable {grace : ℚ} {fuel : ℕ}

/-- What a wait for an empty slice takes. -/
def Costs.wait (costs : Costs) (grace : ℚ) : ℚ := grace + 1 / 2 + costs.look + 4 * costs.op

theorem takes_waitForSliceEmpty (h : Timed exec clock costs) (hgrace : 0 ≤ grace) {timeout : ℚ}
    (ht : timeout ≤ grace) (hfuel : 100 * grace + 1 ≤ fuel) :
    Takes exec clock (fun _ => True) (costs.wait grace) (waitForSliceEmpty fuel self timeout).run := by
  intro w
  have hop := costs.op_nonneg
  have hlook := costs.look_nonneg
  obtain ⟨fuel, rfl⟩ : ∃ n, fuel = n + 1 := by
    refine ⟨fuel - 1, ?_⟩
    have hpos : (0 : ℚ) < fuel := by linarith
    have hpos : 0 < fuel := by exact_mod_cast hpos
    omega
  push_cast at hfuel
  unfold waitForSliceEmpty
  refine ⟨by simp, fun start w₁ htime => ?_⟩
  have hw₁ : clock w₁ ≤ clock w + costs.op := h.op _ .time _ _ trivial htime
  obtain ⟨hstart₁, hstart₂⟩ := h.time _ _ _ htime
  have hlimit : start + timeout + 1 / 2 + costs.look + 2 * costs.op ≤
      clock w + (grace + 1 / 2 + costs.look + 3 * costs.op) := by linarith
  have hloop : Safe exec (· = .stuck) _ w₁ (waitLoop self timeout start (fuel + 1) (1 / 100)).run :=
    takes_waitLoop h hlimit fuel (1 / 100) w₁ (le_refl _) (by norm_num) (by linarith) (by linarith)
  refine hloop.mono fun _ _ hw => ⟨trivial, ?_⟩
  unfold Costs.wait
  linarith

theorem takes_killSliceProcesses (h : Timed exec clock costs) {signal : String} :
    Takes exec clock (fun _ => True) (30 + costs.op) (killSliceProcesses self signal).run :=
  takes_last (takes_runSubprocess h (by norm_num)) fun _ => takes_pure (le_refl 0)

/-- What two signals, two waits and the looks around them take. -/
def Costs.cleanup (costs : Costs) (grace : ℚ) : ℚ := 61 + 2 * grace + 5 * costs.look + 10 * costs.op

theorem takes_cleanupUserSlice (h : Timed exec clock costs) (hgrace : 0 ≤ grace)
    (hself : self.killGraceTime ≤ grace) (hfuel : 100 * grace + 1 ≤ fuel) :
    Takes exec clock (fun _ => True) (costs.cleanup grace) (cleanupUserSlice fuel self).run := by
  have hop := costs.op_nonneg
  have hlook := costs.look_nonneg
  have hnonneg : 0 ≤ costs.wait grace := by
    unfold Costs.wait
    linarith
  have hwait : Takes exec clock (fun _ => True) (costs.wait grace)
      (waitForSliceEmpty fuel self self.killGraceTime).run :=
    takes_waitForSliceEmpty h hgrace hself hfuel
  have hround : ∀ {f : Bool → Py Unit} {b : ℚ} (signal : String), 0 ≤ b →
      (∀ empty, Takes exec clock (fun _ => True) b (f empty).run) →
        Takes exec clock (fun _ => True) (30 + costs.op + (costs.wait grace + b))
          (do killSliceProcesses self signal
              let empty ← waitForSliceEmpty fuel self self.killGraceTime
              f empty).run :=
    fun signal hb hf => takes_then (takes_killSliceProcesses h) (fun _ => takes_then hwait hf hb) (by linarith)
  have hfinal : ∀ empty : Bool, Takes exec clock (fun _ => True) costs.look
      (if empty = true then pure () else do
        let finalOrphans ← checkOrphanProcesses self
        throw (.runtimeError (remainMsg self finalOrphans)) : Py Unit).run := by
    intro empty
    refine spends_iteExcept (fun _ => takes_pure hlook) fun _ => ?_
    exact takes_last (takes_checkOrphanProcesses h) fun _ => takes_pure (le_refl 0)
  have hbudget : costs.cleanup grace = costs.look + (30 + costs.op + (costs.wait grace +
      (costs.look + (30 + costs.op + (costs.wait grace + costs.look))))) := by
    unfold Costs.cleanup Costs.wait
    ring
  rw [hbudget]
  unfold cleanupUserSlice
  refine takes_then (takes_checkOrphanProcesses h) (fun orphans => ?_) (by linarith)
  refine spends_iteExcept (fun _ => takes_pure (by linarith)) fun _ => ?_
  refine hround "SIGTERM" (by linarith) fun empty => ?_
  refine spends_iteExcept (fun _ => takes_pure (by linarith)) fun _ => ?_
  refine takes_then (takes_checkOrphanProcesses h) (fun _ => ?_) (by linarith)
  exact hround "SIGKILL" hlook hfinal

theorem Costs.cleanup_nonneg (hgrace : 0 ≤ grace) : 0 ≤ costs.cleanup grace := by
  have hop := costs.op_nonneg
  have hlook := costs.look_nonneg
  unfold Costs.cleanup
  linarith

theorem takes_userSliceTeardown (h : Timed exec clock costs) (hgrace : 0 ≤ grace)
    (hself : self.killGraceTime ≤ grace) (hfuel : 100 * grace + 1 ≤ fuel) :
    Takes exec clock (fun _ => True) (60 + costs.cleanup grace + 3 * costs.op)
      (userSliceTeardown fuel self).run := by
  have hop := costs.op_nonneg
  have hcleanup := costs.cleanup_nonneg hgrace
  have hclear : Takes exec clock (fun _ => True) (costs.op + 0) (clearActiveMarker self).run := by
    unfold clearActiveMarker
    refine takes_call h (by exact trivial) fun r => ?_
    rcases r with e | ⟨⟩
    · cases e <;> exact takes_pure (le_refl 0)
    · exact takes_pure (le_refl 0)
  have hstop : Takes exec clock (fun _ => True) (30 + costs.op)
      (tolerating (runSubprocess [self.systemctl, "stop", serviceName self.userid] 30)).run :=
    takes_tolerating (takes_runSubprocess h (by norm_num))
  have hrevert : Takes exec clock (fun _ => True) (30 + costs.op) (revertSlice self).run :=
    takes_tolerating (takes_runSubprocess h (by norm_num))
  have herror : Takes exec clock (fun _ => True) (costs.cleanup grace) (cleanupError fuel self).run := by
    unfold cleanupError
    refine spends_iteExcept (fun _ => ?_) fun _ => takes_pure hcleanup
    refine takes_caught (takes_cleanupUserSlice h hgrace hself hfuel) fun r => ?_
    rcases r with e | _
    · cases e <;> exact takes_pure (le_refl 0)
    · exact takes_pure (le_refl 0)
  have hbudget : 60 + costs.cleanup grace + 3 * costs.op =
      costs.op + 0 + (30 + costs.op + (costs.cleanup grace + (30 + costs.op))) := by ring
  rw [hbudget]
  unfold userSliceTeardown
  refine takes_then hclear (fun _ => ?_) (by linarith)
  refine takes_then hstop (fun _ => ?_) (by linarith)
  refine takes_then herror (fun error => ?_) (by linarith)
  refine takes_last hrevert fun _ => ?_
  cases error <;> exact takes_pure (le_refl 0)

/-! ### The bodies -/

variable {X : Externals}

theorem takes_shouldSkip (h : Timed exec clock costs) :
    Takes exec clock (fun _ => True) costs.request (shouldSkip self).run :=
  takes_last (takes_attrInt h) fun _ =>
    spends_iteExcept (fun _ => takes_pure (le_refl 0)) fun _ => takes_pure (le_refl 0)

theorem takes_checkLinger (h : Timed exec clock costs) :
    Takes exec clock (fun _ => True) (30 + costs.op) (checkLinger self 30).run := by
  refine takes_caught (takes_runSubprocess h (by norm_num)) fun r => ?_
  rcases r with e | stdout
  · cases e <;> exact takes_pure (le_refl 0)
  · exact takes_pure (le_refl 0)

theorem takes_modifySlice (h : Timed exec clock costs) {P : Properties} :
    Takes exec clock (fun _ => True) (30 + costs.op) (modifySlice self (some P)).run :=
  takes_last (takes_runSubprocess h (by norm_num)) fun _ => takes_pure (le_refl 0)

/-- The list of the other jobs leaves the grace time. -/
theorem takes_activeLocalJobs (h : Timed exec clock costs) :
    Takes exec clock (fun r => ∀ found, r = .ok found → found.1.killGraceTime = self.killGraceTime)
      costs.request (activeLocalJobs self).run := by
  have hlist : Takes exec clock (fun _ => True) costs.request
      (callOS (perform (.jobList (toString self.userid) (toString self.rank)))).run :=
    takes_callOS (takes_request h trivial)
  rw [← add_zero costs.request]
  unfold activeLocalJobs
  refine hlist.bindExcept (fun jobs _ => spends_pure ?_) (fun e _ => ?_) (le_refl 0)
  · intro found hfound
    cases hfound
    rfl
  · rintro found ⟨⟩

theorem takes_resourceUnion (h : Timed exec clock costs) {includeCurrent : Bool} :
    Takes exec clock (fun _ => True) costs.request (resourceUnion X self includeCurrent).run := by
  have hrequest := costs.request_nonneg
  have hunion : ∀ ids, Takes exec clock (fun _ => True) costs.request (unionOf X ids).run := by
    intro ids
    unfold unionOf
    refine spends_iteExcept (fun _ => takes_pure hrequest) fun _ => ?_
    refine takes_last (takes_callOS (takes_request h trivial)) fun found => ?_
    refine spends_iteExcept (fun _ => takes_pure (le_refl 0)) fun _ => ?_
    refine takes_last (takes_pure (le_refl 0)) fun union => ?_
    cases union <;> exact takes_pure (le_refl 0)
  unfold resourceUnion
  cases self.cachedJobids with
  | none => exact takes_pure hrequest
  | some cached => exact hunion _

/-- The lookup of the resource sets, the mapper and one update. -/
theorem takes_applyResourceConstraints (h : Timed exec clock costs) {includeCurrent : Bool} :
    Takes exec clock (fun _ => True) (costs.request + (costs.request + (30 + costs.op)))
      (applyResourceConstraints X self includeCurrent).run := by
  have hop := costs.op_nonneg
  have hrequest := costs.request_nonneg
  have hlookup : ∀ R, Takes exec clock (fun _ => True) costs.request (lookupProperties X R).run := by
    intro R
    cases R with
    | none => exact takes_pure hrequest
    | some R => exact takes_callOS (takes_request h trivial)
  unfold applyResourceConstraints
  refine spends_iteExcept (fun _ => takes_pure (by linarith)) fun _ => ?_
  refine takes_then (takes_resourceUnion h) (fun R => ?_) (by linarith)
  refine takes_then (hlookup R) (fun properties => ?_) (by linarith)
  cases properties with
  | none => exact takes_pure (by linarith)
  | some P => exact takes_modifySlice h

theorem takes_setActiveMarker (h : Timed exec clock costs) :
    Takes exec clock (fun _ => True) (costs.op + costs.op) (setActiveMarker self).run :=
  takes_then (takes_callOS (takes_op h trivial)) (fun _ => takes_callOS (takes_op h trivial)) costs.op_nonneg

theorem takes_publish (h : Timed exec clock costs) :
    Takes exec clock (fun _ => True) (costs.op + costs.op + (30 + costs.op)) (Prolog.publish self).run := by
  have hop := costs.op_nonneg
  have hstart : Takes exec clock (fun _ => True) (30 + costs.op) (userServiceStart self).run :=
    takes_last (takes_runSubprocess h (by norm_num)) fun _ => takes_pure (le_refl 0)
  refine Spends.attemptBind (takes_setActiveMarker h) fun r _ => ?_
  rcases r with e | ⟨⟩
  · exact takes_pure (by linarith)
  · exact takes_caught hstart fun _ => takes_pure (le_refl 0)

/-- The prolog under the lock: three commands and four requests. -/
theorem takes_prologBody (h : Timed exec clock costs) :
    Takes exec clock (fun _ => True) (90 + 4 * costs.request + 5 * costs.op) (Prolog.body X self).run := by
  have hop := costs.op_nonneg
  have hrequest := costs.request_nonneg
  have hbudget : 90 + 4 * costs.request + 5 * costs.op = costs.request + (30 + costs.op +
      (costs.request + (costs.request + (costs.request + (30 + costs.op)) +
        (costs.op + costs.op + (30 + costs.op))))) := by ring
  have hconstrain : Takes exec clock (fun _ => True) (costs.request +
      (costs.request + (costs.request + (30 + costs.op)) + (costs.op + costs.op + (30 + costs.op))))
      (Prolog.constrain X self).run := by
    unfold Prolog.constrain
    refine (takes_activeLocalJobs h).bindExcept (fun found _ => ?_) (fun _ _ => trivial) (by linarith)
    refine Spends.attemptBind (takes_applyResourceConstraints h) fun r _ => ?_
    rcases r with e | ⟨⟩
    · exact takes_pure (by linarith)
    · exact takes_publish h
  rw [hbudget]
  unfold Prolog.body
  refine takes_then (takes_shouldSkip h) (fun skip => ?_) (by linarith)
  refine spends_iteExcept (fun _ => takes_pure (by linarith)) fun _ => ?_
  refine Spends.attemptBind (takes_checkLinger h) fun linger _ => ?_
  rcases linger with e | ⟨_ | _⟩
  · cases e <;> exact takes_pure (by linarith)
  · exact hconstrain
  · exact takes_pure (by linarith)

/-- What a teardown takes under the lock. -/
def Costs.teardown (costs : Costs) (grace : ℚ) : ℚ :=
  121 + 2 * grace + 4 * costs.request + 5 * costs.look + 13 * costs.op

/-- Housekeeping under the lock: four commands and two waits, or one command and
four requests. -/
theorem takes_housekeepingBody (h : Timed exec clock costs) (hgrace : 0 ≤ grace)
    (hself : self.killGraceTime ≤ grace) (hfuel : 100 * grace + 1 ≤ fuel) :
    Takes exec clock (fun _ => True) (costs.teardown grace) (Housekeeping.body X fuel self).run := by
  have hop := costs.op_nonneg
  have hrequest := costs.request_nonneg
  have hlook := costs.look_nonneg
  have hbudget : costs.teardown grace = costs.request + (costs.request +
      (60 + costs.cleanup grace + 3 * costs.op + (costs.request + costs.request))) := by
    unfold Costs.teardown Costs.cleanup
    ring
  have hcleanup := costs.cleanup_nonneg hgrace
  rw [hbudget]
  unfold Housekeeping.body
  refine takes_then (takes_shouldSkip h) (fun skip => ?_) (by linarith)
  refine spends_iteExcept (fun _ => takes_pure (by linarith)) fun _ => ?_
  refine (takes_activeLocalJobs h).bindExcept (fun found hfound => ?_) (fun _ _ => trivial) (by linarith)
  have hhelper : found.1.killGraceTime ≤ grace := (hfound found rfl).trans_le hself
  refine spends_iteExcept (fun _ => ?_) fun _ => ?_
  · exact takes_then (takes_userSliceTeardown h hgrace hhelper hfuel) (fun _ => takes_pure (by linarith))
      (by linarith)
  · have happly : Takes exec clock (fun _ => True) (costs.request + (costs.request + (30 + costs.op))) (do
        applyResourceConstraints X found.1 false
        return 0 : Py ℤ).run :=
      takes_last (takes_applyResourceConstraints h) fun _ => takes_pure (le_refl 0)
    exact happly.mono (by linarith)

/-! ### The scripts -/

/-- No configured grace time is longer than `grace`. -/
def GraceAtMost (X : Externals) (exec : σ → (o : Op) → Res o → σ → Prop) (grace : ℚ) : Prop :=
  ∀ w v w' g, exec w (.confGet "pam.kill-slice-grace-time") (.ok v) w' →
    X.parseFsd (v.getD (.str "30s")) = .ok g → g ≤ grace

theorem takes_graceTime (h : Timed exec clock costs) (hconf : GraceAtMost X exec grace) :
    Takes exec clock (fun r => ∀ v, r = .ok v → ∀ g, X.parseFsd v = .ok g → g ≤ grace) costs.request
      (confGet "pam.kill-slice-grace-time" (.str "30s")).run := by
  have hread : Takes exec clock (fun r => ∀ v, r = .ok v → ∀ g,
      X.parseFsd (v.getD (.str "30s")) = .ok g → g ≤ grace) costs.request
      (perform (.confGet "pam.kill-slice-grace-time")) := by
    refine spends_perform (by simp) fun s r s' he => ⟨?_, h.request s _ r s' (by exact trivial) he⟩
    rintro v rfl g hg
    exact hconf s v s' g he hg
  have hget : Takes exec clock (fun r => ∀ v, r = .ok v → ∀ g,
      X.parseFsd (v.getD (.str "30s")) = .ok g → g ≤ grace) costs.request
      (callOS (perform (.confGet "pam.kill-slice-grace-time"))).run := by
    refine Spends.raising hread fun r hr => ?_
    rcases r with e | v
    · rintro v ⟨⟩
    · rintro _ ⟨⟩
      exact hr v rfl
  rw [← add_zero costs.request]
  refine hget.bindExcept (fun v hv => spends_pure ?_) (fun e _ => ?_) (le_refl 0)
  · rintro _ ⟨⟩
    exact hv v rfl
  · rintro _ ⟨⟩

/-- What `__init__` takes: the lock's timeout, and seven requests. -/
def Costs.enter (costs : Costs) : ℚ := 60 + 1 / 10 + 7 * costs.request + 9 * costs.op

theorem takes_init (h : Timed exec clock costs) (hlock : 601 ≤ fuel)
    (hconf : GraceAtMost X exec grace) {environ : Environ} {userid : ℤ} {jobid : ℕ}
    {systemctl loginctl : String} :
    Takes exec clock (fun r => ∀ helper, r = .ok helper → helper.killGraceTime ≤ grace)
      costs.enter (PAMHelper.init X fuel environ userid jobid systemctl loginctl).run := by
  have hop := costs.op_nonneg
  have hrequest := costs.request_nonneg
  have hraise : ∀ (e : Exn) (helper : PAMHelper), Except.error e = .ok helper →
      helper.killGraceTime ≤ grace := by
    rintro e helper ⟨⟩
  have hbudget : costs.enter = costs.request + (costs.request + (costs.request + (costs.request +
      (costs.request + (costs.request + (costs.request + (0 + (60 + 1 / 10 + 9 * costs.op + 0)))))))) := by
    unfold Costs.enter
    ring
  rw [hbudget]
  unfold PAMHelper.init
  have hopen : Takes exec clock (fun _ => True) costs.request (callOS (perform (.fluxOpen none))).run :=
    takes_callOS (takes_request h trivial)
  refine hopen.bindExcept (fun _ _ => ?_) (fun e _ => hraise e) (by linarith)
  refine (takes_attrInt h).bindExcept (fun rank _ => ?_) (fun e _ => hraise e) (by linarith)
  refine (takes_confGet h).bindExcept (fun _ _ => ?_) (fun e _ => hraise e) (by linarith)
  refine (takes_confGet h).bindExcept (fun manage _ => ?_) (fun e _ => hraise e) (by linarith)
  refine (takes_confGet h).bindExcept (fun apply _ => ?_) (fun e _ => hraise e) (by linarith)
  refine (takes_confGet h).bindExcept (fun kill _ => ?_) (fun e _ => hraise e) (by linarith)
  refine (takes_graceTime h hconf).bindExcept (fun v hv => ?_) (fun e _ => hraise e) (by linarith)
  have hparse : Takes exec clock (fun r => ∀ g, r = .ok g → g ≤ grace) 0 (Prog.pure (X.parseFsd v)) :=
    spends_pure (hv v rfl)
  refine hparse.bindExcept (fun g hg => ?_) (fun e _ => hraise e) (by linarith)
  refine (takes_acquireLock h hlock).bindExcept (fun fd _ => spends_pure ?_) (fun e _ => hraise e) (le_refl 0)
  rintro helper ⟨⟩
  exact hg g rfl

theorem takes_exit (h : Timed exec clock costs) :
    Takes exec clock (fun _ => True) (2 * costs.op) self.exit.run := by
  have hop := costs.op_nonneg
  have hbudget : 2 * costs.op = costs.op + costs.op := by ring
  unfold PAMHelper.exit
  cases self.lockFd with
  | none => exact takes_pure (by linarith)
  | some fd =>
    rw [hbudget]
    refine takes_call h (by exact trivial) fun unlocked => ?_
    refine takes_last (takes_callOS (takes_op h trivial)) fun _ => ?_
    cases unlocked <;> exact takes_pure (le_refl 0)

/-- A `with` statement, by what its body takes. -/
theorem takes_withHelper (h : Timed exec clock costs) (hlock : 601 ≤ fuel)
    (hconf : GraceAtMost X exec grace) {environ : Environ} {userid : ℤ} {jobid : ℕ}
    {systemctl loginctl : String} {α : Type} {body : PAMHelper → Py α} {b : ℚ} (hb : 0 ≤ b)
    (hbody : ∀ helper : PAMHelper, helper.killGraceTime ≤ grace →
      Takes exec clock (fun _ => True) b (body helper).run) :
    Takes exec clock (fun _ => True) (costs.enter + (b + 2 * costs.op))
      (withHelper X fuel environ userid jobid systemctl loginctl body).run := by
  have hop := costs.op_nonneg
  unfold withHelper
  refine (takes_init h hlock hconf).bindExcept (fun helper hhelper => ?_) (fun _ _ => trivial) (by linarith)
  refine Spends.attemptBind (hbody helper (hhelper helper rfl)) fun result _ => ?_
  refine takes_last (takes_exit h) fun _ => ?_
  cases result <;> exact takes_pure (le_refl 0)

end Functions

/-! ### The bounds -/

/-- The lock is taken. -/
def TakesLock (t : List Event) : Prop := ∃ fd, ⟨.flock fd .LOCK_EX_NB, .ok ()⟩ ∈ t

/-- The script ends within `total`, and in a run in which it takes the lock it is at
most `held` from then to its end. -/
structure Ends {σ : Type} (exec : σ → (o : Op) → Res o → σ → Prop) (clock : σ → ℚ) (total held : ℚ)
    (init : Py PAMHelper) (x : Cmd ℤ) : Prop where
  ends : ∀ w, Safe exec (· = .stuck) (fun _ w' => clock w' ≤ clock w + total) w x
  holds : ∀ w t status w', Runs exec x w t status w' → TakesLock t →
    ∃ t₁ helper w₁ t₂ fd, t = t₁ ++ t₂ ∧ Runs exec init.run w t₁ (.ok helper) w₁ ∧
      t₁.getLast? = some ⟨.flock fd .LOCK_EX_NB, .ok ()⟩ ∧ clock w' ≤ clock w₁ + held

section Scripts

variable {σ : Type} {exec : σ → (o : Op) → Res o → σ → Prop} {clock : σ → ℚ} {costs : Costs} {grace : ℚ}
  {X : Externals} {fuel : ℕ} {environ : Environ} {userid : ℤ} {jobid : ℕ} {systemctl loginctl : String}

/-- `__init__` returns just when the lock is taken. -/
theorem init_takesLock {w w₁ : σ} {t : List Event} {r : Except Exn PAMHelper}
    (h : Runs exec (PAMHelper.init X fuel environ userid jobid systemctl loginctl).run w t r w₁)
    (hstuck : ⟨.stuck, ()⟩ ∉ t) : (∀ helper, r = .ok helper → ∃ fd,
      t.getLast? = some ⟨.flock fd .LOCK_EX_NB, .ok ()⟩) ∧ (∀ e, r = .error e → ¬ TakesLock t) := by
  rcases runs_init h hstuck with ⟨e, rfl, hall⟩ | ⟨t₁, t₂, rfl, hall, r', hlock, hr⟩
  · refine ⟨by simp, fun e _ => ?_⟩
    rintro ⟨fd, hmem⟩
    exact hall _ hmem
  · rcases hr with ⟨e, rfl, rfl⟩ | ⟨fd, helper, rfl, rfl, -⟩
    · refine ⟨by simp, fun e _ => ?_⟩
      rintro ⟨fd, hmem⟩
      rcases List.mem_append.mp hmem with hmem | hmem
      · exact hall _ hmem
      · cases hlock.free fd hmem
    · refine ⟨fun _ _ => ⟨fd, ?_⟩, by simp⟩
      rw [List.getLast?_append, (hlock.held fd rfl).2.1]
      rfl

/-- A script is its `with` statement. -/
theorem ends_of_withHelper (h : Timed exec clock costs) (hlock : 601 ≤ fuel)
    (hconf : GraceAtMost X exec grace) {body : PAMHelper → Py ℤ} {b : ℚ} (hb : 0 ≤ b)
    (hbody : ∀ helper : PAMHelper, helper.killGraceTime ≤ grace →
      Takes exec clock (fun _ => True) b (body helper).run) {f : Except Exn ℤ → Cmd ℤ}
    (hf : ∀ r, ∃ status, f r = .pure status) :
    Ends exec clock (costs.enter + (b + 2 * costs.op)) (b + 2 * costs.op)
      (PAMHelper.init X fuel environ userid jobid systemctl loginctl)
      ((withHelper X fuel environ userid jobid systemctl loginctl body).run >>= f) := by
  have hends : Takes exec clock (fun _ => True) (costs.enter + (b + 2 * costs.op))
      ((withHelper X fuel environ userid jobid systemctl loginctl body).run >>= f) := by
    rw [← add_zero (costs.enter + (b + 2 * costs.op))]
    refine Spends.bind (takes_withHelper h hlock hconf hb hbody) fun r _ => ?_
    obtain ⟨status, hstatus⟩ := hf r
    rw [hstatus]
    exact spends_pure trivial
  refine ⟨fun w => (hends w).mono fun _ _ hw => hw.2, fun w t status w' hrun htakes => ?_⟩
  have hstuck : ⟨.stuck, ()⟩ ∉ t := (hends w).notMem hrun rfl
  obtain ⟨t₁, r, w₁, t₂, hwith, hstatus, rfl⟩ := runs_bind.mp hrun
  obtain ⟨n, hn⟩ := hf r
  rw [hn] at hstatus
  obtain ⟨rfl, -, rfl⟩ := hstatus
  rw [List.append_nil] at hstuck htakes ⊢
  rcases runs_withHelper.mp hwith with
    ⟨t₂, helper, w₂, c, rb, w₃, t₃, rx, hinit, hcall, hexit, rfl, rfl⟩ | ⟨e, hinit, rfl⟩
  · have hstuck₂ : ⟨.stuck, ()⟩ ∉ t₂ := fun hmem => hstuck (List.mem_append_left _ hmem)
    obtain ⟨fd, hlast⟩ := (init_takesLock hinit hstuck₂).1 helper rfl
    have hgraceTime : helper.killGraceTime ≤ grace :=
      ((takes_init h hlock hconf w).of_runs hinit).1 helper rfl
    have hheld : clock w₃ ≤ clock w₂ + b := ((hbody helper hgraceTime w₂).of_runs hcall).2
    have hreleased : clock w' ≤ clock w₃ + 2 * costs.op := ((takes_exit h w₃).of_runs hexit).2
    exact ⟨t₂, helper, w₂, c ++ t₃, fd, rfl, hinit, hlast, by linarith⟩
  · exact absurd htakes ((init_takesLock hinit hstuck).2 e rfl)

/-- **The scripts end.** With a clock on which commands keep to their timeouts, a
request to Flux and any other operation take no more than is assumed, and no
configured grace time is longer than `grace`, no loop of the prolog or of
housekeeping goes on for ever, whatever the world answers; the bounds say how long
they take, and how long they hold the user lock, which is what a login may have to
wait for. -/
theorem scripts_end (paths : Paths) (h : Timed exec clock costs) (hgrace : 0 ≤ grace)
    (hconf : GraceAtMost X exec grace) (hlock : 601 ≤ fuel) (hfuel : 100 * grace + 1 ≤ fuel)
    (hjob : jobInfo X environ = some (userid, jobid)) :
    Ends exec clock (150 + 1 / 10 + 11 * costs.request + 16 * costs.op)
        (90 + 4 * costs.request + 7 * costs.op)
        (PAMHelper.init X fuel environ userid jobid paths.systemctl paths.loginctl)
        (Prolog.main X fuel paths environ) ∧
      Ends exec clock (181 + 1 / 10 + 2 * grace + 11 * costs.request + 5 * costs.look + 24 * costs.op)
        (121 + 2 * grace + 4 * costs.request + 5 * costs.look + 15 * costs.op)
        (PAMHelper.init X fuel environ userid jobid paths.systemctl "/usr/bin/loginctl")
        (Housekeeping.main X fuel paths environ) := by
  have hop := costs.op_nonneg
  have hrequest := costs.request_nonneg
  have hlook := costs.look_nonneg
  constructor
  · have htotal : 150 + 1 / 10 + 11 * costs.request + 16 * costs.op =
        costs.enter + (90 + 4 * costs.request + 5 * costs.op + 2 * costs.op) := by
      unfold Costs.enter
      ring
    have hheld : 90 + 4 * costs.request + 7 * costs.op =
        90 + 4 * costs.request + 5 * costs.op + 2 * costs.op := by ring
    rw [htotal, hheld]
    unfold Prolog.main
    rw [hjob]
    refine ends_of_withHelper h hlock hconf (by linarith) (fun helper _ => takes_prologBody h) ?_
    intro r
    cases r <;> exact ⟨_, rfl⟩
  · have htotal : 181 + 1 / 10 + 2 * grace + 11 * costs.request + 5 * costs.look + 24 * costs.op =
        costs.enter + (costs.teardown grace + 2 * costs.op) := by
      unfold Costs.enter Costs.teardown
      ring
    have hheld : 121 + 2 * grace + 4 * costs.request + 5 * costs.look + 15 * costs.op =
        costs.teardown grace + 2 * costs.op := by
      unfold Costs.teardown
      ring
    have hnonneg : 0 ≤ costs.teardown grace := by
      unfold Costs.teardown
      linarith
    rw [htotal, hheld]
    unfold Housekeeping.main
    rw [hjob]
    refine ends_of_withHelper h hlock hconf hnonneg
      (fun helper hhelper => takes_housekeepingBody h hgrace hhelper hfuel) ?_
    intro r
    cases r <;> exact ⟨_, rfl⟩

end Scripts

/-- A request takes a second, any other operation a hundredth, and the slice has
two directories. -/
def smallCosts : Costs where
  request := 1
  op := 1 / 100
  dirs := 2
  request_nonneg := by norm_num
  op_nonneg := by norm_num

/-- How long an operation takes. -/
def toll : Op → ℚ
  | .sleep d => |d| + 1 / 100
  | .run _ timeout => |timeout| + 1 / 100
  | .fluxOpen _ | .attrGet _ | .confGet _ | .jobList _ _ | .kvsLookupR _ | .mapperLookup _ => 1
  | _ => 1 / 100

theorem toll_nonneg (o : Op) : 0 ≤ toll o := by
  cases o <;> (unfold toll; positivity)

/-- A world whose state is its clock, and that has nothing configured. -/
def unconfigured (now : ℚ) (o : Op) (r : Res o) (now' : ℚ) : Prop :=
  now' = now + toll o ∧ match o, r with
    | .time, q => q = now
    | .confGet _, v => v = .ok none
    | .walk _, roots => roots.length ≤ 2
    | _, _ => True

theorem unconfigured_timed : Timed unconfigured id smallCosts where
  forward now o r now' h := by
    have hpos := toll_nonneg o
    simp only [id, h.1]
    linarith
  time now q now' h := by
    have hnow : now' = now + 1 / 100 := h.1
    have hq : q = now := h.2
    constructor <;> simp only [id] <;> linarith
  sleep now d r now' hd h := by
    have hnow : now' = now + (|d| + 1 / 100) := h.1
    rw [abs_of_nonneg hd] at hnow
    constructor <;> simp only [id, smallCosts] <;> linarith
  run now args timeout r now' ht h := by
    have hnow : now' = now + (|timeout| + 1 / 100) := h.1
    rw [abs_of_nonneg ht] at hnow
    simp only [id, smallCosts]
    linarith
  request now o r now' ho h := by
    have htoll : toll o = 1 := by
      cases o with
      | fluxOpen | attrGet | confGet | jobList | kvsLookupR | mapperLookup => rfl
      | _ => exact ho.elim
    simp only [id, h.1, htoll, smallCosts, le_refl]
  op now o r now' ho h := by
    have htoll : toll o = 1 / 100 := by
      cases o with
      | makedirs | stat | openFile | flock | close | unlink | time | pathExists | walk | readLines => rfl
      | _ => exact ho.elim
    simp only [id, h.1, htoll, smallCosts, le_refl]
  walk now top roots now' h := h.2

theorem unconfigured_grace : GraceAtMost .single unconfigured 30 := by
  rintro w v w' g ⟨-, hv⟩ hg
  cases hv
  have hdefault : Externals.single.parseFsd (.str "30s") = .ok 30 := by with_unfolding_all rfl
  rw [Option.getD_none, hdefault] at hg
  cases hg
  exact le_refl _

/-- A job of the user 1000. -/
def jobEnviron : Environ := fun v =>
  if v = "FLUX_JOB_USERID" then some "1000" else if v = "FLUX_JOB_ID" then some "1" else none

def binPaths : Paths := ⟨"/bin/systemctl", "/bin/loginctl"⟩

/-- The prolog holds the lock for less than 95 s, housekeeping for less than 186 s. -/
theorem scripts_end_unconfigured :
    Ends unconfigured id (150 + 1 / 10 + 11 * 1 + 16 * (1 / 100)) (90 + 4 * 1 + 7 * (1 / 100))
        (PAMHelper.init .single 3001 jobEnviron 1000 1 binPaths.systemctl binPaths.loginctl)
        (Prolog.main .single 3001 binPaths jobEnviron) ∧
      Ends unconfigured id
        (181 + 1 / 10 + 2 * 30 + 11 * 1 + 5 * ((2 + 2 * (2 : ℕ)) * (1 / 100)) + 24 * (1 / 100))
        (121 + 2 * 30 + 4 * 1 + 5 * ((2 + 2 * (2 : ℕ)) * (1 / 100)) + 15 * (1 / 100))
        (PAMHelper.init .single 3001 jobEnviron 1000 1 binPaths.systemctl "/usr/bin/loginctl")
        (Housekeeping.main .single 3001 binPaths jobEnviron) := by
  have hjob : jobInfo .single jobEnviron = some (1000, 1) := by with_unfolding_all rfl
  exact scripts_end binPaths unconfigured_timed (by norm_num) unconfigured_grace (by norm_num)
    (by norm_num) hjob

end FluxPam
