/-
# The prolog is fail-closed

A run of the prolog for a managed user creates the marker last, once linger is
known to be off, the other jobs are listed and the constraints are applied
(`Published`); whatever fails before that leaves the marker as it was, and what
follows it, the start of the user manager, is asked for and not listened to
(`ignores_main`). So the prolog exits 0 only if all of it was done
(`prolog_fail_closed`).
-/
import FluxPam.Attach
import FluxPam.Constraints
import FluxPam.Locking
import FluxPam.Paths

namespace FluxPam

open Interaction Prog Monitor PAMHelper

namespace PAMHelper

def lingerCommand (self : PAMHelper) : List String :=
  [self.loginctl, "show-user", toString self.userid, "--property=Linger"]

/-- The open of the marker. -/
def markerOpen (self : PAMHelper) : Op :=
  .openFile self.markerPath [.O_CREAT, .O_WRONLY, .O_NOFOLLOW] 0o600

end PAMHelper

/-- `loginctl` reports that linger is off, or that it does not know the user. -/
def lingerOff : Except RunError String → Prop
  | .ok stdout => String.ofList (strip stdout.toList) = "Linger=no"
  | .error (.calledProcess _ stderr) =>
    contains "not logged in or lingering" (String.ofList (strip stderr.toList)) = true
  | .error _ => False

/-! ### What the body comes to -/

/-- Opens no file. -/
def noOpen (o : Op) : Prop := ∀ path flags mode, o ≠ .openFile path flags mode

/-- The file is opened, and created if it is missing. -/
def Creates (path : String) (t : List Event) : Prop :=
  ∃ flags mode fd, ⟨.openFile path flags mode, .ok fd⟩ ∈ t

/-- Linger is found off, the other jobs are listed and the constraints applied,
and then the marker is created. -/
inductive Published (X : Externals) (R : ℕ → String) (self : PAMHelper) : List Event → Prop where
  | intro {before a jobs c fd after} : lingerOff a → Applied X R self (self.targets true jobs) c (.ok ()) →
      Published X R self (before ++ ⟨.run self.lingerCommand 30, a⟩ ::
        ⟨.jobList (toString self.userid) (toString self.rank), .ok jobs⟩ ::
          (c ++ ⟨self.markerOpen, .ok fd⟩ :: after))

theorem Published.within {X : Externals} {R : ℕ → String} {self : PAMHelper} {t : List Event}
    (h : Published X R self t) (t₁ t₂ : List Event) : Published X R self (t₁ ++ (t ++ t₂)) := by
  cases h with
  | @intro before a jobs c fd after hoff happlied =>
    have hsplit : Published X R self ((t₁ ++ before) ++ ⟨.run self.lingerCommand 30, a⟩ ::
        ⟨.jobList (toString self.userid) (toString self.rank), .ok jobs⟩ ::
          (c ++ ⟨self.markerOpen, .ok fd⟩ :: (after ++ t₂))) := .intro hoff happlied
    simpa using hsplit

theorem Published.creates {X : Externals} {R : ℕ → String} {self : PAMHelper} {t : List Event}
    (h : Published X R self t) : Creates self.markerPath t := by
  cases h with
  | @intro before a jobs c fd after hoff happlied =>
    have hmem : ⟨self.markerOpen, .ok fd⟩ ∈ c ++ ⟨self.markerOpen, .ok fd⟩ :: after := by simp
    exact ⟨_, _, fd, List.mem_append_right _ (.tail _ (.tail _ hmem))⟩

/-- A run of the body that does not skip. -/
inductive Stage (X : Externals) (R : ℕ → String) (self : PAMHelper) :
    List Event → Except Exn ℤ → Prop where
  | stopped {t r} : r ≠ .ok 0 → ¬ Creates self.markerPath t → Stage X R self t r
  | published {t} : Published X R self t → Stage X R self t (.ok 0)

section Steps

variable {X : Externals} {R : ℕ → String} {self : PAMHelper} {σ : Type} {exec : σ → (o : Op) → Res o → σ → Prop}
  {w w' : σ} {t : List Event}

theorem lingerOff_of_failure {code : ℤ} {stderr : String} (h : lingerFailure stderr = .ok false) :
    lingerOff (.error (.calledProcess code stderr)) := by
  by_contra hcontains
  rw [lingerOff, Bool.not_eq_true] at hcontains
  simp [lingerFailure, hcontains] at h

theorem lingerOff_of_output {stdout : String} (h : lingerOutput stdout = .ok false) :
    lingerOff (.ok stdout) := by
  unfold lingerOutput at h
  by_cases hyes : String.ofList (strip stdout.toList) = "Linger=yes"
  · simp [hyes] at h
  · by_contra hno
    rw [lingerOff] at hno
    simp [hyes, hno] at h

/-- The check passes only if linger is off. -/
theorem runs_checkLinger {timeout : ℚ}
    (h : Runs exec (checkLinger self timeout).run w t (.ok false) w') :
    ∃ a, t = [⟨.run self.lingerCommand timeout, a⟩] ∧ lingerOff a := by
  obtain ⟨t₁, r, w₁, t₂, hrun, hrest, rfl⟩ := runs_attemptBind.mp h
  rcases runs_command hrun with ⟨-, a, rfl, rfl⟩ | ⟨-, rfl, msg, rfl⟩
  · rcases a with e | stdout
    · cases e with
      | calledProcess code stderr =>
        obtain ⟨rfl, hout, -⟩ := hrest
        exact ⟨_, rfl, lingerOff_of_failure hout.symm⟩
      | timeout => exact absurd hrest.2.1 (by simp)
      | os e => exact absurd hrest.2.1 (by simp)
    · obtain ⟨rfl, hout, -⟩ := hrest
      exact ⟨_, rfl, lingerOff_of_output hout.symm⟩
  · exact absurd hrest.2.1 (by simp)

theorem creates_append {path : String} {t t' : List Event} :
    Creates path (t ++ t') ↔ Creates path t ∨ Creates path t' := by
  constructor
  · rintro ⟨flags, mode, fd, hmem⟩
    exact (List.mem_append.mp hmem).imp (⟨flags, mode, fd, ·⟩) (⟨flags, mode, fd, ·⟩)
  · rintro (⟨flags, mode, fd, hmem⟩ | ⟨flags, mode, fd, hmem⟩)
    · exact ⟨flags, mode, fd, List.mem_append_left _ hmem⟩
    · exact ⟨flags, mode, fd, List.mem_append_right _ hmem⟩

theorem not_creates_of_runs {α : Type} {x : Cmd α} {a : α} {path : String}
    (hx : Keeps noOpen (fun _ => True) x) (h : Runs exec x w t a w') : ¬ Creates path t := by
  rintro ⟨flags, mode, fd, hmem⟩
  exact (h.traces.keeps hx).1 _ hmem _ _ _ rfl

/-- The marker is created, or the prolog exits 1. -/
theorem runs_publish {r : Except Exn ℤ} (hclose : ∀ fd a, ⟨.close fd, a⟩ ∈ t → a = .ok ())
    (h : Runs exec (Prolog.publish self).run w t r w') :
    (∃ fd after, t = ⟨self.markerOpen, .ok fd⟩ :: after ∧ r = .ok 0) ∨
      r = .ok 1 ∧ ¬ Creates self.markerPath t := by
  obtain ⟨t₁, a, w₁, t₂, hmark, hrest, rfl⟩ := runs_attemptBind.mp h
  rcases runs_raisingBind.mp hmark with ⟨t₃, fd, w₂, t₄, hopen, hshut, rfl⟩ | ⟨e, hopen, rfl⟩
  · obtain ⟨-, rfl⟩ := runs_perform.mp hopen
    obtain ⟨c, hc, rfl⟩ := runs_raised.mp hshut
    obtain ⟨-, rfl⟩ := runs_perform.mp hc
    obtain rfl := hclose fd c (by simp)
    obtain ⟨t₅, b, w₃, t₆, -, ⟨rfl, rfl, -⟩, rfl⟩ := runs_attemptBind.mp hrest
    exact .inl ⟨fd, _, rfl, rfl⟩
  · obtain ⟨-, rfl⟩ := runs_perform.mp hopen
    obtain ⟨rfl, rfl, -⟩ := hrest
    exact .inr ⟨rfl, by simp [Creates]⟩

/-- The prolog once linger is known to be off. -/
theorem stage_of_constrain {r : Except Exn ℤ} {before : List Event} {a : Except RunError String}
    (hbefore : ¬ Creates self.markerPath (before ++ [⟨.run self.lingerCommand 30, a⟩]))
    (hlinger : lingerOff a) (hR : ∀ e ∈ t, findsAll R e.1 e.2)
    (hclose : ∀ fd a, ⟨.close fd, a⟩ ∈ t → a = .ok ())
    (h : Runs exec (Prolog.constrain X self).run w t r w') :
    Stage X R self (before ++ ⟨.run self.lingerCommand 30, a⟩ :: t) r := by
  have hstop : r ≠ .ok 0 → ¬ Creates self.markerPath t →
      Stage X R self (before ++ ⟨.run self.lingerCommand 30, a⟩ :: t) r := fun hr ht => by
    rw [List.append_cons]
    exact .stopped hr fun hc => (creates_append.mp hc).elim hbefore ht
  rcases runs_exceptBind.mp h with ⟨t₂, ⟨helper, count⟩, w₁, t₃, hlist, hrest, rfl⟩ | ⟨e, hlist, rfl⟩
  · rcases runs_activeLocalJobs hlist with ⟨e, -, he⟩ | ⟨jobs, rfl, he⟩
    · cases he
    cases he
    obtain ⟨c, r₁, w₂, t₄, hcall, hpublish, rfl⟩ := runs_attemptBind.mp hrest
    have happlied : Applied X R self (self.targets true jobs) c r₁ :=
      applied_of_runs targets_true (fun e he => hR e (by simp [he])) hcall
    have hcalled : ¬ Creates self.markerPath ([⟨.jobList (toString self.userid) (toString self.rank),
        .ok jobs⟩] ++ c) := by
      intro hc
      rcases creates_append.mp hc with hc | hc
      · simp [Creates] at hc
      · refine not_creates_of_runs (keeps_applyResourceConstraints ?_ ?_ ?_) hcall hc <;> simp [noOpen]
    cases r₁ with
    | error e =>
      obtain ⟨rfl, rfl, -⟩ := hpublish
      exact hstop (by simp) (by rwa [List.append_nil])
    | ok u =>
      have hclose' : ∀ fd a, ⟨.close fd, a⟩ ∈ t₄ → a = .ok () := fun fd a hmem =>
        hclose fd a (List.mem_append_right _ (List.mem_append_right _ hmem))
      have hpublish' : Runs exec (Prolog.publish self).run w₂ t₄ r w' := hpublish
      rcases runs_publish hclose' hpublish' with ⟨fd, after, rfl, rfl⟩ | ⟨rfl, hno⟩
      · exact .published (.intro hlinger happlied)
      · refine hstop (by simp) ?_
        rw [← List.append_assoc]
        exact fun hc => (creates_append.mp hc).elim hcalled hno
  · refine hstop (by simp) (not_creates_of_runs (keeps_activeLocalJobs ?_) hlist)
    simp [noOpen]

/-- The prolog in its `with` statement, if it does not skip. -/
theorem stage_of_runs {r : Except Exn ℤ}
    (hskip : ∀ w t w', ¬ Runs exec (shouldSkip self).run w t (.ok true) w')
    (hR : ∀ e ∈ t, findsAll R e.1 e.2) (hclose : ∀ fd a, ⟨.close fd, a⟩ ∈ t → a = .ok ())
    (h : Runs exec (Prolog.body X self).run w t r w') : Stage X R self t r := by
  have hasks : Keeps noOpen (fun _ => True) (shouldSkip self).run := keeps_shouldSkip (by simp [noOpen])
  rcases runs_exceptBind.mp h with ⟨t₁, skip, w₁, t₂, hrun, hrest, rfl⟩ | ⟨e, hrun, rfl⟩
  · by_cases hs : skip = true
    · exact absurd (hs ▸ hrun) (hskip _ _ _)
    rw [if_neg hs] at hrest
    obtain ⟨t₃, linger, w₂, t₄, hlinger, hnext, rfl⟩ := runs_attemptBind.mp hrest
    have hbefore : ¬ Creates self.markerPath (t₁ ++ t₃) := fun hc =>
      (creates_append.mp hc).elim (not_creates_of_runs hasks hrun)
        (not_creates_of_runs (keeps_checkLinger (by simp [noOpen])) hlinger)
    have hstop : t₄ = [] → r ≠ .ok 0 → Stage X R self (t₁ ++ (t₃ ++ t₄)) r := by
      rintro rfl hr
      rw [List.append_nil]
      exact .stopped hr hbefore
    rcases linger with e | ⟨_ | _⟩
    · cases e <;> exact hstop hnext.1 (by rw [hnext.2.1]; simp)
    · obtain ⟨a, rfl, hoff⟩ := runs_checkLinger hlinger
      have hmem : ∀ e ∈ t₄, e ∈ t₁ ++ ([⟨.run self.lingerCommand 30, a⟩] ++ t₄) := fun e he =>
        List.mem_append_right _ (List.mem_append_right _ he)
      exact stage_of_constrain hbefore hoff (fun e he => hR e (hmem e he))
        (fun fd a he => hclose fd a (hmem _ he)) hnext
    · exact hstop hnext.1 (by rw [hnext.2.1]; simp)
  · exact .stopped (by simp) (not_creates_of_runs hasks hrun)

end Steps

/-! ### The start of the user manager -/

section Ignored

variable {X : Externals} {fuel : ℕ} {environ : Environ} {systemctl unit : String}

/-- The start is asked for and not listened to. -/
theorem ignores_publish (self : PAMHelper) :
    Ignores (.run [systemctl, "start", unit] 30) (Prolog.publish self).run := by
  refine .attemptBind (.of_keeps (keeps_setActiveMarker (by simp) (by simp))) fun a => ?_
  rcases a with e | ⟨⟩
  · exact trivial
  change Ignores _ (attempt (userServiceStart self) >>= fun _ => (pure 0 : Py ℤ)).run
  unfold userServiceStart runSubprocess
  dsimp only
  by_cases habs : isabs self.systemctl = true
  · rw [if_pos habs]
    refine ⟨fun _ r r' => ?_, fun r => ?_⟩
    · cases r <;> cases r' <;> rfl
    · cases r <;> exact trivial
  · rw [if_neg habs]
    exact trivial

theorem ignores_body (self : PAMHelper) :
    Ignores (.run [systemctl, "start", unit] 30) (Prolog.body X self).run := by
  refine .exceptBind (.of_keeps (keeps_shouldSkip (by simp))) fun skip => ?_
  cases skip with
  | true => exact trivial
  | false =>
    refine .attemptBind (.of_keeps (keeps_checkLinger (by simp))) fun linger => ?_
    rcases linger with e | ⟨_ | _⟩
    · cases e <;> exact trivial
    · refine .exceptBind (.of_keeps (keeps_activeLocalJobs (by simp))) fun found => ?_
      refine .attemptBind (.of_keeps (keeps_applyResourceConstraints ?_ ?_ ?_)) fun r => ?_
      · simp
      · simp
      · simp
      · cases r with
        | error e => exact trivial
        | ok u => exact ignores_publish found.1
    · exact trivial

/-- So is it in the script. -/
theorem ignores_main {paths : Paths} :
    Ignores (.run [systemctl, "start", unit] 30) (Prolog.main X fuel paths environ) := by
  unfold Prolog.main
  cases jobInfo X environ with
  | none => exact trivial
  | some job =>
    obtain ⟨userid, jobid⟩ := job
    refine .bind (.exceptBind (.of_keeps (keeps_init rfl ?_)) fun helper => ?_) fun r => ?_
    · exact ⟨⟨by simp, by simp, by simp, by simp, by simp⟩, by simp, by simp, by simp, by simp, by simp,
        by simp⟩
    · refine .attemptBind (ignores_body helper) fun r => ?_
      refine .exceptBind (.of_keeps (keeps_exit (by simp) (by simp))) fun _ => ?_
      cases r <;> exact trivial
    · cases r <;> exact trivial

end Ignored

/-! ### The world -/

section World

variable {K : Setting} {p : Pid} {j fuel : ℕ} {w w' : World} {t : List Event}

theorem not_skip {self : PAMHelper} (hh : Helps K p j self) (hK : K.managed p.uid) :
    ¬ Runs (K.exec p) (shouldSkip self).run w t (.ok true) w' := by
  intro h
  have hanswers := Setting.answered h
  exact (hh.quiet_shouldSkip.of_runs hanswers h true rfl).mp rfl hK

theorem findsAll_of_answers {o : Op} {r : Res o} (h : K.answers p o r) : findsAll K.R o r := by
  cases o with
  | kvsLookupR ids => exact h
  | _ => exact trivial

/-- A prolog changes the marker only by creating it. -/
theorem prolog_marker {φ : Phase} {o : Op} {r : Res o} (ha : φ.allowed K p (.prolog j fuel) o)
    (he : w.effect p K.rank o r w') :
    w'.files (markerPath K.lockDir p.uid) = w.files (markerPath K.lockDir p.uid) ∨
      Creates (markerPath K.lockDir p.uid) [⟨o, r⟩] ∧ w'.files (markerPath K.lockDir p.uid) ≠ .absent := by
  obtain ⟨u, m⟩ := p
  rcases marker_effect ha he with hsame | ⟨⟨n, j', fuel', flags, mode, fd, hl⟩, hmark⟩ | hl
  · exact .inl hsame
  · cases hl
    exact .inr ⟨⟨flags, mode, fd, List.mem_cons_self⟩, hmark⟩
  · cases hl
    exact ha.2.2.1.elim

theorem never_waits {uid : ℤ} {lockDir : String} : Opens (fun o => ∀ fd, o ≠ .flock fd .LOCK_EX) uid lockDir where
  flock _ := by simp
  close _ := by simp
  time := by simp
  sleep _ := by simp
  stuck := by simp
  flux _ := by simp
  attr _ := by simp
  conf _ := by simp
  makedirs := by simp
  stat := by simp
  lock := by simp

/-- Constructing the helper creates no marker, and if it raises it leaves no lock
behind. -/
theorem runs_construct {systemctl loginctl : String} {r : Except Exn PAMHelper}
    (h : Runs (K.exec p) (PAMHelper.init K.X fuel (K.environ p.uid j) p.uid j systemctl loginctl).run
      w t r w') :
    ¬ Creates (markerPath K.lockDir p.uid) t ∧
      (∀ self, r = .ok self → Helps K p j self ∧ self.systemctl = systemctl ∧ self.loginctl = loginctl) ∧
        ∀ e, r = .error e → w.locks (lockPath K.lockDir p.uid) ≠ some p →
          w'.locks (lockPath K.lockDir p.uid) ≠ some p := by
  have hanswers := Setting.answered h
  have hacc : (watch K p (.prolog j fuel)).Accepts
      (fun r φ' => ∀ helper, r = .ok helper → Helps K p j helper ∧ φ' = .locked) .init
      (PAMHelper.init K.X fuel (K.environ p.uid j) p.uid j systemctl loginctl).run := accepts_init
  have houtcome := runs_init h fun hmem => hanswers _ hmem
  refine ⟨?_, ?_, ?_⟩
  · rintro ⟨flags, mode, fd, hmem⟩
    have hfile := (h.traces.keeps (keeps_init (K.environ_lockDir p.uid j) onFile_opens)).1 _ hmem
    exact lockPath_ne_markerPath _ _ _ _ (hfile _ rfl).symm
  · rintro self rfl
    refine ⟨(hacc.of_runs hanswers h self rfl).1, ?_⟩
    rcases houtcome with ⟨e, he, -⟩ | ⟨t₁, t₂, rfl, -, r', -, ⟨e, -, he⟩ | ⟨fd, helper, -, he, -, hpaths⟩⟩
    · cases he
    · cases he
    · cases he
      exact hpaths
  · rintro e rfl hw
    have hnone : ∀ e ∈ t, ¬ takes e := by
      rintro _ hmem ⟨fd, rfl | rfl⟩
      · exact (h.traces.keeps (keeps_init rfl never_waits)).1 _ hmem fd rfl
      rcases houtcome with ⟨e, -, hall⟩ | ⟨t₁, t₂, rfl, hall, r', hlock, hraised⟩
      · exact hall _ hmem
      · rcases hraised with ⟨e', rfl, -⟩ | ⟨fd, helper, -, he, -⟩
        · rcases List.mem_append.mp hmem with hmem | hmem
          · exact hall _ hmem
          · cases hlock.free fd hmem
        · cases he
    refine hacc.preserves (I := fun w => w.locks (lockPath K.lockDir p.uid) ≠ some p) hanswers h
      (fun φ s o r s' hmem ha he hs hq => ?_) hw
    rcases effect_locks (allowed_touches ha) he.2 hq with hq | ⟨-, -, htakes⟩
    · exact hs hq
    · exact hnone _ hmem htakes

theorem unlock_ne (path : String) : (w.unlock p path).locks path ≠ some p := by
  simp [World.unlock]

/-- When `__exit__` returns or raises, the lock is given up. -/
theorem unlocked_exit {self : PAMHelper} {fd : Fd} {r : Except Exn Unit} (hfd : self.lockFd = some fd)
    (h : Runs (K.exec p) self.exit.run w t r w') : w'.locks fd.path ≠ some p := by
  rw [PAMHelper.exit, hfd] at h
  obtain ⟨a, w₁, t', -, hrest, rfl⟩ := runs_performBind.mp h
  rcases runs_raisingBind.mp hrest with ⟨t₁, u, w₂, t₂, hclose, hraise, rfl⟩ | ⟨e, hclose, -⟩
  · have hw : w₂ = w₁.unlock p fd.path := (runs_perform.mp hclose).1.2
    have hend : w' = w₂ := by
      rcases a with e | ⟨⟩ <;> exact hraise.2.2
    rw [hend, hw]
    exact unlock_ne _
  · have hw : w' = w₁.unlock p fd.path := (runs_perform.mp hclose).1.2
    rw [hw]
    exact unlock_ne _

end World

/-! ### The script -/

/-- The event is not a descriptor that could not be unlocked or closed. -/
def releases : Event → Bool
  | ⟨.close _, r⟩ => r.isOk
  | ⟨.flock _ .LOCK_UN, r⟩ => r.isOk
  | _ => true

theorem ok_of_isOk {r : Except Errno Unit} (h : r.isOk = true) : r = .ok () := by
  rcases r with e | ⟨⟩
  · cases h
  · rfl

/-- The `with` statement of the prolog of the user's job. -/
def prologWith (K : Setting) (p : Pid) (j fuel : ℕ) : Py ℤ :=
  withHelper K.X fuel (K.environ p.uid j) p.uid j K.paths.systemctl K.paths.loginctl (Prolog.body K.X)

/-- What a run of the prolog of the user's job comes to. -/
structure PrologFailClosed (K : Setting) (p : Pid) (j fuel : ℕ) (w : World) (t : List Event) (status : ℤ)
    (w' : World) : Prop where
  published : status = 0 → ∃ self, Helps K p j self ∧ self.systemctl = K.paths.systemctl ∧
    self.loginctl = K.paths.loginctl ∧ Published K.X K.R self t
  present : status = 0 → w'.files (markerPath K.lockDir p.uid) ≠ .absent
  untouched : status ≠ 0 →
    w'.files (markerPath K.lockDir p.uid) = w.files (markerPath K.lockDir p.uid)
  unlocked : w.locks (lockPath K.lockDir p.uid) ≠ some p → w'.locks (lockPath K.lockDir p.uid) ≠ some p
  started : ∀ before a b after,
    t = before ++ ⟨.run [K.paths.systemctl, "start", serviceName p.uid] 30, a⟩ :: after →
      Traces (Prolog.main K.X fuel K.paths (K.environ p.uid j))
        (before ++ ⟨.run [K.paths.systemctl, "start", serviceName p.uid] 30, b⟩ :: after) status

section Script

variable {K : Setting} {p : Pid} {j fuel : ℕ} {w w' : World} {t : List Event} {r : Except Exn ℤ}
  {status : ℤ}

/-- The script exits with what the `with` statement returns, or 1 if it raises or
is not reached. -/
theorem runs_main (h : Runs (K.exec p) (Prolog.main K.X fuel K.paths (K.environ p.uid j)) w t status w') :
    (∃ r, Runs (K.exec p) (prologWith K p j fuel).run w t r w' ∧
      (r = .ok status ∨ (∃ e, r = .error e) ∧ status = 1)) ∨ t = [] ∧ status = 1 ∧ w' = w := by
  rw [Prolog.main] at h
  rcases jobInfo_environ (K := K) p.uid j with hj | hj <;> rw [hj] at h
  · obtain ⟨rfl, rfl, rfl⟩ := h
    exact .inr ⟨rfl, rfl, rfl⟩
  obtain ⟨t₁, r, w₁, t₂, hrun, hrest, rfl⟩ := runs_bind.mp h
  refine .inl ⟨r, ?_⟩
  rcases r with e | n <;> obtain ⟨rfl, rfl, rfl⟩ := hrest <;> rw [List.append_nil]
  · exact ⟨hrun, .inr ⟨⟨e, rfl⟩, rfl⟩⟩
  · exact ⟨hrun, .inl rfl⟩

theorem prologWith_accepts : (watch K p (.prolog j fuel)).Accepts
    (fun r φ' => ∀ a, r = .ok a → ∃ φ,
      zeroes (fun φ => K.managed p.uid → φ.published = true) (.ok a) φ ∧ φ' = φ.release)
      .init (prologWith K p j fuel).run :=
  accepts_withHelper fun _ hh => accepts_prologBody hh

/-- The marker is created and 0 is returned, or it is not. -/
theorem with_cases (hK : K.managed p.uid) (h : Runs (K.exec p) (prologWith K p j fuel).run w t r w')
    (hreleases : ∀ e ∈ t, releases e = true) :
    (r = .ok 0 ∧ ∃ self, Helps K p j self ∧ self.systemctl = K.paths.systemctl ∧
      self.loginctl = K.paths.loginctl ∧ Published K.X K.R self t) ∨
    r ≠ .ok 0 ∧ ¬ Creates (markerPath K.lockDir p.uid) t := by
  have hanswers := Setting.answered h
  rcases runs_withHelper.mp h with
    ⟨t₁, self, w₁, c, rb, w₂, t₂, rx, hinit, hbody, hexit, rfl, rfl⟩ | ⟨e, hinit, rfl⟩
  · obtain ⟨hinit', hself, -⟩ := runs_construct hinit
    obtain ⟨hh, hpaths⟩ := hself self rfl
    obtain ⟨a, d, rfl, hok⟩ := runs_exit hh.lock hexit
    obtain rfl : rx = .ok () :=
      hok (ok_of_isOk (hreleases ⟨.flock _ .LOCK_UN, a⟩ (by simp)))
        (ok_of_isOk (hreleases ⟨.close _, d⟩ (by simp)))
    have hbody' : Stage K.X K.R self c rb := by
      refine stage_of_runs (fun _ _ _ => not_skip hh hK) (fun e he => ?_) (fun fd a he => ?_) hbody
      · exact findsAll_of_answers (hanswers e (by simp [he]))
      · exact ok_of_isOk (hreleases _ (List.mem_append_right _ (List.mem_append_left _ he)))
    cases hbody' with
    | stopped hr hno =>
      refine .inr ⟨hr, fun hc => ?_⟩
      rw [← hh.marker] at hinit' hc
      rcases creates_append.mp hc with hc | hc
      · exact hinit' hc
      · rcases creates_append.mp hc with hc | hc
        · exact hno hc
        · simp [Creates] at hc
    | published hpub => exact .inl ⟨rfl, self, hh, hpaths.1, hpaths.2, hpub.within t₁ _⟩
  · exact .inr ⟨by simp, (runs_construct hinit).1⟩

/-- A marker that is created stays. -/
theorem with_present (h : Runs (K.exec p) (prologWith K p j fuel).run w t r w')
    (hc : Creates (markerPath K.lockDir p.uid) t) : w'.files (markerPath K.lockDir p.uid) ≠ .absent := by
  have hanswers := Setting.answered h
  obtain ⟨flags, mode, fd, hmem⟩ := hc
  refine prologWith_accepts.establishes (I := fun v => v.files (markerPath K.lockDir p.uid) ≠ .absent)
    hanswers h hmem (fun φ v v' _ he => ?_) fun φ v o r v' ha he hv => ?_
  · obtain ⟨-, -, -, rfl⟩ := he.2
    simp only [World.create, Function.update_self]
    exact created_ne_absent _
  · rcases prolog_marker ha he.2 with hsame | ⟨-, hmark⟩
    · rwa [hsame]
    · exact hmark

/-- A marker that is not created is left as it was. -/
theorem with_untouched (h : Runs (K.exec p) (prologWith K p j fuel).run w t r w')
    (hno : ¬ Creates (markerPath K.lockDir p.uid) t) :
    w'.files (markerPath K.lockDir p.uid) = w.files (markerPath K.lockDir p.uid) := by
  have hanswers := Setting.answered h
  refine prologWith_accepts.preserves
    (I := fun v => v.files (markerPath K.lockDir p.uid) = w.files (markerPath K.lockDir p.uid))
    hanswers h (fun φ v o r v' hmem ha he hv => ?_) rfl
  rcases prolog_marker ha he.2 with hsame | ⟨⟨flags, mode, fd, hc⟩, -⟩
  · exact hsame.trans hv
  · exact absurd ⟨flags, mode, fd, List.mem_singleton.mp hc ▸ hmem⟩ hno

/-- The lock is given up. -/
theorem with_unlocked (h : Runs (K.exec p) (prologWith K p j fuel).run w t r w')
    (hw : w.locks (lockPath K.lockDir p.uid) ≠ some p) : w'.locks (lockPath K.lockDir p.uid) ≠ some p := by
  rcases runs_withHelper.mp h with
    ⟨t₁, self, w₁, c, rb, w₂, t₂, rx, hinit, -, hexit, -, -⟩ | ⟨e, hinit, -⟩
  · have hlock : self.lockFd = some ⟨lockPath K.lockDir p.uid⟩ :=
      ((runs_construct hinit).2.1 self rfl).1.lock
    exact unlocked_exit hlock hexit
  · exact (runs_construct hinit).2.2 e rfl hw

/-- **The prolog is fail-closed.** A prolog of a managed user exits 0 only if
linger was reported off, the jobs were listed and the constraints applied, and
the marker was created after that; otherwise it leaves the marker as it was. It
gives up the lock either way, and whatever the start of the user manager is
answered it exits the same. -/
theorem prolog_fail_closed (hK : K.managed p.uid)
    (h : Runs (K.exec p) (Prolog.main K.X fuel K.paths (K.environ p.uid j)) w t status w')
    (hreleases : ∀ e ∈ t, releases e = true) : PrologFailClosed K p j fuel w t status w' := by
  rcases runs_main h with ⟨r, hrun, hstatus⟩ | ⟨rfl, rfl, rfl⟩
  swap
  · exact ⟨fun hs => (by cases hs), fun hs => (by cases hs), fun _ => rfl, id,
      fun before a b after ht => absurd ht (by simp)⟩
  have hzero : status = 0 ↔ r = .ok 0 := by
    rcases hstatus with rfl | ⟨⟨e, rfl⟩, rfl⟩ <;> simp
  have hcases := with_cases hK hrun hreleases
  refine ⟨fun hs => ?_, fun hs => ?_, fun hs => ?_, with_unlocked hrun, fun before a b after ht => ?_⟩
  · exact (hcases.resolve_right fun hr => hr.1 (hzero.mp hs)).2
  · obtain ⟨-, self, hh, -, -, hpub⟩ := hcases.resolve_right fun hr => hr.1 (hzero.mp hs)
    exact with_present hrun (hh.marker ▸ hpub.creates)
  · exact with_untouched hrun (hcases.resolve_left fun hr => hs (hzero.mpr hr.1)).2
  · have hignores : Ignores (.run [K.paths.systemctl, "start", serviceName p.uid] 30)
        (Prolog.main K.X fuel K.paths (K.environ p.uid j)) := ignores_main
    -- the text of the script is not needed any more, and costly to look at
    generalize Prolog.main K.X fuel K.paths (K.environ p.uid j) = x at h hignores ⊢
    subst ht
    exact Traces.replace b hignores h.traces

end Script

/-- On the small node the prolog of a managed user's first job exits 0. -/
theorem prolog_fail_closed_small : ∃ t w',
    Runs (Setting.small.exec ⟨1000, 7⟩)
      (Prolog.main .single 1 Setting.small.paths (Setting.small.environ 1000 1)) .empty t 0 w' ∧
    PrologFailClosed .small ⟨1000, 7⟩ 1 1 .empty t 0 w' := by
  obtain ⟨t, w', h, hreleases⟩ : ∃ t w', Runs (Setting.small.exec ⟨1000, 7⟩)
      (Prolog.main .single 1 Setting.small.paths (Setting.small.environ 1000 1)) .empty t 0 w' ∧
      t.all releases = true :=
    ⟨_, _, (Server.small.serves ⟨1000, 7⟩ _).runs (n := 50) Server.small_fits rfl, rfl⟩
  exact ⟨t, w', h, prolog_fail_closed (by decide) h (List.all_eq_true.mp hreleases)⟩

end FluxPam
