/-
# Teardown and the revert

`user_slice_teardown` is to revert the slice whatever becomes of the calls before
(`RevertReached`). It tolerates a stop that exits non-zero and keeps the
`RuntimeError` of an orphan cleanup for after the revert. A stop or a kill call
that times out, and a kill call that exits non-zero, raise past the revert; and a
revert that times out hides the error of the cleanup. Barring these (`Calm`) the
revert is always reached, and only then (`revert_iff`).
-/
import FluxPam.Escalation

namespace FluxPam

open Interaction Prog

/-! ### The deeds of the cleanup -/

/-- The deeds an orphan cleanup is made of. -/
def Deed.cleaning : Deed → Prop
  | .check => True
  | .time => True
  | .sleep _ => True
  | .kill _ => True
  | _ => False

section Cleanup

variable {self : PAMHelper} {signal : String} {timeout start interval : ℚ} {c : List Done}

theorem Waits.cleaning {b : Bool} (h : Waits timeout start interval c b) :
    ∀ e ∈ c, e.1.cleaning := by
  induction h with
  | expired _ => simp [Deed.cleaning]
  | empty _ => simp [Deed.cleaning]
  | again _ _ _ ih =>
    intro e he
    simp only [List.mem_cons] at he
    rcases he with rfl | rfl | rfl | he
    · trivial
    · trivial
    · trivial
    · exact ih e he

theorem Round.cleaning {r : Except Exn Bool} (h : Round self signal c r) :
    ∀ e ∈ c, e.1.cleaning := by
  cases h with
  | relative _ => exact fun e he => absurd he List.not_mem_nil
  | failed _ => simp [Deed.cleaning]
  | waited _ hw =>
    intro e he
    simp only [List.mem_cons] at he
    rcases he with rfl | rfl | he
    · trivial
    · trivial
    · exact hw.cleaning e he

theorem Cleanup.cleaning {r : Except Exn Unit} (h : Cleanup self c r) : ∀ e ∈ c, e.1.cleaning := by
  intro e he
  cases h with
  | clean =>
    obtain rfl := List.mem_singleton.mp he
    trivial
  | term _ hround _ =>
    rcases List.mem_cons.mp he with rfl | he
    · trivial
    · exact hround.cleaning e he
  | kill _ hround hround' _ =>
    simp only [List.mem_cons, List.mem_append] at he
    rcases he with rfl | he | rfl | he
    · trivial
    · exact hround.cleaning e he
    · trivial
    · exact hround'.cleaning e he
  | remain _ hround hround' =>
    simp only [List.mem_cons, List.mem_append, List.not_mem_nil, or_false] at he
    rcases he with rfl | he | rfl | he | rfl
    · trivial
    · exact hround.cleaning e he
    · trivial
    · exact hround'.cleaning e he
    · trivial

/-- In a round that waits the kill call succeeded. -/
theorem Round.killsSucceed {b : Bool} (h : Round self signal c (.ok b)) : KillsSucceed c := by
  cases h with
  | @waited out start c _ _ hw =>
    intro signal' x hx
    simp only [List.mem_cons, Sigma.mk.injEq, reduceCtorEq, false_and, false_or] at hx
    rcases hx with ⟨hd, hx⟩ | hx
    · cases hd
      cases hx
      exact ⟨out, rfl⟩
    · have hsig : signal' ∈ FluxPam.signals c := List.mem_filterMap.mpr ⟨_, hx, rfl⟩
      rw [hw.signals] at hsig
      exact absurd hsig List.not_mem_nil

theorem KillsSucceed.append {c' : List Done} (h : KillsSucceed c) (h' : KillsSucceed c') :
    KillsSucceed (c ++ c') := by
  intro signal x hx
  rcases List.mem_append.mp hx with hx | hx
  · exact h signal x hx
  · exact h' signal x hx

theorem KillsSucceed.check (h : KillsSucceed c) (r : Except Exn (List String)) :
    KillsSucceed (⟨.check, r⟩ :: c) := by
  intro signal x hx
  rcases List.mem_cons.mp hx with hx | hx
  · cases hx
  · exact h signal x hx

theorem killsSucceed_nil : KillsSucceed [] := fun _ _ h => absurd h List.not_mem_nil

/-- A cleanup that returns, or reports the processes that remain, has sent its
signals. -/
theorem Cleanup.killsSucceed {r : Except Exn Unit} (h : Cleanup self c r)
    (hr : r = .ok () ∨ ∃ msg, r = .error (.runtimeError msg)) : KillsSucceed c := by
  have hround : ∀ {signal c} {r : Except Exn Bool}, Round self signal c r →
      (r.map fun _ => ()) = .ok () ∨ (∃ msg, (r.map fun _ => ()) = .error (.runtimeError msg)) →
        KillsSucceed c := by
    intro signal c r h hr
    cases h with
    | relative _ => exact killsSucceed_nil
    | @failed e _ => cases e <;> rcases hr with hr | ⟨msg, hr⟩ <;> cases hr
    | waited habs hw => exact Round.killsSucceed (.waited habs hw)
  cases h with
  | clean => exact killsSucceed_nil.check _
  | term _ h _ => exact (hround h hr).check _
  | kill _ h h' _ => exact (h.killsSucceed.append ((hround h' hr).check _)).check _
  | remain _ h h' =>
    exact (h.killsSucceed.append ((h'.killsSucceed.append (killsSucceed_nil.check _)).check _)).check _

/-- How a cleanup whose kill calls succeed ends: it reports processes exactly
when both waits timed out. -/
theorem Cleanup.outcome {r : Except Exn Unit} (h : Cleanup self c r) (hk : KillsSucceed c)
    (habs : isabs self.systemctl = true) :
    (r = .ok () ∧ (lateChecks self.killGraceTime (none, false) c).length < 2) ∨
      (∃ msg, r = .error (.runtimeError msg)) ∧
        (lateChecks self.killGraceTime (none, false) c).length = 2 := by
  have hsecond : ∀ {signal c} {r : Except Exn Bool}, Round self signal c r → KillsSucceed c →
      r ≠ .ok false → r = .ok true := by
    intro signal c r h hk hr
    rcases h.of_succeed hk with ⟨b, rfl⟩ | ⟨hrel, -⟩
    · cases b with
      | true => rfl
      | false => exact absurd rfl hr
    · rw [habs] at hrel
      cases hrel
  cases h with
  | clean => exact .inl ⟨rfl, Nat.zero_lt_succ 1⟩
  | @term orphans c r _ hround hr =>
    obtain rfl := hsecond hround (hk.sublist fun e he => by simp [he]) hr
    obtain ⟨start, hlate⟩ := hround.lateChecks (none, false) []
    rw [List.append_nil] at hlate
    have hlen : lateChecks self.killGraceTime (none, false) (⟨.check, .ok orphans⟩ :: c) = [] := hlate
    rw [hlen]
    exact .inl ⟨rfl, Nat.zero_lt_succ 1⟩
  | @kill orphans c remaining c' r _ hround hround' hr =>
    obtain rfl := hsecond hround' (hk.sublist fun e he => by simp [he]) hr
    obtain ⟨start, hlate⟩ := hround.late_first orphans remaining c'
    obtain ⟨start', hlate'⟩ := hround'.lateChecks (some start, true) []
    rw [List.append_nil] at hlate'
    rw [hlate, hlate']
    exact .inl ⟨rfl, Nat.lt_succ_self 1⟩
  | @remain orphans c remaining c' finalOrphans _ hround hround' =>
    obtain ⟨start, hlate⟩ :=
      hround.late_first orphans remaining (c' ++ [⟨.check, .ok finalOrphans⟩])
    obtain ⟨start', hlate'⟩ :=
      hround'.lateChecks (some start, true) [⟨.check, .ok finalOrphans⟩]
    rw [hlate, hlate']
    exact .inr ⟨⟨_, rfl⟩, rfl⟩

end Cleanup

/-! ### The deeds of the teardown -/

/-- A call of `systemctl` that succeeds or exits non-zero is tolerated. -/
def Tolerated (x : Except RunError String) : Prop :=
  ∀ e, x = .error e → ∃ code stderr, e = .calledProcess code stderr

/-- What the orphan cleanup does, when it is configured. -/
def Orphans (self : PAMHelper) (fuel : ℕ) (c : List Done) (r : Except Exn Unit) : Prop :=
  if self.killUserSlice.truthy then
    Cleanup self c r ∧ Traces (Deeds.cleanupUserSlice self fuel).run c r
  else c = [] ∧ r = .ok ()

theorem orphans_killing {self : PAMHelper} {fuel : ℕ} {c : List Done} {r : Except Exn Unit}
    (h : self.killUserSlice.truthy = true) : Orphans self fuel c r ↔
      Cleanup self c r ∧ Traces (Deeds.cleanupUserSlice self fuel).run c r := by
  unfold Orphans
  rw [if_pos h]

theorem orphans_not_killing {self : PAMHelper} {fuel : ℕ} {c : List Done} {r : Except Exn Unit}
    (h : ¬ self.killUserSlice.truthy = true) : Orphans self fuel c r ↔ c = [] ∧ r = .ok () := by
  unfold Orphans
  rw [if_neg h]

/-- The deeds of `user_slice_teardown` after the marker is cleared, and its
outcome. -/
inductive Teardown (self : PAMHelper) (fuel : ℕ) : List Done → Except Exn Unit → Prop where
  | relative {r} : isabs self.systemctl = false → Teardown self fuel [] r
  | stopRaised {x r} : isabs self.systemctl = true → ¬ Tolerated x →
      Teardown self fuel [⟨.stop, x⟩] r
  | cleanupRaised {x c e} : isabs self.systemctl = true → Tolerated x →
      Orphans self fuel c (.error e) → (∀ msg, e ≠ .runtimeError msg) →
      Teardown self fuel (⟨.stop, x⟩ :: c) (.error e)
  | revertRaised {x c r e} : isabs self.systemctl = true → Tolerated x →
      Orphans self fuel c r → (r = .ok () ∨ ∃ msg, r = .error (.runtimeError msg)) →
      ¬ Tolerated (.error e) →
      Teardown self fuel (⟨.stop, x⟩ :: (c ++ [⟨.revert, .error e⟩])) (.error e.toExn)
  | reverted {x c r y} : isabs self.systemctl = true → Tolerated x →
      Orphans self fuel c r → (r = .ok () ∨ ∃ msg, r = .error (.runtimeError msg)) →
      Tolerated y → Teardown self fuel (⟨.stop, x⟩ :: (c ++ [⟨.revert, y⟩])) r

section Runs

variable {self : PAMHelper} {fuel : ℕ} {σ β : Type} {exec : σ → (d : Deed) → d.Res → σ → Prop}
  {s s' : σ} {c : List Done} {r : Except Exn Unit}

theorem tolerated_ok (out : String) : Tolerated (.ok out) := fun _ h => by cases h

theorem tolerated_calledProcess (code : ℤ) (stderr : String) :
    Tolerated (.error (.calledProcess code stderr)) := by
  intro e he
  cases he
  exact ⟨code, stderr, rfl⟩

theorem not_tolerated {e : RunError} (h : ∀ code stderr, e ≠ .calledProcess code stderr) :
    ¬ Tolerated (.error e) := by
  intro ht
  obtain ⟨code, stderr, he⟩ := ht e rfl
  exact h code stderr he

/-- A call whose non-zero exit is tolerated. -/
theorem runs_tolerating {x : Prog Deed Deed.Res (Except RunError String)}
    (h : Runs exec (Deeds.tolerating (raising RunError.toExn x)).run s c r s') :
    ∃ a, Runs exec x s c a s' ∧ (Tolerated a ∧ r = .ok () ∨
      ∃ e, a = .error e ∧ ¬ Tolerated a ∧ r = .error e.toExn) := by
  unfold Deeds.tolerating at h
  obtain ⟨c₁, a, s₁, c₂, hcall, hr, rfl⟩ := runs_attemptBind.mp h
  obtain ⟨a, hx, rfl⟩ := runs_raised.mp hcall
  refine ⟨a, ?_⟩
  cases a with
  | ok out =>
    obtain ⟨rfl, rfl, rfl⟩ := hr
    rw [List.append_nil]
    exact ⟨hx, .inl ⟨tolerated_ok out, rfl⟩⟩
  | error e =>
    cases e with
    | calledProcess code stderr =>
      obtain ⟨rfl, rfl, rfl⟩ := hr
      rw [List.append_nil]
      exact ⟨hx, .inl ⟨tolerated_calledProcess code stderr, rfl⟩⟩
    | timeout =>
      obtain ⟨rfl, rfl, rfl⟩ := hr
      rw [List.append_nil]
      exact ⟨hx, .inr ⟨.timeout, rfl, not_tolerated nofun, rfl⟩⟩
    | os e =>
      obtain ⟨rfl, rfl, rfl⟩ := hr
      rw [List.append_nil]
      exact ⟨hx, .inr ⟨.os e, rfl, not_tolerated nofun, rfl⟩⟩

/-- The orphan cleanup keeps the error of a cleanup that failed for later. -/
theorem runs_cleanupError (hA : Answering exec) {r : Except Exn (Option Exn)}
    (h : Runs exec (Deeds.cleanupError self fuel).run s c r s') :
    (Orphans self fuel c (.ok ()) ∧ r = .ok none) ∨
      (∃ msg, Orphans self fuel c (.error (.runtimeError msg)) ∧
        r = .ok (some (.runtimeError msg))) ∨
      ∃ e, Orphans self fuel c (.error e) ∧ (∀ msg, e ≠ .runtimeError msg) ∧ r = .error e := by
  unfold Deeds.cleanupError at h
  by_cases hkill : self.killUserSlice.truthy = true
  · rw [if_pos hkill] at h
    obtain ⟨c₁, a, s₁, c₂, hclean, hr, rfl⟩ := runs_attemptBind.mp h
    have hdone : Orphans self fuel c₁ a :=
      (orphans_killing hkill).mpr ⟨cleanup_of_runs hA hclean, hclean.traces⟩
    cases a with
    | ok u =>
      obtain ⟨rfl, rfl, rfl⟩ := hr
      rw [List.append_nil]
      exact .inl ⟨hdone, rfl⟩
    | error e =>
      by_cases hmsg : ∃ msg, e = .runtimeError msg
      · obtain ⟨msg, rfl⟩ := hmsg
        obtain ⟨rfl, rfl, rfl⟩ := hr
        rw [List.append_nil]
        exact .inr (.inl ⟨msg, hdone, rfl⟩)
      · have hne : ∀ msg, e ≠ .runtimeError msg := fun msg h => hmsg ⟨msg, h⟩
        have hthrow : c₂ = [] ∧ r = .error e := by
          cases e with
          | runtimeError msg => exact absurd rfl (hne msg)
          | _ => exact ⟨hr.1, hr.2.1⟩
        obtain ⟨rfl, rfl⟩ := hthrow
        rw [List.append_nil]
        exact .inr (.inr ⟨e, hdone, hne, rfl⟩)
  · rw [if_neg hkill] at h
    obtain ⟨rfl, rfl, rfl⟩ := h
    exact .inl ⟨(orphans_not_killing hkill).mpr ⟨rfl, rfl⟩, rfl⟩

/-- **What a run of the teardown does** once the marker is cleared. -/
theorem teardown_of_runs (hA : Answering exec)
    (h : Runs exec (Deeds.stopCleanRevert self fuel).run s c r s') : Teardown self fuel c r := by
  unfold Deeds.stopCleanRevert Deeds.systemctl at h
  by_cases habs : isabs self.systemctl = true
  swap
  · rw [if_neg habs] at h
    obtain ⟨rfl, rfl, rfl⟩ := h
    exact .relative (by simpa using habs)
  rw [if_pos habs] at h
  rcases runs_exceptBind.mp h with ⟨c₁, _, s₁, c₂, hstop, hclean, rfl⟩ | ⟨e, hstop, rfl⟩
  · obtain ⟨x, hx, htol⟩ := runs_tolerating hstop
    obtain ⟨-, rfl⟩ := runs_perform.mp hx
    have htol : Tolerated x := by
      rcases htol with ⟨htol, -⟩ | ⟨e, -, -, herr⟩
      · exact htol
      · cases herr
    rcases runs_exceptBind.mp hclean with ⟨c₃, kept, s₂, c₄, horph, hrev, rfl⟩ | ⟨e, horph, rfl⟩
    · obtain ⟨rc, hdone, hrc, hraise⟩ : ∃ rc, Orphans self fuel c₃ rc ∧
          (rc = .ok () ∨ ∃ msg, rc = .error (.runtimeError msg)) ∧
          ∀ {s c r s'}, Runs exec (Deeds.rethrow kept).run s c r s' → c = [] ∧ r = rc := by
        rcases runs_cleanupError hA horph with ⟨hdone, hk⟩ | ⟨msg, hdone, hk⟩ | ⟨e, -, -, hk⟩
        · cases hk
          exact ⟨_, hdone, .inl rfl, fun h => ⟨h.1, h.2.1⟩⟩
        · cases hk
          exact ⟨_, hdone, .inr ⟨msg, rfl⟩, fun h => ⟨h.1, h.2.1⟩⟩
        · cases hk
      rw [if_pos habs] at hrev
      rcases runs_exceptBind.mp hrev with ⟨c₅, _, s₃, c₆, hcall, hend, rfl⟩ | ⟨e, hcall, rfl⟩
      · obtain ⟨y, hy, hytol⟩ := runs_tolerating hcall
        obtain ⟨-, rfl⟩ := runs_perform.mp hy
        obtain ⟨rfl, rfl⟩ := hraise hend
        rcases hytol with ⟨hytol, -⟩ | ⟨e, -, -, herr⟩
        · rw [List.append_nil]
          exact .reverted habs htol hdone hrc hytol
        · cases herr
      · obtain ⟨y, hy, hytol⟩ := runs_tolerating hcall
        obtain ⟨-, rfl⟩ := runs_perform.mp hy
        rcases hytol with ⟨-, herr⟩ | ⟨e', rfl, hnot, herr⟩
        · cases herr
        · cases herr
          exact .revertRaised habs htol hdone hrc hnot
    · rcases runs_cleanupError hA horph with ⟨-, herr⟩ | ⟨msg, -, herr⟩ | ⟨e', horph, hne, herr⟩
      · cases herr
      · cases herr
      · cases herr
        exact .cleanupRaised habs htol horph hne
  · obtain ⟨x, hx, htol⟩ := runs_tolerating hstop
    obtain ⟨-, rfl⟩ := runs_perform.mp hx
    rcases htol with ⟨-, herr⟩ | ⟨e', rfl, hnot, -⟩
    · cases herr
    · exact .stopRaised habs hnot

end Runs

/-! ### The revert -/

/-- The revert is attempted once, as the last call, after the stop and the
orphan cleanup, and an error of the cleanup is what is raised. -/
def RevertReached (self : PAMHelper) (fuel : ℕ) (t : List Event) (r : Except Exn Unit) : Prop :=
  ∃ (cleared : Except Errno Unit) (stopped : Except RunError String) (tc : List Event)
    (rc : Except Exn Unit) (reverted : Except RunError String),
    t = ⟨.unlink self.markerPath, cleared⟩ :: ⟨.run self.stopCommand 30, stopped⟩ ::
      (tc ++ [⟨.run self.revertCommand 30, reverted⟩]) ∧
    (∀ e ∈ tc, e.1 ≠ .run self.revertCommand 30) ∧
    (if self.killUserSlice.truthy then Traces (self.cleanupUserSlice fuel).run tc rc
      else tc = [] ∧ rc = .ok ()) ∧
    ∀ e, rc = .error e → r = .error e

/-- The calls end in none of the ways that lead past the revert or hide the
error of the cleanup. Two late checks are made when the wait after SIGTERM and
the one after SIGKILL both run out of time. -/
structure Calm (helper : PAMHelper) (c : List Done) : Prop where
  absolute : isabs helper.systemctl = true
  stopped : ∀ x, ⟨.stop, x⟩ ∈ c → Tolerated x
  killed : KillsSucceed c
  reverted : (lateChecks helper.killGraceTime (none, false) c).length = 2 →
    ∀ x, ⟨.revert, x⟩ ∈ c → Tolerated x

section Revert

variable {self : PAMHelper} {fuel : ℕ} {t : List Event} {c : List Done} {r rc : Except Exn Unit}
  {x y : Except RunError String}

theorem lateChecks_append_revert {grace : ℚ} : ∀ {clock : Option ℚ × Bool} {c : List Done},
    lateChecks grace clock (c ++ [⟨.revert, y⟩]) = lateChecks grace clock c
  | (_, late), [] => by cases late <;> rfl
  | clock, e :: c => by
    rw [List.cons_append, lateChecks, lateChecks, lateChecks_append_revert]

theorem lateChecks_between {grace : ℚ} :
    lateChecks grace (none, false) (⟨.stop, x⟩ :: (c ++ [⟨.revert, y⟩])) =
      lateChecks grace (none, false) c :=
  lateChecks_append_revert

theorem Orphans.cleaning (h : Orphans self fuel c rc) : ∀ e ∈ c, e.1.cleaning := by
  by_cases hkill : self.killUserSlice.truthy = true
  · exact ((orphans_killing hkill).mp h).1.cleaning
  · obtain ⟨rfl, -⟩ := (orphans_not_killing hkill).mp h
    exact fun e he => absurd he List.not_mem_nil

theorem Orphans.killsSucceed (h : Orphans self fuel c rc)
    (hr : rc = .ok () ∨ ∃ msg, rc = .error (.runtimeError msg)) : KillsSucceed c := by
  by_cases hkill : self.killUserSlice.truthy = true
  · exact ((orphans_killing hkill).mp h).1.killsSucceed hr
  · obtain ⟨rfl, -⟩ := (orphans_not_killing hkill).mp h
    exact killsSucceed_nil

/-- A cleanup whose kill calls succeed fails exactly when both waits time out. -/
theorem Orphans.outcome (h : Orphans self fuel c rc) (hk : KillsSucceed c)
    (habs : isabs self.systemctl = true) :
    (rc = .ok () ∧ (lateChecks self.killGraceTime (none, false) c).length < 2) ∨
      (∃ msg, rc = .error (.runtimeError msg)) ∧
        (lateChecks self.killGraceTime (none, false) c).length = 2 := by
  by_cases hkill : self.killUserSlice.truthy = true
  · exact ((orphans_killing hkill).mp h).1.outcome hk habs
  · obtain ⟨rfl, rfl⟩ := (orphans_not_killing hkill).mp h
    exact .inl ⟨rfl, Nat.zero_lt_succ 1⟩

/-- The code of the cleanup does what its deeds say. -/
theorem Orphans.traces (h : Orphans self fuel c rc) (ht : Spells self.deed t c) :
    if self.killUserSlice.truthy then Traces (self.cleanupUserSlice fuel).run t rc
      else t = [] ∧ rc = .ok () := by
  by_cases hkill : self.killUserSlice.truthy = true
  · rw [if_pos hkill, ← expand_cleanupUserSlice]
    exact ((orphans_killing hkill).mp h).2.expand ht
  · obtain ⟨rfl, rfl⟩ := (orphans_not_killing hkill).mp h
    rw [if_neg hkill]
    cases ht
    exact ⟨rfl, rfl⟩

/-- No part of a cleanup is the revert. -/
theorem revert_notMem (h : Spells self.deed t c) (hc : ∀ e ∈ c, e.1.cleaning) :
    ∀ e ∈ t, e.1 ≠ .run self.revertCommand 30 := by
  induction h with
  | nil => exact fun e he => absurd he List.not_mem_nil
  | @cons d r t t' c ht _ ih =>
    have hrest := ih fun e he => hc e (List.mem_cons_of_mem _ he)
    have hd : d.cleaning := hc ⟨d, r⟩ List.mem_cons_self
    have hfirst : ∀ e ∈ t, e.1 ≠ .run self.revertCommand 30 := by
      cases d with
      | check =>
        have hlook := (Traces.keeps keeps_checkOrphanProcesses ht).1
        intro e he hrev
        have := hlook e he
        rw [hrev] at this
        exact this
      | time =>
        rw [traces_perform.mp ht]
        simp
      | sleep d =>
        rw [traces_perform.mp ht]
        simp
      | kill signal =>
        rw [traces_perform.mp ht]
        simp [PAMHelper.killCommand, PAMHelper.revertCommand]
      | clear => exact hd.elim
      | stop => exact hd.elim
      | revert => exact hd.elim
      | stuck => exact hd.elim
    intro e he
    rcases List.mem_append.mp he with he | he
    · exact hfirst e he
    · exact hrest e he

/-- The deeds between the stop and the revert, spelled out. -/
theorem spells_between (h : Spells self.deed t (⟨.stop, x⟩ :: (c ++ [⟨.revert, y⟩]))) :
    ∃ tc, Spells self.deed tc c ∧ t = ⟨.run self.stopCommand 30, x⟩ ::
      (tc ++ [⟨.run self.revertCommand 30, y⟩]) := by
  obtain ⟨t₁, t₂, rfl, hstop, h⟩ := h.uncons
  obtain ⟨tc, t₃, rfl, hc, h⟩ := h.split
  obtain ⟨t₄, t₅, rfl, hrev, h⟩ := h.uncons
  cases h
  rw [traces_perform.mp hstop, traces_perform.mp hrev]
  exact ⟨tc, hc, rfl⟩

/-- What is asked of the calls, when the revert was attempted. -/
theorem calm_iff (habs : isabs self.systemctl = true) (hx : Tolerated x)
    (h : Orphans self fuel c rc) (hrc : rc = .ok () ∨ ∃ msg, rc = .error (.runtimeError msg)) :
    Calm self (⟨.stop, x⟩ :: (c ++ [⟨.revert, y⟩])) ↔
      ∀ msg, rc = .error (.runtimeError msg) → Tolerated y := by
  have hkills := h.killsSucceed hrc
  have hlen := h.outcome hkills habs
  constructor
  · rintro hcalm msg rfl
    rcases hlen with ⟨herr, -⟩ | ⟨-, htwo⟩
    · cases herr
    · have htwo' : (lateChecks self.killGraceTime (none, false)
          (⟨.stop, x⟩ :: (c ++ [⟨.revert, y⟩]))).length = 2 := by
        rw [lateChecks_between]
        exact htwo
      exact hcalm.reverted htwo' y (by simp)
  · intro hy
    refine ⟨habs, ?_, ?_, ?_⟩
    · intro x' hx'
      simp only [List.mem_cons, List.mem_append, List.not_mem_nil, or_false, Sigma.mk.injEq,
        reduceCtorEq, false_and, true_and] at hx'
      rcases hx' with hx' | hx'
      · cases hx'
        exact hx
      · exact (h.cleaning _ hx').elim
    · intro signal out hout
      simp only [List.mem_cons, List.mem_append, List.not_mem_nil, or_false, Sigma.mk.injEq,
        reduceCtorEq, false_and, false_or] at hout
      exact hkills signal out hout
    · intro htwo y' hy'
      rw [lateChecks_between] at htwo
      simp only [List.mem_cons, List.mem_append, List.not_mem_nil, or_false, Sigma.mk.injEq,
        reduceCtorEq, false_and, true_and, false_or] at hy'
      rcases hy' with hy' | hy'
      · exact (h.cleaning _ hy').elim
      · cases hy'
        rcases hlen with ⟨-, hlt⟩ | ⟨⟨msg, hmsg⟩, -⟩
        · omega
        · exact hy msg hmsg

/-- The revert was attempted: what is left to ask is that it did not hide the
error of the cleanup. -/
theorem reached_iff {cleared : Except Errno Unit} (h : Orphans self fuel c rc)
    (ht : Spells self.deed t (⟨.stop, x⟩ :: (c ++ [⟨.revert, y⟩]))) :
    RevertReached self fuel (⟨.unlink self.markerPath, cleared⟩ :: t) r ↔
      ∀ e, rc = .error e → r = .error e := by
  obtain ⟨tc, hspells, rfl⟩ := spells_between ht
  have hdid := h.traces hspells
  constructor
  · rintro ⟨_, stopped, tc', rc', reverted, heq, -, hdid', hraise⟩
    simp only [List.cons.injEq, Sigma.mk.injEq, heq_eq_eq, true_and] at heq
    obtain ⟨-, -, heq⟩ := heq
    obtain ⟨rfl, -⟩ := List.append_inj_left' heq rfl
    have : rc = rc' := by
      by_cases hkill : self.killUserSlice.truthy = true
      · rw [if_pos hkill] at hdid hdid'
        exact hdid.det hdid'
      · rw [if_neg hkill] at hdid hdid'
        rw [hdid.2, hdid'.2]
    rw [this]
    exact hraise
  · intro hraise
    exact ⟨cleared, x, tc, rc, y, rfl, revert_notMem hspells h.cleaning, hdid, hraise⟩

/-- The error of a call that is not tolerated is no `RuntimeError`. -/
theorem toExn_ne_runtimeError (e : RunError) (msg : String) : e.toExn ≠ .runtimeError msg := by
  cases e <;> simp [RunError.toExn, Errno.toExn]

/-- The teardown, after the marker is cleared. -/
theorem Teardown.reached_iff {cleared : Except Errno Unit} (h : Teardown self fuel c r)
    (ht : Spells self.deed t c) :
    RevertReached self fuel (⟨.unlink self.markerPath, cleared⟩ :: t) r ↔ Calm self c := by
  have hends : ∀ {t'}, t = t' → (∀ e ∈ t', e.1 ≠ .run self.revertCommand 30) →
      ¬ RevertReached self fuel (⟨.unlink self.markerPath, cleared⟩ :: t) r := by
    rintro t' rfl hnot ⟨_, stopped, tc, _, reverted, heq, -⟩
    obtain ⟨-, htail⟩ := List.cons.inj heq
    exact hnot ⟨.run self.revertCommand 30, reverted⟩ (by rw [htail]; simp) rfl
  cases h with
  | relative hrel =>
    cases ht
    refine iff_of_false (hends rfl fun e he => absurd he List.not_mem_nil) fun hcalm => ?_
    rw [hcalm.absolute] at hrel
    cases hrel
  | @stopRaised x _ _ hnot =>
    obtain ⟨t₁, t₂, rfl, hstop, hnil⟩ := ht.uncons
    cases hnil
    obtain rfl := traces_perform.mp hstop
    refine iff_of_false (hends rfl ?_) fun hcalm => hnot (hcalm.stopped x List.mem_cons_self)
    simp [PAMHelper.stopCommand, PAMHelper.revertCommand]
  | @cleanupRaised x c e habs hx horph hne =>
    obtain ⟨t₁, tc, rfl, hstop, hspells⟩ := ht.uncons
    obtain rfl := traces_perform.mp hstop
    refine iff_of_false (hends rfl ?_) fun hcalm => ?_
    · refine List.forall_mem_cons.mpr ⟨?_, revert_notMem hspells horph.cleaning⟩
      simp [PAMHelper.stopCommand, PAMHelper.revertCommand]
    · have hkills := hcalm.killed.sublist fun e he => List.mem_cons_of_mem _ he
      rcases horph.outcome hkills habs with ⟨herr, -⟩ | ⟨⟨msg, herr⟩, -⟩
      · cases herr
      · exact hne msg (Except.error.inj herr)
  | revertRaised habs hx horph hrc hnot =>
    rw [FluxPam.reached_iff horph ht, calm_iff habs hx horph hrc]
    constructor
    · rintro hraise msg rfl
      have := hraise _ rfl
      exact absurd (Except.error.inj this) (toExn_ne_runtimeError _ msg)
    · intro htol e he
      rcases hrc with rfl | ⟨msg, rfl⟩
      · cases he
      · exact absurd (htol msg rfl) hnot
  | reverted habs hx horph hrc hy =>
    rw [FluxPam.reached_iff horph ht, calm_iff habs hx horph hrc]
    exact iff_of_true (fun e he => he) fun _ _ => hy

/-- **Teardown reaches the revert.** Whatever the calls after the cleared marker
and the orphan checks answer, the teardown attempts the revert once, after the
stop and the orphan cleanup, and reports the error of the cleanup, exactly when
the calls are calm. -/
theorem revert_iff {σ : Type} {exec : σ → (o : Op) → Res o → σ → Prop} {w w' : σ}
    (hstuck : ∀ w r w', ¬ exec w .stuck r w')
    (h : Runs exec (self.userSliceTeardown fuel).run w t r w') (ht : Spells self.deed t c)
    (hclear : ∀ x, ⟨.clear, x⟩ ∈ c → x = .ok () ∨ x = .error .ENOENT) :
    RevertReached self fuel t r ↔ Calm self c := by
  obtain ⟨c', hruns, ht'⟩ := runs_deeds (expand_userSliceTeardown self fuel) h
  obtain rfl : c = c' := deeds_unique ht ht'
  obtain ⟨x, s₁, c', -, rfl, hrest⟩ := hruns
  have hteardown : Teardown self fuel c' r := by
    rcases hclear x List.mem_cons_self with rfl | rfl
    · exact teardown_of_runs (answering hstuck) hrest
    · exact teardown_of_runs (answering hstuck) hrest
  obtain ⟨t₁, t', rfl, hunlink, hspells⟩ := ht.uncons
  obtain rfl := traces_perform.mp hunlink
  have hcalm : Calm self (⟨.clear, x⟩ :: c') ↔ Calm self c' := by
    constructor
    · intro hc
      exact ⟨hc.absolute, fun y hy => hc.stopped y (List.mem_cons_of_mem _ hy),
        hc.killed.sublist fun e he => List.mem_cons_of_mem _ he,
        fun htwo y hy => hc.reverted htwo y (List.mem_cons_of_mem _ hy)⟩
    · intro hc
      refine ⟨hc.absolute, fun y hy => hc.stopped y ?_, fun signal y hy => hc.killed signal y ?_,
        fun htwo y hy => hc.reverted htwo y ?_⟩
      all_goals simpa using hy
  rw [hcalm]
  exact hteardown.reached_iff hspells

end Revert

/-- The manager exits non-zero, and no process is left. -/
def calmDeeds : List Done :=
  [⟨.clear, .ok ()⟩, ⟨.stop, .error (.calledProcess 1 "")⟩, ⟨.check, .ok []⟩, ⟨.revert, .ok ""⟩]

/-- The stop takes longer than its 30 seconds. -/
def stopHangs : List Done := [⟨.clear, .ok ()⟩, ⟨.stop, .error .timeout⟩]

theorem revert_iff_brief : ∃ t, Runs anything (PAMHelper.brief.userSliceTeardown 1).run () t (.ok ()) () ∧
    (RevertReached .brief 1 t (.ok ()) ↔ Calm .brief calmDeeds) := by
  obtain ⟨t, hruns, hspells⟩ := anything_runs (c := calmDeeds) (r := .ok ())
    (expand_userSliceTeardown .brief 1) (traces_of_script (n := 10) (by with_unfolding_all rfl))
    (by simp [calmDeeds])
  exact ⟨t, hruns, revert_iff (fun _ _ _ h => h rfl) hruns hspells (by simp [calmDeeds])⟩

/-- The slice keeps its constraints when the stop times out. -/
theorem revert_missed : ¬ ∀ (self : PAMHelper) (σ : Type)
    (exec : σ → (o : Op) → Res o → σ → Prop) (fuel : ℕ) (w w' : σ) (t : List Event) (c : List Done)
    (r : Except Exn Unit), isabs self.systemctl = true → (∀ w r w', ¬ exec w .stuck r w') →
      Runs exec (self.userSliceTeardown fuel).run w t r w' → Spells self.deed t c →
        (∀ x, ⟨.clear, x⟩ ∈ c → x = .ok () ∨ x = .error .ENOENT) →
          (∀ e x, x = .error (.os e) → ⟨.stop, x⟩ ∉ c ∧ ⟨.revert, x⟩ ∉ c ∧ ∀ s, ⟨.kill s, x⟩ ∉ c) →
            RevertReached self fuel t r := by
  intro h
  obtain ⟨t, hruns, hspells⟩ := anything_runs (c := stopHangs) (r := .error .timeoutExpired)
    (expand_userSliceTeardown .brief 1) (traces_of_script (n := 10) (by with_unfolding_all rfl))
    (by simp [stopHangs])
  have hreached := h .brief Unit anything 1 () () t stopHangs (.error .timeoutExpired) (by decide)
    (fun _ _ _ h => h rfl) hruns hspells (by simp [stopHangs]) (by rintro e x rfl; simp [stopHangs])
  obtain ⟨t₁, t₂, rfl, hclear, hrest⟩ := hspells.uncons
  obtain ⟨t₃, t₄, rfl, hstop, hnil⟩ := hrest.uncons
  obtain rfl := traces_perform.mp hclear
  obtain rfl := traces_perform.mp hstop
  cases hnil
  obtain ⟨_, _, tc, _, _, heq, -⟩ := hreached
  have hlen := congrArg List.length heq
  simp at hlen

end FluxPam
