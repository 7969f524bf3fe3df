/-
# Kill escalation

What a run of `_cleanup_user_slice` does (`Cleanup`): an orphan check, then two
rounds of a signal and a wait, each wait polling until the slice is empty or
the grace time has passed (`Waits`). After a wait that timed out the code checks
again, but only to log the answer or to word its error: SIGKILL is sent and the
error raised even if that check found the slice empty. So every action rests on
the last check made exactly when no such late check comes back empty
(`acts_iff`).
-/
import FluxPam.Deeds
import FluxPam.Update

namespace FluxPam

open Interaction Prog

/-! ### What a run does -/

/-- The deeds of a wait from the loop test on, with the next sleep interval, and
what it returns. -/
inductive Waits (timeout start : ℚ) : ℚ → List Done → Bool → Prop where
  | expired {interval q} : timeout ≤ q - start → Waits timeout start interval [⟨.time, q⟩] false
  | empty {interval q} : q - start < timeout →
      Waits timeout start interval [⟨.time, q⟩, ⟨.check, .ok []⟩] true
  | again {interval q orphans c b} : q - start < timeout → orphans ≠ [] →
      Waits timeout start (min (interval * (3 / 2)) (1 / 2)) c b →
      Waits timeout start interval
        (⟨.time, q⟩ :: ⟨.check, .ok orphans⟩ :: ⟨.sleep interval, ()⟩ :: c) b

/-- One round of the escalation: a signal is sent, then a wait. -/
inductive Round (self : PAMHelper) (signal : String) : List Done → Except Exn Bool → Prop where
  | relative : isabs self.systemctl = false → Round self signal []
      (.error (.valueError ("Command must use absolute path: " ++ self.systemctl)))
  | failed {e} : isabs self.systemctl = true →
      Round self signal [⟨.kill signal, .error e⟩] (.error e.toExn)
  | waited {out start c b} : isabs self.systemctl = true →
      Waits self.killGraceTime start (1 / 100) c b →
      Round self signal (⟨.kill signal, .ok out⟩ :: ⟨.time, start⟩ :: c) (.ok b)

/-- The deeds of `_cleanup_user_slice` and its outcome. -/
inductive Cleanup (self : PAMHelper) : List Done → Except Exn Unit → Prop where
  | clean : Cleanup self [⟨.check, .ok []⟩] (.ok ())
  | term {orphans c r} : orphans ≠ [] → Round self "SIGTERM" c r → r ≠ .ok false →
      Cleanup self (⟨.check, .ok orphans⟩ :: c) (r.map fun _ => ())
  | kill {orphans c remaining c' r} : orphans ≠ [] → Round self "SIGTERM" c (.ok false) →
      Round self "SIGKILL" c' r → r ≠ .ok false →
      Cleanup self (⟨.check, .ok orphans⟩ :: (c ++ ⟨.check, .ok remaining⟩ :: c')) (r.map fun _ => ())
  | remain {orphans c remaining c' finalOrphans} : orphans ≠ [] →
      Round self "SIGTERM" c (.ok false) → Round self "SIGKILL" c' (.ok false) →
      Cleanup self (⟨.check, .ok orphans⟩ :: (c ++ ⟨.check, .ok remaining⟩ ::
        (c' ++ [⟨.check, .ok finalOrphans⟩])))
        (.error (.runtimeError (PAMHelper.remainMsg self finalOrphans)))

section Runs

variable {self : PAMHelper} {σ α β : Type} {exec : σ → (d : Deed) → d.Res → σ → Prop} {s s' : σ}
  {c : List Done}

theorem runs_time {f : ℚ → Deeds β} {r : Except Exn β} :
    Runs exec (Deeds.time >>= f).run s c r s' ↔
      ∃ q s₁ c', exec s .time q s₁ ∧ c = ⟨.time, q⟩ :: c' ∧ Runs exec (f q).run s₁ c' r s' := Iff.rfl

theorem runs_sleep {d : ℚ} {f : Unit → Deeds β} {r : Except Exn β} :
    Runs exec (Deeds.sleep d >>= f).run s c r s' ↔ ∃ q s₁ c', exec s (.sleep d) q s₁ ∧
      c = ⟨.sleep d, q⟩ :: c' ∧ Runs exec (f ()).run s₁ c' r s' := Iff.rfl

theorem runs_check (hA : Answering exec) {f : List String → Deeds β} {r : Except Exn β}
    (h : Runs exec (Deeds.check >>= f).run s c r s') :
    ∃ orphans s₁ c', exec s .check (.ok orphans) s₁ ∧ c = ⟨.check, .ok orphans⟩ :: c' ∧
      Runs exec (f orphans).run s₁ c' r s' := by
  obtain ⟨a, s₁, c', he, rfl, h⟩ := h
  obtain ⟨orphans, rfl⟩ := hA.check _ _ _ he
  exact ⟨orphans, s₁, c', he, rfl, h⟩

theorem waits_of_runs (hA : Answering exec) {timeout start : ℚ} {r : Except Exn Bool} :
    ∀ {fuel interval s c}, Runs exec (Deeds.waitLoop timeout start fuel interval).run s c r s' →
      ∃ b, r = .ok b ∧ Waits timeout start interval c b
  | 0, _, _, _, h => by
    obtain ⟨_, _, _, he, _⟩ := h
    exact absurd he (hA.stuck _ _ _)
  | fuel + 1, interval, s, c, h => by
    unfold Deeds.waitLoop at h
    obtain ⟨q, s₁, c₁, -, hc, hrest⟩ := runs_time.mp h
    subst hc
    by_cases hq : q - start < timeout
    · rw [if_pos hq] at hrest
      obtain ⟨orphans, s₂, c₂, -, rfl, hloop⟩ := runs_check hA hrest
      by_cases ho : orphans = []
      · rw [if_pos ho] at hloop
        obtain ⟨rfl, rfl, rfl⟩ := hloop
        subst ho
        exact ⟨true, rfl, .empty hq⟩
      · rw [if_neg ho] at hloop
        obtain ⟨_, s₃, c₃, -, rfl, hnext⟩ := runs_sleep.mp hloop
        obtain ⟨b, rfl, hw⟩ := waits_of_runs hA hnext
        exact ⟨b, rfl, .again hq ho hw⟩
    · rw [if_neg hq] at hrest
      obtain ⟨rfl, rfl, rfl⟩ := hrest
      exact ⟨false, rfl, .expired (not_lt.mp hq)⟩

/-- A signal and the wait after it, then the rest unless a call failed. -/
theorem runs_round (hA : Answering exec) {fuel : ℕ} {signal : String} {f : Bool → Deeds β}
    {r : Except Exn β} (h : Runs exec (do Deeds.killSliceProcesses self signal
                                          let b ← Deeds.waitForSliceEmpty fuel self.killGraceTime
                                          f b : Deeds β).run s c r s') :
    (∃ c₁ b s₁ c₂, Round self signal c₁ (.ok b) ∧ Runs exec (f b).run s₁ c₂ r s' ∧ c = c₁ ++ c₂) ∨
      ∃ e, Round self signal c (.error e) ∧ r = .error e := by
  unfold Deeds.killSliceProcesses Deeds.systemctl at h
  by_cases habs : isabs self.systemctl = true
  · rw [if_pos habs] at h
    obtain ⟨a, s₁, c₁, -, rfl, hrest⟩ := h
    cases a with
    | error e =>
      obtain ⟨rfl, rfl, rfl⟩ := hrest
      exact .inr ⟨e.toExn, .failed habs, rfl⟩
    | ok out =>
      obtain ⟨start, s₂, c₂, -, rfl, hwait⟩ := runs_time.mp hrest
      rcases runs_exceptBind.mp hwait with ⟨c₃, b, s₃, c₄, hw, hf, rfl⟩ | ⟨e, hw, rfl⟩
      · obtain ⟨b', hb, hw⟩ := waits_of_runs hA hw
        cases hb
        exact .inl ⟨_, b, s₃, c₄, .waited habs hw, hf, rfl⟩
      · obtain ⟨b', hb, -⟩ := waits_of_runs hA hw
        cases hb
  · rw [if_neg habs] at h
    obtain ⟨rfl, rfl, rfl⟩ := h
    exact .inr ⟨_, .relative (by simpa using habs), rfl⟩

/-- **What a run of the cleanup does.** -/
theorem cleanup_of_runs (hA : Answering exec) {fuel : ℕ} {r : Except Exn Unit}
    (h : Runs exec (Deeds.cleanupUserSlice self fuel).run s c r s') : Cleanup self c r := by
  unfold Deeds.cleanupUserSlice at h
  obtain ⟨orphans, s₁, c₁, -, rfl, hfound⟩ := runs_check hA h
  by_cases ho : orphans = []
  · rw [if_pos ho] at hfound
    obtain ⟨rfl, rfl, rfl⟩ := hfound
    subst ho
    exact .clean
  rw [if_neg ho] at hfound
  rcases runs_round hA hfound with ⟨c₂, b, s₂, c₃, hround, hlate, rfl⟩ | ⟨e, hround, rfl⟩
  · cases b with
    | true =>
      obtain ⟨rfl, rfl, rfl⟩ := hlate
      rw [List.append_nil]
      exact .term ho hround nofun
    | false =>
      obtain ⟨remaining, s₃, c₄, -, rfl, hkill⟩ := runs_check hA hlate
      rcases runs_round hA hkill with ⟨c₅, b, s₄, c₆, hround', hlate', rfl⟩ | ⟨e, hround', rfl⟩
      · cases b with
        | true =>
          obtain ⟨rfl, rfl, rfl⟩ := hlate'
          rw [List.append_nil]
          exact .kill ho hround hround' nofun
        | false =>
          obtain ⟨finalOrphans, s₅, c₇, -, rfl, hend⟩ := runs_check hA hlate'
          obtain ⟨rfl, rfl, rfl⟩ := hend
          exact .remain ho hround hround'
      · exact .kill ho hround hround' nofun
  · exact .term ho hround nofun

end Runs

/-! ### What the actions rest on -/

def signalOf : Done → Option String
  | ⟨.kill signal, _⟩ => some signal
  | _ => none

/-- The signals sent, in order. -/
def signals (c : List Done) : List String := c.filterMap signalOf

def foundOf : Done → Option (List String)
  | ⟨.check, .ok orphans⟩ => some orphans
  | _ => none

/-- What the most recent orphan check found. -/
def lastCheck (c : List Done) : Option (List String) := (c.filterMap foundOf).getLast?

/-- The kill calls succeed. -/
def KillsSucceed (c : List Done) : Prop := ∀ signal x, ⟨.kill signal, x⟩ ∈ c → ∃ out, x = .ok out

/-- Signals are sent, and the cleanup returns or fails, on what the most recent
orphan check found. -/
structure ActsOnRemaining (c : List Done) (r : Except Exn Unit) : Prop where
  quiet : (c.filterMap foundOf).head? = some [] → signals c = []
  order : signals c <+: ["SIGTERM", "SIGKILL"]
  sigkill : ∀ a x b, c = a ++ ⟨.kill "SIGKILL", x⟩ :: b → ∃ orphans, lastCheck a = some orphans ∧
    orphans ≠ []
  returns : r = .ok () → lastCheck c = some []
  raises : ∀ msg, r = .error (.runtimeError msg) → ∃ orphans, lastCheck c = some orphans ∧ orphans ≠ []

def readingOf : Done → Option ℚ
  | ⟨.time, q⟩ => some q
  | _ => none

/-- The clock of the wait under way: its first reading after the signal, and
whether the last reading was at the deadline or past it. -/
def tick (grace : ℚ) (clock : Option ℚ × Bool) : Done → Option ℚ × Bool
  | ⟨.kill _, _⟩ => (none, false)
  | ⟨.time, q⟩ => clock.1.elim (some q, false) fun start => (some start, grace ≤ q - start)
  | _ => clock

/-- What the orphan checks found that were made when the grace time of the wait
before them had passed. -/
def lateChecks (grace : ℚ) : Option ℚ × Bool → List Done → List (List String)
  | _, [] => []
  | clock, e :: c =>
    (if clock.2 then (foundOf e).toList else []) ++ lateChecks grace (tick grace clock e) c

/-! ### Waits and rounds -/

section Rounds

variable {self : PAMHelper} {timeout start interval grace : ℚ} {signal : String} {c c' : List Done}
  {b : Bool}

theorem signals_append (c c' : List Done) : signals (c ++ c') = signals c ++ signals c' :=
  List.filterMap_append

theorem lastCheck_append (c c' : List Done) :
    lastCheck (c ++ c') = (lastCheck c').or (lastCheck c) := by
  unfold lastCheck
  rw [List.filterMap_append, List.getLast?_append]

theorem lastCheck_check (c : List Done) (orphans : List String) :
    lastCheck (c ++ [⟨.check, .ok orphans⟩]) = some orphans := by
  rw [lastCheck_append]
  rfl

theorem Waits.signals (h : Waits timeout start interval c b) : signals c = [] := by
  induction h with
  | expired _ => rfl
  | empty _ => rfl
  | again _ _ _ ih => exact ih

/-- A wait that returns true has just found the slice empty. -/
theorem Waits.lastCheck (h : Waits timeout start interval c b) (hb : b = true) :
    lastCheck c = some [] := by
  induction h with
  | expired _ => cases hb
  | empty _ => rfl
  | @again interval q orphans c b _ _ _ ih =>
    have happ := lastCheck_append [⟨.time, q⟩, ⟨.check, .ok orphans⟩, ⟨.sleep interval, ()⟩] c
    rw [ih hb] at happ
    exact happ

/-- No check of a wait is late, and one made after it is late exactly if the
wait timed out. -/
theorem Waits.lateChecks (h : Waits grace start interval c b) (late : Bool) :
    lateChecks grace (some start, late) (c ++ c') = lateChecks grace (some start, !b) c' := by
  induction h generalizing late with
  | expired hq => cases late <;> simp [FluxPam.lateChecks, foundOf, tick, hq]
  | empty hq =>
    have hq' := not_le.mpr hq
    cases late <;> simp [FluxPam.lateChecks, foundOf, tick, hq']
  | again hq _ _ ih =>
    have hq' := not_le.mpr hq
    cases late <;> simp [FluxPam.lateChecks, foundOf, tick, hq', ih]

theorem Round.lateChecks (h : Round self signal c (.ok b)) (clock : Option ℚ × Bool)
    (c' : List Done) :
    ∃ start, lateChecks self.killGraceTime clock (c ++ c') =
      lateChecks self.killGraceTime (some start, !b) c' := by
  cases h with
  | @waited out start c b _ hw =>
    refine ⟨start, ?_⟩
    rw [← hw.lateChecks false]
    rcases clock with ⟨_, late⟩
    cases late <;> simp [FluxPam.lateChecks, foundOf, tick]

end Rounds

/-! ### The cleanup -/

section Acts

variable {self : PAMHelper} {signal : String} {c c' pre post : List Done} {b : Bool}

theorem Round.isabs (h : Round self signal c (.ok b)) : isabs self.systemctl = true := by
  cases h with
  | waited habs _ => exact habs

theorem KillsSucceed.sublist (h : KillsSucceed c) (hsub : ∀ e ∈ c', e ∈ c) : KillsSucceed c' :=
  fun signal x hx => h signal x (hsub _ hx)

/-- A round whose kill call succeeds waits, or cannot call `systemctl`. -/
theorem Round.of_succeed {r : Except Exn Bool} (h : Round self signal c r) (hk : KillsSucceed c) :
    (∃ b, r = .ok b) ∨
      FluxPam.isabs self.systemctl = false ∧ c = [] ∧ ∃ msg, r = .error (.valueError msg) := by
  cases h with
  | relative hrel => exact .inr ⟨hrel, rfl, _, rfl⟩
  | failed _ =>
    obtain ⟨out, hout⟩ := hk signal _ (List.mem_singleton_self _)
    cases hout
  | waited _ _ => exact .inl ⟨_, rfl⟩

theorem Round.signals (h : Round self signal c (.ok b)) :
    ∃ x post, c = ⟨.kill signal, x⟩ :: post ∧ signals post = [] := by
  cases h with
  | waited _ hw => exact ⟨_, _, rfl, hw.signals⟩

theorem Round.lastCheck (h : Round self signal c (.ok true)) (pre : List Done) :
    lastCheck (pre ++ c) = some [] := by
  cases h with
  | @waited out start c _ _ hw =>
    have happ := lastCheck_append (pre ++ [⟨.kill signal, .ok out⟩, ⟨.time, start⟩]) c
    rw [hw.lastCheck rfl, List.append_assoc] at happ
    exact happ

/-- What the last check before SIGKILL found, when it is sent once. -/
theorem sigkill_iff {x : Except RunError String} {orphans : List String}
    (hpre : "SIGKILL" ∉ signals pre) (hpost : signals post = [])
    (hlast : FluxPam.lastCheck pre = some orphans) :
    (∀ a y b, pre ++ ⟨.kill "SIGKILL", x⟩ :: post = a ++ ⟨.kill "SIGKILL", y⟩ :: b →
      ∃ orphans, FluxPam.lastCheck a = some orphans ∧ orphans ≠ []) ↔ orphans ≠ [] := by
  constructor
  · intro h
    obtain ⟨orphans', ho, hne⟩ := h pre x post rfl
    rw [hlast] at ho
    cases ho
    exact hne
  · intro hne a y b heq
    have hnot : ∀ l : List Done, "SIGKILL" ∉ signals l → (⟨.kill "SIGKILL", y⟩ : Done) ∉ l :=
      fun l hl hmem => hl (List.mem_filterMap.mpr ⟨_, hmem, rfl⟩)
    have hpost' : "SIGKILL" ∉ signals post := by
      rw [hpost]
      exact List.not_mem_nil
    obtain ⟨rfl, -, -⟩ :=
      (List.append_cons_inj_of_notMem (hnot _ hpre) (hnot _ hpost')).mp heq
    exact ⟨orphans, hlast, hne⟩

/-- Without SIGKILL nothing is asked of the checks before it. -/
theorem sigkill_of_notMem (h : "SIGKILL" ∉ signals c) (a : List Done)
    (x : Except RunError String) (b : List Done) (heq : c = a ++ ⟨.kill "SIGKILL", x⟩ :: b) :
    ∃ orphans, FluxPam.lastCheck a = some orphans ∧ orphans ≠ [] := by
  refine absurd ?_ h
  rw [heq, signals_append]
  exact List.mem_append_right _ List.mem_cons_self

section Second

variable {orphans remaining : List String} (h : Round self "SIGTERM" c (.ok false))
include h

/-- The cleanup up to the check before SIGKILL. -/
theorem Round.first_round (orphans remaining : List String) :
    FluxPam.signals (⟨.check, .ok orphans⟩ :: (c ++ [⟨.check, .ok remaining⟩])) = ["SIGTERM"] := by
  obtain ⟨x, post, rfl, hpost⟩ := h.signals
  have happ := signals_append post [⟨.check, .ok remaining⟩]
  rw [hpost] at happ
  exact congrArg ("SIGTERM" :: ·) happ

/-- The check before SIGKILL is late. -/
theorem Round.late_first (orphans remaining : List String) (c' : List Done) : ∃ start,
    FluxPam.lateChecks self.killGraceTime (none, false)
      (⟨.check, .ok orphans⟩ :: (c ++ ⟨.check, .ok remaining⟩ :: c')) =
        remaining :: FluxPam.lateChecks self.killGraceTime (some start, true) c' := by
  obtain ⟨start, hlate⟩ := h.lateChecks (none, false) (⟨.check, .ok remaining⟩ :: c')
  exact ⟨start, hlate⟩

/-- With SIGKILL sent, everything rests on the check before it and the last
one. -/
theorem Round.acts_second {x : Except RunError String} {r : Except Exn Unit} (ho : orphans ≠ [])
    (hpost : FluxPam.signals post = []) :
    ActsOnRemaining (⟨.check, .ok orphans⟩ :: (c ++ ⟨.check, .ok remaining⟩ ::
        ⟨.kill "SIGKILL", x⟩ :: post)) r ↔
      remaining ≠ [] ∧
        (r = .ok () → FluxPam.lastCheck (⟨.check, .ok orphans⟩ :: (c ++ ⟨.check, .ok remaining⟩ ::
          ⟨.kill "SIGKILL", x⟩ :: post)) = some []) ∧
        ∀ msg, r = .error (.runtimeError msg) → ∃ os, FluxPam.lastCheck (⟨.check, .ok orphans⟩ ::
          (c ++ ⟨.check, .ok remaining⟩ :: ⟨.kill "SIGKILL", x⟩ :: post)) = some os ∧ os ≠ [] := by
  have hpre := h.first_round orphans remaining
  have hsplit : (⟨.check, .ok orphans⟩ :: (c ++ ⟨.check, .ok remaining⟩ ::
      ⟨.kill "SIGKILL", x⟩ :: post) : List Done) =
        (⟨.check, .ok orphans⟩ :: (c ++ [⟨.check, .ok remaining⟩])) ++
          ⟨.kill "SIGKILL", x⟩ :: post := by simp
  have hlast := lastCheck_check (⟨.check, .ok orphans⟩ :: c) remaining
  rw [List.cons_append] at hlast
  have hkill := sigkill_iff (x := x) (by rw [hpre]; decide) hpost hlast
  rw [hsplit]
  constructor
  · intro hacts
    exact ⟨hkill.mp hacts.sigkill, hacts.returns, hacts.raises⟩
  · rintro ⟨hne, hreturns, hraises⟩
    have hsig : FluxPam.signals ((⟨.check, .ok orphans⟩ :: (c ++ [⟨.check, .ok remaining⟩])) ++
        ⟨.kill "SIGKILL", x⟩ :: post) = ["SIGTERM", "SIGKILL"] := by
      rw [signals_append, hpre]
      exact congrArg (["SIGTERM", "SIGKILL"] ++ ·) hpost
    exact { quiet := fun hempty => absurd (Option.some.inj hempty) ho
            order := hsig ▸ List.prefix_rfl
            sigkill := hkill.mpr hne
            returns := hreturns
            raises := hraises }

end Second

/-- **What the cleanup's actions rest on**, by the check each of them follows. -/
theorem Cleanup.acts_iff {r : Except Exn Unit} (h : Cleanup self c r) (hk : KillsSucceed c) :
    ActsOnRemaining c r ↔
      ∀ orphans ∈ lateChecks self.killGraceTime (none, false) c, orphans ≠ [] := by
  cases h with
  | clean =>
    refine ⟨fun _ orphans ho => absurd ho List.not_mem_nil, fun _ => ?_⟩
    exact { quiet := fun _ => rfl
            order := ⟨_, rfl⟩
            sigkill := sigkill_of_notMem List.not_mem_nil
            returns := fun _ => rfl
            raises := nofun }
  | @term orphans c r ho hround hr =>
    have hquiet : ∀ {l}, some orphans = some ([] : List String) → signals l = [] :=
      fun h => absurd (Option.some.inj h) ho
    rcases hround.of_succeed (hk.sublist fun _ => List.mem_cons_of_mem _) with
      ⟨b, rfl⟩ | ⟨-, rfl, msg, rfl⟩
    · obtain rfl : b = true := by
        cases b with
        | true => rfl
        | false => exact absurd rfl hr
      obtain ⟨start, hlate⟩ := hround.lateChecks (none, false) []
      have hlast := hround.lastCheck [⟨.check, .ok orphans⟩]
      obtain ⟨x, post, rfl, hpost⟩ := hround.signals
      have hsig : FluxPam.signals (⟨.check, .ok orphans⟩ :: ⟨.kill "SIGTERM", x⟩ :: post) =
          ["SIGTERM"] := congrArg ("SIGTERM" :: ·) hpost
      rw [List.append_nil] at hlate
      refine ⟨fun _ orphans ho => ?_, fun _ => ?_⟩
      · have : orphans ∈ lateChecks self.killGraceTime (none, false)
            (⟨.kill "SIGTERM", x⟩ :: post) := ho
        rw [hlate] at this
        exact absurd this List.not_mem_nil
      · exact { quiet := hquiet
                order := by rw [hsig]; exact ⟨["SIGKILL"], rfl⟩
                sigkill := sigkill_of_notMem (by rw [hsig]; decide)
                returns := fun _ => hlast
                raises := nofun }
    · refine ⟨fun _ orphans ho => absurd ho List.not_mem_nil, fun _ => ?_⟩
      exact { quiet := hquiet
              order := ⟨_, rfl⟩
              sigkill := sigkill_of_notMem List.not_mem_nil
              returns := nofun
              raises := nofun }
  | @kill orphans c remaining c' r ho hround hround' hr =>
    have hk' : KillsSucceed c' := hk.sublist fun e he => by simp [he]
    rcases hround'.of_succeed hk' with ⟨b, rfl⟩ | ⟨hrel, -, -⟩
    · obtain rfl : b = true := by
        cases b with
        | true => rfl
        | false => exact absurd rfl hr
      obtain ⟨start, hlate⟩ := hround.late_first orphans remaining c'
      obtain ⟨start', hlate'⟩ := hround'.lateChecks (some start, true) []
      have hlast := hround'.lastCheck (⟨.check, .ok orphans⟩ :: (c ++ [⟨.check, .ok remaining⟩]))
      obtain ⟨x, post, rfl, hpost⟩ := hround'.signals
      rw [List.append_nil] at hlate'
      rw [hlate, hlate', hround.acts_second ho hpost]
      rw [List.cons_append, List.append_assoc] at hlast
      have : lateChecks self.killGraceTime (some start', !true) [] = [] := rfl
      rw [this, List.forall_mem_singleton]
      exact ⟨fun h => h.1, fun h => ⟨h, fun _ => hlast, nofun⟩⟩
    · rw [hround.isabs] at hrel
      cases hrel
  | @remain orphans c remaining c' finalOrphans ho hround hround' =>
    obtain ⟨start, hlate⟩ := hround.late_first orphans remaining
      (c' ++ [⟨.check, .ok finalOrphans⟩])
    obtain ⟨start', hlate'⟩ :=
      hround'.lateChecks (some start, true) [⟨.check, .ok finalOrphans⟩]
    obtain ⟨x, post, rfl, hpost⟩ := hround'.signals
    have hlast := lastCheck_check (⟨.check, .ok orphans⟩ :: (c ++ ⟨.check, .ok remaining⟩ ::
      ⟨.kill "SIGKILL", x⟩ :: post)) finalOrphans
    have hpost' : FluxPam.signals (post ++ [⟨.check, .ok finalOrphans⟩]) = [] := by
      rw [signals_append, hpost]
      rfl
    have : lateChecks self.killGraceTime (some start', !false) [⟨.check, .ok finalOrphans⟩] =
      [finalOrphans] := rfl
    rw [hlate, hlate', this, List.cons_append, hround.acts_second ho hpost']
    rw [List.cons_append, List.append_assoc] at hlast
    have hlast' : FluxPam.lastCheck (⟨.check, .ok orphans⟩ :: (c ++ ⟨.check, .ok remaining⟩ ::
      ⟨.kill "SIGKILL", x⟩ :: (post ++ [⟨.check, .ok finalOrphans⟩]))) = some finalOrphans := hlast
    rw [hlast', List.forall_mem_cons, List.forall_mem_singleton]
    constructor
    · rintro ⟨hremaining, -, hraises⟩
      obtain ⟨os, hos, hne⟩ := hraises _ rfl
      cases hos
      exact ⟨hremaining, hne⟩
    · rintro ⟨hremaining, hfinal⟩
      exact ⟨hremaining, nofun, fun _ _ => ⟨finalOrphans, rfl, hfinal⟩⟩

end Acts

/-! ### A process that exits late -/

/-- A helper that kills, with a grace time of one poll. -/
def PAMHelper.brief : PAMHelper :=
  { PAMHelper.small with killUserSlice := .bool true, killGraceTime := 1 / 100 }

/-- The world that gives any answer. -/
def anything (_ : Unit) (o : Op) (_ : Res o) (_ : Unit) : Prop := o ≠ .stuck

/-- One process in one scope of the slice. -/
def oneLeft : List String :=
  [PAMHelper.relpath "/s" (slicePath 1000) ++ ": " ++ toString 1 ++ " process(es)"]

theorem anything_check {orphans : List String} (h : orphans = [] ∨ orphans = oneLeft) :
    implements PAMHelper.brief.deed anything () .check (.ok orphans) () := by
  rcases h with rfl | rfl
  · have ht : Traces PAMHelper.brief.checkOrphanProcesses.run
        [⟨.pathExists (slicePath 1000), false⟩] (.ok []) := traces_of_script (n := 5) rfl
    exact ⟨_, ht.runs (by simp [Happens, anything])⟩
  · have ht : Traces PAMHelper.brief.checkOrphanProcesses.run
        [⟨.pathExists (slicePath 1000), true⟩, ⟨.walk (slicePath 1000), ["/s"]⟩,
          ⟨.pathExists "/s/cgroup.procs", true⟩, ⟨.readLines "/s/cgroup.procs", .ok ["1"]⟩]
        (.ok oneLeft) := traces_of_script (n := 5) rfl
    exact ⟨_, ht.runs (by simp [Happens, anything])⟩

/-- Every deed can be answered, an orphan check by one process or none. -/
theorem anything_deed : ∀ e : Done, e.1 ≠ .stuck →
    (∀ r, e = ⟨.check, r⟩ → r = .ok [] ∨ r = .ok oneLeft) →
    implements PAMHelper.brief.deed anything () e.1 e.2 ()
  | ⟨.check, r⟩, _, hr => by
    rcases hr r rfl with rfl | rfl
    · exact anything_check (.inl rfl)
    · exact anything_check (.inr rfl)
  | ⟨.time, _⟩, _, _ => ⟨_, runs_perform.mpr ⟨nofun, rfl⟩⟩
  | ⟨.sleep _, _⟩, _, _ => ⟨_, runs_perform.mpr ⟨nofun, rfl⟩⟩
  | ⟨.clear, _⟩, _, _ => ⟨_, runs_perform.mpr ⟨nofun, rfl⟩⟩
  | ⟨.stop, _⟩, _, _ => ⟨_, runs_perform.mpr ⟨nofun, rfl⟩⟩
  | ⟨.kill _, _⟩, _, _ => ⟨_, runs_perform.mpr ⟨nofun, rfl⟩⟩
  | ⟨.revert, _⟩, _, _ => ⟨_, runs_perform.mpr ⟨nofun, rfl⟩⟩
  | ⟨.stuck, _⟩, h, _ => absurd rfl h

/-- The deeds of a script are those of a run of the code. -/
theorem anything_runs {α : Type} {x : Deeds α} {y : Py α} {c : List Done} {r : Except Exn α}
    (hx : expandE PAMHelper.brief.deed x = y) (hc : Traces x.run c r)
    (hdeeds : ∀ e ∈ c, e.1 ≠ .stuck ∧ ∀ r, e = ⟨.check, r⟩ → r = .ok [] ∨ r = .ok oneLeft) :
    ∃ t, Runs anything y.run () t r () ∧ Spells PAMHelper.brief.deed t c := by
  subst hx
  exact (hc.runs (.still fun e he => anything_deed e (hdeeds e he).1 (hdeeds e he).2)).expand

/-- The process exits during the last sleep of the wait after SIGTERM. -/
def exitsLate : List Done :=
  [⟨.check, .ok oneLeft⟩, ⟨.kill "SIGTERM", .ok ""⟩, ⟨.time, 0⟩, ⟨.time, 0⟩,
    ⟨.check, .ok oneLeft⟩, ⟨.sleep (1 / 100), ()⟩, ⟨.time, 1 / 100⟩, ⟨.check, .ok []⟩,
    ⟨.kill "SIGKILL", .ok ""⟩, ⟨.time, 1 / 100⟩, ⟨.time, 1 / 100⟩, ⟨.check, .ok []⟩]

theorem exitsLate_runs : ∃ t, Runs anything (PAMHelper.brief.cleanupUserSlice 2).run () t (.ok ()) () ∧
    Spells PAMHelper.brief.deed t exitsLate := by
  refine anything_runs (expand_cleanupUserSlice .brief 2)
    (traces_of_script (n := 20) (by with_unfolding_all rfl)) ?_
  simp [exitsLate]

theorem exitsLate_succeed : KillsSucceed exitsLate := by
  intro signal x hx
  simp only [exitsLate, List.mem_cons, List.not_mem_nil, or_false, Sigma.mk.injEq, reduceCtorEq,
    false_and, false_or] at hx
  rcases hx with ⟨h, hx⟩ | ⟨h, hx⟩
  all_goals
    cases h
    cases hx
    exact ⟨"", rfl⟩

/-- **What kill escalation acts on.** Whatever the clock and the orphan checks
say, if the kill calls succeed then the cleanup acts on processes that remain
exactly when no orphan check made after the grace time comes back empty. -/
theorem escalation_iff {self : PAMHelper} {σ : Type} {exec : σ → (o : Op) → Res o → σ → Prop}
    {fuel : ℕ} {w w' : σ} {t : List Event} {c : List Done} {r : Except Exn Unit}
    (hstuck : ∀ w r w', ¬ exec w .stuck r w')
    (h : Runs exec (self.cleanupUserSlice fuel).run w t r w') (hc : Spells self.deed t c)
    (hk : KillsSucceed c) :
    ActsOnRemaining c r ↔
      ∀ orphans ∈ lateChecks self.killGraceTime (none, false) c, orphans ≠ [] := by
  obtain ⟨c', hruns, hc'⟩ := runs_deeds (expand_cleanupUserSlice self fuel) h
  obtain rfl : c = c' := deeds_unique hc hc'
  exact (cleanup_of_runs (answering hstuck) hruns).acts_iff hk

/-- The process exits late: SIGKILL is sent on an out-of-date observation. -/
theorem escalation_iff_brief : ∃ t,
    Runs anything (PAMHelper.brief.cleanupUserSlice 2).run () t (.ok ()) () ∧
      (ActsOnRemaining exitsLate (.ok ()) ↔
        ∀ orphans ∈ lateChecks PAMHelper.brief.killGraceTime (none, false) exitsLate,
          orphans ≠ []) := by
  obtain ⟨t, hruns, hspells⟩ := exitsLate_runs
  exact ⟨t, hruns, escalation_iff (fun _ _ _ h => h rfl) hruns hspells exitsLate_succeed⟩

theorem escalation_stale : ¬ ∀ (self : PAMHelper) (σ : Type)
    (exec : σ → (o : Op) → Res o → σ → Prop) (fuel : ℕ) (w w' : σ) (t : List Event) (c : List Done)
    (r : Except Exn Unit), (∀ w r w', ¬ exec w .stuck r w') → 0 ≤ self.killGraceTime →
      Runs exec (self.cleanupUserSlice fuel).run w t r w' → Spells self.deed t c → KillsSucceed c →
        (c.filterMap readingOf).Pairwise (· ≤ ·) → ActsOnRemaining c r := by
  intro h
  obtain ⟨t, hruns, hspells⟩ := exitsLate_runs
  have hacts := h .brief Unit anything 2 () () t exitsLate (.ok ()) (fun _ _ _ h => h rfl)
    (by decide +kernel) hruns hspells exitsLate_succeed (by decide +kernel)
  obtain ⟨orphans, hlast, hne⟩ := hacts.sigkill (exitsLate.take 8) (.ok "") (exitsLate.drop 9) rfl
  have hempty : lastCheck (exitsLate.take 8) = some [] := rfl
  rw [hempty] at hlast
  exact hne (Option.some.inj hlast).symm

end FluxPam
