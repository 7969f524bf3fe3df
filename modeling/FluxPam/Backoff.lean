/-
# The backoff wait

With a clock that advances by what is slept and by nothing else, a wait of
`_wait_for_slice_empty` ends: every poll that finds a process is followed by a
sleep of at least 1/100 s, so after `100 · timeout` polls the deadline has passed
(`safe_waitLoop`). The intervals grow up to 1/2 s and no poll is made at the
deadline or after it, so a wait that times out does so less than 1/2 s late
(`Waits.overshoot`), and the two waits of the cleanup together less than a second
(`backoff_bounded`).
-/
import FluxPam.Escalation
import Mathlib.Algebra.Order.Archimedean.Basic
import Mathlib.Tactic.Linarith
import Mathlib.Tactic.NormNum

namespace FluxPam

open Interaction Prog

/-! ### Clocks -/

/-- A clock that advances exactly by what is slept. -/
structure ExactClock {σ : Type} (exec : σ → (o : Op) → Res o → σ → Prop) (clock : σ → ℚ) :
    Prop where
  time : ∀ w q w', exec w .time q w' → q = clock w
  sleep : ∀ w d r w', exec w (.sleep d) r w' → clock w' = clock w + d
  other : ∀ w o r w', (∀ d, o ≠ .sleep d) → exec w o r w' → clock w' = clock w

def sleepOf : Done → Option ℚ
  | ⟨.sleep d, _⟩ => some d
  | _ => none

/-- The intervals slept, in order. -/
def sleeps (c : List Done) : List ℚ := c.filterMap sleepOf

/-- The time the deeds take. -/
def elapsed : List Done → ℚ
  | [] => 0
  | e :: c => (sleepOf e).getD 0 + elapsed c

/-- A clock that shows `now` and advances by what is slept is read right. -/
def Reads : ℚ → List Done → Prop
  | _, [] => True
  | now, e :: c => (∀ q ∈ readingOf e, q = now) ∧ Reads (now + (sleepOf e).getD 0) c

theorem elapsed_append : ∀ c c', elapsed (c ++ c') = elapsed c + elapsed c'
  | [], c' => by simp [elapsed]
  | e :: c, c' => by
    rw [List.cons_append, elapsed, elapsed, elapsed_append c c', add_assoc]

theorem reads_append {now : ℚ} : ∀ {c c'},
    Reads now (c ++ c') ↔ Reads now c ∧ Reads (now + elapsed c) c'
  | [], c' => by simp [Reads, elapsed]
  | e :: c, c' => by
    simp only [List.cons_append, Reads, elapsed, reads_append (c := c), and_assoc, add_assoc]

section Runs

variable {σ α : Type} {clock : σ → ℚ}

/-- The clock of a world that answers deeds. -/
def DeedClock (exec : σ → (d : Deed) → d.Res → σ → Prop) (clock : σ → ℚ) : Prop :=
  ∀ s d r s', exec s d r s' → (∀ q ∈ readingOf ⟨d, r⟩, q = clock s) ∧
    clock s' = clock s + (sleepOf ⟨d, r⟩).getD 0

theorem deedClock {exec : σ → (o : Op) → Res o → σ → Prop} (h : ExactClock exec clock)
    (self : PAMHelper) : DeedClock (implements self.deed exec) clock := by
  intro s d r s' hd
  obtain ⟨t, hd⟩ := hd
  have hone : ∀ {o : Op} {r : Res o}, Runs exec (perform o) s t r s' → exec s o r s' :=
    fun h => (runs_perform.mp h).1
  have hstill : ∀ {o : Op} {r : Res o}, (∀ d, o ≠ .sleep d) → exec s o r s' →
      clock s' = clock s + 0 := by
    intro o r ho he
    rw [h.other s o r s' ho he, add_zero]
  cases d with
  | check =>
    have hlook : ∀ w o r w', looks o → exec w o r w' → clock w = clock s → clock w' = clock s := by
      intro w o r w' ho he hw
      rw [h.other w o r w' (fun d hd => by subst hd; exact ho) he, hw]
    have hsafe : Safe exec (fun _ => False) _ s self.checkOrphanProcesses.run :=
      Safe.of_keeps (fun _ _ => id) hlook keeps_checkOrphanProcesses rfl
    have hkept := (hsafe.of_runs hd).2
    exact ⟨by simp [readingOf], by rw [hkept]; exact (add_zero _).symm⟩
  | time =>
    have he := hone hd
    refine ⟨fun q hq => ?_, hstill (by simp) he⟩
    cases hq
    exact h.time _ _ _ he
  | sleep d => exact ⟨by simp [readingOf], h.sleep s d r s' (hone hd)⟩
  | clear => exact ⟨by simp [readingOf], hstill (by simp) (hone hd)⟩
  | stop => exact ⟨by simp [readingOf], hstill (by simp) (hone hd)⟩
  | kill signal => exact ⟨by simp [readingOf], hstill (by simp) (hone hd)⟩
  | revert => exact ⟨by simp [readingOf], hstill (by simp) (hone hd)⟩
  | stuck => exact ⟨by simp [readingOf], hstill (by simp) (hone hd)⟩

variable {exec : σ → (d : Deed) → d.Res → σ → Prop}

/-- A run takes as long as its sleeps, and reads the clock right. -/
theorem runs_reads (h : DeedClock exec clock) : ∀ {x : Prog Deed Deed.Res α} {s c a s'},
    Runs exec x s c a s' → Reads (clock s) c ∧ clock s' = clock s + elapsed c
  | .pure _, s, c, _, _, hx => by
    obtain ⟨rfl, -, rfl⟩ := hx
    exact ⟨trivial, (add_zero _).symm⟩
  | .op _ k, s, c, _, _, hx => by
    obtain ⟨r, s₁, c', he, rfl, hk⟩ := hx
    obtain ⟨hread, hnext⟩ := h _ _ _ _ he
    obtain ⟨hreads, hend⟩ := runs_reads h hk
    rw [hnext] at hreads hend
    exact ⟨⟨hread, hreads⟩, by rw [hend, elapsed, add_assoc]⟩

end Runs

/-! ### Waits -/

section Waits

variable {timeout start interval now : ℚ} {c : List Done} {b : Bool}

theorem le_next {interval : ℚ} (hpos : 0 ≤ interval) (hcap : interval ≤ 1 / 2) :
    interval ≤ min (interval * (3 / 2)) (1 / 2) := by
  apply le_min
  · linarith
  · exact hcap

/-- The intervals start at the first one and stay below the cap. -/
theorem Waits.mem_sleeps (h : Waits timeout start interval c b) (hpos : 0 ≤ interval)
    (hcap : interval ≤ 1 / 2) : ∀ d ∈ sleeps c, interval ≤ d ∧ d ≤ 1 / 2 := by
  induction h with
  | expired _ => simp [sleeps, sleepOf]
  | empty _ => simp [sleeps, sleepOf]
  | @again interval q orphans c b _ _ _ ih =>
    have hle := le_next hpos hcap
    have ih := ih (le_trans hpos hle) (min_le_right _ _)
    intro d hd
    have hd : d = interval ∨ d ∈ sleeps c := List.mem_cons.mp hd
    rcases hd with rfl | hd
    · exact ⟨le_refl d, hcap⟩
    · have hmem := ih d hd
      exact ⟨le_trans hle hmem.1, hmem.2⟩

theorem Waits.sorted_sleeps (h : Waits timeout start interval c b) (hpos : 0 ≤ interval)
    (hcap : interval ≤ 1 / 2) : (sleeps c).Pairwise (· ≤ ·) := by
  induction h with
  | expired _ => exact List.Pairwise.nil
  | empty _ => exact List.Pairwise.nil
  | @again interval q orphans c b _ _ hw ih =>
    have hle := le_next hpos hcap
    have hpos' := le_trans hpos hle
    have hhead : ∀ d ∈ sleeps c, interval ≤ d := by
      intro d hd
      have hmem := hw.mem_sleeps hpos' (min_le_right _ _) d hd
      exact le_trans hle hmem.1
    have htail := ih hpos' (min_le_right _ _)
    exact List.pairwise_cons.mpr ⟨hhead, htail⟩

/-- Every poll is made before the deadline. -/
theorem Waits.early (h : Waits timeout start interval c b) (hreads : Reads now c)
    {c₁ c₂ : List Done} {orphans : List String} (hc : c = c₁ ++ ⟨.check, .ok orphans⟩ :: c₂) :
    now + elapsed c₁ - start < timeout := by
  induction h generalizing now c₁ with
  | expired _ =>
    rcases c₁ with _ | ⟨e, c₁⟩ <;> simp at hc
  | @empty interval q hq =>
    have hnow : q = now := hreads.1 q rfl
    rcases c₁ with _ | ⟨e, _ | ⟨e', c₁⟩⟩ <;> simp at hc
    obtain ⟨rfl, -, -⟩ := hc
    simpa [elapsed, sleepOf, hnow] using hq
  | @again interval q os c b hq _ _ ih =>
    have hnow : q = now := hreads.1 q rfl
    rcases c₁ with _ | ⟨e, _ | ⟨e', _ | ⟨e'', c₁⟩⟩⟩ <;> simp at hc
    · obtain ⟨rfl, -, -⟩ := hc
      simpa [elapsed, sleepOf, hnow] using hq
    · obtain ⟨rfl, rfl, rfl, hc⟩ := hc
      have ih := ih hreads.2.2.2 hc
      simp only [elapsed, sleepOf, Option.getD_none, Option.getD_some] at ih ⊢
      linarith

/-- A wait returns true if a poll found the slice empty, and stops there. -/
theorem Waits.stops (h : Waits timeout start interval c b) {c₁ c₂ : List Done}
    (hc : c = c₁ ++ ⟨.check, .ok []⟩ :: c₂) :
    b = true ∧ [] ∉ c₁.filterMap foundOf ∧ c₂ = [] := by
  induction h generalizing c₁ with
  | expired _ =>
    rcases c₁ with _ | ⟨e, c₁⟩ <;> simp at hc
  | empty _ =>
    rcases c₁ with _ | ⟨e, _ | ⟨e', c₁⟩⟩ <;> simp at hc
    obtain ⟨rfl, rfl⟩ := hc
    exact ⟨rfl, by simp [foundOf], rfl⟩
  | @again interval q os c b _ hne _ ih =>
    rcases c₁ with _ | ⟨e, _ | ⟨e', _ | ⟨e'', c₁⟩⟩⟩ <;> simp at hc
    · exact absurd hc.2.1 hne
    · obtain ⟨rfl, rfl, rfl, hc⟩ := hc
      obtain ⟨hb, hnot, hend⟩ := ih hc
      refine ⟨hb, ?_, hend⟩
      intro hmem
      have hmem : [] = os ∨ [] ∈ c₁.filterMap foundOf := List.mem_cons.mp hmem
      rcases hmem with h | h
      · exact hne h.symm
      · exact hnot h

/-- A wait that returns true has found the slice empty. -/
theorem Waits.found (h : Waits timeout start interval c true) : [] ∈ c.filterMap foundOf := by
  have hlast := h.lastCheck rfl
  exact List.mem_of_getLast? hlast

/-- A wait that times out does so less than half a second late. -/
theorem Waits.overshoot (h : Waits timeout start interval c b) (hcap : interval ≤ 1 / 2)
    (hreads : Reads now c) (hnow : now - start < timeout + 1 / 2) (hb : b = false) :
    timeout ≤ now + elapsed c - start ∧ now + elapsed c - start < timeout + 1 / 2 := by
  induction h generalizing now with
  | @expired interval q hq =>
    have hq' : q = now := hreads.1 q rfl
    simp only [elapsed, sleepOf, Option.getD_none]
    constructor <;> linarith
  | empty _ => cases hb
  | @again interval q os c b hq _ _ ih =>
    have hq' : q = now := hreads.1 q rfl
    have ih := ih (min_le_right _ _) hreads.2.2.2
      (by simp only [sleepOf, Option.getD_none, Option.getD_some]; linarith) hb
    simp only [elapsed, sleepOf, Option.getD_none, Option.getD_some] at ih ⊢
    constructor <;> linarith

theorem Waits.in_time (h : Waits timeout start interval c b) (hreads : Reads now c)
    (hb : b = true) : now + elapsed c - start < timeout := by
  induction h generalizing now with
  | expired _ => cases hb
  | @empty interval q hq =>
    have hq' : q = now := hreads.1 q rfl
    simp only [elapsed, sleepOf, Option.getD_none]
    linarith
  | @again interval q os c b _ _ _ ih =>
    have ih := ih hreads.2.2.2 hb
    simp only [elapsed, sleepOf, Option.getD_none, Option.getD_some] at ih ⊢
    linarith

/-- The polls before the deadline, a sleep of 1/100 s or more apart. -/
theorem Waits.polls (h : Waits timeout start interval c b) (hlo : 1 / 100 ≤ interval)
    (hcap : interval ≤ 1 / 2) (hreads : Reads now c) : c.filterMap foundOf = [] ∨
      ((c.filterMap foundOf).length : ℚ) < 100 * (timeout - (now - start)) + 1 := by
  induction h generalizing now with
  | expired _ => exact .inl rfl
  | @empty interval q hq =>
    have hq' : q = now := hreads.1 q rfl
    right
    simp only [List.filterMap_cons, foundOf, List.filterMap_nil, List.length_singleton, Nat.cast_one]
    linarith
  | @again interval q os c b hq _ _ ih =>
    have hq' : q = now := hreads.1 q rfl
    have hle := le_next (by linarith) hcap
    have ih := ih (le_trans hlo hle) (min_le_right _ _) hreads.2.2.2
    right
    have hlen : ((⟨.time, q⟩ :: ⟨.check, .ok os⟩ :: ⟨.sleep interval, ()⟩ :: c : List Done).filterMap
        foundOf).length = (c.filterMap foundOf).length + 1 := rfl
    rw [hlen]
    push_cast
    rcases ih with hnil | hlt
    · rw [hnil]
      simp only [List.length_nil, Nat.cast_zero]
      linarith
    · simp only [sleepOf, Option.getD_none, Option.getD_some] at hlt
      linarith

end Waits

/-! ### The cleanup -/

section Cleanup

variable {self : PAMHelper} {signal : String} {now : ℚ} {c : List Done}

/-- A round takes less than the grace time and half a second. -/
theorem Round.elapsed_lt {r : Except Exn Bool} (h : Round self signal c r) (hreads : Reads now c)
    (hgrace : 0 ≤ self.killGraceTime) : elapsed c < self.killGraceTime + 1 / 2 := by
  cases h with
  | relative _ =>
    simp only [elapsed]
    linarith
  | failed _ =>
    simp only [elapsed, sleepOf, Option.getD_none]
    linarith
  | @waited out start c b _ hw =>
    have hstart : start = now := by
      have := hreads.2.1 start rfl
      simpa [sleepOf] using this
    have hreads' : Reads now c := by
      have := hreads.2.2
      simpa [sleepOf] using this
    have hlt : now + elapsed c - start < self.killGraceTime + 1 / 2 := by
      cases b with
      | true =>
        have := hw.in_time hreads' rfl
        linarith
      | false => exact (hw.overshoot (by norm_num) hreads' (by linarith) rfl).2
    simp only [elapsed, sleepOf, Option.getD_none]
    linarith

theorem Cleanup.elapsed_lt {r : Except Exn Unit} (h : Cleanup self c r) (hreads : Reads now c)
    (hgrace : 0 ≤ self.killGraceTime) : elapsed c < 2 * self.killGraceTime + 1 := by
  cases h with
  | clean =>
    simp only [elapsed, sleepOf, Option.getD_none]
    linarith
  | @term orphans c r _ hround _ =>
    have := hround.elapsed_lt hreads.2 hgrace
    simp only [elapsed, sleepOf, Option.getD_none]
    linarith
  | @kill orphans c remaining c' r _ hround hround' _ =>
    obtain ⟨hreads₁, hreads₂⟩ := reads_append.mp hreads.2
    have h₁ := hround.elapsed_lt hreads₁ hgrace
    have h₂ := hround'.elapsed_lt hreads₂.2 hgrace
    simp only [elapsed, elapsed_append, sleepOf, Option.getD_none]
    linarith
  | @remain orphans c remaining c' finalOrphans _ hround hround' =>
    obtain ⟨hreads₁, hreads₂⟩ := reads_append.mp hreads.2
    obtain ⟨hreads₃, -⟩ := reads_append.mp hreads₂.2
    have h₁ := hround.elapsed_lt hreads₁ hgrace
    have h₂ := hround'.elapsed_lt hreads₃ hgrace
    simp only [elapsed, elapsed_append, sleepOf, Option.getD_none]
    linarith

end Cleanup

/-! ### The loops end -/

section Ends

variable {self : PAMHelper} {σ : Type} {clock : σ → ℚ} {exec : σ → (d : Deed) → d.Res → σ → Prop}

/-- With fuel for a poll every 1/100 s up to the deadline the loop ends. -/
theorem safe_waitLoop (hclock : DeedClock exec clock) {timeout start : ℚ} : ∀ {fuel : ℕ}
    {interval : ℚ} {s : σ}, 1 / 100 ≤ interval → interval ≤ 1 / 2 →
      timeout - (clock s - start) ≤ fuel / 100 →
        Safe exec (· = .stuck) (fun _ _ => True) s
          (Deeds.waitLoop timeout start (fuel + 1) interval).run := by
  intro fuel
  induction fuel with
  | zero =>
    intro interval s hlo hcap hfuel
    unfold Deeds.waitLoop
    refine ⟨by simp, fun q s₁ he => ?_⟩
    have hq := (hclock _ _ _ _ he).1 q rfl
    have hpast : ¬ q - start < timeout := by
      rw [hq]
      simp only [Nat.cast_zero, zero_div] at hfuel
      linarith
    change Safe _ _ _ _ (ExceptT.run (if q - start < timeout then _ else _))
    rw [if_neg hpast]
    trivial
  | succ fuel ih =>
    intro interval s hlo hcap hfuel
    unfold Deeds.waitLoop
    refine ⟨by simp, fun q s₁ he => ?_⟩
    have hnow := (hclock _ _ _ _ he).2
    change Safe _ _ _ _ (ExceptT.run (if q - start < timeout then _ else _))
    by_cases hq : q - start < timeout
    · rw [if_pos hq]
      refine ⟨by simp, fun r s₂ he₂ => ?_⟩
      have hnow₂ := (hclock _ _ _ _ he₂).2
      cases r with
      | error e => trivial
      | ok orphans =>
        change Safe _ _ _ _ (ExceptT.run (if orphans = [] then _ else _))
        by_cases ho : orphans = []
        · rw [if_pos ho]
          trivial
        · rw [if_neg ho]
          refine ⟨by simp, fun r s₃ he₃ => ?_⟩
          have hnow₃ := (hclock _ _ _ _ he₃).2
          have hle := le_next (le_trans (by norm_num) hlo) hcap
          apply ih (le_trans hlo hle) (min_le_right _ _)
          simp only [sleepOf, Option.getD_none, Option.getD_some] at hnow hnow₂ hnow₃
          push_cast at hfuel
          linarith
    · rw [if_neg hq]
      trivial

/-- Nothing is asked of what the first part returns. -/
theorem safe_then {α β : Type} {s : σ} {bad : Deed → Prop} {x : Deeds α} {f : α → Deeds β}
    (hx : Safe exec bad (fun _ _ => True) s x.run)
    (hf : ∀ a s, Safe exec bad (fun _ _ => True) s (f a).run) :
    Safe exec bad (fun _ _ => True) s (x >>= f).run := by
  refine safe_exceptBind.mpr (hx.mono fun r s _ => ?_)
  cases r with
  | ok a => exact hf a s
  | error e => trivial

theorem safe_check {s : σ} : Safe exec (· = .stuck) (fun _ _ => True) s Deeds.check.run :=
  ⟨nofun, fun _ _ _ => trivial⟩

theorem safe_waitForSliceEmpty (hclock : DeedClock exec clock) {timeout : ℚ} {fuel : ℕ}
    (hfuel : timeout ≤ fuel / 100) (s : σ) : Safe exec (· = .stuck) (fun _ _ => True) s
      (Deeds.waitForSliceEmpty (fuel + 1) timeout).run := by
  unfold Deeds.waitForSliceEmpty
  refine ⟨nofun, fun start s₁ he => ?_⟩
  obtain ⟨hstart, hnow⟩ := hclock _ _ _ _ he
  have hstart := hstart start rfl
  apply safe_waitLoop hclock (le_refl _) (by norm_num)
  simp only [sleepOf, Option.getD_none] at hnow
  linarith

theorem safe_killSliceProcesses {signal : String} {s : σ} :
    Safe exec (· = .stuck) (fun _ _ => True) s (Deeds.killSliceProcesses self signal).run := by
  unfold Deeds.killSliceProcesses Deeds.systemctl
  by_cases habs : isabs self.systemctl = true
  · rw [if_pos habs]
    refine ⟨nofun, fun r _ _ => ?_⟩
    cases r <;> trivial
  · rw [if_neg habs]
    trivial

theorem safe_cleanupUserSlice (hclock : DeedClock exec clock) {fuel : ℕ}
    (hfuel : self.killGraceTime ≤ fuel / 100) (s : σ) : Safe exec (· = .stuck) (fun _ _ => True) s
      (Deeds.cleanupUserSlice self (fuel + 1)).run := by
  have hite : ∀ {c : Prop} [Decidable c] {y : Deeds Unit} {s : σ},
      Safe exec (· = .stuck) (fun _ _ => True) s y.run →
        Safe exec (· = .stuck) (fun _ _ => True) s (if c then pure () else y : Deeds Unit).run := by
    intro c _ y s hy
    by_cases h : c
    · rw [if_pos h]
      trivial
    · rw [if_neg h]
      exact hy
  have hwait := safe_waitForSliceEmpty hclock hfuel
  unfold Deeds.cleanupUserSlice
  refine safe_then safe_check fun orphans s => hite ?_
  refine safe_then safe_killSliceProcesses fun _ s => ?_
  refine safe_then (hwait s) fun b s => hite ?_
  refine safe_then safe_check fun _ s => ?_
  refine safe_then safe_killSliceProcesses fun _ s => ?_
  refine safe_then (hwait s) fun b s => hite ?_
  exact safe_then safe_check fun _ s => trivial

/-- Every deed but `stuck` is done by code that does not get stuck. -/
theorem safe_deed {exec : σ → (o : Op) → Res o → σ → Prop} (s : σ) (d : Deed) (hd : ¬ d = .stuck) :
    Safe exec (· = .stuck) (fun _ _ => True) s (self.deed d) := by
  have hlook : ∀ o, looks o → ¬ o = .stuck := by
    intro o ho h
    subst h
    exact ho
  cases d with
  | check => exact (Safe.of_keeps (I := fun _ => True) hlook (fun _ _ _ _ _ _ _ => trivial)
      keeps_checkOrphanProcesses trivial).mono fun _ _ _ => trivial
  | stuck => exact absurd rfl hd
  | _ => exact ⟨nofun, fun _ _ _ => trivial⟩

end Ends

/-! ### The bound -/

/-- What a wait does: the intervals it sleeps, when it polls, what it returns and
how long it takes. -/
structure Backoff (timeout : ℚ) (c : List Done) (b : Bool) : Prop where
  intervals : ∀ d ∈ sleeps c, 1 / 100 ≤ d ∧ d ≤ 1 / 2
  sorted : (sleeps c).Pairwise (· ≤ ·)
  early : ∀ c₁ orphans c₂, c = c₁ ++ ⟨.check, .ok orphans⟩ :: c₂ → elapsed c₁ < timeout
  found : b = true ↔ [] ∈ c.filterMap foundOf
  stops : ∀ c₁ c₂, c = c₁ ++ ⟨.check, .ok []⟩ :: c₂ → [] ∉ c₁.filterMap foundOf ∧ c₂ = []
  expired : b = false → timeout ≤ elapsed c ∧ elapsed c < timeout + 1 / 2

theorem Waits.backoff {timeout now : ℚ} {c : List Done} {b : Bool} (htimeout : 0 ≤ timeout)
    (h : Waits timeout now (1 / 100) c b) (hreads : Reads now c) :
    Backoff timeout (⟨.time, now⟩ :: c) b := by
  have helapsed : ∀ c : List Done, elapsed (⟨.time, now⟩ :: c) = elapsed c := fun c => zero_add _
  have hsplit : ∀ {c₁ c₂ : List Done} {r : Except Exn (List String)},
      ⟨.time, now⟩ :: c = c₁ ++ ⟨.check, r⟩ :: c₂ →
        ∃ c₃, c₁ = ⟨.time, now⟩ :: c₃ ∧ c = c₃ ++ ⟨.check, r⟩ :: c₂ := by
    intro c₁ c₂ r hc
    cases c₁ with
    | nil => simp at hc
    | cons e c₃ =>
      obtain ⟨rfl, htail⟩ := List.cons.inj hc
      exact ⟨c₃, rfl, htail⟩
  constructor
  case intervals => exact h.mem_sleeps (by norm_num) (by norm_num)
  case sorted => exact h.sorted_sleeps (by norm_num) (by norm_num)
  case early =>
    intro c₁ orphans c₂ hc
    obtain ⟨c₃, rfl, hc₃⟩ := hsplit hc
    have := h.early hreads hc₃
    rw [helapsed]
    linarith
  case found =>
    constructor
    · intro hb
      subst hb
      exact h.found
    · intro hmem
      have hmem' : [] ∈ c.filterMap foundOf := hmem
      obtain ⟨e, he, hfound⟩ := List.mem_filterMap.mp hmem'
      obtain ⟨c₁, c₂, hsplit⟩ := List.append_of_mem he
      have hcheck : e = ⟨.check, .ok []⟩ := by
        rcases e with ⟨d, r⟩
        cases d <;> simp [foundOf] at hfound
        cases r <;> simp at hfound
        rw [hfound]
      rw [hcheck] at hsplit
      exact (h.stops hsplit).1
  case stops =>
    intro c₁ c₂ hc
    obtain ⟨c₃, rfl, hc₃⟩ := hsplit hc
    exact (h.stops hc₃).2
  case expired =>
    intro hb
    have hover := h.overshoot (by norm_num) hreads (by linarith) hb
    rw [helapsed]
    constructor <;> linarith

/-- **The backoff wait is bounded.** -/
theorem backoff_bounded (timeout : ℚ) (htimeout : 0 ≤ timeout) : ∃ N : ℕ, ∀ (self : PAMHelper)
    (σ : Type) (exec : σ → (o : Op) → Res o → σ → Prop) (clock : σ → ℚ) (fuel : ℕ),
      (∀ w r w', ¬ exec w .stuck r w') → ExactClock exec clock → N ≤ fuel →
        (∀ w, Safe exec (· = .stuck) (fun _ _ => True) w (self.waitForSliceEmpty fuel timeout).run) ∧
        (∀ w t r w' c, Runs exec (self.waitForSliceEmpty fuel timeout).run w t r w' →
          Spells self.deed t c → ∃ b, r = .ok b ∧ Backoff timeout c b ∧
            clock w' - clock w = elapsed c ∧ (c.filterMap foundOf).length ≤ N) ∧
        (self.killGraceTime = timeout → ∀ w,
          Safe exec (· = .stuck) (fun _ _ => True) w (self.cleanupUserSlice fuel).run ∧
            ∀ t r w', Runs exec (self.cleanupUserSlice fuel).run w t r w' →
              clock w' - clock w < 2 * timeout + 1) := by
  obtain ⟨n, hn⟩ := exists_nat_ge (100 * timeout)
  refine ⟨n + 1, fun self σ exec clock fuel hstuck hexact hfuel => ?_⟩
  obtain ⟨m, rfl⟩ := Nat.exists_eq_add_of_le' hfuel
  have hclock := deedClock hexact self
  have hm : timeout ≤ (m + n : ℕ) / 100 := by
    have hcast : (0 : ℚ) ≤ m := Nat.cast_nonneg m
    push_cast
    linarith
  refine ⟨fun w => ?_, ?_, ?_⟩
  · have hsafe := safe_waitForSliceEmpty hclock hm w
    rw [← expand_waitForSliceEmpty]
    exact hsafe.expand safe_deed
  · intro w t r w' c hruns hspells
    obtain ⟨c', hdeeds, hspells'⟩ := runs_deeds (expand_waitForSliceEmpty self _ timeout) hruns
    obtain rfl : c = c' := deeds_unique hspells hspells'
    obtain ⟨hreads, hend⟩ := runs_reads hclock hdeeds
    obtain ⟨start, s₁, c₁, -, hc, hloop⟩ := runs_time.mp hdeeds
    subst hc
    have hstart : start = clock w := hreads.1 start rfl
    obtain ⟨b, rfl, hw⟩ := waits_of_runs (answering hstuck) hloop
    have hreads₁ : Reads start c₁ := by
      have := hreads.2
      rw [hstart]
      simpa [sleepOf] using this
    refine ⟨b, rfl, hw.backoff htimeout hreads₁, by rw [hend]; ring, ?_⟩
    rcases hw.polls (le_refl _) (by norm_num) hreads₁ with hnil | hlt
    · have : (⟨.time, start⟩ :: c₁ : List Done).filterMap foundOf = [] := hnil
      rw [this]
      exact Nat.zero_le _
    · have hlen : (((c₁.filterMap foundOf).length : ℕ) : ℚ) ≤ ((n + 1 : ℕ) : ℚ) := by
        push_cast
        linarith
      exact_mod_cast hlen
  · intro hgrace w
    subst hgrace
    have hsafe := safe_cleanupUserSlice hclock hm w
    rw [← expand_cleanupUserSlice]
    refine ⟨hsafe.expand safe_deed, fun t r w' hruns => ?_⟩
    obtain ⟨c, hdeeds, -⟩ := runs_expand hruns
    obtain ⟨hreads, hend⟩ := runs_reads hclock hdeeds
    have hlt := (cleanup_of_runs (answering hstuck) hdeeds).elapsed_lt hreads htimeout
    rw [hend]
    linarith

/-- A world whose state is its clock and that gives any answer. -/
def ticking : ℚ → (o : Op) → Res o → ℚ → Prop
  | now, .time, q, now' => q = now ∧ now' = now
  | now, .sleep d, _, now' => now' = now + d
  | _, .stuck, _, _ => False
  | now, _, _, now' => now' = now

theorem ticking_exact : ExactClock ticking id where
  time _ _ _ h := h.1
  sleep _ _ _ _ h := h
  other now o r now' ho h := by
    cases o with
    | time => exact h.2
    | sleep d => exact absurd rfl (ho d)
    | stuck => exact h.elim
    | _ => exact h

/-- A process is still there at the first poll and at the deadline. -/
theorem backoff_bounded_ticking : ∃ N : ℕ,
    (∀ w, Safe ticking (· = .stuck) (fun _ _ => True) w
      (PAMHelper.brief.waitForSliceEmpty (N + 2) (1 / 100)).run) ∧
    (∃ t, Runs ticking (PAMHelper.brief.waitForSliceEmpty (N + 2) (1 / 100)).run 0 t (.ok false)
        (1 / 100) ∧
      Backoff (1 / 100) [⟨.time, 0⟩, ⟨.time, 0⟩, ⟨.check, .ok oneLeft⟩, ⟨.sleep (1 / 100), ()⟩,
        ⟨.time, 1 / 100⟩] false) ∧
    ∀ w t r w', Runs ticking (PAMHelper.brief.cleanupUserSlice (N + 2)).run w t r w' →
      w' - w < 2 * (1 / 100) + 1 := by
  obtain ⟨N, h⟩ := backoff_bounded (1 / 100) (by norm_num)
  obtain ⟨hends, hwaits, hcleanup⟩ :=
    h .brief ℚ ticking id (N + 2) (fun _ _ _ h => h) ticking_exact (Nat.le_add_right N 2)
  have hcheck : Traces (PAMHelper.brief.deed .check)
      [⟨.pathExists (slicePath 1000), true⟩, ⟨.walk (slicePath 1000), ["/s"]⟩,
        ⟨.pathExists "/s/cgroup.procs", true⟩, ⟨.readLines "/s/cgroup.procs", .ok ["1"]⟩]
      (.ok oneLeft) := traces_of_script (n := 5) rfl
  have htime : ∀ q : ℚ, Traces (PAMHelper.brief.deed .time) [⟨.time, q⟩] q :=
    fun q => traces_perform.mpr rfl
  have hsleep : Traces (PAMHelper.brief.deed (.sleep (1 / 100))) [⟨.sleep (1 / 100), ()⟩] () :=
    traces_perform.mpr rfl
  have hspells : Spells PAMHelper.brief.deed _ [⟨.time, 0⟩, ⟨.time, 0⟩, ⟨.check, .ok oneLeft⟩,
      ⟨.sleep (1 / 100), ()⟩, ⟨.time, 1 / 100⟩] :=
    .cons (htime 0) (.cons (htime 0) (.cons hcheck (.cons hsleep (.cons (htime _) .nil))))
  have htrace : Traces (PAMHelper.brief.waitForSliceEmpty (N + 2) (1 / 100)).run
      [⟨.time, 0⟩, ⟨.time, 0⟩, ⟨.pathExists (slicePath 1000), true⟩, ⟨.walk (slicePath 1000), ["/s"]⟩,
        ⟨.pathExists "/s/cgroup.procs", true⟩, ⟨.readLines "/s/cgroup.procs", .ok ["1"]⟩,
        ⟨.sleep (1 / 100), ()⟩, ⟨.time, 1 / 100⟩] (.ok false) :=
    traces_of_script (n := 10) (by with_unfolding_all rfl)
  have hruns : Runs ticking _ 0 _ _ (1 / 100) := htrace.runs (by simp [Happens, ticking])
  obtain ⟨b, hb, hbackoff, -⟩ := hwaits 0 _ _ _ _ hruns hspells
  cases hb
  exact ⟨N, hends, ⟨_, hruns, hbackoff⟩, fun w t r w' hr => (hcleanup rfl w).2 t r w' hr⟩

end FluxPam
