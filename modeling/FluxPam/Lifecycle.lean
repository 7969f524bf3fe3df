/-
# The jobs' lives, and what a move may change

`Timeline` is what Flux's promises make of the order of a job's reports, its
prolog and its housekeeping. The other lemmas say once, for every notion the
properties are about, how a move may change it: which job listings are still
in use (`Listed.of_move`), which jobs are reported (`running_of_move`), and
what becomes of the marker and the slice (`Move.change`).
-/
import FluxPam.Discipline

namespace FluxPam

open Interaction

namespace UserState

/-- A live process runs the task. -/
def Live (s : UserState) (n : ℕ) (t : Task) : Prop := ∃ φ, s.phases n = some (t, φ)

/-- Some live process satisfies `P`. -/
def Has (s : UserState) (P : ℕ → Task → Phase → Prop) : Prop :=
  ∃ n t φ, s.phases n = some (t, φ) ∧ P n t φ

/-- The process has the lock and was told of these other jobs. -/
def Listed (s : UserState) (n : ℕ) (t : Task) (others : List ℕ) : Prop :=
  s.Has fun m t' φ => m = n ∧ t' = t ∧ φ.hold = .held ∧ φ.others = some others

end UserState

/-- The order in which things happen to a job. -/
structure Timeline (C : Contract) (s : UserState) : Prop where
  ended : ∀ j, s.ctl.ended j = true → s.ctl.running j = false
  reported : ∀ j, s.ctl.running j = true → s.ctl.reported j = true
  afterwards : C.afterwards → ∀ j, s.ctl.begun j = true → s.ctl.ended j = true
  -- prologs
  listed : ∀ n j fuel, s.Live n (.prolog j fuel) → s.ctl.prologOf n = some j
  started : C.reported → ∀ n j fuel, s.Live n (.prolog j fuel) → s.ctl.reported j = true
  steady : C.reported → C.steady → ∀ n j fuel, s.Live n (.prolog j fuel) →
    s.ctl.running j = true ∨ s.ctl.ended j = true
  kept : C.reported → C.steady → ∀ j, s.ctl.prologOk j = true →
    s.ctl.running j = true ∨ s.ctl.ended j = true
  sequential : C.sequential → ∀ n j fuel, s.Live n (.prolog j fuel) → s.ctl.begun j = false
  -- housekeepings
  begun : ∀ n j fuel, s.Live n (.housekeeping j fuel) → s.ctl.begun j = true
  cleaned : ∀ j, s.ctl.hkOk j = true → s.ctl.begun j = true

variable {K : Setting} {C : Contract} {u n m j : ℕ} {t t' : Task} {φ φ' : Phase} {c : Control}
  {s s' : UserState} {others : List ℕ}

/-! ### Live processes -/

theorem live_put {t₀ : Task} {φ₀ : Phase} (hp : s.phases n = some (t, φ₀)) :
    (s.put n t φ c).Live m t₀ → s.Live m t₀ := by
  rintro ⟨φ', h⟩
  by_cases hm : m = n
  · subst hm
    rw [UserState.put_self] at h
    cases h
    exact ⟨φ₀, hp⟩
  · rw [UserState.put_ne hm] at h
    exact ⟨φ', h⟩

theorem live_start {t₀ : Task} : (s.put n t φ c).Live m t₀ → m = n ∧ t₀ = t ∨ m ≠ n ∧ s.Live m t₀ := by
  rintro ⟨φ', h⟩
  by_cases hm : m = n
  · subst hm
    rw [UserState.put_self] at h
    cases h
    exact .inl ⟨rfl, rfl⟩
  · rw [UserState.put_ne hm] at h
    exact .inr ⟨hm, φ', h⟩

theorem live_drop {t₀ : Task} : (s.drop n c).Live m t₀ → m ≠ n ∧ s.Live m t₀ := by
  rintro ⟨φ', h⟩
  by_cases hm : m = n
  · subst hm
    rw [UserState.drop_self] at h
    cases h
  · rw [UserState.drop_ne hm] at h
    exact ⟨hm, φ', h⟩

variable {P : ℕ → Task → Phase → Prop}

theorem has_put (h : (s.put n t φ c).Has P) : s.Has P ∨ P n t φ := by
  obtain ⟨m, t', φ', h, hP⟩ := h
  by_cases hm : m = n
  · subst hm
    rw [UserState.put_self] at h
    cases h
    exact .inr hP
  · rw [UserState.put_ne hm] at h
    exact .inl ⟨m, t', φ', h, hP⟩

/-- A process that moves on satisfied `P` before. -/
theorem has_next (hp : s.phases n = some (t, φ)) (h : (s.put n t φ' c).Has P)
    (hP : P n t φ' → P n t φ) : s.Has P :=
  (has_put h).elim id fun h' => ⟨n, t, φ, hp, hP h'⟩

theorem has_drop (h : (s.drop n c).Has P) : s.Has P := by
  obtain ⟨m, t', φ', h, hP⟩ := h
  by_cases hm : m = n
  · subst hm
    rw [UserState.drop_self] at h
    cases h
  · rw [UserState.drop_ne hm] at h
    exact ⟨m, t', φ', h, hP⟩

/-! ### The order of events -/

/-- A move that starts no process, ends no job and leaves its history alone. -/
theorem Timeline.congr (h : Timeline C s)
    (hl : ∀ m t j, t.job = some j → s'.Live m t → s.Live m t)
    (hr : s'.ctl.running = s.ctl.running) (he : s'.ctl.ended = s.ctl.ended)
    (hrep : s'.ctl.reported = s.ctl.reported) (hb : s'.ctl.begun = s.ctl.begun)
    (hpo : s'.ctl.prologOk = s.ctl.prologOk) (hk : s'.ctl.hkOk = s.ctl.hkOk)
    (ho : ∀ m t, s'.Live m t → s'.ctl.prologOf m = s.ctl.prologOf m) :
    Timeline C s' where
  ended := by rw [hr, he]; exact h.ended
  reported := by rw [hr, hrep]; exact h.reported
  afterwards := by rw [hb, he]; exact h.afterwards
  listed n j fuel hn := (ho n _ hn).trans (h.listed n j fuel (hl n _ j rfl hn))
  started hC n j fuel hn := by rw [hrep]; exact h.started hC n j fuel (hl n _ j rfl hn)
  steady hC hS n j fuel hn := by rw [hr, he]; exact h.steady hC hS n j fuel (hl n _ j rfl hn)
  kept := by rw [hr, he, hpo]; exact h.kept
  sequential hC n j fuel hn := by rw [hb]; exact h.sequential hC n j fuel (hl n _ j rfl hn)
  begun n j fuel hn := by rw [hb]; exact h.begun n j fuel (hl n _ j rfl hn)
  cleaned := by rw [hb, hk]; exact h.cleaned

/-- A process moves on. -/
theorem Timeline.put (h : Timeline C s) {φ₀ : Phase} (hp : s.phases n = some (t, φ₀))
    (hr : c.running = s.ctl.running) (he : c.ended = s.ctl.ended)
    (hrep : c.reported = s.ctl.reported) (hb : c.begun = s.ctl.begun)
    (hpo : c.prologOk = s.ctl.prologOk) (hk : c.hkOk = s.ctl.hkOk)
    (ho : c.prologOf = s.ctl.prologOf) : Timeline C (s.put n t φ c) :=
  h.congr (fun _ _ _ _ => live_put hp) hr he hrep hb hpo hk fun m _ _ => by
    rw [show (s.put n t φ c).ctl.prologOf = s.ctl.prologOf from ho]

theorem update_true_iff {f : ℕ → Bool} {i : ℕ} :
    Function.update f j true i = true ↔ i = j ∨ f i = true := by
  by_cases h : i = j
  · subst h
    simp
  · simp [h]

theorem update_false_iff {f : ℕ → Bool} {i : ℕ} :
    Function.update f j false i = true ↔ i ≠ j ∧ f i = true := by
  by_cases h : i = j
  · subst h
    simp
  · simp [h]

theorem Timeline.move (h : Timeline C s) (hm : Move K C u s s') : Timeline C s' := by
  cases hm with
  | idle => exact h
  | @startProlog n j fuel hp hr hs =>
    refine { h with
      listed := fun m i f hl => ?_
      started := fun hC m i f hl => ?_
      steady := fun hC hS m i f hl => ?_
      sequential := fun hC m i f hl => ?_
      begun := fun m i f hl => ?_ }
    all_goals rcases live_start hl with ⟨rfl, ht⟩ | ⟨hne, hl⟩
    · cases ht
      exact Function.update_self ..
    · exact (Function.update_of_ne hne ..).trans (h.listed m i f hl)
    · cases ht
      exact h.reported _ (hr hC)
    · exact h.started hC m i f hl
    · cases ht
      exact .inl (hr hC)
    · exact h.steady hC hS m i f hl
    · cases ht
      exact hs hC
    · exact h.sequential hC m i f hl
    · cases ht
    · exact h.begun m i f hl
  | @startHousekeeping n j fuel hp ho hs =>
    refine { h with
      afterwards := fun hC i hb => ?_
      listed := fun m i f hl => ?_
      started := fun hC m i f hl => ?_
      steady := fun hC hS m i f hl => ?_
      sequential := fun hC m i f hl => ?_
      begun := fun m i f hl => update_true_iff.mpr ?_
      cleaned := fun i hk => update_true_iff.mpr (.inr (h.cleaned i hk)) }
    · rcases update_true_iff.mp hb with rfl | hb
      · exact ho hC
      · exact h.afterwards hC i hb
    all_goals rcases live_start hl with ⟨rfl, ht⟩ | ⟨hne, hl⟩
    · cases ht
    · exact h.listed m i f hl
    · cases ht
    · exact h.started hC m i f hl
    · cases ht
    · exact h.steady hC hS m i f hl
    · cases ht
    · -- the prolog still runs, so it is not that of this job
      have hij : i ≠ j := fun hij => hs hC m (hij ▸ h.listed m i f hl)
      exact (Function.update_of_ne hij ..).trans (h.sequential hC m i f hl)
    · cases ht
      exact .inl rfl
    · exact .inr (h.begun m i f hl)
  | @startSession n argv hp =>
    refine h.congr (fun m t j ht hl => ?_) rfl rfl rfl rfl rfl rfl fun _ _ _ => rfl
    rcases live_start hl with ⟨-, rfl⟩ | ⟨-, hl⟩
    · cases ht
    · exact hl
  | @finishProlog n j fuel φ a hp hpost =>
    have hc : Timeline C (s.drop n { s.ctl.unlock ⟨u, n⟩ with
        prologOf := Function.update s.ctl.prologOf n none }) :=
      h.congr (fun m t _ _ hl => (live_drop hl).2) rfl rfl rfl rfl rfl rfl
        fun m t hl => Function.update_of_ne (live_drop hl).1 ..
    refine { hc with kept := fun hC hS i hi => ?_ }
    split at hi
    · rcases update_true_iff.mp hi with rfl | hi
      · exact h.steady hC hS n i fuel ⟨φ, hp⟩
      · exact h.kept hC hS i hi
    · exact h.kept hC hS i hi
  | @finishHousekeeping n j fuel φ a hp hpost =>
    have hc : Timeline C (s.drop n (s.ctl.unlock ⟨u, n⟩)) :=
      h.congr (fun m t _ _ hl => (live_drop hl).2) rfl rfl rfl rfl rfl rfl fun _ _ _ => rfl
    refine { hc with cleaned := fun i hi => ?_ }
    split at hi
    · rcases update_true_iff.mp hi with rfl | hi
      · exact h.begun n i fuel ⟨φ, hp⟩
      · exact h.cleaned i hi
    · exact h.cleaned i hi
  | @finishSession n argv φ a hp hpost =>
    exact h.congr (fun m t _ _ hl => (live_drop hl).2) rfl rfl rfl rfl rfl rfl fun _ _ _ => rfl
  | @kill n t φ hp =>
    exact h.congr (fun m t _ _ hl => (live_drop hl).2) rfl rfl rfl rfl rfl rfl
      fun m t hl => Function.update_of_ne (live_drop hl).1 ..
  | @report j he =>
    refine { h with
      ended := fun i hi => ?_
      reported := fun i hi => update_true_iff.mpr ((update_true_iff.mp hi).imp_right (h.reported i))
      started := fun hC n i f hl => update_true_iff.mpr (.inr (h.started hC n i f hl))
      steady := fun hC hS n i f hl =>
        (h.steady hC hS n i f hl).imp_left fun hr => update_true_iff.mpr (.inr hr)
      kept := fun hC hS i hi => (h.kept hC hS i hi).imp_left fun hr => update_true_iff.mpr (.inr hr) }
    have hij : i ≠ j := by
      rintro rfl
      rw [show s.ctl.ended i = true from hi] at he
      cases he
    exact (Function.update_of_ne hij ..).trans (h.ended i hi)
  | @unreport j hs =>
    refine { h with
      ended := fun i hi => Bool.eq_false_iff.mpr fun hr => ?_
      reported := fun i hi => h.reported i (update_false_iff.mp hi).2
      steady := fun _ hS => absurd hS hs
      kept := fun _ hS => absurd hS hs }
    have hr := (update_false_iff.mp hr).2
    rw [h.ended i hi] at hr
    cases hr
  | @endJob j =>
    have hor : ∀ i, s.ctl.running i = true ∨ s.ctl.ended i = true →
        Function.update s.ctl.running j false i = true ∨ Function.update s.ctl.ended j true i = true := by
      intro i hi
      by_cases hij : i = j
      · exact .inr (update_true_iff.mpr (.inl hij))
      · exact hi.imp (fun hr => update_false_iff.mpr ⟨hij, hr⟩) fun he => update_true_iff.mpr (.inr he)
    refine { h with
      ended := fun i hi => Bool.eq_false_iff.mpr fun hr => ?_
      reported := fun i hi => h.reported i (update_false_iff.mp hi).2
      afterwards := fun hC i hi => update_true_iff.mpr (.inr (h.afterwards hC i hi))
      steady := fun hC hS n i f hl => hor i (h.steady hC hS n i f hl)
      kept := fun hC hS i hi => hor i (h.kept hC hS i hi) }
    obtain ⟨hij, hr⟩ := update_false_iff.mp hr
    rcases update_true_iff.mp hi with rfl | hi
    · exact hij rfl
    · rw [h.ended i hi] at hr
      cases hr
  | attach => exact h.congr (fun _ _ _ _ hl => hl) rfl rfl rfl rfl rfl rfl fun _ _ _ => rfl
  | acquire hp => exact h.put hp rfl rfl rfl rfl rfl rfl rfl
  | release hp => exact h.put hp rfl rfl rfl rfl rfl rfl rfl
  | list hp => exact h.put hp rfl rfl rfl rfl rfl rfl rfl
  | look _ hp => exact h.put hp rfl rfl rfl rfl rfl rfl rfl
  | see _ hp => exact h.put hp rfl rfl rfl rfl rfl rfl rfl
  | update _ _ hp => exact h.put hp rfl rfl rfl rfl rfl rfl rfl
  | publish hp => exact h.put hp rfl rfl rfl rfl rfl rfl rfl
  | clear hp => exact h.put hp rfl rfl rfl rfl rfl rfl rfl
  | revert _ hp => exact h.put hp rfl rfl rfl rfl rfl rfl rfl
  | request _ hp => exact h.put hp rfl rfl rfl rfl rfl rfl rfl

/-! ### What a move changes -/

/-- A job is reported by Flux only. -/
theorem running_of_move (hm : Move K C u s s') (hr : s'.ctl.running j = true) :
    s.ctl.running j = true ∨ s.ctl.ended j = false := by
  cases hm with
  | @report i he =>
    rcases update_true_iff.mp hr with rfl | hr
    · exact .inr he
    · exact .inl hr
  | unreport => exact .inl (update_false_iff.mp hr).2
  | endJob => exact .inl (update_false_iff.mp hr).2
  | _ => exact .inl hr

theorem reported_of_move (hm : Move K C u s s') (hr : s.ctl.reported j = true) :
    s'.ctl.reported j = true := by
  cases hm with
  | report => exact update_true_iff.mpr (.inr hr)
  | _ => exact hr

/-- A listing in use was in use before, or is what `job-list` answers now. -/
theorem UserState.Listed.of_move (ho : Orderly u s) (hm : Move K C u s s') (h : s'.Listed m t' others) :
    s.Listed m t' others ∨ s'.ctl = s.ctl ∧ s.Live m t' ∧
      ∃ ids, others = t'.others ids ∧ ∀ j, j ∈ ids ↔ s.ctl.running j = true := by
  cases hm with
  | @list n t φ ids hp hh ho ht hids =>
    rcases has_put h with h | ⟨rfl, rfl, -, ho'⟩
    · exact .inl h
    · cases ho'
      exact .inr ⟨rfl, ⟨φ, hp⟩, ids, rfl, hids⟩
  | @acquire n t φ hp hb hl =>
    rcases has_put h with h | ⟨rfl, rfl, -, hot⟩
    · exact .inl h
    · have := ((ho n t φ hp).fresh hb).1
      rw [show φ.others = some others from hot] at this
      cases this
  | release hp => exact .inl (has_next hp h fun h' => absurd h'.2.2.1 release_held)
  | look _ hp => exact .inl (has_next hp h id)
  | see _ hp => exact .inl (has_next hp h id)
  | update _ _ hp => exact .inl (has_next hp h id)
  | publish hp => exact .inl (has_next hp h id)
  | clear hp => exact .inl (has_next hp h id)
  | revert _ hp => exact .inl (has_next hp h id)
  | request _ hp => exact .inl (has_next hp h id)
  | startProlog => exact .inl ((has_put h).elim id fun h' => by cases h'.2.2.1)
  | startHousekeeping => exact .inl ((has_put h).elim id fun h' => by cases h'.2.2.1)
  | startSession => exact .inl ((has_put h).elim id fun h' => by cases h'.2.2.1)
  | finishProlog => exact .inl (has_drop h)
  | finishHousekeeping => exact .inl (has_drop h)
  | finishSession => exact .inl (has_drop h)
  | kill => exact .inl (has_drop h)
  | _ => exact .inl h

/-- Two processes do not both use a listing, nor one beside the lock's holder. -/
theorem UserState.Listed.alone (hs : Orderly u s) (h : s.Listed m t' others) (hn : s.phases n = some (t, φ))
    (hh : φ.hold = .held) : n = m ∧ t = t' ∧ φ.others = some others := by
  obtain ⟨k, t₁, φ₁, hp, rfl, rfl, hh₁, ho⟩ := h
  by_cases hk : k = n
  · subst hk
    rw [hn] at hp
    cases hp
    exact ⟨rfl, rfl, ho⟩
  · exact absurd hh₁ (hs.alone hn hh hp hk)

/-- What a move makes of the marker and of the update the slice carries. -/
inductive Change (K : Setting) (u : ℕ) (s : UserState) (c : Control) : Prop where
  | none : c.marker = s.ctl.marker → c.source = s.ctl.source → c.last = s.ctl.last → Change K u s c
  | update {n : ℕ} {t : Task} {φ : Phase} {others : List ℕ} {d : Draft} (took : Bool) :
      s.phases n = some (t, φ) → φ.hold = .held → φ.others = some others →
      d.ids = t.wanted others → d.ids ≠ [] → c.marker = s.ctl.marker →
      c.source = (if took then some d else s.ctl.source) → c.last = some .set → Change K u s c
  | publish {n : ℕ} {t : Task} {φ : Phase} : s.phases n = some (t, φ) →
      φ.publishes K ⟨u, n⟩ t → c.marker ≠ .absent → c.source = s.ctl.source →
      c.last = s.ctl.last → Change K u s c
  | clear {n : ℕ} {t : Task} {φ : Phase} : s.phases n = some (t, φ) → φ.clears K ⟨u, n⟩ t →
      c.marker = .absent → c.source = s.ctl.source → c.last = s.ctl.last → Change K u s c
  | revert {n : ℕ} {t : Task} {φ : Phase} : s.phases n = some (t, φ) → φ.hold = .held →
      φ.cleared = true → c.marker = s.ctl.marker → c.source = Option.none →
      c.last = some .revert → Change K u s c

theorem Move.change (hs : Orderly u s) (hm : Move K C u s s') : Change K u s s'.ctl := by
  cases hm with
  | @update n t φ args took ok hp hu hok =>
    have hd := (hs n t φ hp).draft
    obtain ⟨hh, others, props, ho, hids, hne, -⟩ := hu
    exact .update took hp hh ho (by rw [hd]; exact hids) (by rw [hd]; exact hne) rfl rfl rfl
  | @publish n t φ hp hpub =>
    exact .publish hp hpub (created_ne_absent s.ctl.marker) rfl rfl
  | clear hp hc => exact .clear hp hc rfl rfl rfl
  | revert took hp hh hc => exact .revert hp hh hc rfl rfl rfl
  | _ => exact .none rfl rfl rfl

/-! ### Runs -/

/-- In the beginning no prolog and no housekeeping has started. -/
theorem World.initial.timeline {w : World} (h : w.initial) :
    Timeline C ⟨w.control K u, fun _ => none⟩ := by
  obtain ⟨-, -, -, -, -, -, -, hrep, hbeg, hpok, hhk, hend⟩ := h
  have hnone : ∀ n t, ¬ (⟨w.control K u, fun _ => none⟩ : UserState).Live n t := by
    rintro n t ⟨φ, h⟩
    cases h
  exact {
    ended := fun j => hend u j
    reported := fun j hj => by
      change w.reported u j = true
      rw [hrep]
      exact hj
    afterwards := fun _ j hj => by
      rw [show (w.control K u).begun j = w.begun u j from rfl, hbeg] at hj
      cases hj
    listed := fun n j fuel hl => absurd hl (hnone n _)
    started := fun _ n j fuel hl => absurd hl (hnone n _)
    steady := fun _ _ n j fuel hl => absurd hl (hnone n _)
    kept := fun _ _ j hj => by
      rw [show (w.control K u).prologOk j = w.prologOk u j from rfl, hpok] at hj
      cases hj
    sequential := fun _ n j fuel hl => absurd hl (hnone n _)
    begun := fun n j fuel hl => absurd hl (hnone n _)
    cleaned := fun j hj => by
      rw [show (w.control K u).hkOk j = w.hkOk u j from rfl, hhk] at hj
      cases hj }

/-- What a move from a sane state in the order of events keeps, every run does. -/
theorem Reached.invariant_sane {c₀ c : Config Pid Op Res Task Exit World} (h : Reached K C c₀ c)
    (hm : c₀.world.files (markerPath K.lockDir u) = .absent) {I : UserState → Prop}
    (h₀ : I ⟨c₀.world.control K u, fun _ => none⟩)
    (hI : ∀ s s', Sane K u s → Timeline C s → I s → Move K C u s s' → I s') :
    ∃ m, Watch.Follows (watchAll K) c m ∧ Sane K u (userState K u m) ∧ I (userState K u m) := by
  obtain ⟨m, hf, hs, -, hi⟩ := h.invariant (u := u) (I := fun s => Sane K u s ∧ Timeline C s ∧ I s)
    ⟨h.initial.sane hm, h.initial.timeline, h₀⟩ (by
      rintro s s' ⟨hs, ht, hi⟩ hm
      exact ⟨hs.move hm, ht.move hm, hI s s' hs ht hi hm⟩)
  exact ⟨m, hf, hs, hi⟩

end FluxPam
