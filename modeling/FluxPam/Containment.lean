/-
# Containment

What the union of resource sets covers. A job whose prolog published the marker
is *covered*: as long as `job-list` reports it, it is among the jobs of the
update the slice carries. A job whose housekeeping has torn the slice down or
updated it is *expelled*: it is not. Both are kept because a process decides
and updates on one listing of the jobs, made with the lock held: of the other
jobs the listing misses none that is covered and names none that is expelled,
and stays so until the lock is given up.
-/
import FluxPam.Admission
import FluxPam.Lifecycle

namespace FluxPam

open Interaction

namespace UserState

/-- The job's prolog published the marker, and lives or succeeded. -/
def Covered (s : UserState) (j : ℕ) : Prop :=
  s.ctl.prologOk j = true ∨
    s.Has fun _ t φ => t.isProlog ∧ t.job = some j ∧ φ.published = true

/-- The job's housekeeping removed the marker or updated the slice, and lives
or succeeded. -/
def Expelled (s : UserState) (j : ℕ) : Prop :=
  s.ctl.hkOk j = true ∨ s.Has fun _ t φ =>
    t.isHousekeeping ∧ t.job = some j ∧ (φ.cleared = true ∨ φ.updated = true)

end UserState

/-- The update the slice carries was computed for the job. -/
def Control.grants (c : Control) (j : ℕ) : Prop := ∃ d, c.source = some d ∧ j ∈ d.ids

variable {K : Setting} {C : Contract} {u n m j : ℕ} {t : Task} {φ φ' : Phase} {c : Control}
  {s s' : UserState} {others : List ℕ}

/-! ### Covered jobs -/

theorem UserState.Covered.next (h : (s.put n t φ' c).Covered j) (hp : s.phases n = some (t, φ))
    (hpub : φ'.published = φ.published) (hok : c.prologOk = s.ctl.prologOk) : s.Covered j := by
  rcases h with h | h
  · exact .inl (hok ▸ h)
  · exact .inr (has_next hp h fun ⟨ht, hj, hp'⟩ => ⟨ht, hj, hpub ▸ hp'⟩)

theorem UserState.Covered.start (h : (s.put n t .init c).Covered j) (hok : c.prologOk = s.ctl.prologOk) :
    s.Covered j := by
  rcases h with h | h
  · exact .inl (hok ▸ h)
  · exact .inr ((has_put h).elim id fun h' => by cases h'.2.2)

theorem UserState.Covered.drop (h : (s.drop n c).Covered j) (hok : c.prologOk = s.ctl.prologOk) :
    s.Covered j := by
  rcases h with h | h
  · exact .inl (hok ▸ h)
  · exact .inr (has_drop h)

/-- A job becomes covered when its prolog publishes the marker. -/
theorem UserState.Covered.of_move (hK : K.managed u) (hm : Move K C u s s') (h : s'.Covered j) :
    s.Covered j ∨ ∃ n t φ, s.phases n = some (t, φ) ∧ t.job = some j ∧ φ.publishes K ⟨u, n⟩ t ∧
      s'.ctl.marker ≠ .absent ∧ s'.ctl.source = s.ctl.source := by
  cases hm with
  | @publish n t φ hp hpub =>
    refine h.elim (fun h => .inl (.inl h)) fun h => ?_
    rcases has_put h with h | ⟨-, hj, -⟩
    · exact .inl (.inr h)
    · exact .inr ⟨n, t, φ, hp, hj, hpub, created_ne_absent s.ctl.marker, rfl⟩
  | @finishProlog n i fuel φ a hp hpost =>
    refine .inl (h.elim (fun h => ?_) fun h => .inr (has_drop h))
    change (if a = .status 0 then Function.update s.ctl.prologOk i true else s.ctl.prologOk) j = true at h
    split at h
    · rcases update_true_iff.mp h with rfl | h
      · exact .inr ⟨n, _, φ, hp, trivial, rfl, hpost ‹_› hK⟩
      · exact .inl h
    · exact .inl h
  | acquire hp => exact .inl (h.next hp rfl rfl)
  | release hp => exact .inl (h.next hp rfl rfl)
  | list hp => exact .inl (h.next hp rfl rfl)
  | look _ hp => exact .inl (h.next hp rfl rfl)
  | see _ hp => exact .inl (h.next hp rfl rfl)
  | update _ _ hp => exact .inl (h.next hp rfl rfl)
  | clear hp => exact .inl (h.next hp rfl rfl)
  | revert _ hp => exact .inl (h.next hp rfl rfl)
  | request _ hp => exact .inl (h.next hp rfl rfl)
  | startProlog => exact .inl (h.start rfl)
  | startHousekeeping => exact .inl (h.start rfl)
  | startSession => exact .inl (h.start rfl)
  | finishHousekeeping => exact .inl (h.drop rfl)
  | finishSession => exact .inl (h.drop rfl)
  | kill => exact .inl (h.drop rfl)
  | _ => exact .inl h

/-- A listing in use misses no covered job, and the marker is there as long as a
covered job is reported. -/
structure Marks (s : UserState) : Prop where
  told : ∀ n t others, s.Listed n t others → ∀ j, s.Covered j → s.ctl.running j = true →
    t.job ≠ some j → j ∈ others
  marked : ∀ j, s.Covered j → s.ctl.running j = true → s.ctl.marker ≠ .absent

/-- The slice carries an update for every covered job too. -/
structure Contains (s : UserState) : Prop extends Marks s where
  granted : ∀ j, s.Covered j → s.ctl.running j = true → s.ctl.grants j

/-- A covered job that is not reported has ended. -/
theorem UserState.Covered.kept (h : Timeline C s) (hr : C.reported) (hS : C.steady)
    (hc : s.Covered j) : s.ctl.running j = true ∨ s.ctl.ended j = true := by
  rcases hc with hc | ⟨n, t, φ, hp, ht, hj, -⟩
  · exact h.kept hr hS j hc
  · cases t with
    | prolog i fuel =>
      cases hj
      exact h.steady hr hS n j fuel ⟨φ, hp⟩
    | _ => exact ht.elim

/-- A job covered before a move that is reported after it was reported before. -/
theorem UserState.Covered.running (ht : Timeline C s) (hr : C.reported) (hS : C.steady)
    (hm : Move K C u s s') (hc : s.Covered j) (hrun : s'.ctl.running j = true) :
    s.ctl.running j = true := by
  rcases running_of_move hm hrun with h | h
  · exact h
  · rcases hc.kept ht hr hS with h' | h'
    · exact h'
    · rw [h'] at h
      cases h

/-- The job of a housekeeping is not reported. -/
theorem Timeline.not_running (h : Timeline C s) (ho : C.afterwards) (hp : s.phases n = some (t, φ))
    (ht : t.isHousekeeping) (hj : t.job = some j) : s.ctl.running j = false := by
  cases t with
  | housekeeping i fuel =>
    cases hj
    exact h.ended j (h.afterwards ho j (h.begun n j fuel ⟨φ, hp⟩))
  | _ => exact ht.elim

theorem Task.isProlog_or_isHousekeeping (h : t.job = some j) : t.isProlog ∨ t.isHousekeeping := by
  cases t with
  | prolog i fuel => exact .inl trivial
  | housekeeping i fuel => exact .inr trivial
  | session argv => cases h

/-- A housekeeping tears down only when no covered job is reported. -/
theorem Marks.not_covered (h : Marks s) (ht : Timeline C s) (ho : C.afterwards)
    (hp : s.phases n = some (t, φ)) (hh : φ.hold = .held) (hhk : t.isHousekeeping)
    (hot : φ.others = some []) (hc : s.Covered j) : s.ctl.running j ≠ true := fun hrun => by
  by_cases hj : t.job = some j
  · rw [ht.not_running ho hp hhk hj] at hrun
    cases hrun
  · cases h.told n t [] ⟨n, t, φ, hp, rfl, rfl, hh, hot⟩ j hc hrun hj

/-- Constraints or not, whatever the marker was in the beginning. -/
theorem Marks.move (hK : K.managed u) (hr : C.reported) (hS : C.steady) (ho : C.afterwards)
    (hs : Orderly u s) (ht : Timeline C s) (h : Marks s) (hm : Move K C u s s') : Marks s' := by
  refine ⟨fun n t others hl j hc hrun hj => ?_, fun j hc hrun => ?_⟩
  · rcases hl.of_move hs hm with hl | ⟨hctl, -, ids, rfl, hids⟩
    · rcases hc.of_move hK hm with hc | ⟨m, t', φ, hp, hj', hpub, -⟩
      · exact h.told n t others hl j hc (hc.running ht hr hS hm hrun) hj
      · -- the process that publishes is the one that was told
        obtain ⟨-, rfl, -⟩ := hl.alone hs hp hpub.1
        exact absurd hj' hj
    · rw [hctl] at hrun
      exact Task.mem_others.mpr ⟨(hids j).mpr hrun, hj⟩
  · rcases hc.of_move hK hm with hc | ⟨n, t, φ, hp, hj, hpub, hmark, -⟩
    · have hrun₀ := hc.running ht hr hS hm hrun
      cases hm.change hs with
      | none hmk hsrc hl => exact hmk ▸ h.marked j hc hrun₀
      | update took hp hh hot hids hne hmk hsrc hl => exact hmk ▸ h.marked j hc hrun₀
      | publish hp hpub hmk hsrc hl => exact hmk
      | clear hp hcl hmk hsrc hl =>
        exact absurd hrun₀ (h.not_covered ht ho hp hcl.1 hcl.2.1 hcl.2.2.2 hc)
      | revert hp hh hcl hmk hsrc hl => exact hmk ▸ h.marked j hc hrun₀
    · exact hmark

theorem Contains.move (hK : K.managed u) (hk : K.constrain.truthy = true) (hr : C.reported)
    (hS : C.steady) (ho : C.afterwards) (hs : Sane K u s) (ht : Timeline C s) (h : Contains s)
    (hm : Move K C u s s') : Contains s' := by
  refine ⟨h.toMarks.move hK hr hS ho hs.process ht hm, fun j hc hrun => ?_⟩
  rcases hc.of_move hK hm with hc | ⟨n, t, φ, hp, hj, hpub, -, hsrc⟩
  · have hrun₀ := hc.running ht hr hS hm hrun
    obtain ⟨d, hd, hjd⟩ := h.granted j hc hrun₀
    cases hm.change hs.process with
    | none hmk hsrc hl => exact ⟨d, hsrc ▸ hd, hjd⟩
    | @update n t φ others d' took hp hh hot hids hne hmk hsrc hl =>
      cases took with
      | false => exact ⟨d, hsrc ▸ hd, hjd⟩
      | true =>
        refine ⟨d', hsrc, ?_⟩
        rw [hids, Task.mem_wanted]
        by_cases hj : t.job = some j
        · rcases Task.isProlog_or_isHousekeeping hj with hpr | hhk
          · exact .inr ⟨hpr, hj⟩
          · rw [ht.not_running ho hp hhk hj] at hrun₀
            cases hrun₀
        · exact .inl (h.told n t others ⟨n, t, φ, hp, rfl, rfl, hh, hot⟩ j hc hrun₀ hj)
    | publish hp hpub hmk hsrc hl => exact ⟨d, hsrc ▸ hd, hjd⟩
    | clear hp hcl hmk hsrc hl => exact ⟨d, hsrc ▸ hd, hjd⟩
    | @revert n t φ hp hh hcl hmk hsrc hl =>
      have hn := (hs.process n t φ hp).clearing hcl
      exact absurd hrun₀ (h.not_covered ht ho hp hh hn.1 hn.2 hc)
  · obtain ⟨d, others, hd, -, hids⟩ :=
      (hs.process n t φ hp).updated hpub.1 (hpub.2.2.2 hk)
    exact ⟨d, hsrc ▸ hd, by rw [hids, Task.mem_wanted]; exact .inr ⟨hpub.2.1, hj⟩⟩

/-! ### Expelled jobs -/

theorem UserState.Expelled.next (h : (s.put n t φ' c).Expelled j) (hp : s.phases n = some (t, φ))
    (hcl : φ'.cleared = φ.cleared) (hup : φ'.updated = φ.updated) (hk : c.hkOk = s.ctl.hkOk) :
    s.Expelled j := by
  rcases h with h | h
  · exact .inl (hk ▸ h)
  · exact .inr (has_next hp h fun ⟨ht, hj, hor⟩ => ⟨ht, hj, hcl ▸ hup ▸ hor⟩)

theorem UserState.Expelled.start (h : (s.put n t .init c).Expelled j) (hk : c.hkOk = s.ctl.hkOk) :
    s.Expelled j := by
  rcases h with h | h
  · exact .inl (hk ▸ h)
  · refine .inr ((has_put h).elim id ?_)
    rintro ⟨-, -, h' | h'⟩ <;> cases h'

theorem UserState.Expelled.drop (h : (s.drop n c).Expelled j) (hk : c.hkOk = s.ctl.hkOk) :
    s.Expelled j := by
  rcases h with h | h
  · exact .inl (hk ▸ h)
  · exact .inr (has_drop h)

/-- A job becomes expelled when its housekeeping removes the marker or updates
the slice. -/
theorem UserState.Expelled.of_move (hK : K.managed u) (hk : K.constrain.truthy = true)
    (hs : Sane K u s) (hm : Move K C u s s') (h : s'.Expelled j) :
    s.Expelled j ∨ ∃ n t φ others, s.phases n = some (t, φ) ∧ φ.hold = .held ∧ t.isHousekeeping ∧
      t.job = some j ∧ φ.others = some others ∧
      (s'.ctl.marker = .absent ∨ ∃ d, s'.ctl.source = some d ∧ d.ids = others) := by
  cases hm with
  | @clear n t φ hp hcl =>
    rcases h with h | h
    · exact .inl (.inl h)
    · rcases has_put h with h | ⟨ht, hj, -⟩
      · exact .inl (.inr h)
      · exact .inr ⟨n, t, φ, [], hp, hcl.1, ht, hj, hcl.2.2.2, .inl rfl⟩
  | @update n t φ args took ok hp hu hok =>
    rcases h with h | h
    · exact .inl (.inl h)
    · rcases has_put h with h | ⟨ht, hj, hor⟩
      · exact .inl (.inr h)
      · rcases hor with hcl | hup
        · exact .inl (.inr ⟨n, t, φ, hp, ht, hj, .inl hcl⟩)
        rcases Bool.or_eq_true_iff.mp hup with hup | rfl
        · exact .inl (.inr ⟨n, t, φ, hp, ht, hj, .inr hup⟩)
        obtain ⟨others, hot, -, hids⟩ := hu.wanted
        refine .inr ⟨n, t, φ, others, hp, hu.1, ht, hj, hot, .inr ⟨s.ctl.draft n, ?_, ?_⟩⟩
        · rw [hok rfl]
          rfl
        · rw [(hs.process n t φ hp).draft, hids, Task.wanted_of_isHousekeeping ht]
  | @finishHousekeeping n i fuel φ a hp hpost =>
    refine .inl ?_
    rcases h with h | h
    · change (if a = .status 0 then Function.update s.ctl.hkOk i true else s.ctl.hkOk) j = true at h
      split at h
      · rcases update_true_iff.mp h with rfl | h
        · obtain ⟨others, hot, hempty, hrest⟩ := hpost ‹_› hK
          refine .inr ⟨n, _, φ, hp, trivial, rfl, ?_⟩
          by_cases hne : others = []
          · exact .inl (hempty hne).1
          · exact .inr (hrest hne hk)
        · exact .inl h
      · exact .inl h
    · exact .inr (has_drop h)
  | acquire hp => exact .inl (h.next hp rfl rfl rfl)
  | release hp => exact .inl (h.next hp rfl rfl rfl)
  | list hp => exact .inl (h.next hp rfl rfl rfl)
  | look _ hp => exact .inl (h.next hp rfl rfl rfl)
  | see _ hp => exact .inl (h.next hp rfl rfl rfl)
  | publish hp => exact .inl (h.next hp rfl rfl rfl)
  | revert _ hp => exact .inl (h.next hp rfl rfl rfl)
  | request _ hp => exact .inl (h.next hp rfl rfl rfl)
  | startProlog => exact .inl (h.start rfl)
  | startHousekeeping => exact .inl (h.start rfl)
  | startSession => exact .inl (h.start rfl)
  | finishProlog => exact .inl (h.drop rfl)
  | finishSession => exact .inl (h.drop rfl)
  | kill => exact .inl (h.drop rfl)
  | _ => exact .inl h

/-- A listing in use names no expelled job, and the slice carries no update for
one as long as the marker is there. -/
structure Expels (s : UserState) : Prop where
  told : ∀ n t others, s.Listed n t others → ∀ j ∈ others, ¬ s.Expelled j
  expelled : ∀ j, s.Expelled j → s.ctl.marker ≠ .absent → ¬ s.ctl.grants j

theorem UserState.Expelled.begun (h : Timeline C s) (he : s.Expelled j) : s.ctl.begun j = true := by
  rcases he with he | ⟨n, t, φ, hp, ht, hj, -⟩
  · exact h.cleaned j he
  · cases t with
    | housekeeping i fuel =>
      cases hj
      exact h.begun n j fuel ⟨φ, hp⟩
    | _ => exact ht.elim

/-- The jobs an update is for are not expelled. -/
theorem Expels.not_wanted (h : Expels s) (ht : Timeline C s) (hq : C.sequential)
    (hp : s.phases n = some (t, φ)) (hh : φ.hold = .held) (hot : φ.others = some others)
    (he : s.Expelled j) : j ∉ t.wanted others := by
  rw [Task.mem_wanted]
  rintro (hj | ⟨hpr, hj⟩)
  · exact h.told n t others ⟨n, t, φ, hp, rfl, rfl, hh, hot⟩ j hj he
  · cases t with
    | prolog i fuel =>
      cases hj
      have hb := he.begun ht
      rw [ht.sequential hq n j fuel ⟨φ, hp⟩] at hb
      cases hb
    | _ => exact hpr.elim

theorem Expels.move (hK : K.managed u) (hk : K.constrain.truthy = true) (ho : C.afterwards)
    (hq : C.sequential) (hs : Sane K u s) (ht : Timeline C s) (h : Expels s)
    (hm : Move K C u s s') : Expels s' := by
  refine ⟨fun n t others hl j hj he => ?_, fun j he hmark hg => ?_⟩
  · rcases hl.of_move hs.process hm with hl | ⟨hctl, -, ids, rfl, hids⟩
    · rcases he.of_move hK hk hs hm with he | ⟨m, t', φ, others', hp, hh, -, hjob, hot, -⟩
      · exact h.told n t others hl j hj he
      · -- the housekeeping that expels its job is the process that was told
        obtain ⟨-, rfl, ho'⟩ := hl.alone hs.process hp hh
        exact (hs.process m t' φ hp).own others j ho' hjob hj
    · have hrun := (hids j).mp (Task.mem_others.mp hj).1
      have hend := (ht.move hm).afterwards ho j (he.begun (ht.move hm))
      rw [hctl] at hend
      rw [ht.ended j hend] at hrun
      cases hrun
  · rcases he.of_move hK hk hs hm with he | ⟨n, t, φ, others, hp, hh, -, hj, hot, hor⟩
    · obtain ⟨d, hd, hjd⟩ := hg
      cases hm.change hs.process with
      | none hmk hsrc hl => exact h.expelled j he (hmk ▸ hmark) ⟨d, hsrc ▸ hd, hjd⟩
      | @update n t φ others d' took hp hh hot hids hne hmk hsrc hl =>
        cases took with
        | false => exact h.expelled j he (hmk ▸ hmark) ⟨d, hsrc.symm.trans hd, hjd⟩
        | true =>
          rw [hsrc] at hd
          cases hd
          exact h.not_wanted ht hq hp hh hot he (hids ▸ hjd)
      | @publish n t φ hp hpub hmk hsrc hl =>
        obtain ⟨d', others, hd', hot, hids⟩ :=
          (hs.process n t φ hp).updated hpub.1 (hpub.2.2.2 hk)
        rw [hsrc, hd'] at hd
        cases hd
        exact h.not_wanted ht hq hp hpub.1 hot he (hids ▸ hjd)
      | clear hp hcl hmk hsrc hl => exact hmark hmk
      | revert hp hh hcl hmk hsrc hl =>
        rw [hsrc] at hd
        cases hd
    · rcases hor with hmk | ⟨d, hd, hids⟩
      · exact hmark hmk
      · obtain ⟨d', hd', hjd⟩ := hg
        rw [hd] at hd'
        cases hd'
        exact (hs.process n t φ hp).own others j hot hj (hids ▸ hjd)

/-! ### Runs -/

/-- No prolog has published anything in the beginning. -/
theorem World.initial.not_covered {w : World} (h : w.initial) :
    ¬ (⟨w.control K u, fun _ => none⟩ : UserState).Covered j := by
  obtain ⟨-, -, -, -, -, -, -, -, -, hpok, -⟩ := h
  rintro (hok | ⟨_, _, _, hp, -⟩)
  · change w.prologOk u j = true at hok
    rw [hpok] at hok
    cases hok
  · cases hp

theorem World.initial.marks {w : World} (h : w.initial) : Marks ⟨w.control K u, fun _ => none⟩ where
  told n t others hl := by
    obtain ⟨_, _, _, hp, -⟩ := hl
    cases hp
  marked _ hc := absurd hc h.not_covered

theorem World.initial.contains {w : World} (h : w.initial) :
    Contains ⟨w.control K u, fun _ => none⟩ where
  toMarks := h.marks
  granted _ hc := absurd hc h.not_covered

/-- No housekeeping has done anything in the beginning. -/
theorem World.initial.expels {w : World} (h : w.initial) :
    Expels ⟨w.control K u, fun _ => none⟩ := by
  obtain ⟨-, -, -, -, -, -, -, -, -, -, hhk, -⟩ := h
  refine ⟨fun n t others hl => ?_, fun j he => ?_⟩
  · obtain ⟨_, _, _, hp, -⟩ := hl
    cases hp
  · rcases he with hok | ⟨_, _, _, hp, -⟩
    · change w.hkOk u j = true at hok
      rw [hhk] at hok
      cases hok
    · cases hp

variable {c₀ c : Config Pid Op Res Task Exit World}

/-- **Containment.** As long as a job whose prolog succeeded is reported as
running, the marker is present and the job is among those the slice's properties
were computed for. -/
theorem job_containment (h : Reached K C c₀ c) (hr : C.reported) (hS : C.steady) (ho : C.afterwards)
    (hK : K.managed u) (hk : K.constrain.truthy = true)
    (hm : c₀.world.files (markerPath K.lockDir u) = .absent)
    (hok : c.world.prologOk u j = true) (hrun : c.world.running u j = true) :
    c.world.files (markerPath K.lockDir u) ≠ .absent ∧ ∃ d, K.carries u c.world d ∧ j ∈ d.ids := by
  obtain ⟨m, hf, hs, hc⟩ := h.invariant_sane hm h.initial.contains
    fun s s' hs ht hc hm => hc.move hK hk hr hS ho hs ht hm
  have hw : c.world = m.world := hf.1
  rw [hw] at hok hrun ⊢
  obtain ⟨d, hd, hjd⟩ := hc.granted j (.inl hok) hrun
  exact ⟨hc.marked j (.inl hok) hrun, d, hs.control.carries hd, hjd⟩

/-- User 1000 while job 1 runs. -/
theorem job_containment_small : ∃ w d, w.prologOk 1000 1 = true ∧
    Setting.small.carries 1000 w d ∧ 1 ∈ d.ids := by
  obtain ⟨ls, w, hr, hw⟩ := Server.small_play
    [.act (.report 1000 1), .task ⟨1000, 7⟩ (.prolog 1 10)]
    (fun _ w => (w.prologOk 1000 1, w.running 1000 1)) (a := (true, true)) (by rfl)
  obtain ⟨hok, hrun⟩ := Prod.ext_iff.mp hw
  obtain ⟨-, d, hd, hj⟩ :=
    job_containment (Server.idle_reached hr) trivial trivial trivial (by decide) rfl rfl hok hrun
  exact ⟨w, d, hok, hd, hj⟩

/-- The instance owner's jobs are not contained: their prologs succeed without
doing anything. -/
theorem owner_job_containment : ∃ c, Reached .small .strict Server.idle c ∧
    Setting.small.manage = .bool true ∧ Setting.small.constrain = .bool true ∧
    Server.idle.world.files (markerPath Setting.small.lockDir (100 : ℕ)) = .absent ∧
    c.world.locks (lockPath Setting.small.lockDir (100 : ℕ)) = none ∧
    c.world.prologOk 100 1 = true ∧ c.world.running 100 1 = true ∧
    c.world.files (markerPath Setting.small.lockDir (100 : ℕ)) = .absent := by
  obtain ⟨ls, w, hr, hw⟩ := Server.small_play
    [.act (.report 100 1), .task ⟨100, 7⟩ (.prolog 1 10)]
    (fun _ w => (w.locks (lockPath Setting.small.lockDir (100 : ℕ)), w.prologOk 100 1,
      w.running 100 1, w.files (markerPath Setting.small.lockDir (100 : ℕ))))
    (a := (none, true, true, .absent)) (by rfl)
  simp only [Prod.mk.injEq] at hw
  exact ⟨_, Server.idle_reached hr, rfl, rfl, rfl, hw.1, hw.2.1, hw.2.2.1, hw.2.2.2⟩

/-- **No over-grant.** As long as the marker is present, no job whose
housekeeping succeeded is among those the slice's properties were computed
for. -/
theorem no_over_grant (h : Reached K C c₀ c) (ho : C.afterwards) (hq : C.sequential)
    (hk : K.constrain.truthy = true) (hm : c₀.world.files (markerPath K.lockDir u) = .absent)
    (hmark : c.world.files (markerPath K.lockDir u) ≠ .absent) :
    ∃ d, K.carries u c.world d ∧ ∀ j, c.world.hkOk u j = true → j ∉ d.ids := by
  obtain ⟨m₀, hf₀, hs₀⟩ := h.sane hm
  have hK : K.managed u := hs₀.control.managed (by rw [hf₀.1] at hmark; exact hmark)
  obtain ⟨m, hf, hs, hc⟩ := h.invariant_sane hm h.initial.expels
    fun s s' hs ht hc hm => hc.move hK hk ho hq hs ht hm
  have hw : c.world = m.world := hf.1
  rw [hw] at hmark ⊢
  obtain ⟨d, hd⟩ := Option.ne_none_iff_exists'.mp (hs.control.constrained hk hmark)
  exact ⟨d, hs.control.carries hd, fun j hj hjd => hc.expelled j (.inl hj) hmark ⟨d, hd, hjd⟩⟩

/-- User 1000 while job 2 runs, after job 1 was cleaned up. -/
theorem no_over_grant_small : ∃ w d, w.hkOk 1000 1 = true ∧ Setting.small.carries 1000 w d ∧
    1 ∉ d.ids := by
  obtain ⟨ls, w, hr, hw⟩ := Server.small_play
    [.act (.report 1000 1), .task ⟨1000, 7⟩ (.prolog 1 10), .act (.report 1000 2),
      .task ⟨1000, 8⟩ (.prolog 2 10), .act (.endJob 1000 1), .task ⟨1000, 9⟩ (.housekeeping 1 10)]
    (fun _ w => (w.hkOk 1000 1, w.files (markerPath Setting.small.lockDir (1000 : ℕ))))
    (a := (true, .regular)) (by rfl)
  obtain ⟨hok, hm⟩ := Prod.ext_iff.mp hw
  obtain ⟨d, hd, hj⟩ := no_over_grant (u := 1000) (Server.idle_reached hr) trivial trivial rfl rfl
    fun h => by cases hm.symm.trans h
  exact ⟨w, d, hok, hd, hj 1 hok⟩

end FluxPam
