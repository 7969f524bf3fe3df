/-
# Cleanup

Who removes the marker. A job is *settled* when its housekeeping has left the
slice to others, having been told of some, or has torn it down. As long as the
marker is there or the last property operation was an update, some reported job
is not settled: a housekeeping that leaves the slice to others is told of jobs
that are not, and one that is told of none tears down. So when every reported
job is cleaned up, whatever failed on the way, the marker is gone and the slice
was reverted.
-/
import FluxPam.Containment

namespace FluxPam

open Interaction

namespace UserState

/-- The job's housekeeping was told of other jobs, or has attempted the revert,
and lives or succeeded. -/
def Settled (s : UserState) (j : ℕ) : Prop :=
  s.ctl.hkOk j = true ∨ s.Has fun _ t φ => t.isHousekeeping ∧ t.job = some j ∧
    ((∃ others, φ.others = some others ∧ others ≠ []) ∨ φ.reverted = true)

/-- Some reported job is not settled. -/
def Pending (s : UserState) : Prop := ∃ j, s.ctl.reported j = true ∧ ¬ s.Settled j

/-- There is, or may be, something to clean up. -/
def Dirty (s : UserState) : Prop :=
  s.ctl.marker ≠ .absent ∨ s.ctl.last = some .set ∨ s.ctl.last = none ∧ ∃ j, s.Settled j

end UserState

variable {K : Setting} {C : Contract} {u n j : ℕ} {t : Task} {φ φ' : Phase} {c : Control}
  {s s' : UserState} {others : List ℕ}

theorem UserState.Settled.next (h : (s.put n t φ' c).Settled j) (hp : s.phases n = some (t, φ))
    (ho : φ'.others = φ.others) (hr : φ'.reverted = φ.reverted) (hk : c.hkOk = s.ctl.hkOk) :
    s.Settled j := by
  rcases h with h | h
  · exact .inl (hk ▸ h)
  · exact .inr (has_next hp h fun ⟨ht, hj, hor⟩ => ⟨ht, hj, ho ▸ hr ▸ hor⟩)

theorem UserState.Settled.start (h : (s.put n t .init c).Settled j) (hk : c.hkOk = s.ctl.hkOk) :
    s.Settled j := by
  rcases h with h | h
  · exact .inl (hk ▸ h)
  · refine .inr ((has_put h).elim id ?_)
    rintro ⟨-, -, ⟨_, h', -⟩ | h'⟩ <;> cases h'

theorem UserState.Settled.drop (h : (s.drop n c).Settled j) (hk : c.hkOk = s.ctl.hkOk) :
    s.Settled j := by
  rcases h with h | h
  · exact .inl (hk ▸ h)
  · exact .inr (has_drop h)

theorem UserState.Settled.begun (h : Timeline C s) (hs : s.Settled j) : s.ctl.begun j = true := by
  rcases hs with hs | ⟨n, t, φ, hp, ht, hj, -⟩
  · exact h.cleaned j hs
  · cases t with
    | housekeeping i fuel =>
      cases hj
      exact h.begun n j fuel ⟨φ, hp⟩
    | _ => exact ht.elim

/-- A job reported as running is not settled. -/
theorem Timeline.not_settled (h : Timeline C s) (ho : C.afterwards) (hr : s.ctl.running j = true) :
    ¬ s.Settled j := fun hs => by
  rw [h.ended j (h.afterwards ho j (hs.begun h))] at hr
  cases hr

/-- How a job becomes settled. -/
inductive Settling (s s' : UserState) (j : ℕ) : Prop where
  /-- its housekeeping lists the jobs -/
  | list {n i : ℕ} {t : Task} {φ : Phase} : s.phases n = some (t, φ) → φ.hold = .held →
      φ.others = none → s.ctl.running i = true → s'.ctl = s.ctl → Settling s s' j
  /-- its housekeeping reverts the slice -/
  | revert {n : ℕ} {t : Task} {φ : Phase} : s.phases n = some (t, φ) → φ.hold = .held →
      t.job = some j → s'.ctl.marker = .absent → s'.ctl.last = some .revert → Settling s s' j

theorem UserState.Settled.of_move (hK : K.managed u) (hs : Sane K u s) (hm : Move K C u s s')
    (h : s'.Settled j) : s.Settled j ∨ Settling s s' j := by
  cases hm with
  | @list n t φ ids hp hh ho ht hids =>
    rcases h with h | h
    · exact .inl (.inl h)
    · rcases has_put h with h | ⟨hhk, hj, ⟨others, ho', hne⟩ | hr⟩
      · exact .inl (.inr h)
      · cases ho'
        obtain ⟨i, hi⟩ := List.exists_mem_of_ne_nil _ hne
        exact .inr (.list hp hh ho ((hids i).mp (Task.mem_others.mp hi).1) rfl)
      · exact .inl (.inr ⟨n, t, φ, hp, hhk, hj, .inr hr⟩)
  | @revert n t φ took hp hh hcl =>
    rcases h with h | h
    · exact .inl (.inl h)
    · rcases has_put h with h | ⟨-, hj, -⟩
      · exact .inl (.inr h)
      · exact .inr (.revert hp hh hj ((hs.process n t φ hp).cleared hh hcl) rfl)
  | @finishHousekeeping n i fuel φ a hp hpost =>
    refine .inl ?_
    rcases h with h | h
    · change (if a = .status 0 then Function.update s.ctl.hkOk i true else s.ctl.hkOk) j = true at h
      split at h
      · rcases update_true_iff.mp h with rfl | h
        · obtain ⟨others, hot, hempty, -⟩ := hpost ‹_› hK
          refine .inr ⟨n, _, φ, hp, trivial, rfl, ?_⟩
          by_cases hne : others = []
          · exact .inr (hempty hne).2
          · exact .inl ⟨others, hot, hne⟩
        · exact .inl h
      · exact .inl h
    · exact .inr (has_drop h)
  | acquire hp => exact .inl (h.next hp rfl rfl rfl)
  | release hp => exact .inl (h.next hp rfl rfl rfl)
  | look _ hp => exact .inl (h.next hp rfl rfl rfl)
  | see _ hp => exact .inl (h.next hp rfl rfl rfl)
  | update _ _ hp => exact .inl (h.next hp rfl rfl rfl)
  | publish hp => exact .inl (h.next hp rfl rfl rfl)
  | clear hp => exact .inl (h.next hp rfl rfl rfl)
  | request _ hp => exact .inl (h.next hp rfl rfl rfl)
  | startProlog => exact .inl (h.start rfl)
  | startHousekeeping => exact .inl (h.start rfl)
  | startSession => exact .inl (h.start rfl)
  | finishProlog => exact .inl (h.drop rfl)
  | finishSession => exact .inl (h.drop rfl)
  | kill => exact .inl (h.drop rfl)
  | _ => exact .inl h

/-- The jobs a listing in use names are still to be cleaned up, and where there
is something to clean up there is such a job. -/
structure Cleans (s : UserState) : Prop where
  told : ∀ n t others, s.Listed n t others → ∀ j ∈ others, s.ctl.reported j = true ∧ ¬ s.Settled j
  pending : s.Dirty → s.Pending

theorem Cleans.told_move (hK : K.managed u) (ho : C.afterwards) (hs : Sane K u s) (ht : Timeline C s)
    (h : Cleans s) (hm : Move K C u s s') (hl : s'.Listed n t others) (hj : j ∈ others) :
    s'.ctl.reported j = true ∧ ¬ s'.Settled j := by
  rcases hl.of_move hs.process hm with hl | ⟨hctl, -, ids, rfl, hids⟩
  · obtain ⟨hrep, hns⟩ := h.told n t others hl j hj
    refine ⟨reported_of_move hm hrep, fun hs' => ?_⟩
    rcases hs'.of_move hK hs hm with hs' | hs'
    · exact hns hs'
    · cases hs' with
      | list hp hh hnone _ _ =>
        have := (hl.alone hs.process hp hh).2.2
        rw [hnone] at this
        cases this
      | @revert m t' φ hp hh hjob _ _ =>
        obtain ⟨-, rfl, hot⟩ := hl.alone hs.process hp hh
        exact (hs.process m t' φ hp).own others j hot hjob hj
  · have hrun : s'.ctl.running j = true := by
      rw [hctl]
      exact (hids j).mp (Task.mem_others.mp hj).1
    exact ⟨(ht.move hm).reported j hrun, (ht.move hm).not_settled ho hrun⟩

/-- The job of a live prolog is reported and not settled. -/
theorem Timeline.prolog_pending (h : Timeline C s) (hr : C.reported) (hq : C.sequential)
    (hp : s.phases n = some (t, φ)) (ht : t.isProlog) (hj : t.job = some j) :
    s.ctl.reported j = true ∧ ¬ s.Settled j := by
  cases t with
  | prolog i fuel =>
    cases hj
    refine ⟨h.started hr n j fuel ⟨φ, hp⟩, fun hs => ?_⟩
    have hb := hs.begun h
    rw [h.sequential hq n j fuel ⟨φ, hp⟩] at hb
    cases hb
  | _ => exact ht.elim

/-- An update is for jobs that are still to be cleaned up. -/
theorem Cleans.wanted_pending (h : Cleans s) (ht : Timeline C s) (hr : C.reported)
    (hq : C.sequential) (hp : s.phases n = some (t, φ)) (hh : φ.hold = .held)
    (hot : φ.others = some others) (hj : j ∈ t.wanted others) :
    s.ctl.reported j = true ∧ ¬ s.Settled j := by
  rcases Task.mem_wanted.mp hj with hj | ⟨hpr, hj⟩
  · exact h.told n t others ⟨n, t, φ, hp, rfl, rfl, hh, hot⟩ j hj
  · exact ht.prolog_pending hr hq hp hpr hj

theorem Task.isProlog.job (h : t.isProlog) : ∃ j, t.job = some j := by
  cases t with
  | prolog j fuel => exact ⟨j, rfl⟩
  | _ => exact h.elim

/-- Where a move leaves something to clean up and settles no job, there was a
job to clean up before it. -/
theorem Cleans.pending_before (h : Cleans s) (ht : Timeline C s) (hs : Sane K u s)
    (hr : C.reported) (hq : C.sequential) (hc : Change K u s s'.ctl)
    (hsub : ∀ i, s'.Settled i → s.Settled i) (hd : s'.Dirty) : s.Pending := by
  have hlast : s'.ctl.last = s.ctl.last → s'.ctl.last = some .set ∨
      s'.ctl.last = none ∧ (∃ j, s'.Settled j) → s.Pending := fun hl hd => h.pending <| .inr <| by
    rw [hl] at hd
    exact hd.imp_right fun ⟨hn, j, hj⟩ => ⟨hn, j, hsub j hj⟩
  cases hc with
  | none hmk hsrc hl => exact hd.elim (fun hd => h.pending (.inl (hmk ▸ hd))) (hlast hl)
  | @update n t φ others d took hp hh hot hids hne hmk hsrc hl =>
    obtain ⟨i, hi⟩ := List.exists_mem_of_ne_nil _ hne
    exact ⟨i, h.wanted_pending ht hr hq hp hh hot (hids ▸ hi)⟩
  | @publish n t φ hp hpub hmk hsrc hl =>
    obtain ⟨j, hj⟩ := hpub.2.1.job
    exact ⟨j, ht.prolog_pending hr hq hp hpub.2.1 hj⟩
  | clear hp hcl hmk hsrc hl => exact hd.elim (fun hd => absurd hmk hd) (hlast hl)
  | @revert n t φ hp hh hcl hmk hsrc hl =>
    rcases hd with hd | hd | ⟨hd, -⟩
    · exact absurd (hmk.trans ((hs.process n t φ hp).cleared hh hcl)) hd
    · rw [hl] at hd
      cases hd
    · rw [hl] at hd
      cases hd

theorem Cleans.move (hK : K.managed u) (hr : C.reported) (ho : C.afterwards) (hq : C.sequential)
    (hs : Sane K u s) (ht : Timeline C s) (h : Cleans s) (hm : Move K C u s s') : Cleans s' := by
  refine ⟨fun n t others hl j hj => h.told_move hK ho hs ht hm hl hj, fun hd => ?_⟩
  by_cases hnew : ∃ i, Settling s s' i
  · obtain ⟨i, hi⟩ := hnew
    cases hi with
    | @list _ j _ _ _ _ _ hrun hctl =>
      have hrun' : s'.ctl.running j = true := by
        rw [hctl]
        exact hrun
      exact ⟨j, (ht.move hm).reported j hrun', (ht.move hm).not_settled ho hrun'⟩
    | revert _ _ _ hmk hl =>
      rcases hd with hd | hd | ⟨hd, -⟩
      · exact absurd hmk hd
      · rw [hl] at hd
        cases hd
      · rw [hl] at hd
        cases hd
  · have hsub : ∀ i, s'.Settled i → s.Settled i := fun i hi =>
      (hi.of_move hK hs hm).elim id fun hi => absurd ⟨i, hi⟩ hnew
    obtain ⟨j, hj, hns⟩ := h.pending_before ht hs hr hq (hm.change hs.process) hsub hd
    exact ⟨j, reported_of_move hm hj, fun hj' => hns (hsub j hj')⟩

/-- A marker that is present is owed to a job that is not cleaned up. -/
theorem Cleans.owed (h : Cleans s) (hmark : s.ctl.marker ≠ .absent) :
    ∃ j, s.ctl.reported j = true ∧ s.ctl.hkOk j = false := by
  obtain ⟨j, hj, hns⟩ := h.pending (.inl hmark)
  have hk : s.ctl.hkOk j ≠ true := fun hk => hns (.inl hk)
  exact ⟨j, hj, Bool.eq_false_iff.mpr hk⟩

/-- When every job is cleaned up, the slice was reverted last. -/
theorem Cleans.reverted (h : Cleans s) (hsome : ∃ j, s.ctl.reported j = true)
    (hall : ∀ j, s.ctl.reported j = true → s.ctl.hkOk j = true) : s.ctl.last = some .revert := by
  obtain ⟨i, hi⟩ := hsome
  have hclean : ¬ s.Dirty := by
    intro hd
    obtain ⟨j, hj, hns⟩ := h.pending hd
    exact hns (.inl (hall j hj))
  have hset : s.Settled i := .inl (hall i hi)
  cases hl : s.ctl.last with
  | none => exact absurd (.inr (.inr ⟨hl, i, hset⟩)) hclean
  | some a =>
    cases a with
    | set => exact absurd (.inr (.inl hl)) hclean
    | revert => rfl

/-! ### Runs -/

/-- There is nothing to clean up in the beginning. -/
theorem World.initial.cleans {w : World} (h : w.initial)
    (hm : w.files (markerPath K.lockDir u) = .absent) : Cleans ⟨w.control K u, fun _ => none⟩ := by
  obtain ⟨-, -, -, -, -, -, hlast, -, -, -, hhk, -⟩ := h
  have hns : ∀ j, ¬ (⟨w.control K u, fun _ => none⟩ : UserState).Settled j := by
    rintro j (hok | ⟨_, _, _, hp, -⟩)
    · change w.hkOk u j = true at hok
      rw [hhk] at hok
      cases hok
    · cases hp
  refine ⟨fun n t others hl => ?_, fun hd => ?_⟩
  · obtain ⟨_, _, _, hp, -⟩ := hl
    cases hp
  · rcases hd with hmark | hset | ⟨-, j, hj⟩
    · exact absurd hm hmark
    · change w.last (sliceName u) = some .set at hset
      rw [hlast] at hset
      cases hset
    · exact absurd hj (hns j)

variable {c₀ c : Config Pid Op Res Task Exit World}

/-- **No stale marker.** As long as the marker is present, some reported job has
not been cleaned up; and when every reported job has been, of a user who is not
the instance owner, the last property operation attempted was a revert. -/
theorem no_stale_marker (h : Reached K C c₀ c) (hr : C.reported) (ho : C.afterwards) (hq : C.sequential)
    (hm : c₀.world.files (markerPath K.lockDir u) = .absent) :
    (c.world.files (markerPath K.lockDir u) ≠ .absent →
      ∃ j, c.world.reported u j = true ∧ c.world.hkOk u j = false) ∧
    (K.managed u → (∃ j, c.world.reported u j = true) →
      (∀ j, c.world.reported u j = true → c.world.hkOk u j = true) →
        c.world.last (sliceName u) = some .revert) := by
  have hclean : K.managed u → ∃ m, Watch.Follows (watchAll K) c m ∧ Cleans (userState K u m) := by
    intro hK
    obtain ⟨m, hf, -, hc⟩ := h.invariant_sane hm (h.initial.cleans hm)
      fun s s' hs ht hc hm => hc.move hK hr ho hq hs ht hm
    exact ⟨m, hf, hc⟩
  refine ⟨fun hmark => ?_, fun hK hsome hall => ?_⟩
  · obtain ⟨m₀, hf₀, hs₀⟩ := h.sane hm
    have hK : K.managed u := by
      rw [hf₀.1] at hmark
      exact hs₀.control.managed hmark
    obtain ⟨m, hf, hc⟩ := hclean hK
    rw [hf.1] at hmark ⊢
    exact hc.owed hmark
  · obtain ⟨m, hf, hc⟩ := hclean hK
    rw [hf.1] at hsome hall ⊢
    exact hc.reverted hsome hall

/-- User 1000's only job, before and after its cleanup. -/
theorem no_stale_marker_small :
    (∃ w : World, w.files (markerPath Setting.small.lockDir (1000 : ℕ)) ≠ .absent ∧
      ∃ j, w.reported 1000 j = true ∧ w.hkOk 1000 j = false) ∧
    ∃ w : World, w.hkOk 1000 1 = true ∧ w.last (sliceName (1000 : ℕ)) = some .revert := by
  constructor
  · obtain ⟨ls, w, hr, hw⟩ := Server.small_play
      [.act (.report 1000 1), .task ⟨1000, 7⟩ (.prolog 1 10)]
      (fun _ w => w.files (markerPath Setting.small.lockDir (1000 : ℕ))) (a := .regular) (by rfl)
    have hm : w.files (markerPath Setting.small.lockDir (1000 : ℕ)) ≠ .absent :=
      fun h => by cases hw.symm.trans h
    exact ⟨w, hm, (no_stale_marker (u := 1000) (Server.idle_reached hr) trivial trivial trivial rfl).1 hm⟩
  · obtain ⟨ls, w, hr, hw⟩ := Server.small_play
      [.act (.report 1000 1), .task ⟨1000, 7⟩ (.prolog 1 10), .act (.endJob 1000 1),
        .task ⟨1000, 9⟩ (.housekeeping 1 10)]
      (fun _ w => (w.reported, w.hkOk)) (a := (setAt (fun _ _ => false) 1000 1 true,
        setAt (fun _ _ => false) 1000 1 true)) (by rfl)
    obtain ⟨hrep, hk⟩ := Prod.mk.inj hw
    have h := (no_stale_marker (u := 1000) (Server.idle_reached hr) trivial trivial trivial rfl).2 (by decide)
      ⟨1, by rw [show _ = _ from hrep]; rfl⟩ fun j hj => by
        rw [show _ = _ from hrep] at hj
        rw [show _ = _ from hk]
        exact hj
    exact ⟨w, by rw [hk]; rfl, h⟩

/-- The instance owner's housekeeping succeeds without reverting anything. -/
theorem owner_no_stale_marker : ∃ c, Reached .small .strict Server.idle c ∧
    Setting.small.manage = .bool true ∧
    Server.idle.world.files (markerPath Setting.small.lockDir (100 : ℕ)) = .absent ∧
    c.world.locks (lockPath Setting.small.lockDir (100 : ℕ)) = none ∧
    c.world.prologOk 100 1 = true ∧ c.world.reported 100 1 = true ∧
    (∀ j, c.world.reported 100 j = true → c.world.hkOk 100 j = true) ∧
    c.world.last (sliceName (100 : ℕ)) = none := by
  obtain ⟨ls, w, hr, hw⟩ := Server.small_play
    [.act (.report 100 1), .task ⟨100, 7⟩ (.prolog 1 10), .act (.endJob 100 1),
      .task ⟨100, 9⟩ (.housekeeping 1 10)]
    (fun _ w => (w.locks (lockPath Setting.small.lockDir (100 : ℕ)), w.prologOk 100 1, w.reported,
      w.hkOk, w.last (sliceName (100 : ℕ))))
    (a := (none, true, setAt (fun _ _ => false) 100 1 true, setAt (fun _ _ => false) 100 1 true,
      none)) (by rfl)
  simp only [Prod.mk.injEq] at hw
  obtain ⟨hl, hp, hrep, hk, hlast⟩ := hw
  refine ⟨_, Server.idle_reached hr, rfl, rfl, hl, hp, by rw [hrep]; rfl, fun j hj => ?_, hlast⟩
  rw [hrep] at hj
  rw [hk]
  exact hj

end FluxPam
