/-
# Leftovers

The node may start with anything: a marker that no process of the run created,
properties on the slice, units that run. What is left over is harmless from the
first prolog or housekeeping of the user on that succeeds (`UserState.Treated`):
from then on the marker stands over an update, as it does in a run that starts
without one, and a login is let into a constrained slice only (`heals`).
-/
import FluxPam.Admission
import FluxPam.Lifecycle

namespace FluxPam

open Interaction

/-- A script has succeeded, or a process has taken one of its steps on the marker
or the slice. -/
def UserState.Treated (s : UserState) : Prop :=
  (∃ j, s.ctl.prologOk j = true) ∨ (∃ j, s.ctl.hkOk j = true) ∨
    s.Has fun _ _ φ => φ.published = true ∨ φ.cleared = true ∨ φ.updated = true

/-- What holds whatever was left over. -/
structure Healing (K : Setting) (u : ℕ) (s : UserState) : Prop where
  process : Orderly u s
  source : ∀ d, s.ctl.source = some d → ∃ props earlier, K.computed d props ∧ d.ids ≠ [] ∧
    s.ctl.slice = SliceProps.assignAll earlier (assignments props)
  constrained : s.Treated → s.ctl.marker ≠ .absent → s.ctl.source ≠ none

variable {K : Setting} {C : Contract} {u n : ℕ} {t : Task} {φ φ' : Phase} {c : Control}
  {s s' : UserState}

theorem UserState.Treated.next (h : (s.put n t φ' c).Treated) (hp : s.phases n = some (t, φ))
    (hpub : φ'.published = φ.published) (hcl : φ'.cleared = φ.cleared)
    (hup : φ'.updated = φ.updated) (hpok : c.prologOk = s.ctl.prologOk)
    (hk : c.hkOk = s.ctl.hkOk) : s.Treated := by
  rcases h with ⟨j, hj⟩ | ⟨j, hj⟩ | h
  · exact .inl ⟨j, hpok ▸ hj⟩
  · exact .inr (.inl ⟨j, hk ▸ hj⟩)
  · exact .inr (.inr (has_next hp h fun h' => by rwa [hpub, hcl, hup] at h'))

theorem UserState.Treated.start (h : (s.put n t .init c).Treated)
    (hpok : c.prologOk = s.ctl.prologOk) (hk : c.hkOk = s.ctl.hkOk) : s.Treated := by
  rcases h with ⟨j, hj⟩ | ⟨j, hj⟩ | h
  · exact .inl ⟨j, hpok ▸ hj⟩
  · exact .inr (.inl ⟨j, hk ▸ hj⟩)
  · refine .inr (.inr ((has_put h).elim id ?_))
    rintro (h' | h' | h') <;> cases h'

theorem UserState.Treated.drop (h : (s.drop n c).Treated) (hpok : c.prologOk = s.ctl.prologOk)
    (hk : c.hkOk = s.ctl.hkOk) : s.Treated := by
  rcases h with ⟨j, hj⟩ | ⟨j, hj⟩ | h
  · exact .inl ⟨j, hpok ▸ hj⟩
  · exact .inr (.inl ⟨j, hk ▸ hj⟩)
  · exact .inr (.inr (has_drop h))

/-- A housekeeping that succeeds has removed the marker or updated the slice. -/
theorem Phase.cleaned.touched (h : φ.cleaned K) (hk : K.constrain.truthy = true) :
    φ.published = true ∨ φ.cleared = true ∨ φ.updated = true := by
  obtain ⟨others, -, hempty, hrest⟩ := h
  by_cases hne : others = []
  · exact .inr (.inl (hempty hne).1)
  · exact .inr (.inr (hrest hne hk))

/-- The marker is published over an update. -/
theorem Consistent.published_source (h : Consistent u n t φ c) (hp : φ.publishes K ⟨u, n⟩ t)
    (hk : K.constrain.truthy = true) : c.source ≠ none := by
  obtain ⟨d, _, hd, -⟩ := h.updated hp.1 (hp.2.2.2 hk)
  rw [hd]
  exact Option.some_ne_none d

/-- The first step on the marker or the slice leaves no marker, or an update. -/
theorem UserState.Treated.of_move (hK : K.managed u) (hk : K.constrain.truthy = true)
    (ho : Orderly u s) (hm : Move K C u s s') (h : s'.Treated) :
    s.Treated ∨ s'.ctl.marker = .absent ∨ s'.ctl.source ≠ none := by
  cases hm with
  | @update n t φ args took ok hp hu hok =>
    rcases h with h | h | h
    · exact .inl (.inl h)
    · exact .inl (.inr (.inl h))
    rcases has_put h with h | h | h | h
    · exact .inl (.inr (.inr h))
    · exact .inl (.inr (.inr ⟨n, t, φ, hp, .inl h⟩))
    · exact .inl (.inr (.inr ⟨n, t, φ, hp, .inr (.inl h)⟩))
    · rcases Bool.or_eq_true_iff.mp h with h | rfl
      · exact .inl (.inr (.inr ⟨n, t, φ, hp, .inr (.inr h)⟩))
      · rw [hok rfl]
        exact .inr (.inr (Option.some_ne_none _))
  | @publish n t φ hp hpub =>
    exact .inr (.inr ((ho n t φ hp).published_source hpub hk))
  | clear => exact .inr (.inl rfl)
  | @finishProlog n j fuel φ a hp hpost =>
    rcases h with ⟨i, hi⟩ | h | h
    · change (if a = .status 0 then Function.update s.ctl.prologOk j true else s.ctl.prologOk) i = true at hi
      split at hi
      · exact .inl (.inr (.inr ⟨n, _, φ, hp, .inl (hpost ‹_› hK)⟩))
      · exact .inl (.inl ⟨i, hi⟩)
    · exact .inl (.inr (.inl h))
    · exact .inl (.inr (.inr (has_drop h)))
  | @finishHousekeeping n j fuel φ a hp hpost =>
    rcases h with h | ⟨i, hi⟩ | h
    · exact .inl (.inl h)
    · change (if a = .status 0 then Function.update s.ctl.hkOk j true else s.ctl.hkOk) i = true at hi
      split at hi
      · exact .inl (.inr (.inr ⟨n, _, φ, hp, (hpost ‹_› hK).touched hk⟩))
      · exact .inl (.inr (.inl ⟨i, hi⟩))
    · exact .inl (.inr (.inr (has_drop h)))
  | acquire hp => exact .inl (h.next hp rfl rfl rfl rfl rfl)
  | release hp => exact .inl (h.next hp rfl rfl rfl rfl rfl)
  | list hp => exact .inl (h.next hp rfl rfl rfl rfl rfl)
  | look _ hp => exact .inl (h.next hp rfl rfl rfl rfl rfl)
  | see _ hp => exact .inl (h.next hp rfl rfl rfl rfl rfl)
  | revert _ hp => exact .inl (h.next hp rfl rfl rfl rfl rfl)
  | request _ hp => exact .inl (h.next hp rfl rfl rfl rfl rfl)
  | startProlog => exact .inl (h.start rfl rfl)
  | startHousekeeping => exact .inl (h.start rfl rfl)
  | startSession => exact .inl (h.start rfl rfl)
  | finishSession => exact .inl (h.drop rfl rfl)
  | kill => exact .inl (h.drop rfl rfl)
  | _ => exact .inl h

/-- What an update or a revert leaves of the slice. -/
theorem Healing.source_move (h : Healing K u s) (hm : Move K C u s s') (d : Draft)
    (hd : s'.ctl.source = some d) : ∃ props earlier, K.computed d props ∧ d.ids ≠ [] ∧
      s'.ctl.slice = SliceProps.assignAll earlier (assignments props) := by
  cases hm with
  | @update n t φ args took ok hp hu hok =>
    obtain ⟨-, others, props, -, -, hne, hcomp, rfl⟩ := hu
    rw [← (h.process n t φ hp).draft] at hne hcomp
    cases took with
    | false => exact h.source d hd
    | true =>
      cases hd
      exact ⟨props, s.ctl.slice, hcomp, hne, rfl⟩
  | revert => cases hd
  | _ => exact h.source d hd

/-- Once there is an update or no marker, the marker stands over an update. -/
theorem Orderly.constrained_move (ho : Orderly u s) (hk : K.constrain.truthy = true)
    (hm : Move K C u s s') (h : s.ctl.marker = .absent ∨ s.ctl.source ≠ none)
    (hmark : s'.ctl.marker ≠ .absent) : s'.ctl.source ≠ none := by
  cases hm with
  | @update n t φ args took ok hp hu hok =>
    cases took with
    | false => exact h.resolve_left hmark
    | true => exact Option.some_ne_none _
  | @publish n t φ hp hpub => exact (ho n t φ hp).published_source hpub hk
  | clear => exact absurd rfl hmark
  | @revert n t φ took hp hh hcl => exact absurd ((ho n t φ hp).cleared hh hcl) hmark
  | _ => exact h.resolve_left hmark

theorem Healing.move (hK : K.managed u) (hk : K.constrain.truthy = true) (h : Healing K u s)
    (hm : Move K C u s s') : Healing K u s' := by
  refine ⟨h.process.move hm, h.source_move hm, fun ht hmark => ?_⟩
  rcases ht.of_move hK hk h.process hm with ht | hab | hsrc
  · refine h.process.constrained_move hk hm ?_ hmark
    by_cases hs : s.ctl.marker = .absent
    · exact .inl hs
    · exact .inr (h.constrained ht hs)
  · exact absurd hab hmark
  · exact hsrc

/-! ### Runs -/

theorem World.initial.healing {w : World} (h : w.initial) :
    Healing K u ⟨w.control K u, fun _ => none⟩ := by
  obtain ⟨-, -, -, -, -, hsource, -, -, -, hpok, hhk, -⟩ := h
  refine ⟨.init, fun d hd => ?_, fun ht => ?_⟩
  · cases (congrFun hsource (sliceName u)).symm.trans hd
  · rcases ht with ⟨j, hj⟩ | ⟨j, hj⟩ | ⟨_, _, _, hp, -⟩
    · cases (congrFun (congrFun hpok u) j).symm.trans hj
    · cases (congrFun (congrFun hhk u) j).symm.trans hj
    · cases hp

variable {c₀ c : Config Pid Op Res Task Exit World}

/-- **Leftovers heal.** Whatever marker, properties and units the node starts
with, once a prolog or a housekeeping of a user has succeeded, the marker stands
over an update that no revert was attempted after, and a login that asks for its
scope has the lock and gets into a slice with these constraints. -/
theorem heals (h : Reached K C c₀ c) (hK : K.managed u) (hk : K.constrain.truthy = true)
    (hok : ∃ j, c.world.prologOk u j = true ∨ c.world.hkOk u j = true) :
    (c.world.files (markerPath K.lockDir u) ≠ .absent → ∃ d, K.carries u c.world d) ∧
    ∀ n argv member job r c', (node K C).Step c
        (.op ⟨u, n⟩ (.session argv) (.busCall member (ScopeJob.message job)) r) c' →
      c.world.locks (lockPath K.lockDir u) = some ⟨u, n⟩ ∧
        c.world.files (markerPath K.lockDir u) = .regular ∧ ∃ d, K.carries u c.world d := by
  obtain ⟨m, hf, hheal⟩ := h.invariant h.initial.healing fun s s' hi hm => hi.move hK hk hm
  have hw : c.world = m.world := hf.1
  have hcarries : c.world.files (markerPath K.lockDir u) ≠ .absent →
      ∃ d, K.carries u c.world d := by
    rw [hw] at hok ⊢
    intro hmark
    have ht : (userState K u m).Treated := by
      obtain ⟨j, hj | hj⟩ := hok
      · exact .inl ⟨j, hj⟩
      · exact .inr (.inl ⟨j, hj⟩)
    obtain ⟨d, hd⟩ := Option.ne_none_iff_exists'.mp (hheal.constrained ht hmark)
    obtain ⟨props, earlier, hcomp, hne, hslice⟩ := hheal.source d hd
    exact ⟨d, hd, hne, props, earlier, hcomp, hslice⟩
  refine ⟨hcarries, fun n argv member job r c' hs => ?_⟩
  obtain ⟨φ, hφ, hh, hseen, -⟩ := Follows.allowed hf hs
  have hp := hheal.process n _ φ hφ
  have hmark : c.world.files (markerPath K.lockDir u) = .regular := by
    rw [hw]
    exact hp.seen hh hseen
  refine ⟨?_, hmark, hcarries ?_⟩
  · rw [hw]
    exact hp.lock hh
  · rw [hmark]
    exact fun h => by cases h

/-- The small node with a marker of user 1000 that is left over. -/
def World.leftover : World :=
  { World.empty with
    files := fun path => if path = markerPath Setting.small.lockDir (1000 : ℕ) then .regular else .absent }

/-- Job 1 of user 1000 over the marker that was left over. -/
theorem heals_small : ∃ w d, w.files (markerPath Setting.small.lockDir (1000 : ℕ)) = .regular ∧
    Setting.small.carries 1000 w d := by
  obtain ⟨⟨ls, w⟩, hplay, hw⟩ := Option.map_eq_some_iff.mp
    (show (Server.small.play [.act (.report 1000 1), .task ⟨1000, 7⟩ (.prolog 1 10)] .leftover).map
      (fun x => (x.2.prologOk 1000 1, x.2.files (markerPath Setting.small.lockDir (1000 : ℕ)))) =
        some (true, .regular) from by rfl)
  obtain ⟨hok, hmark⟩ := Prod.ext_iff.mp hw
  obtain ⟨hr, -⟩ : (node Setting.small .strict).Run ⟨.leftover, fun _ => none⟩ ls ⟨w, fun _ => none⟩ ∧
      Server.small.fits (fun _ => none) w :=
    Server.play_run ⟨fun _ _ h => (by cases h), rfl⟩ (fun _ => rfl) hplay
  have hinit : World.leftover.initial :=
    ⟨rfl, rfl, rfl, rfl, rfl, rfl, rfl, rfl, rfl, rfl, rfl, fun _ _ h => by cases h⟩
  obtain ⟨d, hd⟩ := (heals (u := 1000) ⟨hinit, fun _ => rfl, ls, hr⟩ (by decide) rfl ⟨1, .inl hok⟩).1
    fun h => by cases hmark.symm.trans h
  exact ⟨w, d, hmark, hd⟩

end FluxPam
