/-
# The locking discipline

What the lock buys: while a process holds it, what the process has done to the
marker and the slice is still so. `Consistent` says this of one process, and is
not disturbed by the others (`Consistent.frame`), who do not hold the lock;
`Constrained` says what the marker and the slice have to do with each other.
Every move keeps both (`Sane.move`), so they hold in every run.
-/
import FluxPam.Protocol

namespace FluxPam

open Interaction

/-- The job a script runs for. -/
def Task.job : Task → Option ℕ
  | .prolog j _ => some j
  | .housekeeping j _ => some j
  | .session _ => none

theorem Task.not_mem_others {t : Task} {j : ℕ} (h : t.job = some j) (ids : List ℕ) :
    j ∉ t.others ids := by
  cases t <;> cases h <;> simp [Task.others]

theorem Task.mem_others {t : Task} {ids : List ℕ} {j : ℕ} :
    j ∈ t.others ids ↔ j ∈ ids ∧ t.job ≠ some j := by
  cases t <;> simp [Task.others, Task.job, @eq_comm _ j]

theorem Task.mem_wanted {t : Task} {others : List ℕ} {j : ℕ} :
    j ∈ t.wanted others ↔ j ∈ others ∨ t.isProlog ∧ t.job = some j := by
  cases t <;> simp [Task.wanted, Task.job, Task.isProlog, @eq_comm _ j]

theorem Task.not_isProlog_of_isHousekeeping {t : Task} (h : t.isHousekeeping) : ¬ t.isProlog := by
  cases t with
  | housekeeping j fuel => exact fun hp => hp
  | _ => exact h.elim

theorem Task.wanted_of_isHousekeeping {t : Task} (h : t.isHousekeeping) (others : List ℕ) :
    t.wanted others = others := by
  cases t with
  | housekeeping j fuel => rfl
  | _ => exact h.elim

/-- How a process stands to the user's control. -/
structure Consistent (u n : ℕ) (t : Task) (φ : Phase) (c : Control) : Prop where
  -- what the process has done
  own : ∀ others j, φ.others = some others → t.job = some j → j ∉ others
  updating : φ.updated = true → ∃ others, φ.others = some others ∧ t.wanted others ≠ []
  clearing : φ.cleared = true → t.isHousekeeping ∧ φ.others = some []
  reverting : φ.reverted = true → φ.cleared = true
  publishing : φ.published = true → t.isProlog
  draft : c.draft n = φ.draft
  fresh : φ.hold = .before → φ.others = none ∧ φ.seen = false
  -- what that means as long as the process has the lock
  lock : φ.hold = .held → c.lock = some ⟨u, n⟩
  seen : φ.hold = .held → φ.seen = true → c.marker = .regular
  updated : φ.hold = .held → φ.updated = true →
    ∃ d others, c.source = some d ∧ φ.others = some others ∧ d.ids = t.wanted others
  cleared : φ.hold = .held → φ.cleared = true → c.marker = .absent

/-- How the marker and the slice stand to each other. -/
structure Constrained (K : Setting) (u : ℕ) (c : Control) : Prop where
  kind : c.marker = .absent ∨ c.marker = .regular
  managed : c.marker ≠ .absent → K.managed u
  source : ∀ d, c.source = some d → ∃ props earlier, K.computed d props ∧ d.ids ≠ [] ∧
    c.slice = SliceProps.assignAll earlier (assignments props)
  constrained : K.constrain.truthy = true → c.marker ≠ .absent → c.source ≠ none

def Orderly (u : ℕ) (s : UserState) : Prop :=
  ∀ n t φ, s.phases n = some (t, φ) → Consistent u n t φ s.ctl

structure Sane (K : Setting) (u : ℕ) (s : UserState) : Prop where
  process : Orderly u s
  control : Constrained K u s.ctl

variable {K : Setting} {C : Contract} {u n m : ℕ} {t t' : Task} {φ φ' : Phase} {c c' : Control}
  {s s' : UserState}

/-! ### One process at a time -/

theorem UserState.put_self : (s.put n t φ c).phases n = some (t, φ) := Function.update_self ..

theorem UserState.put_ne (h : m ≠ n) : (s.put n t φ c).phases m = s.phases m :=
  Function.update_of_ne h ..

theorem UserState.drop_self : (s.drop n c).phases n = none := Function.update_self ..

theorem UserState.drop_ne (h : m ≠ n) : (s.drop n c).phases m = s.phases m :=
  Function.update_of_ne h ..

/-- What is to prove of all processes when one moves. -/
theorem UserState.forall_put {I : ℕ → Task → Phase → Prop} (hn : I n t φ)
    (hm : ∀ m t φ, m ≠ n → s.phases m = some (t, φ) → I m t φ) :
    ∀ m t' φ', (s.put n t φ c).phases m = some (t', φ') → I m t' φ' := by
  intro m t' φ' h
  by_cases he : m = n
  · subst he
    rw [put_self] at h
    cases h
    exact hn
  · rw [put_ne he] at h
    exact hm m t' φ' he h

/-- What is to prove of all processes when one goes. -/
theorem UserState.forall_drop {I : ℕ → Task → Phase → Prop}
    (hm : ∀ m t φ, m ≠ n → s.phases m = some (t, φ) → I m t φ) :
    ∀ m t' φ', (s.drop n c).phases m = some (t', φ') → I m t' φ' := by
  intro m t' φ' h
  by_cases he : m = n
  · subst he
    rw [drop_self] at h
    cases h
  · rw [drop_ne he] at h
    exact hm m t' φ' he h

/-- A process that does not hold the lock only looks at its draft. -/
theorem Consistent.frame (h : Consistent u n t φ c) (hd : c'.draft n = c.draft n)
    (hh : φ.hold = .held → c'.lock = c.lock ∧ c'.marker = c.marker ∧ c'.source = c.source) :
    Consistent u n t φ c' where
  own := h.own
  updating := h.updating
  clearing := h.clearing
  reverting := h.reverting
  publishing := h.publishing
  draft := hd.trans h.draft
  fresh := h.fresh
  lock hl := (hh hl).1.trans (h.lock hl)
  seen hl hs := (hh hl).2.1.trans (h.seen hl hs)
  updated hl hu := by
    rw [(hh hl).2.2]
    exact h.updated hl hu
  cleared hl hc := (hh hl).2.1.trans (h.cleared hl hc)

/-- Two processes do not hold the lock. -/
theorem Orderly.alone (h : Orderly u s) (hn : s.phases n = some (t, φ)) (hh : φ.hold = .held)
    (hm : s.phases m = some (t', φ')) (hne : m ≠ n) : φ'.hold ≠ .held := by
  intro hh'
  have hl := (h n t φ hn).lock hh
  rw [(h m t' φ' hm).lock hh'] at hl
  exact hne (by simpa using hl)

/-- The others when the process that holds the lock moves. -/
theorem Orderly.others (h : Orderly u s) (hn : s.phases n = some (t, φ)) (hh : φ.hold = .held)
    (hd : c'.draft = s.ctl.draft) :
    ∀ m t φ, m ≠ n → s.phases m = some (t, φ) → Consistent u m t φ c' := fun m t' φ' hne hm =>
  (h m t' φ' hm).frame (by rw [hd]) fun hh' => absurd hh' (h.alone hn hh hm hne)

/-- The others when the lock, the marker and the slice stay as they are, or a
process that had the lock gives it up. -/
theorem Orderly.bystanders (h : Orderly u s) (hd : ∀ m, m ≠ n → c'.draft m = s.ctl.draft m)
    (hl : c'.lock = s.ctl.lock ∨ c'.lock = (s.ctl.unlock ⟨u, n⟩).lock)
    (hm : c'.marker = s.ctl.marker) (hs : c'.source = s.ctl.source) :
    ∀ m t φ, m ≠ n → s.phases m = some (t, φ) → Consistent u m t φ c' := by
  intro m t' φ' hne hp
  refine (h m t' φ' hp).frame (hd m hne) fun hh => ⟨?_, hm, hs⟩
  rcases hl with hl | hl
  · exact hl
  · rw [hl, Control.unlock, (h m t' φ' hp).lock hh, if_neg (by simpa using hne)]

/-! ### Every move keeps the discipline -/

theorem Constrained.congr (h : Constrained K u c) (hm : c'.marker = c.marker)
    (hs : c'.source = c.source) (hp : c'.slice = c.slice) : Constrained K u c' where
  kind := hm ▸ h.kind
  managed := hm ▸ h.managed
  source := by rw [hs, hp]; exact h.source
  constrained := by rw [hm, hs]; exact h.constrained

theorem Consistent.init (c : Control) (hd : c.draft n = ⟨[], none⟩) : Consistent u n t .init c where
  own _ _ h := by cases h
  updating h := by cases h
  clearing h := by cases h
  reverting h := by cases h
  publishing h := by cases h
  draft := hd
  fresh _ := ⟨rfl, rfl⟩
  lock h := by cases h
  seen h := by cases h
  updated h := by cases h
  cleared h := by cases h

theorem release_held : φ.release.hold ≠ .held := by
  rw [Phase.release]
  split
  · intro h
    cases h
  · exact ‹_›

theorem before_of_release (h : φ.release.hold = .before) : φ.hold = .before := by
  rw [Phase.release] at h
  split at h
  · cases h
  · exact h

/-- A process that has given the lock up. -/
theorem Consistent.release (h : Consistent u n t φ c) (hd : c'.draft = c.draft) :
    Consistent u n t φ.release c' where
  own := h.own
  updating := h.updating
  clearing := h.clearing
  reverting := h.reverting
  publishing := h.publishing
  draft := by rw [hd]; exact h.draft
  fresh hb := h.fresh (before_of_release hb)
  lock hl := absurd hl release_held
  seen hl := absurd hl release_held
  updated hl := absurd hl release_held
  cleared hl := absurd hl release_held

/-- A process that takes the lock has done nothing with it yet. -/
theorem Consistent.acquire (h : Consistent u n t φ c) (hb : φ.hold = .before)
    (hl : c'.lock = some ⟨u, n⟩) (hd : c'.draft = c.draft) :
    Consistent u n t { φ with hold := .held } c' where
  own := h.own
  updating := h.updating
  clearing := h.clearing
  reverting := h.reverting
  publishing := h.publishing
  draft := by rw [hd]; exact h.draft
  fresh hb := by cases hb
  lock _ := hl
  seen _ hs := by
    rw [(h.fresh hb).2] at hs
    cases hs
  updated _ hu := by
    obtain ⟨_, ho, -⟩ := h.updating hu
    rw [(h.fresh hb).1] at ho
    cases ho
  cleared _ hc := by
    have ho := (h.clearing hc).2
    rw [(h.fresh hb).1] at ho
    cases ho

theorem Consistent.list (h : Consistent u n t φ c) (hh : φ.hold = .held) (ho : φ.others = none)
    (ids : List ℕ) : Consistent u n t { φ with others := some (t.others ids) } c := by
  have hu : φ.updated ≠ true := fun hu => by
    obtain ⟨_, hsome, -⟩ := h.updating hu
    rw [ho] at hsome
    cases hsome
  have hc : φ.cleared ≠ true := fun hc => by
    have hsome := (h.clearing hc).2
    rw [ho] at hsome
    cases hsome
  exact { h with
    own := by
      rintro others j ⟨⟩ hj
      exact Task.not_mem_others hj ids
    updating := fun hu' => absurd hu' hu
    clearing := fun hc' => absurd hc' hc
    updated := fun _ hu' => absurd hu' hu
    fresh := fun hb => by
      rw [show φ.hold = .before from hb] at hh
      cases hh }

theorem Consistent.look (h : Consistent u n t φ c) (f : Draft → Draft) :
    Consistent u n t { φ with draft := f φ.draft }
      { c with draft := Function.update c.draft n (f (c.draft n)) } :=
  { h with draft := by simp only [Function.update_self, h.draft] }

theorem Consistent.see (h : Consistent u n t φ c) (hh : φ.hold = .held) {b : Bool}
    (hb : b = true → c.marker = .regular) :
    Consistent u n t { φ with seen := φ.seen || b } c :=
  { h with
    seen := fun _ hs => by
      rcases Bool.or_eq_true_iff.mp hs with hs | hs
      · exact h.seen hh hs
      · exact hb hs
    fresh := fun hb => by
      rw [show φ.hold = .before from hb] at hh
      cases hh }

theorem Phase.updates.wanted {args : List String} (hu : φ.updates K t args) :
    ∃ others, φ.others = some others ∧ t.wanted others ≠ [] ∧ φ.draft.ids = t.wanted others := by
  obtain ⟨-, others, props, ho, hd, hne, -⟩ := hu
  exact ⟨others, ho, hd ▸ hne, hd⟩

theorem Consistent.update (h : Consistent u n t φ c) {args : List String} (hu : φ.updates K t args)
    {took ok : Bool} (hok : ok = true → took = true) :
    Consistent u n t { φ with updated := φ.updated || ok } (c.updated took n args) := by
  obtain ⟨others, ho, hw, hd⟩ := hu.wanted
  refine { h with updating := fun _ => ⟨others, ho, hw⟩, updated := fun _ hup => ?_ }
  rcases Bool.eq_false_or_eq_true took with rfl | rfl
  · exact ⟨c.draft n, others, rfl, ho, by rw [h.draft]; exact hd⟩
  · rcases Bool.or_eq_true_iff.mp hup with hup | rfl
    · exact h.updated hu.1 hup
    · cases hok rfl

theorem Consistent.publish (h : Consistent u n t φ c) (hp : φ.publishes K ⟨u, n⟩ t) :
    Consistent u n t { φ with published := true }
      { c with marker := if c.marker = .absent then .regular else c.marker } :=
  { h with
    publishing := fun _ => hp.2.1
    seen := fun hh hs => by
      have hm := h.seen hh hs
      simp [hm]
    cleared := fun _ hc => absurd hp.2.1 (Task.not_isProlog_of_isHousekeeping (h.clearing hc).1) }

theorem Consistent.clear (h : Consistent u n t φ c) (hc : φ.clears K ⟨u, n⟩ t) :
    Consistent u n t φ.clear { c with marker := .absent } :=
  { h with
    clearing := fun _ => ⟨hc.2.1, hc.2.2.2⟩
    reverting := fun _ => rfl
    fresh := fun hb => ⟨(h.fresh hb).1, rfl⟩
    seen := fun _ hs => by cases hs
    cleared := fun _ _ => rfl }

/-- A housekeeping that tears down has updated nothing. -/
theorem Consistent.not_updated (h : Consistent u n t φ c) (hc : φ.cleared = true) :
    φ.updated ≠ true := fun hu => by
  obtain ⟨others, ho, hw⟩ := h.updating hu
  obtain ⟨ht, ho'⟩ := h.clearing hc
  rw [ho] at ho'
  cases ho'
  exact hw (Task.wanted_of_isHousekeeping ht [])

theorem Consistent.revert (h : Consistent u n t φ c) (hc : φ.cleared = true) (took : Bool) :
    Consistent u n t { φ with reverted := true } (c.reverted took) :=
  { h with
    reverting := fun _ => hc
    updated := fun _ hu => absurd hu (h.not_updated hc) }

/-! ### The marker and the slice -/

theorem Constrained.updated (h : Constrained K u c) (hd : c.draft n = φ.draft)
    {args : List String} (hu : φ.updates K t args) (took : Bool) :
    Constrained K u (c.updated took n args) := by
  obtain ⟨-, others, props, -, -, hne, hcomp, rfl⟩ := hu
  rw [← hd] at hne hcomp
  cases took with
  | false => exact h.congr rfl rfl rfl
  | true =>
    refine ⟨h.kind, h.managed, ?_, fun _ _ => Option.some_ne_none _⟩
    rintro d ⟨⟩
    exact ⟨props, c.slice, hcomp, hne, rfl⟩

/-- The marker is published over an update. -/
theorem Constrained.published (h : Constrained K u c) (hp : φ.publishes K ⟨u, n⟩ t)
    (hc : Consistent u n t φ c) : Constrained K u
      { c with marker := if c.marker = .absent then .regular else c.marker } where
  kind := by
    rcases h.kind with hk | hk <;> simp [hk]
  managed _ := hp.2.2.1
  source := h.source
  constrained hk _ := by
    obtain ⟨d, others, hs, -⟩ := hc.updated hp.1 (hp.2.2.2 hk)
    rw [hs]
    exact Option.some_ne_none d

theorem Constrained.absent (h : Constrained K u c) : Constrained K u { c with marker := .absent } where
  kind := .inl rfl
  managed hm := absurd rfl hm
  source := h.source
  constrained _ hm := absurd rfl hm

theorem Constrained.reverted (h : Constrained K u c) (hm : c.marker = .absent) (took : Bool) :
    Constrained K u (c.reverted took) where
  kind := h.kind
  managed := h.managed
  source _ hd := by cases hd
  constrained _ hm' := absurd hm hm'

theorem begin_draft : (c.begin n).draft n = ⟨[], none⟩ := Function.update_self ..

theorem begin_draft_ne (h : m ≠ n) : (c.begin n).draft m = c.draft m := Function.update_of_ne h ..

/-- **The discipline.** Every move keeps the processes in order. -/
theorem Orderly.move (h : Orderly u s) (hm : Move K C u s s') : Orderly u s' := by
  cases hm with
  | idle => exact h
  | @acquire n t φ hp hb hl =>
    refine UserState.forall_put ((h n t φ hp).acquire hb rfl rfl) fun m t' φ' hne hm => ?_
    refine (h m t' φ' hm).frame rfl fun hh => ?_
    rw [(h m t' φ' hm).lock hh] at hl
    cases hl
  | @release n t φ hp =>
    exact UserState.forall_put ((h n t φ hp).release rfl)
      (h.bystanders (fun _ _ => rfl) (.inr rfl) rfl rfl)
  | @list n t φ ids hp hh ho ht hids =>
    exact UserState.forall_put ((h n t φ hp).list hh ho ids) (h.others hp hh rfl)
  | @look n t φ f hp =>
    exact UserState.forall_put ((h n t φ hp).look f)
      (h.bystanders (fun _ hne => Function.update_of_ne hne ..) (.inl rfl) rfl rfl)
  | @see n t φ b hp hh hb =>
    exact UserState.forall_put ((h n t φ hp).see hh hb) (h.others hp hh rfl)
  | @update n t φ args took ok hp hu hok =>
    exact UserState.forall_put ((h n t φ hp).update hu hok) (h.others hp hu.1 rfl)
  | @publish n t φ hp hpub =>
    exact UserState.forall_put ((h n t φ hp).publish hpub) (h.others hp hpub.1 rfl)
  | @clear n t φ hp hcl =>
    exact UserState.forall_put ((h n t φ hp).clear hcl) (h.others hp hcl.1 rfl)
  | @revert n t φ took hp hh hcl =>
    exact UserState.forall_put ((h n t φ hp).revert hcl took) (h.others hp hh rfl)
  | @request n t φ jobs ok hp hh hs hj hne hlen =>
    exact UserState.forall_put ((h n t φ hp).frame rfl fun _ => ⟨rfl, rfl, rfl⟩) (h.others hp hh rfl)
  | startProlog | startHousekeeping | startSession =>
    exact UserState.forall_put (.init _ begin_draft)
      (h.bystanders (fun _ hne => begin_draft_ne hne) (.inl rfl) rfl rfl)
  | finishProlog | finishHousekeeping | kill =>
    exact UserState.forall_drop (h.bystanders (fun _ _ => rfl) (.inr rfl) rfl rfl)
  | finishSession =>
    exact UserState.forall_drop (h.bystanders (fun _ _ => rfl) (.inl rfl) rfl rfl)
  | _ => exact fun m t φ hp => (h m t φ hp).frame rfl fun _ => ⟨rfl, rfl, rfl⟩

theorem Constrained.move (h : Constrained K u s.ctl) (ho : Orderly u s) (hm : Move K C u s s') :
    Constrained K u s'.ctl := by
  cases hm with
  | @update n t φ args took ok hp hu hok => exact h.updated (ho n t φ hp).draft hu took
  | @publish n t φ hp hpub => exact h.published hpub (ho n t φ hp)
  | clear => exact h.absent
  | @revert n t φ took hp hh hcl => exact h.reverted ((ho n t φ hp).cleared hh hcl) took
  | _ => exact h.congr rfl rfl rfl

theorem Sane.move (h : Sane K u s) (hm : Move K C u s s') : Sane K u s' :=
  ⟨h.process.move hm, h.control.move h.process hm⟩

theorem Orderly.init : Orderly u ⟨c, fun _ => none⟩ := fun _ _ _ h => by cases h

/-- Nothing runs and there is no marker. -/
theorem Sane.init (hm : c.marker = .absent) (hs : c.source = none) :
    Sane K u ⟨c, fun _ => none⟩ where
  process := .init
  control := {
    kind := .inl hm
    managed := fun h => absurd hm h
    source := fun d hd => by
      rw [show c.source = none from hs] at hd
      cases hd
    constrained := fun _ h => absurd hm h }

/-- The user's part of a start without a marker is sane. -/
theorem World.initial.sane {w : World} (h : w.initial)
    (hm : w.files (markerPath K.lockDir u) = .absent) : Sane K u ⟨w.control K u, fun _ => none⟩ := by
  obtain ⟨-, -, -, -, -, hsource, -⟩ := h
  refine .init hm ?_
  change w.source (sliceName u) = none
  rw [hsource]

end FluxPam
