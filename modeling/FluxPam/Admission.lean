/-
# Admission

Where a login is let into the user's slice, the slice is constrained. With
`exec.sdexec-constrain-resources` set, a marker that is present stands over an
update that no revert was attempted after; and a session asks for its scope
only while it has the user lock and the marker is there. So whatever fails or
is killed between an update and the marker, or between the marker's removal and
the revert, no login is put into a slice without constraints.
-/
import FluxPam.Discipline
import FluxPam.Server

namespace FluxPam

open Interaction

/-- The slice carries the properties of an update that was computed for the
jobs of `d`, and no revert was attempted since. A name this update did not
assign keeps what `earlier` ones left it. -/
def Setting.carries (K : Setting) (u : ℕ) (w : World) (d : Draft) : Prop :=
  w.source (sliceName u) = some d ∧ d.ids ≠ [] ∧ ∃ props earlier, K.computed d props ∧
    w.slices (sliceName u) = SliceProps.assignAll earlier (assignments props)

variable {K : Setting} {C : Contract} {u : ℕ} {c₀ c c' : Config Pid Op Res Task Exit World}

theorem Reached.sane (h : Reached K C c₀ c)
    (hm : c₀.world.files (markerPath K.lockDir u) = .absent) :
    ∃ m, Watch.Follows (watchAll K) c m ∧ Sane K u (userState K u m) :=
  h.invariant (h.initial.sane hm) fun _ _ hs => hs.move

/-- A process that takes a step is in a phase that allows it. -/
theorem Follows.allowed {m : Watched Pid Task Phase World} (hf : Watch.Follows (watchAll K) c m)
    {p : Pid} {t : Task} {o : Op} {r : Res o} (hs : (node K C).Step c (.op p t o r) c') :
    ∃ φ, m.phases p = some (t, φ) ∧ φ.allowed K p t o := by
  cases hs with
  | op hp _ =>
    obtain ⟨φ, hφ, ha⟩ := hf.live hp
    exact ⟨φ, hφ, ha.1⟩

theorem Constrained.carries {w : World} {d : Draft} (h : Constrained K u (w.control K u))
    (hd : w.source (sliceName u) = some d) : K.carries u w d := by
  obtain ⟨props, earlier, hc, hne, hs⟩ := h.source d hd
  exact ⟨hd, hne, props, earlier, hc, hs⟩

/-- **Admission.** In every run, when a session asks for a scope in the user's
slice it has the user's lock, the marker is present and the slice carries its
constraints; and whenever the marker is present, the slice does. -/
theorem login_admission (h : Reached K C c₀ c) (hk : K.constrain.truthy = true)
    (hm : c₀.world.files (markerPath K.lockDir u) = .absent) :
    (∀ p argv member job r c', (node K C).Step c
        (.op p (.session argv) (.busCall member (ScopeJob.message job)) r) c' →
      job.slice = sliceName u →
        p.uid = u ∧ job.pid = p.n ∧ c.world.locks (lockPath K.lockDir u) = some p ∧
          c.world.files (markerPath K.lockDir u) = .regular ∧ ∃ d, K.carries u c.world d) ∧
      (c.world.files (markerPath K.lockDir u) ≠ .absent → ∃ d, K.carries u c.world d) := by
  obtain ⟨m, hf, hsane⟩ := h.sane hm
  have hw : c.world = m.world := hf.1
  have hcarries : c.world.files (markerPath K.lockDir u) ≠ .absent →
      ∃ d, K.carries u c.world d := by
    rw [hw]
    intro hmark
    obtain ⟨d, hd⟩ := Option.ne_none_iff_exists'.mp (hsane.control.constrained hk hmark)
    exact ⟨d, hsane.control.carries hd⟩
  refine ⟨?_, hcarries⟩
  rintro ⟨v, n⟩ argv member job r c' hs hslice
  obtain ⟨φ, hφ, hh, hseen, scope, hargs⟩ := Follows.allowed hf hs
  have hjob := message_inj hargs
  subst hjob
  obtain rfl : v = u := sliceName_inj hslice
  have hp := hsane.process n _ φ hφ
  have hmark : c.world.files (markerPath K.lockDir v) = .regular := by
    rw [hw]
    exact hp.seen hh hseen
  refine ⟨rfl, rfl, ?_, hmark, hcarries ?_⟩
  · rw [hw]
    exact hp.lock hh
  · rw [hmark]
    exact fun h => by cases h

/-- A session of user 1000 asks for its scope after the prolog of job 1. -/
theorem login_admission_small : ∃ c job r c',
    (node Setting.small .strict).Step c (.op ⟨1000, 8⟩ (.session [])
      (.busCall "StartTransientUnit" (ScopeJob.message job)) r) c' ∧
      ∃ d, Setting.small.carries 1000 c.world d := by
  obtain ⟨ls, y, w, hr, hy⟩ := Server.small_launch
    [.act (.report 1000 1), .task ⟨1000, 7⟩ (.prolog 1 10)] 32 ⟨1000, 8⟩ (.session [])
    (fun _ y _ => y.head?) (a := some (.busCall "StartTransientUnit"
      (ScopeJob.message ⟨"flux-pam-8.scope", "user-1000.slice", 8⟩))) (by rfl)
  cases y with
  | pure a => cases hy
  | op o k =>
    cases hy
    have he : Setting.small.exec ⟨1000, 8⟩ w (.busCall "StartTransientUnit"
        (ScopeJob.message ⟨"flux-pam-8.scope", "user-1000.slice", 8⟩)) false w :=
      ⟨trivial, [], by simp, by simp, by simp, by simp⟩
    obtain ⟨-, -, -, -, hd⟩ := (login_admission (u := 1000) (Server.idle_reached hr) rfl rfl).1 _ _ _ _ _ _
      (.op (Function.update_self ..) he) rfl
    exact ⟨_, _, _, _, .op (Function.update_self ..) he, hd⟩

end FluxPam
