/-
# Attachment

systemd answers a request for a scope when it has queued the scope's job, and
moves the login process when it runs the job, at any later step. The session
gives the lock up and returns on the answer. So a teardown may come between,
and the process is moved into a slice that was reverted (`late_attachment`);
and the session may return before its process is in the slice. This is all that
can go wrong: in a run in which systemd is never outrun (`prompt`), that is,
the user's marker is removed only while no scope job of the user is queued and
a session of the user returns with success only when its own is not, a process
is moved only while the marker is present (`session_attachment`). What is done
for other users does not matter.
-/
import FluxPam.Admission

namespace FluxPam

open Interaction

/-- The step does not outrun systemd for the user. -/
def prompt (K : Setting) (u : ℕ) (w : World) : NodeLabel → Prop
  | .op p _ (.unlink path) (.ok ()) =>
    p.uid = u → path = markerPath K.lockDir u → ∀ job ∈ w.queue, job.slice ≠ sliceName u
  | .finish p (.session _) (.pam .PAM_SUCCESS) =>
    p.uid = u → ∀ job, w.request p = some job → job ∉ w.queue
  | _ => True

/-- A label of steps that cannot outrun systemd. -/
def harmless : NodeLabel → Bool
  | .op _ _ (.unlink _) _ => false
  | .finish _ (.session _) _ => false
  | _ => true

theorem prompt_of_harmless {K : Setting} {u : ℕ} {w : World} {l : NodeLabel} (h : harmless l = true) :
    prompt K u w l := by
  cases l with
  | op p t o r => cases o <;> trivial
  | finish p t a => cases t <;> trivial
  | _ => trivial

/-- A run in which systemd is never outrun for the user. -/
def PromptRun (K : Setting) (C : Contract) (u : ℕ) :=
  Steps fun c l c' => (node K C).Step c l c' ∧ prompt K u c.world l

/-- A prolog creates the user's marker. -/
def publishes (K : Setting) (u : ℕ) (l : NodeLabel) : Prop := ∃ n j fuel flags mode fd,
  l = .op ⟨u, n⟩ (.prolog j fuel) (.openFile (markerPath K.lockDir u) flags mode) (.ok fd)

/-- A housekeeping removes the user's marker, or finds it missing. -/
def clears (K : Setting) (u : ℕ) (l : NodeLabel) : Prop := ∃ n j fuel r,
  l = .op ⟨u, n⟩ (.housekeeping j fuel) (.unlink (markerPath K.lockDir u)) r ∧
    (r = .ok () ∨ r = .error .ENOENT)

/-- The marker is present as long as a scope job is queued, and what a session
requested is queued or done. -/
structure Attachable (u : ℕ) (c : Control) : Prop where
  queued : c.queue ≠ [] → c.marker ≠ .absent
  requested : ∀ n job, c.request n = some job →
    job.slice = sliceName u ∧ job.pid = n ∧ (job ∈ c.queue ∨ job ∈ c.attached)

variable {K : Setting} {C : Contract} {u n : ℕ} {s s' : UserState}
  {c₀ c : Config Pid Op Res Task Exit World}

theorem Attachable.congr {c c' : Control} (h : Attachable u c)
    (hm : c.marker ≠ .absent → c'.marker ≠ .absent) (hq : c'.queue = c.queue)
    (ha : c'.attached = c.attached) (hr : c'.request = c.request) : Attachable u c' where
  queued hne := hm (h.queued (hq ▸ hne))
  requested := by rw [hq, ha, hr]; exact h.requested

theorem Attachable.begin {c c' : Control} (h : Attachable u c) (hm : c'.marker = c.marker)
    (hq : c'.queue = c.queue) (ha : c'.attached = c.attached)
    (hr : c'.request = Function.update c.request n none) : Attachable u c' where
  queued hne := hm ▸ h.queued (hq ▸ hne)
  requested m job hj := by
    rw [hr] at hj
    rw [hq, ha]
    by_cases hm : m = n
    · subst hm
      rw [Function.update_self] at hj
      cases hj
    · rw [Function.update_of_ne hm] at hj
      exact h.requested m job hj

/-- A move that does not remove the marker under a queued job. -/
theorem Attachable.move (h : Attachable u s.ctl) (ho : Orderly u s) (hm : Move K C u s s')
    (hmark : s.ctl.queue ≠ [] → s'.ctl.marker ≠ .absent) : Attachable u s'.ctl := by
  cases hm with
  | @request n t φ jobs ok hp hh hs hj hne hlen =>
    have hreg := (ho n t φ hp).seen hh hs
    refine ⟨fun _ => ?_, fun m job hjob => ?_⟩
    · rw [show (s.put n t φ (s.ctl.requested n jobs ok)).ctl.marker = s.ctl.marker from rfl, hreg]
      exact fun h => by cases h
    · have hold : ∀ m job, s.ctl.request m = some job → job.slice = sliceName u ∧ job.pid = m ∧
          (job ∈ s.ctl.queue ++ jobs ∨ job ∈ s.ctl.attached) := fun m job hr =>
        (h.requested m job hr).imp_right (And.imp_right (Or.imp_left (List.mem_append_left _)))
      cases ok with
      | false => exact hold m job hjob
      | true =>
        by_cases hm : m = n
        · subst hm
          have hmem : job ∈ jobs := List.mem_of_head? <| by
            simpa [UserState.put, Control.requested] using hjob
          exact ⟨(hj job hmem).1, (hj job hmem).2, .inl (List.mem_append_right _ hmem)⟩
        · refine hold m job ?_
          simpa [UserState.put, Control.requested, hm] using hjob
  | clear hp hc => exact { h with queued := hmark }
  | @attach job hq =>
    refine ⟨fun hne => h.queued fun he => hne (by simp [he]), fun m job' hr => ?_⟩
    obtain ⟨hs, hp, hor⟩ := h.requested m job' hr
    refine ⟨hs, hp, ?_⟩
    rcases hor with hmem | hmem
    · by_cases he : job' = job
      · exact .inr (by simp [he])
      · exact .inl ((List.mem_erase_of_ne he).mpr hmem)
    · exact .inr (List.mem_append_left _ hmem)
  | publish hp hpub =>
    exact h.congr (fun _ => created_ne_absent s.ctl.marker) rfl rfl rfl
  | startProlog => exact h.begin rfl rfl rfl rfl
  | startHousekeeping => exact h.begin rfl rfl rfl rfl
  | startSession => exact h.begin rfl rfl rfl rfl
  | _ => exact h.congr id rfl rfl rfl

/-! ### Who touches the marker -/

theorem command_files {p : Pid} {took : Bool} {w w' : World} {cmd : World.Command}
    (h : w.command p took w' (some cmd)) : w'.files = w.files := by
  cases cmd with
  | setProperty slice args => rw [show w' = _ from h]
  | revert slice => rw [show w' = _ from h]
  | showUser => rw [show w' = _ from h]
  | _ =>
    obtain ⟨active, cgroup, rfl, -⟩ := h
    rfl

/-- What a user's process does to the marker. -/
theorem marker_effect {p : Pid} {t : Task} {φ : Phase} {o : Op} {r : Res o} {w w' : World}
    (ha : φ.allowed K p t o) (he : w.effect p K.rank o r w') :
    w'.files (markerPath K.lockDir p.uid) = w.files (markerPath K.lockDir p.uid) ∨
      publishes K p.uid (.op p t o r) ∧ w'.files (markerPath K.lockDir p.uid) ≠ .absent ∨
        (.op p t o r : NodeLabel) = .op p t (.unlink (markerPath K.lockDir p.uid)) (.ok ()) := by
  cases o with
  | openFile path flags mode =>
    cases r with
    | error e => exact .inl (by rw [show w' = w from he])
    | ok fd =>
      rcases ha with rfl | ⟨rfl, hp⟩
      · obtain ⟨-, -, -, rfl⟩ := he
        exact .inl (Function.update_of_ne (lockPath_ne_markerPath _ _ _ _).symm ..)
      · have hmark : w'.files (markerPath K.lockDir p.uid) ≠ .absent := by
          obtain ⟨-, -, -, rfl⟩ := he
          simp only [World.create, Function.update_self]
          exact created_ne_absent _
        cases t with
        | prolog j fuel => exact .inr (.inl ⟨⟨p.n, j, fuel, flags, mode, fd, rfl⟩, hmark⟩)
        | housekeeping j fuel => exact hp.2.1.elim
        | session argv => exact hp.2.1.elim
  | unlink path =>
    obtain ⟨rfl, -⟩ := ha
    rcases r with e | ⟨⟩
    · exact .inl (by rw [he.2])
    · exact .inr (.inr rfl)
  | run argv timeout =>
    obtain ⟨took, -, hc⟩ := he
    rw [Phase.allowed_run] at ha
    cases hd : World.decode argv with
    | none =>
      rw [hd] at ha
      exact ha.elim
    | some cmd =>
      rw [hd] at hc
      exact .inl (by rw [command_files hc])
  | flock fd operation =>
    rcases r with e | ⟨⟩
    · cases operation <;> exact .inl (by rw [show w' = w from he])
    · cases operation with
      | LOCK_UN => exact .inl (by rw [show w' = _ from he]; rfl)
      | _ => exact .inl (by rw [he.2])
  | close fd => exact .inl (by rw [show w' = _ from he]; rfl)
  | kvsLookupR ids => cases r <;> exact .inl (by rw [show w' = _ from he])
  | mapperLookup R => rcases r with e | _ | props <;> exact .inl (by rw [show w' = _ from he])
  | busCall member args =>
    obtain ⟨jobs, -, -, -, rfl⟩ := he
    exact .inl rfl
  | lstat path => exact .inl (by rw [he.2])
  | pathExists path => exact .inl (by rw [he.2])
  | walk top => exact .inl (by rw [he.2])
  | readLines path => exact .inl (by rw [he.2])
  | jobList user rank => exact .inl (by rw [he.2])
  | _ => exact .inl (by rw [show w' = w from he])

theorem start_files {p : Pid} {t : Task} {w w' : World} (h : World.start K C p w w' t) :
    w'.files = w.files := by
  cases t with
  | prolog j fuel => rw [h.2.2]; rfl
  | housekeeping j fuel => rw [h.2.2]; rfl
  | session argv => rw [h.2]; rfl

theorem finish_files {p : Pid} {t : Task} {a : Exit} {w w' : World}
    (h : World.finish p a w w' t) : w'.files = w.files := by
  cases t with
  | prolog j fuel => rw [show w' = _ from h]; rfl
  | housekeeping j fuel => rw [show w' = _ from h]; rfl
  | session argv => rw [show w' = _ from h]

theorem act_files {a : Act} {w w' : World} (h : World.act C w w' a) : w'.files = w.files := by
  cases a with
  | report v j => rw [h.2]
  | unreport v j => rw [h.2]
  | endJob v j => rw [show w' = _ from h]
  | attach v job =>
    obtain ⟨-, -, cgroup, rfl, -⟩ := h
    rfl
  | unit v name =>
    obtain ⟨-, active, cgroup, rfl, -⟩ := h
    rfl

/-- Only a prolog of the user creates the marker, and only a process of the
user removes it. -/
theorem marker_step {m m' : Watched Pid Task Phase World} {l : NodeLabel}
    (h : Watch.Step (node K C) (watchAll K) m l m') :
    m'.world.files (markerPath K.lockDir u) = m.world.files (markerPath K.lockDir u) ∨
      publishes K u l ∧ m'.world.files (markerPath K.lockDir u) ≠ .absent ∨
        ∃ n t, l = .op ⟨u, n⟩ t (.unlink (markerPath K.lockDir u)) (.ok ()) := by
  cases h with
  | @op w w' phases p t φ o r hφ ha hr he =>
    by_cases hu : p.uid = u
    · subst hu
      exact (marker_effect ha he.2).imp_right (Or.imp_right fun h => ⟨p.n, t, h⟩)
    · have hv := frame_effect hu (allowed_touches ha) he.2
      exact .inl (congrArg (fun v => v.toControl.marker) hv)
  | start _ hs => exact .inl (congrFun (start_files hs) _)
  | finish _ _ hf => exact .inl (congrFun (finish_files hf) _)
  | kill _ hk => exact .inl (by rw [show _ = _ from hk]; rfl)
  | world hw => exact .inl (congrFun (act_files hw) _)

/-! ### Prompt runs -/

/-- A state of a prompt run. -/
def Tracked (K : Setting) (u : ℕ) (c : Config Pid Op Res Task Exit World) : Prop :=
  ∃ m, Watch.Follows (watchAll K) c m ∧ m.world.locksOwned K ∧ Orderly u (userState K u m) ∧
    Attachable u (m.world.control K u)

variable {c₁ c' : Config Pid Op Res Task Exit World} {l : NodeLabel}

theorem Tracked.step (h : Tracked K u c) (hs : (node K C).Step c l c')
    (hp : prompt K u c.world l) : Tracked K u c' := by
  obtain ⟨m, hf, hl, ho, ha⟩ := h
  obtain ⟨m', hs', hf'⟩ := hf.step (watch_sound K C) hs
  have hm := step_move (u := u) hl hs'
  refine ⟨m', hf', locksOwned_step hl hs', ho.move hm, ha.move ho hm fun hne => ?_⟩
  have hmark : m.world.files (markerPath K.lockDir u) ≠ .absent := ha.queued hne
  rcases marker_step (u := u) hs' with h | ⟨-, h⟩ | ⟨n, t, rfl⟩
  · exact fun h' => hmark (h.symm.trans h')
  · exact h
  · -- the marker is removed, so nothing is queued
    refine absurd ?_ hne
    rw [hf.1] at hp
    simpa [userState, World.control, List.filter_eq_nil_iff] using hp rfl rfl

/-- The marker stays absent until a prolog publishes it. -/
theorem Tracked.absent (h : Tracked K u c) (hs : (node K C).Step c l c') (hl : ¬ publishes K u l)
    (hm : c.world.files (markerPath K.lockDir u) = .absent) :
    c'.world.files (markerPath K.lockDir u) = .absent := by
  obtain ⟨m, hf, -⟩ := h
  obtain ⟨m', hs', hf'⟩ := hf.step (watch_sound K C) hs
  rw [hf.1] at hm
  rw [hf'.1]
  rcases marker_step (u := u) hs' with h | ⟨h, -⟩ | ⟨n, t, rfl⟩
  · exact h.trans hm
  · exact absurd h hl
  · cases hs' with
    | op _ _ _ he => rw [show _ = _ from he.2]; exact Function.update_self ..

theorem Tracked.attach (h : Tracked K u c) {job : ScopeJob}
    (hs : (node K C).Step c (.world (.attach u job)) c') :
    c.world.files (markerPath K.lockDir u) ≠ .absent := by
  obtain ⟨m, hf, -, -, ha⟩ := h
  cases hs with
  | world hw =>
    obtain ⟨hj, hslice, -⟩ := hw
    have hw : _ = m.world := hf.1
    subst hw
    refine ha.queued (List.ne_nil_of_mem (a := job) ?_)
    simpa [World.control, hslice] using hj

/-- What removes the marker leaves it absent. -/
theorem clears_absent (hs : (node K C).Step c l c') (hl : clears K u l) :
    c'.world.files (markerPath K.lockDir u) = .absent := by
  obtain ⟨n, j, fuel, r, rfl, hr⟩ := hl
  cases hs with
  | op _ he =>
    rcases hr with rfl | rfl
    · rw [show _ = _ from he.2]
      exact Function.update_self ..
    · obtain ⟨hn, rfl⟩ := he.2
      exact hn rfl

theorem PromptRun.tracked {ls} (h : PromptRun K C u c ls c') (hc : Tracked K u c) :
    Tracked K u c' :=
  h.invariant (I := Tracked K u) (fun _ _ _ hi hs => hi.step hs.1 hs.2) hc

/-- After a removal of the marker no process is moved before a prolog publishes it. -/
theorem PromptRun.published {ls} (h : PromptRun K C u c ls c₁) (hc : Tracked K u c)
    (habs : c.world.files (markerPath K.lockDir u) = .absent) {job : ScopeJob}
    (hs : (node K C).Step c₁ (.world (.attach u job)) c') : ∃ l ∈ ls, publishes K u l := by
  by_contra hno
  have hquiet : ∀ l ∈ ls, ¬ publishes K u l := fun l hl hpub => hno ⟨l, hl, hpub⟩
  -- the marker stays absent to the end of the run
  obtain ⟨hc₁, habs₁⟩ := h.invariant_on
    (I := fun c => Tracked K u c ∧ c.world.files (markerPath K.lockDir u) = .absent)
    (A := fun l => ¬ publishes K u l)
    (fun _ _ _ hl hi hs => ⟨hi.1.step hs.1 hs.2, hi.1.absent hs.1 hl hi.2⟩) hquiet ⟨hc, habs⟩
  exact hc₁.attach hs habs₁

/-- A session that returns with success after systemd ran its job is in the slice. -/
theorem Tracked.entered (h : Tracked K u c) {n : ℕ} {argv : List String} {job : ScopeJob}
    (hp : prompt K u c.world (.finish ⟨u, n⟩ (.session argv) (.pam .PAM_SUCCESS)))
    (hreq : c.world.request ⟨u, n⟩ = some job) :
    job.slice = sliceName u ∧ job.pid = n ∧ job ∈ c.world.attached := by
  obtain ⟨m, hf, -, -, ha⟩ := h
  rw [hf.1] at hp hreq ⊢
  have hdone : job ∉ m.world.queue := hp rfl job hreq
  obtain ⟨hslice, hpid, hqueue | hatt⟩ := ha.requested n job hreq
  · exact absurd (List.mem_filter.mp hqueue).1 hdone
  · exact ⟨hslice, hpid, (List.mem_filter.mp hatt).1⟩

/-- In the beginning nothing is queued and nothing requested. -/
theorem World.initial.attachable {w : World} (h : w.initial) : Attachable u (w.control K u) := by
  obtain ⟨-, hqueue, -, -, hrequest, -⟩ := h
  refine ⟨fun hne => ?_, fun n job hj => ?_⟩
  · change w.queue.filter (·.slice = sliceName u) ≠ [] at hne
    rw [hqueue] at hne
    exact absurd rfl hne
  · change w.request ⟨u, n⟩ = some job at hj
    rw [hrequest] at hj
    cases hj

/-- **Attachment.** In a run in which systemd is never outrun for the user, from any
state in which nothing runs: a login process is moved into the slice only while the
marker is present; once a teardown has removed the marker or found it missing,
none is until a prolog publishes it; and one whose session returned with
success after requesting a scope is in the slice. -/
theorem session_attachment (hinit : c₀.world.initial) (hidle : ∀ p, c₀.procs p = none) {ls}
    (hrun : PromptRun K C u c₀ ls c) :
    (∀ job c', (node K C).Step c (.world (.attach u job)) c' →
      c.world.files (markerPath K.lockDir u) ≠ .absent) ∧
    (∀ l c₁ ls c₂ job c₃, (node K C).Step c l c₁ → prompt K u c.world l → clears K u l →
      PromptRun K C u c₁ ls c₂ → (node K C).Step c₂ (.world (.attach u job)) c₃ →
        ∃ l ∈ ls, publishes K u l) ∧
    (∀ n argv c' job, (node K C).Step c (.finish ⟨u, n⟩ (.session argv) (.pam .PAM_SUCCESS)) c' →
      prompt K u c.world (.finish ⟨u, n⟩ (.session argv) (.pam .PAM_SUCCESS)) →
        c.world.request ⟨u, n⟩ = some job →
          job.slice = sliceName u ∧ job.pid = n ∧ job ∈ c.world.attached) := by
  have hstart : Tracked K u c₀ :=
    ⟨_, Watch.Follows.of_none hidle, hinit.locksOwned, .init, hinit.attachable⟩
  have hc : Tracked K u c := hrun.tracked hstart
  refine ⟨fun job c' hs => hc.attach hs, ?_, ?_⟩
  · intro l c₁ ls c₂ job c₃ hs hp hcl hr hs'
    exact PromptRun.published hr (hc.step hs hp) (clears_absent hs hcl) hs'
  · intro n argv c' job _ hp hreq
    exact hc.entered hp hreq

/-- A login process of user 1000 is moved into the slice while the session still
waits for the answer. -/
theorem session_attachment_small : ∃ c job c',
    (node Setting.small .strict).Step c (.world (.attach 1000 job)) c' ∧
      c.world.files (markerPath Setting.small.lockDir (1000 : ℕ)) ≠ .absent := by
  obtain ⟨ls, y, w, hr, hw⟩ := Server.small_launch
    [.act (.report 1000 1), .task ⟨1000, 7⟩ (.prolog 1 10)] 33 ⟨1000, 8⟩ (.session [])
    (fun ls _ w => (ls.all harmless, w.queue))
    (a := (true, [⟨"flux-pam-8.scope", "user-1000.slice", 8⟩])) (by rfl)
  obtain ⟨hl, hq⟩ := Prod.mk.inj hw
  have hs : World.act .strict w
      { w with queue := w.queue.erase ⟨"flux-pam-8.scope", "user-1000.slice", 8⟩
               attached := w.attached ++ [⟨"flux-pam-8.scope", "user-1000.slice", 8⟩] }
      (.attach 1000 ⟨"flux-pam-8.scope", "user-1000.slice", 8⟩) :=
    ⟨by simp [hq], by rfl, w.cgroup, rfl, fun _ _ => rfl⟩
  have hprompt : PromptRun .small .strict 1000 Server.idle ls _ :=
    hr.mono_on (A := fun l => harmless l = true)
      (fun _ _ _ hl hs => ⟨hs, prompt_of_harmless hl⟩) (List.all_eq_true.mp hl)
  exact ⟨_, _, _, .world hs, (session_attachment World.empty_initial (fun _ => rfl) hprompt).1 _ _
    (.world hs)⟩

/-- Job 1 ends before systemd runs the scope job of a login: the session returns
with success though its process is not in the slice; and after a teardown that
kills what is left in the slice and succeeds, the process is moved there. -/
theorem late_attachment :
    (∃ c c' job, Reached .small .strict Server.idle c ∧
      (node Setting.small .strict).Step c
        (.finish ⟨1000, 8⟩ (.session []) (.pam .PAM_SUCCESS)) c' ∧
      c.world.request ⟨1000, 8⟩ = some job ∧ job ∉ c.world.attached) ∧
    ∃ c c' job, Reached .small .strict Server.idle c ∧
      (node Setting.small .strict).Step c (.world (.attach 1000 job)) c' ∧
      c.world.hkOk 1000 1 = true ∧ c.world.last (sliceName (1000 : ℕ)) = some .revert ∧
      c.world.files (markerPath Setting.small.lockDir (1000 : ℕ)) = .absent := by
  constructor
  · obtain ⟨ls, y, w, hr, hw⟩ := Server.small_launch
      [.act (.report 1000 1), .task ⟨1000, 7⟩ (.prolog 1 10)] 100 ⟨1000, 8⟩ (.session [])
      (fun _ y w => (y.result?, w.request ⟨1000, 8⟩, w.attached))
      (a := (some (.pam .PAM_SUCCESS), some ⟨"flux-pam-8.scope", "user-1000.slice", 8⟩, []))
      (by rfl)
    simp only [Prod.mk.injEq] at hw
    obtain ⟨hy, hreq, hatt⟩ := hw
    cases y with
    | op o k => cases hy
    | pure a =>
      cases hy
      exact ⟨_, _, _, Server.idle_reached hr, .finish (Function.update_self ..) rfl, hreq,
        by rw [show _ = _ from hatt]; exact List.not_mem_nil⟩
  · obtain ⟨ls, w, hr, hw⟩ := Server.small_play
      [.act (.report 1000 1), .task ⟨1000, 7⟩ (.prolog 1 10), .task ⟨1000, 8⟩ (.session []),
        .act (.endJob 1000 1), .task ⟨1000, 9⟩ (.housekeeping 1 10)]
      (fun _ w => (w.hkOk 1000 1, w.last (sliceName (1000 : ℕ)),
        w.files (markerPath Setting.small.lockDir (1000 : ℕ)), w.queue))
      (a := (true, some .revert, .absent, [⟨"flux-pam-8.scope", "user-1000.slice", 8⟩])) (by rfl)
    simp only [Prod.mk.injEq] at hw
    obtain ⟨hk, hlast, hm, hq⟩ := hw
    have hs : World.act .strict w
        { w with queue := w.queue.erase ⟨"flux-pam-8.scope", "user-1000.slice", 8⟩
                 attached := w.attached ++ [⟨"flux-pam-8.scope", "user-1000.slice", 8⟩] }
        (.attach 1000 ⟨"flux-pam-8.scope", "user-1000.slice", 8⟩) :=
      ⟨by simp [hq], by rfl, w.cgroup, rfl, fun _ _ => rfl⟩
    exact ⟨_, _, _, Server.idle_reached hr, .world hs, hk, hlast, hm⟩

end FluxPam
