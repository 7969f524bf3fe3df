/-
# Nothing waits forever

A session waits for its user's lock with `flock (fd, LOCK_EX)`, a script polls
it. Who has a user's lock is a live process of that user (`Owned.move`), and such
a process never asks for a lock, nor does any other operation wait for anybody
(`answerable`). So unless none is left some process can go on, and not by being
refused a lock (`refused`), whatever has failed before; and as programs end, it is
inevitable that all processes return and every lock is free (`node_drains`). A
script that polled as often as its fuel allows stops there in the model.
-/
import FluxPam.Interaction.Drain
import FluxPam.Discipline
import FluxPam.Server

namespace FluxPam

open Interaction

/-! ### Who has the lock -/

/-- Who has the user's lock is a live process of the user, in a phase that says
so. -/
def Owned (u : ℕ) (s : UserState) : Prop :=
  ∀ p, s.ctl.lock = some p → p.uid = u ∧ ∃ t φ, s.phases p.n = some (t, φ) ∧ φ.hold = .held

variable {K : Setting} {C : Contract} {u n : ℕ} {t : Task} {φ φ' : Phase} {c : Control}
  {s s' : UserState}

/-- A process moves on and keeps the lock, if it has it. -/
theorem Owned.put (h : Owned u s) (hp : s.phases n = some (t, φ))
    (hh : φ.hold = .held → φ'.hold = .held) (hl : c.lock = s.ctl.lock) :
    Owned u (s.put n t φ' c) := by
  intro p hlock
  obtain ⟨hu, t₁, φ₁, hp₁, hh₁⟩ := h p (hl.symm.trans hlock)
  refine ⟨hu, ?_⟩
  by_cases hn : p.n = n
  · rw [hn, hp] at hp₁
    cases hp₁
    exact ⟨t, φ', by rw [hn, UserState.put_self], hh hh₁⟩
  · exact ⟨t₁, φ₁, by rw [UserState.put_ne hn]; exact hp₁, hh₁⟩

/-- Another process is started. -/
theorem Owned.start (h : Owned u s) (hp : s.phases n = none) (hl : c.lock = s.ctl.lock) :
    Owned u (s.put n t φ c) := by
  intro p hlock
  obtain ⟨hu, t₁, φ₁, hp₁, hh₁⟩ := h p (hl.symm.trans hlock)
  have hn : p.n ≠ n := by
    rintro rfl
    cases hp.symm.trans hp₁
  exact ⟨hu, t₁, φ₁, by rw [UserState.put_ne hn]; exact hp₁, hh₁⟩

/-- Without the process `n` the lock is another's. -/
theorem Owned.unlock (h : Owned u s) {p : Pid} (hl : (s.ctl.unlock ⟨u, n⟩).lock = some p) :
    p.uid = u ∧ p.n ≠ n ∧ ∃ t φ, s.phases p.n = some (t, φ) ∧ φ.hold = .held := by
  simp only [Control.unlock] at hl
  split at hl
  · cases hl
  · obtain ⟨rfl, hp⟩ := h p hl
    refine ⟨rfl, ?_, hp⟩
    rintro rfl
    exact absurd hl ‹_›

theorem Owned.release (h : Owned u s) (hl : c.lock = (s.ctl.unlock ⟨u, n⟩).lock) :
    Owned u (s.put n t φ c) := by
  intro p hlock
  obtain ⟨hu, hn, hp⟩ := h.unlock (hl.symm.trans hlock)
  exact ⟨hu, by rwa [UserState.put_ne hn]⟩

theorem Owned.drop (h : Owned u s) (hl : c.lock = (s.ctl.unlock ⟨u, n⟩).lock) :
    Owned u (s.drop n c) := by
  intro p hlock
  obtain ⟨hu, hn, hp⟩ := h.unlock (hl.symm.trans hlock)
  exact ⟨hu, by rwa [UserState.drop_ne hn]⟩

theorem Owned.move (h : Owned u s) (hm : Move K C u s s') : Owned u s' := by
  cases hm with
  | idle => exact h
  | @acquire n t φ hp hb hl =>
    rintro p ⟨⟩
    exact ⟨rfl, t, _, UserState.put_self, rfl⟩
  | release => exact h.release rfl
  | list hp | look _ hp | see _ hp | update _ _ hp | publish hp | clear hp | revert _ hp | request _ hp =>
    exact h.put hp (fun hh => hh) rfl
  | startProlog hp | startHousekeeping hp | startSession hp => exact h.start hp rfl
  | finishProlog | finishHousekeeping | kill => exact h.drop rfl
  | @finishSession n argv φ a hp hpost =>
    intro p hlock
    obtain ⟨hu, t₁, φ₁, hp₁, hh₁⟩ := h p hlock
    have hn : p.n ≠ n := by
      rintro rfl
      cases hp.symm.trans hp₁
      exact hpost hh₁
    exact ⟨hu, t₁, φ₁, by rw [UserState.drop_ne hn]; exact hp₁, hh₁⟩
  | _ => exact h

theorem World.initial.owned {w : World} (h : w.initial) : Owned u ⟨w.control K u, fun _ => none⟩ := by
  intro p hl
  rw [show (w.control K u).lock = none from congrFun h.1 _] at hl
  cases hl

/-! ### What waits for what -/

/-- The cgroup file system has finitely many directories. -/
def World.Finite (w : World) : Prop := {path | w.cgroup path = some .directory}.Finite

theorem unitChange_self (w : World) (unit : String) : w.unitChange unit w :=
  ⟨w.units unit, w.cgroup, by rw [Function.update_eq_self], fun _ _ => rfl⟩

/-- Every command of the scripts may fail and leave the state's cgroups alone. -/
theorem command_fails (w : World) (p : Pid) (cmd : Option World.Command) :
    ∃ w', w.command p false w' cmd ∧ w'.cgroup = w.cgroup := by
  rcases cmd with _ | cmd
  · exact ⟨w, trivial, rfl⟩
  cases cmd with
  | start unit | stop unit | kill unit => exact ⟨w, unitChange_self w unit, rfl⟩
  | _ => exact ⟨_, rfl, rfl⟩

/-- A request for a lock that is not granted: a wait is interrupted, a poll finds
the lock taken. -/
def refused : NodeLabel → Prop
  | .op _ _ (.flock _ .LOCK_EX) (.error _) | .op _ _ (.flock _ .LOCK_EX_NB) (.error _) => True
  | _ => False

/-- Who asks for its user's lock does not have it. -/
theorem free_of_asks {p : Pid} {w : World} {fd : Fd}
    (ha : fd.path = lockPath K.lockDir p.uid ∧ φ.hold = .before)
    (hlock : φ.hold = .held ∨ w.locks (lockPath K.lockDir p.uid) = none) : w.locks fd.path = none := by
  obtain ⟨hpath, hbefore⟩ := ha
  rcases hlock with hheld | hfree
  · rw [hbefore] at hheld
    cases hheld
  · rw [hpath, hfree]

/-- **Nobody waits but for the lock.** What a process may do next is answered and
not refused, if it has the lock or the lock is free. -/
theorem answerable {p : Pid} {w : World} {o : Op} (ha : φ.allowed K p t o) (hstuck : o ≠ .stuck)
    (hfin : w.Finite) (hlock : φ.hold = .held ∨ w.locks (lockPath K.lockDir p.uid) = none) :
    ∃ r w', K.exec p w o r w' ∧ w'.Finite ∧ ¬ refused (.op p t o r) := by
  suffices hanswer : ∃ r w', (K.exec p w o r w' ∧ w'.Finite) ∧ ¬ refused (.op p t o r) by
    obtain ⟨r, w', ⟨he, hfin'⟩, hr⟩ := hanswer
    exact ⟨r, w', he, hfin', hr⟩
  cases o with
  | stuck => exact absurd rfl hstuck
  | getpid => exact ⟨p.n, w, ⟨⟨rfl, rfl⟩, hfin⟩, id⟩
  | lstat path => exact ⟨.error Errno.EIO, w, ⟨⟨trivial, by simp, rfl⟩, hfin⟩, id⟩
  | close fd => exact ⟨.ok (), w.unlock p fd.path, ⟨⟨trivial, rfl⟩, hfin⟩, id⟩
  | flock fd operation =>
    cases operation with
    | LOCK_UN => exact ⟨.ok (), w.unlock p fd.path, ⟨⟨trivial, rfl⟩, hfin⟩, id⟩
    | _ => exact ⟨.ok (), _, ⟨⟨trivial, free_of_asks ha hlock, rfl⟩, hfin⟩, id⟩
  | unlink path => exact ⟨.error Errno.EIO, w, ⟨⟨trivial, by simp, rfl⟩, hfin⟩, id⟩
  | pathExists path => exact ⟨(w.cgroup path).isSome, w, ⟨⟨trivial, Iff.rfl, rfl⟩, hfin⟩, id⟩
  | walk top =>
    obtain ⟨dirs, hdirs⟩ := Set.Finite.exists_finset_coe hfin
    have hmem : ∀ path, path ∈ dirs.toList.filter (below top) ↔
        w.cgroup path = some .directory ∧ below top path = true := fun path => by
      rw [List.mem_filter, Finset.mem_toList, ← Finset.mem_coe, hdirs, Set.mem_ofPred_eq]
    exact ⟨dirs.toList.filter (below top), w, ⟨⟨fun path h => ((hmem path).mp h).2,
      fun path h => (hmem path).trans (and_iff_left h), rfl⟩, hfin⟩, id⟩
  | readLines path => exact ⟨.error Errno.EIO, w, ⟨⟨trivial, by simp, rfl⟩, hfin⟩, id⟩
  | run argv timeout =>
    obtain ⟨w', hc, hcg⟩ := command_fails w p (World.decode argv)
    exact ⟨.error .timeout, w', ⟨⟨trivial, false, by simp, hc⟩, by rwa [World.Finite, hcg]⟩, id⟩
  | jobList user rank => exact ⟨.error Errno.EIO, w, ⟨⟨trivial, by simp, rfl⟩, hfin⟩, id⟩
  | busCall member args =>
    exact ⟨false, w, ⟨⟨trivial, [], by simp, by simp, by simp, by simp⟩, hfin⟩, id⟩
  | openFile | attrGet | confGet | kvsLookupR | mapperLookup =>
    exact ⟨.error Errno.EIO, w, ⟨⟨by simp [Setting.answers], rfl⟩, hfin⟩, id⟩
  | configGet uri => exact ⟨.error Errno.EIO, w, ⟨⟨by simp [Setting.answers], rfl⟩, hfin⟩, id⟩
  | getpwnam user => exact ⟨none, w, ⟨⟨by simp [Setting.answers], rfl⟩, hfin⟩, id⟩
  | _ => exact ⟨default, w, ⟨⟨trivial, rfl⟩, hfin⟩, id⟩

/-! ### The node -/

variable {c₀ c c' : Config Pid Op Res Task Exit World}

/-- A script has polled as often as the model follows it. -/
def OutOfFuel (c : Config Pid Op Res Task Exit World) : Prop :=
  ∃ p t k, c.procs p = some (t, .op .stuck k)

theorem Reached.step {l : NodeLabel} (h : Reached K C c₀ c) (hs : (node K C).Step c l c') :
    Reached K C c₀ c' := by
  obtain ⟨ls, hr⟩ := h.run
  exact ⟨h.initial, h.idle, _, hr.snoc hs⟩

/-- Who has a user's lock is a live process of that user, and still in need of
it. -/
theorem Reached.owner (h : Reached K C c₀ c) {p : Pid}
    (hl : c.world.locks (lockPath K.lockDir u) = some p) : p.uid = u ∧
      ∃ t x φ, c.procs p = some (t, x) ∧ φ.hold = .held ∧
        (watch K p t).Accepts (Phase.post K p t) φ x := by
  obtain ⟨m, hf, ho⟩ := h.invariant (I := Owned u) h.initial.owned fun _ _ ho hm => ho.move hm
  rw [hf.1] at hl
  obtain ⟨rfl, t, φ, hφ, hh⟩ := ho p hl
  refine ⟨rfl, t, ?_⟩
  have hfits := hf.2 p
  rw [show m.phases p = _ from hφ] at hfits
  cases hp : c.procs p with
  | none => rw [hp] at hfits; exact hfits.elim
  | some tx =>
    rw [hp] at hfits
    obtain ⟨rfl, ha⟩ := hfits
    exact ⟨_, φ, rfl, hh, ha⟩

/-- Some process is not kept waiting: the one that has the lock of a live
process's user, or else that process itself. -/
theorem Reached.mover (h : Reached K C c₀ c) (hlive : ¬ System.AtRest c) :
    ∃ p t x φ, c.procs p = some (t, x) ∧ (watch K p t).Accepts (Phase.post K p t) φ x ∧
      (φ.hold = .held ∨ c.world.locks (lockPath K.lockDir p.uid) = none) := by
  obtain ⟨q, hq⟩ := not_forall.mp hlive
  cases hlock : c.world.locks (lockPath K.lockDir q.uid) with
  | some p =>
    obtain ⟨-, t, x, φ, hp, hh, ha⟩ := h.owner hlock
    exact ⟨p, t, x, φ, hp, ha, .inl hh⟩
  | none =>
    obtain ⟨m, hf, -⟩ := h.invariant (u := q.uid) (I := fun _ => True) trivial fun _ _ _ _ => trivial
    obtain ⟨⟨t, x⟩, hx⟩ := Option.ne_none_iff_exists'.mp hq
    obtain ⟨φ, -, ha⟩ := hf.live hx
    exact ⟨q, t, x, φ, hx, ha, .inr hlock⟩

/-- **No deadlock.** Unless no process is live or one is out of fuel, some live
process can go on, and not by being refused a lock. -/
theorem Reached.advances (h : Reached K C c₀ c) (hfin : c.world.Finite) (hlive : ¬ System.AtRest c)
    (hfuel : ¬ OutOfFuel c) : ∃ c', (node K C).Advances refused (·.world.Finite) c c' := by
  obtain ⟨p, t, x, φ, hp, ha, hlock⟩ := h.mover hlive
  cases x with
  | pure a =>
    have hfinish : ∃ w', World.finish p a c.world w' t ∧ w'.Finite := by
      cases t <;> exact ⟨_, rfl, hfin⟩
    obtain ⟨w', hw, hfin'⟩ := hfinish
    exact ⟨_, hfin', _, .finish hp hw, trivial, id⟩
  | op o k =>
    have hstuck : o ≠ .stuck := by
      rintro rfl
      exact hfuel ⟨p, t, k, hp⟩
    obtain ⟨r, w', he, hfin', hr⟩ := answerable ha.1 hstuck hfin hlock
    exact ⟨_, hfin', _, .op hp he, trivial, hr⟩

/-- **The node comes to rest.** Once no more processes are started, then however
the processes are scheduled and whatever they are answered, some process can go on
without being refused a lock as long as any is live, and all of them return and
every user's lock is free in the end, unless a script runs out of fuel. -/
theorem node_drains (h : Reached K C c₀ c) (hfin : c.world.Finite) :
    Inevitable ((node K C).Advances refused (·.world.Finite)) ((node K C).Works (·.world.Finite))
      (fun c => System.AtRest c ∧ (∀ u : ℕ, c.world.locks (lockPath K.lockDir u) = none) ∨
        OutOfFuel c) c := by
  have hlive : {p | c.procs p ≠ none}.Finite := by
    obtain ⟨ls, hr⟩ := h.run
    refine System.finite_live hr ?_
    simp [h.idle]
  refine (System.inevitable_atRest (G := (·.world.Finite)) (B := OutOfFuel)
    (I := fun c => Reached K C c₀ c ∧ c.world.Finite) ?_ ?_ hlive ⟨h, hfin⟩).mono ?_
  · rintro c c' ⟨h, -⟩ ⟨hfin', l, hs, -⟩
    exact ⟨h.step hs, hfin'⟩
  · rintro c ⟨h, hfin⟩ hrest hfuel
    exact h.advances hfin hrest hfuel
  · rintro c ⟨⟨h, -⟩, hrest | hfuel⟩
    · refine .inl ⟨hrest, fun u => ?_⟩
      by_contra hl
      obtain ⟨p, hp⟩ := Option.ne_none_iff_exists'.mp hl
      obtain ⟨-, t, x, φ, hx, -⟩ := h.owner hp
      cases (hrest p).symm.trans hx
    · exact .inr hfuel

/-- A session of user 1000 waits for the prolog of job 1, which has the lock. -/
theorem node_drains_small : ∃ c x, c.world.locks (lockPath Setting.small.lockDir (1000 : ℕ)) =
      some ⟨1000, 7⟩ ∧ c.procs ⟨1000, 8⟩ = some (.session [], x) ∧
      x.head? = some (.flock ⟨lockPath Setting.small.lockDir (1000 : ℕ)⟩ .LOCK_EX) ∧
    Inevitable ((node .small .strict).Advances refused (·.world.Finite))
      ((node .small .strict).Works (·.world.Finite)) (fun c => System.AtRest c ∧
        (∀ u : ℕ, c.world.locks (lockPath Setting.small.lockDir u) = none) ∨ OutOfFuel c) c := by
  obtain ⟨ls, x, c, hr, hx, hc⟩ := Server.small_meet [.act (.report 1000 1)] 13 10 0 (p := ⟨1000, 7⟩)
    (q := ⟨1000, 8⟩) (.prolog 1 10) [] (by decide)
    (fun _ x w => (x.head?, w.cgroup, w.locks (lockPath Setting.small.lockDir (1000 : ℕ))))
    (a := (some (.flock ⟨lockPath Setting.small.lockDir (1000 : ℕ)⟩ .LOCK_EX), fun _ => none,
      some ⟨1000, 7⟩)) (by rfl)
  simp only [Prod.mk.injEq] at hc
  obtain ⟨hhead, hcg, hl⟩ := hc
  have hfin : c.world.Finite := by
    simp [World.Finite, hcg]
  exact ⟨c, x, hl, hx, hhead, node_drains (Server.idle_reached hr) hfin⟩

end FluxPam
