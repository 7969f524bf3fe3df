/-
# Users do not interfere

What an operation of a user's process may be answered, and what it does to what
the node keeps of the user, depends on what the node keeps of the user alone
(`transfer_effect` and its companions). With the frame lemmas of `View` the
steps of the other users are hidden from a user in the sense of `Steps.View`,
and by unwinding a run and the same run without them end alike for the user
(`users_isolated`).
-/
import FluxPam.Protocol
import FluxPam.Paths
import FluxPam.Server

namespace FluxPam

open Interaction

variable {K : Setting} {C : Contract} {p : Pid} {t : Task} {u : ℕ} {w w' v : World}

/-! ### Worlds that are alike for a user -/

/-- The two worlds keep the same of the user. -/
structure Alike (K : Setting) (u : ℕ) (w v : World) : Prop where
  marker : w.files (markerPath K.lockDir u) = v.files (markerPath K.lockDir u)
  lockFile : w.files (lockPath K.lockDir u) = v.files (lockPath K.lockDir u)
  lock : w.locks (lockPath K.lockDir u) = v.locks (lockPath K.lockDir u)
  slice : w.slices (sliceName u) = v.slices (sliceName u)
  source : w.source (sliceName u) = v.source (sliceName u)
  last : w.last (sliceName u) = v.last (sliceName u)
  sliceUnit : w.units (sliceName u) = v.units (sliceName u)
  service : w.units (serviceName u) = v.units (serviceName u)
  cgroup : ∀ path, below (slicePath u) path = true → w.cgroup path = v.cgroup path
  queue : w.queue.filter (·.slice = sliceName u) = v.queue.filter (·.slice = sliceName u)
  attached : w.attached.filter (·.slice = sliceName u) = v.attached.filter (·.slice = sliceName u)
  running : w.running u = v.running u
  ended : w.ended u = v.ended u
  reported : w.reported u = v.reported u
  begun : w.begun u = v.begun u
  prologOk : w.prologOk u = v.prologOk u
  hkOk : w.hkOk u = v.hkOk u
  prologOf : ∀ n, w.prologOf ⟨u, n⟩ = v.prologOf ⟨u, n⟩
  draft : ∀ n, w.draft ⟨u, n⟩ = v.draft ⟨u, n⟩
  request : ∀ n, w.request ⟨u, n⟩ = v.request ⟨u, n⟩

theorem alike_iff : Alike K u w v ↔ w.view K u = v.view K u := by
  constructor
  · intro h
    have hcgroup : (fun path => if below (slicePath u) path then w.cgroup path else none) =
        fun path => if below (slicePath u) path then v.cgroup path else none := by
      funext path
      split
      · exact h.cgroup path ‹_›
      · rfl
    simp only [World.view, World.control, h.marker, h.lockFile, h.lock, h.slice, h.source, h.last,
      h.sliceUnit, h.service, hcgroup, h.queue, h.attached, h.running, h.ended, h.reported, h.begun,
      h.prologOk, h.hkOk, h.prologOf, h.draft, h.request]
  · intro h
    have hc := congrArg View.toControl h
    refine
      { marker := congrArg Control.marker hc, lockFile := congrArg View.lockFile h
        lock := congrArg Control.lock hc, slice := congrArg Control.slice hc
        source := congrArg Control.source hc, last := congrArg Control.last hc
        sliceUnit := congrArg View.sliceUnit h, service := congrArg View.service h
        cgroup := fun path hp => ?_
        queue := congrArg Control.queue hc, attached := congrArg Control.attached hc
        running := congrArg Control.running hc, ended := congrArg Control.ended hc
        reported := congrArg Control.reported hc, begun := congrArg Control.begun hc
        prologOk := congrArg Control.prologOk hc, hkOk := congrArg Control.hkOk hc
        prologOf := congrFun (congrArg Control.prologOf hc)
        draft := congrFun (congrArg Control.draft hc)
        request := congrFun (congrArg Control.request hc) }
    have := congrFun (congrArg View.cgroup h) path
    simpa only [World.view, hp, if_true] using this

namespace Alike

theorem symm (h : Alike K u w v) : Alike K u v w := alike_iff.mpr (alike_iff.mp h).symm

variable (h : Alike K u w v)
include h

/-- A file is created or removed. -/
theorem files (path : String) (kind : FileKind) :
    Alike K u { w with files := Function.update w.files path kind }
      { v with files := Function.update v.files path kind } :=
  { h with
    marker := by simp only [Function.update_apply, h.marker]
    lockFile := by simp only [Function.update_apply, h.lockFile] }

theorem locks (path : String) (q : Option Pid) :
    Alike K u { w with locks := Function.update w.locks path q }
      { v with locks := Function.update v.locks path q } :=
  { h with lock := by simp only [Function.update_apply, h.lock] }

theorem unlock (p : Pid) (path : String) : Alike K u (w.unlock p path) (v.unlock p path) :=
  { h with lock := by simp only [World.unlock, h.lock] }

theorem unlockAll (p : Pid) : Alike K u (w.unlockAll p) (v.unlockAll p) :=
  { h with lock := by simp only [World.unlockAll, h.lock] }

theorem drafts (p : Pid) (d : Draft) : Alike K u { w with draft := Function.update w.draft p d }
    { v with draft := Function.update v.draft p d } :=
  { h with draft := fun n => by simp only [Function.update_apply, h.draft] }

theorem requests (p : Pid) (r : Option ScopeJob) :
    Alike K u { w with request := Function.update w.request p r }
      { v with request := Function.update v.request p r } :=
  { h with request := fun n => by simp only [Function.update_apply, h.request] }

theorem prologs (p : Pid) (j : Option ℕ) :
    Alike K u { w with prologOf := Function.update w.prologOf p j }
      { v with prologOf := Function.update v.prologOf p j } :=
  { h with prologOf := fun n => by simp only [Function.update_apply, h.prologOf] }

theorem begin (p : Pid) : Alike K u (w.begin p) (v.begin p) :=
  (h.drafts p ⟨[], none⟩).requests p none

theorem queued (jobs : List ScopeJob) :
    Alike K u { w with queue := w.queue ++ jobs } { v with queue := v.queue ++ jobs } :=
  { h with queue := by simp only [List.filter_append, h.queue] }

/-- A unit of the user changes in both worlds alike. -/
theorem unitChange {unit : String} (hc : w.unitChange unit w') :
    ∃ v', v.unitChange unit v' ∧ Alike K u w' v' := by
  obtain ⟨active, cgroup, rfl, hcg⟩ := hc
  -- outside the user's slice, the other world's entries stay
  refine ⟨{ v with
      units := Function.update v.units unit active
      cgroup := fun path => if below (slicePath u) path then cgroup path else v.cgroup path },
    ⟨active, _, rfl, fun path hp => ?_⟩, ?_⟩
  · split
    · rw [hcg path hp]
      exact h.cgroup path ‹_›
    · rfl
  · exact { h with
      sliceUnit := by simp only [Function.update_apply, h.sliceUnit]
      service := by simp only [Function.update_apply, h.service]
      cgroup := fun path hp => (if_pos hp).symm }

end Alike

/-! ### A step of the user's own -/

section Own

variable (h : Alike K p.uid w v)
include h

theorem transfer_command {took : Bool} {argv : List String} {timeout : ℚ}
    (ht : touches K p (.run argv timeout)) (hc : w.command p took w' (World.decode argv)) :
    ∃ v', v.command p took v' (World.decode argv) ∧ Alike K p.uid w' v' := by
  revert ht hc
  simp only [touches]
  cases World.decode argv with
  | none => exact fun h => h.elim
  | some c =>
    cases c with
    | setProperty slice args =>
      rintro rfl rfl
      have hdraft : w.draft p = v.draft p := h.draft p.n
      refine ⟨_, rfl, ?_⟩
      cases took <;> exact { h with
        slice := by simp [h.slice]
        source := by simp [h.source, hdraft]
        last := by simp }
    | revert slice =>
      rintro rfl rfl
      refine ⟨_, rfl, ?_⟩
      cases took <;> exact { h with
        slice := by simp [h.slice]
        source := by simp
        last := by simp }
    | start unit => exact fun _ hc => h.unitChange hc
    | stop unit => exact fun _ hc => h.unitChange hc
    | kill unit => exact fun _ hc => h.unitChange hc
    | showUser =>
      rintro - rfl
      exact ⟨v, rfl, h⟩

/-- **What an operation may be answered and do** depends on what the node keeps
of the user. -/
theorem transfer_effect {o : Op} {r : Res o} (ht : touches K p o) (he : w.effect p K.rank o r w') :
    ∃ v', v.effect p K.rank o r v' ∧ Alike K p.uid w' v' := by
  cases o with
  | lstat path =>
    obtain rfl : path = markerPath K.lockDir p.uid := ht
    obtain ⟨hk, rfl⟩ := he
    exact ⟨v, ⟨fun kind hr => (hk kind hr).trans h.marker, rfl⟩, h⟩
  | openFile path flags mode =>
    cases r with
    | error e =>
      obtain rfl : w' = w := he
      exact ⟨v, rfl, h⟩
    | ok fd =>
      have hfile : w.files path = v.files path := by
        rcases ht with rfl | rfl
        · exact h.lockFile
        · exact h.marker
      obtain ⟨hcreat, hlink, hdir, rfl⟩ := he
      rw [hfile] at hcreat hlink hdir
      refine ⟨v.create path, ⟨hcreat, hlink, hdir, rfl⟩, ?_⟩
      rw [World.create, World.create, hfile]
      exact h.files path _
  | close fd =>
    obtain rfl : w' = _ := he
    exact ⟨_, rfl, h.unlock p fd.path⟩
  | flock fd operation =>
    have hfd : w.locks fd.path = v.locks fd.path := by
      rw [show fd.path = lockPath K.lockDir p.uid from ht]
      exact h.lock
    rcases r with e | ⟨⟩
    · have hidle : w' = w := by cases operation <;> exact he
      subst hidle
      exact ⟨v, by cases operation <;> rfl, h⟩
    · cases operation with
      | LOCK_UN =>
        obtain rfl : w' = _ := he
        exact ⟨_, rfl, h.unlock p fd.path⟩
      | _ =>
        obtain ⟨hfree, rfl⟩ := he
        exact ⟨_, ⟨hfd.symm.trans hfree, rfl⟩, h.locks fd.path _⟩
  | unlink path =>
    obtain rfl : path = markerPath K.lockDir p.uid := ht
    rcases r with e | ⟨⟩
    · obtain ⟨habs, rfl⟩ := he
      exact ⟨v, ⟨fun hno => h.marker.symm.trans (habs hno), rfl⟩, h⟩
    · obtain rfl : w' = _ := he
      exact ⟨_, rfl, h.files _ _⟩
  | pathExists path =>
    obtain ⟨hr, rfl⟩ := he
    rw [h.cgroup path ht] at hr
    exact ⟨v, ⟨hr, rfl⟩, h⟩
  | walk top =>
    obtain rfl : top = slicePath p.uid := ht
    obtain ⟨hr, rfl⟩ := he
    refine ⟨v, ⟨fun path hp => ?_, rfl⟩, h⟩
    rw [← h.cgroup path hp]
    exact hr path hp
  | readLines path =>
    obtain ⟨hr, rfl⟩ := he
    exact ⟨v, ⟨fun lines hl => (h.cgroup path ht).symm.trans (hr lines hl), rfl⟩, h⟩
  | run argv timeout =>
    obtain ⟨took, htook, hc⟩ := he
    obtain ⟨v', hc', h'⟩ := transfer_command h ht hc
    exact ⟨v', ⟨took, htook, hc'⟩, h'⟩
  | jobList user rank =>
    obtain ⟨hr, rfl⟩ := he
    refine ⟨v, ⟨fun ids hids hrank u hu j => ?_, rfl⟩, h⟩
    obtain rfl : p.uid = u := numeral_inj (ht.1.symm.trans hu)
    rw [← h.running]
    exact hr ids hids hrank p.uid hu j
  | kvsLookupR ids =>
    cases r with
    | error e =>
      obtain rfl : w' = w := he
      exact ⟨v, rfl, h⟩
    | ok _ =>
      obtain rfl : w' = _ := he
      exact ⟨_, rfl, h.drafts p _⟩
  | mapperLookup R =>
    rcases r with e | _ | props
    · obtain rfl : w' = w := he
      exact ⟨v, rfl, h⟩
    · obtain rfl : w' = w := he
      exact ⟨v, rfl, h⟩
    · have hdraft : w.draft p = v.draft p := h.draft p.n
      obtain rfl : w' = _ := he
      refine ⟨_, rfl, ?_⟩
      rw [hdraft]
      exact h.drafts p _
  | busCall member args =>
    obtain ⟨jobs, hj, hlen, hr, rfl⟩ := he
    refine ⟨_, ⟨jobs, hj, hlen, hr, rfl⟩, ?_⟩
    cases r
    · exact h.queued jobs
    · exact (h.queued jobs).requests p _
  | _ =>
    obtain rfl : w' = w := he
    exact ⟨v, rfl, h⟩

theorem transfer_start (hs : World.start K C p w w' t) :
    ∃ v', World.start K C p v v' t ∧ Alike K p.uid w' v' := by
  cases t with
  | prolog j fuel =>
    obtain ⟨hrun, hbegun, rfl⟩ := hs
    rw [h.running] at hrun
    rw [h.begun] at hbegun
    exact ⟨_, ⟨hrun, hbegun, rfl⟩, (h.begin p).prologs p (some j)⟩
  | housekeeping j fuel =>
    obtain ⟨hended, hprolog, rfl⟩ := hs
    rw [h.ended] at hended
    refine ⟨_, ⟨hended, fun hq n => ?_, rfl⟩, ?_⟩
    · rw [← h.prologOf n]
      exact hprolog hq n
    · exact { h.begin p with begun := by simp [setAt, h.begun] }
  | session argv =>
    obtain ⟨hdir, rfl⟩ := hs
    exact ⟨_, ⟨hdir, rfl⟩, h.begin p⟩

theorem transfer_finish {a : Exit} (hf : World.finish p a w w' t) :
    ∃ v', World.finish p a v v' t ∧ Alike K p.uid w' v' := by
  have hl := h.unlockAll p
  cases t with
  | prolog j fuel =>
    obtain rfl : w' = _ := hf
    refine ⟨_, rfl, ?_⟩
    by_cases ha : a = .status 0
    · exact { hl.prologs p none with prologOk := by simp [ha, setAt, h.prologOk] }
    · exact { hl.prologs p none with prologOk := by simp [ha, h.prologOk] }
  | housekeeping j fuel =>
    obtain rfl : w' = _ := hf
    refine ⟨_, rfl, ?_⟩
    by_cases ha : a = .status 0
    · exact { hl with hkOk := by simp [ha, setAt, h.hkOk] }
    · exact { hl with hkOk := by simp [ha, h.hkOk] }
  | session argv =>
    obtain rfl : w' = w := hf
    exact ⟨v, rfl, h⟩

theorem transfer_kill (hk : World.kill p w w') : ∃ v', World.kill p v v' ∧ Alike K p.uid w' v' := by
  obtain rfl : w' = _ := hk
  exact ⟨_, rfl, (h.unlockAll p).prologs p none⟩

end Own

/-- A step of the world on the user's behalf. -/
theorem transfer_act {a : Act} (hu : a.user = u) (h : Alike K u w v) (ha : World.act C w w' a) :
    ∃ v', World.act C v v' a ∧ Alike K u w' v' := by
  cases a with
  | report u' j =>
    obtain rfl : u' = u := hu
    obtain ⟨he, rfl⟩ := ha
    rw [h.ended] at he
    exact ⟨_, ⟨he, rfl⟩, { h with
      running := by simp [setAt, h.running]
      reported := by simp [setAt, h.reported] }⟩
  | unreport u' j =>
    obtain rfl : u' = u := hu
    obtain ⟨hs, rfl⟩ := ha
    exact ⟨_, ⟨hs, rfl⟩, { h with running := by simp [setAt, h.running] }⟩
  | endJob u' j =>
    obtain rfl : u' = u := hu
    obtain rfl : w' = _ := ha
    exact ⟨_, rfl, { h with
      running := by simp [setAt, h.running]
      ended := by simp [setAt, h.ended] }⟩
  | attach u' job =>
    obtain rfl : u' = u := hu
    obtain ⟨hj, hs, cgroup, rfl, hcg⟩ := ha
    have hj' : job ∈ v.queue := by
      refine List.mem_of_mem_filter (p := (·.slice = sliceName u')) ?_
      rw [← h.queue]
      exact List.mem_filter.mpr ⟨hj, by simpa using hs⟩
    refine ⟨{ v with
        queue := v.queue.erase job
        attached := v.attached ++ [job]
        cgroup := fun path => if below (slicePath u') path then cgroup path else v.cgroup path },
      ⟨hj', hs, _, rfl, fun path hp => by simp [hp]⟩, ?_⟩
    exact { h with
      queue := by rw [← List.erase_filter, ← List.erase_filter, h.queue]
      attached := by rw [List.filter_append, List.filter_append, h.attached]
      cgroup := fun path hp => (if_pos hp).symm }
  | unit u' name =>
    obtain rfl : u' = u := hu
    obtain ⟨hname, hc⟩ := ha
    obtain ⟨v', hc', h'⟩ := h.unitChange hc
    exact ⟨v', ⟨hname, hc'⟩, h'⟩

/-! ### What a user sees of a run -/

/-- The user a step is a step of. -/
def userOf : NodeLabel → ℕ
  | .op p _ _ _ => p.uid
  | .start p _ => p.uid
  | .finish p _ _ => p.uid
  | .kill p _ => p.uid
  | .world a => a.user

/-- The states are alike for the user, whose processes have the same to do. -/
def Same (K : Setting) (u : ℕ) (c d : Config Pid Op Res Task Exit World) : Prop :=
  Alike K u c.world d.world ∧ ∀ n, c.procs ⟨u, n⟩ = d.procs ⟨u, n⟩

/-- The programs keep the discipline from here on, and a user's lock is the
user's. -/
def Disciplined (K : Setting) (c : Config Pid Op Res Task Exit World) : Prop :=
  ∃ m, Watch.Follows (watchAll K) c m ∧ c.world.locksOwned K

theorem Disciplined.step {c c' : Config Pid Op Res Task Exit World} {l : NodeLabel}
    (h : Disciplined K c) (hs : (node K C).Step c l c') : Disciplined K c' := by
  obtain ⟨m, hf, hl⟩ := h
  obtain ⟨m', hm, hf'⟩ := hf.step (watch_sound K C) hs
  rw [hf.1] at hl
  exact ⟨m', hf', hf'.1 ▸ locksOwned_step hl hm⟩

theorem Disciplined.of_reached {c₀ c : Config Pid Op Res Task Exit World} (h : Reached K C c₀ c) :
    Disciplined K c := by
  obtain ⟨ls, hr⟩ := h.run
  exact hr.invariant (fun _ _ _ hd hs => hd.step hs)
    ⟨_, Watch.Follows.of_none h.idle, h.initial.locksOwned⟩

/-- The next operation of a process names its own user's things only. -/
theorem Disciplined.touches {c : Config Pid Op Res Task Exit World} (h : Disciplined K c) {o : Op}
    {k : Res o → Cmd Exit} (hp : c.procs p = some (t, .op o k)) : touches K p o := by
  obtain ⟨m, hf, -⟩ := h
  obtain ⟨φ, -, ha⟩ := hf.live hp
  exact allowed_touches ha.1

variable {c c' d : Config Pid Op Res Task Exit World} {l : NodeLabel}

theorem Same.of_procs (h : Same K u c d) {w' v' : World} (hw : Alike K u w' v') (p : Pid)
    (x : Option (Task × Cmd Exit)) :
    Same K u ⟨w', Function.update c.procs p x⟩ ⟨v', Function.update d.procs p x⟩ :=
  ⟨hw, fun n => by simp only [Function.update_apply, h.2]⟩

/-- Another user's step is not seen. -/
theorem Disciplined.hidden (h : Disciplined K c) (hu : userOf l ≠ u) (hs : (node K C).Step c l c') :
    Same K u c c' := by
  have hproc : ∀ {w w' : World} {procs : Pid → Option (Task × Cmd Exit)} {p : Pid} {x}, p.uid ≠ u →
      w'.view K u = w.view K u → Same K u ⟨w, procs⟩ ⟨w', Function.update procs p x⟩ := by
    intro w w' procs p x hp hv
    exact ⟨alike_iff.mpr hv.symm, fun n => (Function.update_of_ne (pid_ne hp n) _ _).symm⟩
  obtain ⟨m, hf, hl⟩ := id h
  cases hs with
  | op hp he => exact hproc hu (frame_effect hu (h.touches hp) he.2)
  | start hp hw => exact hproc hu (frame_start hu hw)
  | finish hp hw => exact hproc hu (frame_finish hl hu hw)
  | kill hp hw => exact hproc hu (frame_kill hl hu hw)
  | world hw => exact ⟨alike_iff.mpr (frame_act hu hw).symm, fun _ => rfl⟩

/-- The user's own step is possible wherever the state is alike, with the same
answer. -/
theorem Disciplined.visible (h : Disciplined K c) (hu : userOf l = u) (hcd : Same K u c d)
    (hs : (node K C).Step c l c') : ∃ d', (node K C).Step d l d' ∧ Same K u c' d' := by
  obtain ⟨v, procs'⟩ := d
  have hat : ∀ {p : Pid}, p.uid = u → c.procs p = procs' p := by
    rintro p rfl
    exact hcd.2 p.n
  cases hs with
  | @op w w' procs p t o k r hp he =>
    obtain rfl : p.uid = u := hu
    obtain ⟨v', hv, ha⟩ := transfer_effect hcd.1 (h.touches hp) he.2
    exact ⟨_, .op ((hat rfl).symm.trans hp) ⟨he.1, hv⟩, hcd.of_procs ha p _⟩
  | @start w w' procs p t hp hw =>
    obtain rfl : p.uid = u := hu
    obtain ⟨v', hv, ha⟩ := transfer_start hcd.1 hw
    exact ⟨_, .start ((hat rfl).symm.trans hp) hv, hcd.of_procs ha p _⟩
  | @finish w w' procs p t a hp hw =>
    obtain rfl : p.uid = u := hu
    obtain ⟨v', hv, ha⟩ := transfer_finish hcd.1 hw
    exact ⟨_, .finish ((hat rfl).symm.trans hp) hv, hcd.of_procs ha p _⟩
  | @kill w w' procs p t x hp hw =>
    obtain rfl : p.uid = u := hu
    obtain ⟨v', hv, ha⟩ := transfer_kill hcd.1 hw
    exact ⟨_, .kill ((hat rfl).symm.trans hp) hv, hcd.of_procs ha p _⟩
  | @world w w' procs a hw =>
    obtain ⟨v', hv, ha⟩ := transfer_act hu hcd.1 hw
    exact ⟨_, .world hv, ha, hcd.2⟩

/-- A step of a node that keeps the discipline. -/
def disciplinedStep (K : Setting) (C : Contract) (c : Config Pid Op Res Task Exit World)
    (l : NodeLabel) (c' : Config Pid Op Res Task Exit World) : Prop :=
  Disciplined K c ∧ (node K C).Step c l c'

theorem Same.refl (c : Config Pid Op Res Task Exit World) : Same K u c c :=
  ⟨alike_iff.mpr rfl, fun _ => rfl⟩

theorem Same.symm (h : Same K u c d) : Same K u d c := ⟨h.1.symm, fun n => (h.2 n).symm⟩

theorem Same.trans {e : Config Pid Op Res Task Exit World} (h : Same K u c d) (h' : Same K u d e) :
    Same K u c e :=
  ⟨alike_iff.mpr ((alike_iff.mp h.1).trans (alike_iff.mp h'.1)), fun n => (h.2 n).trans (h'.2 n)⟩

/-- What the user `u` sees of the node. -/
def userView (K : Setting) (C : Contract) (u : ℕ) : Steps.View (disciplinedStep K C) where
  sees l := userOf l = u
  same c d := (Disciplined K c ↔ Disciplined K d) ∧ Same K u c d
  equiv :=
    { refl := fun c => ⟨Iff.rfl, .refl c⟩
      symm := fun h => ⟨h.1.symm, h.2.symm⟩
      trans := fun h h' => ⟨h.1.trans h'.1, h.2.trans h'.2⟩ }
  hidden _ _ _ hl hs := ⟨iff_of_true hs.1 (hs.1.step hs.2), hs.1.hidden hl hs.2⟩
  visible c d l c' hl hcd hs := by
    have hd : Disciplined K d := hcd.1.mp hs.1
    obtain ⟨d', hd', hsame⟩ := hs.1.visible hl hcd.2 hs.2
    exact ⟨d', ⟨hd, hd'⟩, iff_of_true (hs.1.step hs.2) (hd.step hd'), hsame⟩

instance (K : Setting) (C : Contract) (u : ℕ) : DecidablePred (userView K C u).sees :=
  fun l => inferInstanceAs (Decidable (userOf l = u))

theorem Disciplined.steps (h : Disciplined K c) {ls : List NodeLabel} (hr : (node K C).Run c ls c') :
    Steps (disciplinedStep K C) c ls c' ∧ Disciplined K c' := by
  induction hr with
  | nil => exact ⟨.nil, h⟩
  | snoc _ hs ih =>
    obtain ⟨hr', hd⟩ := ih
    exact ⟨hr'.snoc ⟨hd, hs⟩, hd.step hs⟩

/-- The run without the other users' steps. -/
theorem Disciplined.purge (h : Disciplined K c) {ls : List NodeLabel} (hr : (node K C).Run c ls c')
    (hd : Disciplined K d) (hcd : Same K u c d) :
    ∃ d', (node K C).Run d (ls.filter (userOf · = u)) d' ∧ Same K u c' d' := by
  obtain ⟨d', hd', hsame⟩ := Steps.unwind (userView K C u) ⟨iff_of_true h hd, hcd⟩ (h.steps hr).1
  exact ⟨d', hd'.mono_on (A := fun _ => True) (fun _ _ _ _ hs => hs.2) fun _ _ => trivial, hsame.2⟩

/-- From `d` the user can do what the user can do from `c`, is answered the same
and ends alike. -/
def Mimics (K : Setting) (C : Contract) (u : ℕ) (c d : Config Pid Op Res Task Exit World) : Prop :=
  ∀ ls c', (∀ l ∈ ls, userOf l = u) → (node K C).Run c ls c' →
    ∃ d', (node K C).Run d ls d' ∧ Same K u c' d'

theorem Disciplined.mimics (h : Disciplined K c) (hd : Disciplined K d) (hcd : Same K u c d) :
    Mimics K C u c d := by
  intro ls c' hl hr
  have hpurge := h.purge hr hd hcd
  rwa [List.filter_eq_self.mpr fun l hm => decide_eq_true (hl l hm)] at hpurge

/-- A program that names its own user's things runs alike in worlds that are
alike for the user. -/
theorem Alike.runs {Φ α : Type} {M : Monitor Op Res Φ} {Q : α → Φ → Prop}
    (hM : ∀ φ o, M.allowed φ o → touches K p o)
    (hans : ∀ (o : Op) (r : Res o), K.answers p o r → M.answers o r) :
    ∀ {x : Cmd α} {φ : Φ} {w v w' : World} {t : List Event} {a : α}, M.Accepts Q φ x →
      Alike K p.uid w v → Prog.Runs (K.exec p) x w t a w' →
        ∃ v', Prog.Runs (K.exec p) x v t a v' ∧ Alike K p.uid w' v'
  | .pure _, _, _, v, _, _, _, _, h, hr => by
    obtain ⟨rfl, rfl, rfl⟩ := hr
    exact ⟨v, ⟨rfl, rfl, rfl⟩, h⟩
  | .op o k, φ, _, _, _, _, _, hx, h, hr => by
    obtain ⟨r, w₁, t', he, rfl, hr⟩ := hr
    obtain ⟨v₁, hv, h₁⟩ := transfer_effect h (hM φ o hx.1) he.2
    obtain ⟨v', hr', h'⟩ := Alike.runs hM hans (hx.2 r (hans o r he.1)) h₁ hr
    exact ⟨v', ⟨r, v₁, t', ⟨he.1, hv⟩, rfl, hr'⟩, h'⟩

/-- The orphan scan of a user finds the same. -/
theorem Alike.scan (h : Alike K p.uid w v) {j : ℕ} {helper : PAMHelper} (hh : Helps K p j helper)
    {tr : List Event} {r : Except Exn (List String)}
    (hr : Prog.Runs (K.exec p) helper.checkOrphanProcesses.run w tr r w') :
    ∃ v', Prog.Runs (K.exec p) helper.checkOrphanProcesses.run v tr r v' := by
  obtain ⟨v', hr', -⟩ := Alike.runs (M := hush K p) (fun _ o ho =>
    allowed_touches (φ := .init) (t := .session []) (quiet_allowed ho)) (fun _ _ ha => ha)
    hh.quiet_checkOrphanProcesses h hr
  exact ⟨v', hr'⟩

/-! ### Isolation -/

/-- What the other users' steps from `c` to `c'` leave the user: the lock file,
the marker, the slice, the service and the processes, an orphan scan, and all
the user may do and be told later. -/
structure Undisturbed (K : Setting) (C : Contract) (u : ℕ) (c c' : Config Pid Op Res Task Exit World) :
    Prop where
  same : Same K u c c'
  scan : ∀ {p : Pid} {j helper t r w}, p.uid = u → Helps K p j helper →
    Prog.Runs (K.exec p) helper.checkOrphanProcesses.run c'.world t r w →
      ∃ v, Prog.Runs (K.exec p) helper.checkOrphanProcesses.run c.world t r v
  after : Mimics K C u c' c
  before : Mimics K C u c c'

theorem Disciplined.undisturbed (h : Disciplined K c) (h' : Disciplined K c') (hs : Same K u c c') :
    Undisturbed K C u c c' where
  same := hs
  scan := by
    rintro p j helper t r w rfl hh hr
    exact hs.1.symm.scan hh hr
  after := h'.mimics h hs.symm
  before := h.mimics h' hs

/-- **Users do not interfere.** In every run of the node, what happens to a
user, and the user's part of the state at its end, is what it is in the run
without the other users' steps; other users' steps leave the user undisturbed;
and the two languages name the same files. -/
theorem users_isolated {c₀ : Config Pid Op Res Task Exit World} (hreach : Reached K C c₀ c) (u : ℕ)
    {ls : List NodeLabel} (hr : (node K C).Run c ls c') :
    (∃ d, (node K C).Run c (ls.filter (userOf · = u)) d ∧ Same K u c' d) ∧
    ((∀ l ∈ ls, userOf l ≠ u) → Undisturbed K C u c c') ∧
    ∀ lockDir uid, PathsAgree lockDir uid := by
  have h : Disciplined K c := .of_reached hreach
  obtain ⟨hsteps, h'⟩ := h.steps hr
  refine ⟨h.purge hr h (.refl c), fun hl => ?_, pathsAgree⟩
  exact h.undisturbed h' (Steps.same_of_hidden (userView K C u) hl hsteps).2

/-- The user 2000 is undisturbed by a prolog of the user 1000. -/
theorem users_isolated_small : ∃ ls w, (node .small .strict).Run Server.idle ls ⟨w, fun _ => none⟩ ∧
    w.files (markerPath "/run/flux-pam" 1000) = .regular ∧
    Undisturbed .small .strict 2000 Server.idle ⟨w, fun _ => none⟩ := by
  obtain ⟨ls, w, hr, hw⟩ := Server.small_play
    [.act (.report 1000 1), .task ⟨1000, 1⟩ (.prolog 1 1)]
    (fun ls w => (w.files (markerPath "/run/flux-pam" 1000), ls.all (userOf · ≠ 2000)))
    (a := (.regular, true)) (by rfl)
  obtain ⟨hmark, hothers⟩ := Prod.ext_iff.mp hw
  obtain ⟨-, hundisturbed, -⟩ := users_isolated (Server.idle_reached .nil) 2000 hr
  refine ⟨ls, w, hr, hmark, hundisturbed fun l hl => ?_⟩
  exact of_decide_eq_true (List.all_eq_true.mp hothers l hl)

end FluxPam
