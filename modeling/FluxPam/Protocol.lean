/-
# The protocol on one user's slice

What the node does, seen from one user: the state is the user's control and
the phases of the user's processes, and a step (`Move`) takes or gives up the
lock, lists the jobs, updates or reverts the slice, creates or removes the
marker, requests a scope, or is one of Flux's and systemd's own. Each move
says all that it changes and all that is known when it is made; the programs'
text is gone. Every step of the watched node is a move of every user
(`step_move`), so what holds after every sequence of moves holds in every run.
-/
import FluxPam.Conform
import FluxPam.View

namespace FluxPam

open Interaction

structure UserState where
  ctl : Control
  phases : ℕ → Option (Task × Phase)

namespace UserState

/-- One process moves on, with what that changes. -/
def put (s : UserState) (n : ℕ) (t : Task) (φ : Phase) (ctl : Control) : UserState :=
  ⟨ctl, Function.update s.phases n (some (t, φ))⟩

/-- One process is gone. -/
def drop (s : UserState) (n : ℕ) (ctl : Control) : UserState :=
  ⟨ctl, Function.update s.phases n none⟩

end UserState

namespace Control

variable (c : Control)

/-- The lock is free again, if the process had it. -/
def unlock (p : Pid) : Control := { c with lock := if c.lock = some p then none else c.lock }

/-- A process starts. -/
def begin (n : ℕ) : Control :=
  { c with draft := Function.update c.draft n ⟨[], none⟩
           request := Function.update c.request n none }

/-- A property operation is attempted. -/
def updated (took : Bool) (n : ℕ) (args : List String) : Control :=
  { c with slice := if took then c.slice.assignAll args else c.slice
           source := if took then some (c.draft n) else c.source
           last := some .set }

def reverted (took : Bool) : Control :=
  { c with slice := if took then SliceProps.fresh else c.slice
           source := none
           last := some .revert }

/-- systemd may have queued the scope. -/
def requested (n : ℕ) (jobs : List ScopeJob) (ok : Bool) : Control :=
  { c with queue := c.queue ++ jobs
           request := if ok then Function.update c.request n jobs.head? else c.request }

end Control

open UserState in
inductive Move (K : Setting) (C : Contract) (u : ℕ) : UserState → UserState → Prop where
  /-- nothing of the user's changes -/
  | idle (s) : Move K C u s s
  -- a process's steps
  | acquire {s n t φ} : s.phases n = some (t, φ) → φ.hold = .before → s.ctl.lock = none →
      Move K C u s (s.put n t { φ with hold := .held } { s.ctl with lock := some ⟨u, n⟩ })
  | release {s n t φ} : s.phases n = some (t, φ) →
      Move K C u s (s.put n t φ.release (s.ctl.unlock ⟨u, n⟩))
  | list {s n t φ ids} : s.phases n = some (t, φ) → φ.hold = .held → φ.others = none →
      (t.isProlog ∨ t.isHousekeeping) → (∀ j, j ∈ ids ↔ s.ctl.running j = true) →
      Move K C u s (s.put n t { φ with others := some (t.others ids) } s.ctl)
  | look {s n t φ} (f : Draft → Draft) : s.phases n = some (t, φ) →
      Move K C u s (s.put n t { φ with draft := f φ.draft }
        { s.ctl with draft := Function.update s.ctl.draft n (f (s.ctl.draft n)) })
  | see {s n t φ} (b : Bool) : s.phases n = some (t, φ) → φ.hold = .held →
      (b = true → s.ctl.marker = .regular) →
      Move K C u s (s.put n t { φ with seen := φ.seen || b } s.ctl)
  | update {s n t φ args} (took ok : Bool) : s.phases n = some (t, φ) → φ.updates K t args →
      (ok = true → took = true) →
      Move K C u s (s.put n t { φ with updated := φ.updated || ok } (s.ctl.updated took n args))
  | publish {s n t φ} : s.phases n = some (t, φ) → φ.publishes K ⟨u, n⟩ t →
      Move K C u s (s.put n t { φ with published := true }
        { s.ctl with marker := if s.ctl.marker = .absent then .regular else s.ctl.marker })
  | clear {s n t φ} : s.phases n = some (t, φ) → φ.clears K ⟨u, n⟩ t →
      Move K C u s (s.put n t φ.clear { s.ctl with marker := .absent })
  | revert {s n t φ} (took : Bool) : s.phases n = some (t, φ) → φ.hold = .held → φ.cleared = true →
      Move K C u s (s.put n t { φ with reverted := true } (s.ctl.reverted took))
  | request {s n t φ jobs} (ok : Bool) : s.phases n = some (t, φ) → φ.hold = .held → φ.seen = true →
      (∀ job ∈ jobs, job.slice = sliceName u ∧ job.pid = n) → (ok = true → jobs ≠ []) →
      jobs.length ≤ 1 →
      Move K C u s (s.put n t φ (s.ctl.requested n jobs ok))
  -- processes come and go
  | startProlog {s n j fuel} : s.phases n = none → (C.reported → s.ctl.running j = true) →
      (C.sequential → s.ctl.begun j = false) →
      Move K C u s (s.put n (.prolog j fuel) .init
        { s.ctl.begin n with prologOf := Function.update s.ctl.prologOf n (some j) })
  | startHousekeeping {s n j fuel} : s.phases n = none → (C.afterwards → s.ctl.ended j = true) →
      (C.sequential → ∀ m, s.ctl.prologOf m ≠ some j) →
      Move K C u s (s.put n (.housekeeping j fuel) .init
        { s.ctl.begin n with begun := Function.update s.ctl.begun j true })
  | startSession {s n argv} : s.phases n = none →
      Move K C u s (s.put n (.session argv) .init (s.ctl.begin n))
  | finishProlog {s n j fuel φ a} : s.phases n = some (.prolog j fuel, φ) →
      φ.post K ⟨u, n⟩ (.prolog j fuel) a →
      Move K C u s (s.drop n { s.ctl.unlock ⟨u, n⟩ with
        prologOf := Function.update s.ctl.prologOf n none
        prologOk := if a = .status 0 then Function.update s.ctl.prologOk j true else s.ctl.prologOk })
  | finishHousekeeping {s n j fuel φ a} : s.phases n = some (.housekeeping j fuel, φ) →
      φ.post K ⟨u, n⟩ (.housekeeping j fuel) a →
      Move K C u s (s.drop n { s.ctl.unlock ⟨u, n⟩ with
        hkOk := if a = .status 0 then Function.update s.ctl.hkOk j true else s.ctl.hkOk })
  | finishSession {s n argv φ a} : s.phases n = some (.session argv, φ) →
      φ.post K ⟨u, n⟩ (.session argv) a → Move K C u s (s.drop n s.ctl)
  | kill {s n t φ} : s.phases n = some (t, φ) →
      Move K C u s (s.drop n { s.ctl.unlock ⟨u, n⟩ with
        prologOf := Function.update s.ctl.prologOf n none })
  -- Flux's and systemd's own steps
  | report {s j} : s.ctl.ended j = false →
      Move K C u s { s with ctl := { s.ctl with
        running := Function.update s.ctl.running j true
        reported := Function.update s.ctl.reported j true } }
  | unreport {s j} : ¬ C.steady →
      Move K C u s { s with ctl := { s.ctl with running := Function.update s.ctl.running j false } }
  | endJob {s j} :
      Move K C u s { s with ctl := { s.ctl with
        running := Function.update s.ctl.running j false
        ended := Function.update s.ctl.ended j true } }
  | attach {s job} : job ∈ s.ctl.queue →
      Move K C u s { s with ctl := { s.ctl with
        queue := s.ctl.queue.erase job, attached := s.ctl.attached ++ [job] } }

/-- The watched node, seen from one user. -/
def userState (K : Setting) (u : ℕ) (m : Watched Pid Task Phase World) : UserState :=
  ⟨m.world.control K u, fun n => m.phases ⟨u, n⟩⟩

variable {K : Setting} {C : Contract} {u n : ℕ} {w w' : World}
  {phases : Pid → Option (Task × Phase)} {t : Task} {φ : Phase}

theorem update_self {α : Type} (f : Pid → α) (v : α) :
    (fun k => Function.update f ⟨u, n⟩ v ⟨u, k⟩) = Function.update (fun k => f ⟨u, k⟩) n v := by
  funext k
  by_cases h : k = n
  · subst h
    simp
  · simp [h]

theorem phases_other {p : Pid} (hu : p.uid ≠ u) (v : Option (Task × Phase)) :
    (fun k => Function.update phases p v ⟨u, k⟩) = fun k => phases ⟨u, k⟩ := by
  funext k
  exact Function.update_of_ne (pid_ne hu k) _ _

/-- A step that leaves the control and the phase alone. -/
theorem Move.stays (hφ : phases ⟨u, n⟩ = some (t, φ)) {φ' : Phase} (h : φ' = φ)
    (hc : w'.control K u = w.control K u) : Move K C u (userState K u ⟨w, phases⟩)
      (userState K u ⟨w', Function.update phases ⟨u, n⟩ (some (t, φ'))⟩) := by
  have hs : userState K u ⟨w', Function.update phases ⟨u, n⟩ (some (t, φ'))⟩ =
      userState K u ⟨w, phases⟩ := by
    simp only [userState, hc]
    rw [h, ← hφ, Function.update_eq_self]
  rw [hs]
  exact .idle _

/-- A step of the user's process that makes the move `c`, `φ'`. -/
theorem Move.of_put {φ' : Phase} {c : Control} (hc : w'.control K u = c)
    (h : Move K C u (userState K u ⟨w, phases⟩) ((userState K u ⟨w, phases⟩).put n t φ' c)) :
    Move K C u (userState K u ⟨w, phases⟩)
      (userState K u ⟨w', Function.update phases ⟨u, n⟩ (some (t, φ'))⟩) := by
  simp only [userState, hc, update_self]
  exact h

/-! ### The steps of the user's processes -/

theorem control_congr (h : w' = w) : w'.control K u = w.control K u := by rw [h]

theorem control_unlock (path : String) (h : path = lockPath K.lockDir u ∨ path = markerPath K.lockDir u) :
    (w.unlock ⟨u, n⟩ path).control K u =
      if path = lockPath K.lockDir u then (w.control K u).unlock ⟨u, n⟩ else w.control K u := by
  rcases h with rfl | rfl
  · rw [if_pos rfl]
    by_cases hl : w.locks (lockPath K.lockDir u) = some ⟨u, n⟩ <;>
      simp [World.control, World.unlock, Control.unlock, hl]
  · rw [if_neg (lockPath_ne_markerPath _ _ _ _).symm]
    simp only [World.control, World.unlock, lockPath_ne_markerPath, false_and, if_false]

theorem control_unitChange {unit : String} (h : w.unitChange unit w') :
    w'.control K u = w.control K u := by
  obtain ⟨active, cgroup, rfl, -⟩ := h
  rfl

variable (hφ : phases ⟨u, n⟩ = some (t, φ))
include hφ

theorem run_move {argv : List String} {timeout : ℚ} {r : Except RunError String}
    (ha : φ.allowed K ⟨u, n⟩ t (.run argv timeout))
    (he : w.effect ⟨u, n⟩ K.rank (.run argv timeout) r w') : Move K C u (userState K u ⟨w, phases⟩)
      (userState K u ⟨w', Function.update phases ⟨u, n⟩
        (some (t, φ.next K ⟨u, n⟩ t (.run argv timeout) r))⟩) := by
  obtain ⟨took, hok, hc⟩ := he
  rw [Phase.allowed_run] at ha
  revert ha hc
  simp only [Phase.next]
  cases World.decode argv with
  | none => exact fun ha => ha.elim
  | some c =>
    cases c with
    | setProperty slice args =>
      rintro ⟨rfl, hu⟩ rfl
      refine Move.of_put (c := ((w.control K u).updated took n args)) ?_
        (Move.update took r.isOk hφ hu fun h => ?_)
      · cases took <;> simp [World.control, Control.updated]
      · cases r with
        | ok out => exact hok out rfl
        | error e => cases h
    | revert slice =>
      rintro ⟨rfl, hh, hcl⟩ rfl
      refine Move.of_put (c := (w.control K u).reverted took) ?_ (Move.revert took hφ hh hcl)
      cases took <;> simp [World.control, Control.reverted]
    | showUser =>
      rintro - rfl
      exact Move.stays hφ rfl rfl
    | _ => exact fun _ hc => Move.stays hφ rfl (control_unitChange hc)

theorem op_move {o : Op} {r : Res o} (ha : φ.allowed K ⟨u, n⟩ t o) (hr : K.answers ⟨u, n⟩ o r)
    (he : w.effect ⟨u, n⟩ K.rank o r w') : Move K C u (userState K u ⟨w, phases⟩)
      (userState K u ⟨w', Function.update phases ⟨u, n⟩ (some (t, φ.next K ⟨u, n⟩ t o r))⟩) := by
  cases o with
  | lstat path =>
    obtain ⟨rfl, hh⟩ := ha
    obtain ⟨hk, rfl⟩ := he
    cases r with
    | error e => exact Move.stays hφ rfl rfl
    | ok kind =>
      refine Move.of_put rfl (Move.see (decide (kind = .regular)) hφ hh fun h => ?_)
      rw [← of_decide_eq_true h]
      exact (hk kind rfl).symm
  | openFile path flags mode =>
    cases r with
    | error e => exact Move.stays hφ rfl (control_congr he)
    | ok fd =>
      obtain ⟨-, -, -, rfl⟩ := he
      rcases ha with rfl | ⟨rfl, hp⟩
      · have hne : markerPath K.lockDir u ≠ lockPath K.lockDir u :=
          (lockPath_ne_markerPath _ _ _ _).symm
        refine Move.stays hφ ?_ ?_
        · simp [Phase.next, hne.symm]
        · simp only [World.control, World.create, Function.update_of_ne hne]
      · refine Move.of_put ?_ (by simpa [Phase.next] using Move.publish hφ hp)
        simp only [World.control, World.create, Function.update_self]
        rfl
  | close fd =>
    obtain rfl : w' = _ := he
    have hc := control_unlock (K := K) (w := w) (n := n) fd.path ha
    have hn : φ.next K ⟨u, n⟩ t (.close fd) r =
      if fd.path = lockPath K.lockDir u then φ.release else φ := rfl
    rw [hn]
    by_cases hl : fd.path = lockPath K.lockDir u
    · rw [if_pos hl] at hc ⊢
      exact Move.of_put hc (Move.release hφ)
    · rw [if_neg hl] at hc ⊢
      exact Move.stays hφ rfl hc
  | flock fd operation =>
    rcases r with e | ⟨⟩
    · cases operation <;> exact Move.stays hφ rfl (control_congr he)
    · cases operation with
      | LOCK_UN =>
        obtain rfl : w' = _ := he
        have hl : fd.path = lockPath K.lockDir u := ha
        have hc := control_unlock (K := K) (w := w) (n := n) fd.path (.inl hl)
        rw [if_pos hl] at hc
        exact Move.of_put hc (Move.release hφ)
      | _ =>
        obtain ⟨hl, hb⟩ := ha
        obtain ⟨hfree, rfl⟩ := he
        refine Move.of_put ?_ (Move.acquire hφ hb (by rw [← hfree, hl]; rfl))
        rw [hl]
        simp only [World.control, Function.update_self]
        rfl
  | unlink path =>
    obtain ⟨rfl, hc⟩ := ha
    rcases r with e | ⟨⟩
    · obtain ⟨hn, rfl⟩ := he
      by_cases hne : e = .ENOENT
      · subst hne
        have hm : ({ w'.control K u with marker := .absent } : Control) = w'.control K u := by
          rw [← hn rfl]
          rfl
        have hnext : φ.next K ⟨u, n⟩ t (.unlink (markerPath K.lockDir u)) (.error .ENOENT) =
            φ.clear := by rfl
        rw [hnext]
        exact Move.of_put hm.symm (Move.clear hφ hc)
      · exact Move.stays hφ (if_neg hne) rfl
    · obtain rfl : w' = _ := he
      refine Move.of_put ?_ (Move.clear hφ hc)
      have hne : lockPath K.lockDir u ≠ markerPath K.lockDir u := lockPath_ne_markerPath _ _ _ _
      simp only [World.control, Function.update_self]
      rfl
  | run argv timeout => exact run_move hφ ha he
  | jobList user rank =>
    obtain ⟨rfl, rfl, hh, ho, ht⟩ := ha
    obtain ⟨hj, rfl⟩ := he
    cases r with
    | error e => exact Move.stays hφ rfl rfl
    | ok ids => exact Move.of_put rfl (Move.list hφ hh ho ht (hj ids rfl rfl u rfl))
  | kvsLookupR ids =>
    cases r with
    | error e => exact Move.stays hφ rfl (control_congr he)
    | ok _ =>
      obtain rfl : w' = _ := he
      refine Move.of_put ?_ (Move.look (fun _ => ⟨ids, none⟩) hφ)
      simp only [World.control, update_self]
      rfl
  | mapperLookup R =>
    rcases r with e | _ | props
    · exact Move.stays hφ rfl (control_congr he)
    · exact Move.stays hφ rfl (control_congr he)
    · obtain rfl : w' = _ := he
      refine Move.of_put ?_ (Move.look (fun d => { d with props := some props }) hφ)
      simp only [World.control, update_self]
      rfl
  | busCall member args =>
    obtain ⟨hh, hs, scope, rfl⟩ := ha
    obtain ⟨jobs, hjobs, hlen, hok, rfl⟩ := he
    have hslice : ∀ job ∈ jobs, job.slice = sliceName u ∧ job.pid = n := fun job hj => by
      rw [← message_inj (hjobs job hj)]
      exact ⟨rfl, rfl⟩
    have hfilter : jobs.filter (·.slice = sliceName u) = jobs := by
      simpa [List.filter_eq_self] using fun job hj => (hslice job hj).1
    refine Move.of_put ?_ (Move.request r hφ hh hs hslice (fun h => ?_) hlen)
    · cases r <;> simp only [World.control, List.filter_append, hfilter, Control.requested, update_self,
        if_true, Bool.false_eq_true, if_false] <;> rfl
    · rw [hok h _ rfl]
      exact List.cons_ne_nil _ _
  | pathExists path => exact Move.stays hφ rfl (control_congr he.2)
  | walk top => exact Move.stays hφ rfl (control_congr he.2)
  | readLines path => exact Move.stays hφ rfl (control_congr he.2)
  | _ => exact Move.stays hφ rfl (control_congr he)

omit hφ

/-! ### Processes come and go -/

theorem setAt_self {α : Type} (f : ℕ → ℕ → α) (j : ℕ) (a : α) :
    setAt f u j a u = Function.update (f u) j a := Function.update_self ..

theorem start_move (hp : phases ⟨u, n⟩ = none) (h : World.start K C ⟨u, n⟩ w w' t) :
    Move K C u (userState K u ⟨w, phases⟩)
      (userState K u ⟨w', Function.update phases ⟨u, n⟩ (some (t, .init))⟩) := by
  cases t with
  | prolog j fuel =>
    obtain ⟨hr, hs, rfl⟩ := h
    refine Move.of_put ?_ (Move.startProlog hp hr hs)
    simp only [World.control, World.begin, update_self]
    rfl
  | housekeeping j fuel =>
    obtain ⟨ho, hs, rfl⟩ := h
    refine Move.of_put ?_ (Move.startHousekeeping hp ho hs)
    simp only [World.control, World.begin, update_self, setAt_self]
    rfl
  | session argv =>
    obtain ⟨-, rfl⟩ := h
    refine Move.of_put ?_ (Move.startSession hp)
    simp only [World.control, World.begin, update_self]
    rfl

theorem Move.of_drop {c : Control} (hc : w'.control K u = c)
    (h : Move K C u (userState K u ⟨w, phases⟩) ((userState K u ⟨w, phases⟩).drop n c)) :
    Move K C u (userState K u ⟨w, phases⟩)
      (userState K u ⟨w', Function.update phases ⟨u, n⟩ none⟩) := by
  simp only [userState, hc, update_self]
  exact h

theorem finish_move (hφ : phases ⟨u, n⟩ = some (t, φ)) {a : Exit} (hpost : φ.post K ⟨u, n⟩ t a)
    (h : World.finish ⟨u, n⟩ a w w' t) : Move K C u (userState K u ⟨w, phases⟩)
      (userState K u ⟨w', Function.update phases ⟨u, n⟩ none⟩) := by
  cases t with
  | prolog j fuel =>
    obtain rfl : w' = _ := h
    refine Move.of_drop ?_ (Move.finishProlog hφ hpost)
    split <;> simp only [World.control, update_self, setAt_self] <;> rfl
  | housekeeping j fuel =>
    obtain rfl : w' = _ := h
    refine Move.of_drop ?_ (Move.finishHousekeeping hφ hpost)
    split <;> simp only [World.control, setAt_self] <;> rfl
  | session argv =>
    obtain rfl : w' = w := h
    exact Move.of_drop rfl (Move.finishSession hφ hpost)

theorem kill_move (hφ : phases ⟨u, n⟩ = some (t, φ)) (h : World.kill ⟨u, n⟩ w w') :
    Move K C u (userState K u ⟨w, phases⟩)
      (userState K u ⟨w', Function.update phases ⟨u, n⟩ none⟩) := by
  obtain rfl : w' = _ := h
  refine Move.of_drop ?_ (Move.kill hφ)
  simp only [World.control, update_self]
  rfl

theorem act_move {a : Act} (hu : a.user = u) (h : World.act C w w' a) :
    Move K C u (userState K u ⟨w, phases⟩) (userState K u ⟨w', phases⟩) := by
  cases a with
  | report v j =>
    obtain rfl : v = u := hu
    obtain ⟨he, rfl⟩ := h
    have := Move.report (K := K) (C := C) (u := v) (s := userState K v ⟨w, phases⟩) he
    simpa only [userState, World.control, setAt_self] using this
  | unreport v j =>
    obtain rfl : v = u := hu
    obtain ⟨hs, rfl⟩ := h
    have := Move.unreport (K := K) (u := v) (s := userState K v ⟨w, phases⟩) (j := j) hs
    simpa only [userState, World.control, setAt_self] using this
  | endJob v j =>
    obtain rfl : v = u := hu
    obtain rfl : w' = _ := h
    have := Move.endJob (K := K) (C := C) (u := v) (s := userState K v ⟨w, phases⟩) (j := j)
    simpa only [userState, World.control, setAt_self] using this
  | attach v job =>
    obtain rfl : v = u := hu
    obtain ⟨hj, hs, cgroup, rfl, -⟩ := h
    have hq : job ∈ (userState K v ⟨w, phases⟩).ctl.queue := by
      simpa [userState, World.control, hs] using hj
    have := Move.attach (K := K) (C := C) (u := v) hq
    simpa [userState, World.control, List.erase_filter, hs] using this
  | unit v name =>
    have hc := control_unitChange (K := K) (u := u) h.2
    simp only [userState, hc]
    exact .idle _

/-- **Refinement.** A step of the watched node is a move of every user. -/
theorem step_move {m m' : Watched Pid Task Phase World} {l} (hl : m.world.locksOwned K)
    (h : Watch.Step (node K C) (watchAll K) m l m') :
    Move K C u (userState K u m) (userState K u m') := by
  have hother : ∀ {w w' : World} {phases : Pid → Option (Task × Phase)} {p : Pid} {v},
      p.uid ≠ u → w'.view K u = w.view K u → Move K C u (userState K u ⟨w, phases⟩)
        (userState K u ⟨w', Function.update phases p v⟩) := by
    intro w w' phases p v hu hv
    have hc : w'.control K u = w.control K u := congrArg View.toControl hv
    simp only [userState, hc, phases_other hu]
    exact .idle _
  cases h with
  | @op w w' phases p t φ o r hφ ha hr he =>
    by_cases hu : p.uid = u
    · subst hu
      exact op_move hφ ha hr he.2
    · exact hother hu (frame_effect hu (allowed_touches ha) he.2)
  | @start w w' phases p t hp hs =>
    by_cases hu : p.uid = u
    · subst hu
      exact start_move hp hs
    · exact hother hu (frame_start hu hs)
  | @finish w w' phases p t φ a hφ hpost hf =>
    by_cases hu : p.uid = u
    · subst hu
      exact finish_move hφ hpost hf
    · exact hother hu (frame_finish hl hu hf)
  | @kill w w' phases p t φ hφ hk =>
    by_cases hu : p.uid = u
    · subst hu
      exact kill_move hφ hk
    · exact hother hu (frame_kill hl hu hk)
  | @world w w' phases a hw =>
    by_cases hu : a.user = u
    · exact act_move hu hw
    · have hc : w'.control K u = w.control K u := congrArg View.toControl (frame_act hu hw)
      simp only [userState, hc]
      exact .idle _

/-! ### Runs -/

theorem locksOwned_step {m m' : Watched Pid Task Phase World} {l} (hl : m.world.locksOwned K)
    (h : Watch.Step (node K C) (watchAll K) m l m') : m'.world.locksOwned K := by
  cases h with
  | @op w w' phases p t φ o r hφ ha hr he => exact locksOwned_effect hl (allowed_touches ha) he.2
  | @start w w' phases p t hp hs =>
    have hlocks : w'.locks = w.locks := by
      cases t with
      | prolog j fuel => rw [hs.2.2]; rfl
      | housekeeping j fuel => rw [hs.2.2]; rfl
      | session argv => rw [hs.2]; rfl
    intro v q hq
    rw [hlocks] at hq
    exact hl v q hq
  | @finish w w' phases p t φ a hφ hpost hf =>
    intro v q hq
    cases t with
    | prolog j fuel =>
      obtain rfl : w' = _ := hf
      exact hl v q (unlockAll_locks hq)
    | housekeeping j fuel =>
      obtain rfl : w' = _ := hf
      exact hl v q (unlockAll_locks hq)
    | session argv =>
      obtain rfl : w' = w := hf
      exact hl v q hq
  | @kill w w' phases p t φ hφ hk =>
    intro v q hq
    obtain rfl : w' = _ := hk
    exact hl v q (unlockAll_locks hq)
  | @world w w' phases a hw =>
    have hlocks : w'.locks = w.locks := by
      cases a with
      | report v j => rw [hw.2]
      | unreport v j => rw [hw.2]
      | endJob v j => rw [show w' = _ from hw]
      | attach v job =>
        obtain ⟨-, -, cgroup, rfl, -⟩ := hw
        rfl
      | unit v name =>
        obtain ⟨-, active, cgroup, rfl, -⟩ := hw
        rfl
    intro v q hq
    rw [hlocks] at hq
    exact hl v q hq

/-- What every move of a user keeps holds of the user in every run. -/
theorem Reached.invariant {c₀ c : Config Pid Op Res Task Exit World} (h : Reached K C c₀ c)
    {I : UserState → Prop} (h₀ : I ⟨c₀.world.control K u, fun _ => none⟩)
    (hI : ∀ s s', I s → Move K C u s s' → I s') :
    ∃ m, Watch.Follows (watchAll K) c m ∧ I (userState K u m) := by
  obtain ⟨ls, hr⟩ := h.run
  obtain ⟨m, hm, hf⟩ := Watch.follows_run (watch_sound K C) (Watch.Follows.of_none h.idle) hr
  have hlocks : c₀.world.locksOwned K := h.initial.locksOwned
  have hinv := hm.invariant (I := fun m => m.world.locksOwned K ∧ I (userState K u m))
    (fun m l m' hi hs => ⟨locksOwned_step hi.1 hs, hI _ _ hi.2 (step_move hi.1 hs)⟩) ⟨hlocks, h₀⟩
  exact ⟨m, hf, hinv.2⟩

end FluxPam
