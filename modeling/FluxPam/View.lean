/-
# What the node keeps of one user

The part of the state that belongs to a user: the entries of the node's maps
under the names made of the user's uid (`World.view`), and of them what the
protocol between prologs, housekeepings and sessions is about
(`World.control`). A step of another user's process leaves all of it alone
(`frame_effect` and its companions), because no two users' names meet.
-/
import FluxPam.Watch

namespace FluxPam

open Interaction

/-- The marker, the lock and the slice of a user, and the user's jobs. -/
structure Control where
  marker : FileKind
  lock : Option Pid
  slice : SliceProps
  source : Option Draft
  last : Option Attempt
  queue : List ScopeJob
  attached : List ScopeJob
  running : ℕ → Bool
  ended : ℕ → Bool
  reported : ℕ → Bool
  begun : ℕ → Bool
  prologOk : ℕ → Bool
  hkOk : ℕ → Bool
  prologOf : ℕ → Option ℕ
  draft : ℕ → Draft
  request : ℕ → Option ScopeJob

/-- All the node keeps of a user. -/
structure View extends Control where
  lockFile : FileKind
  sliceUnit : Bool
  service : Bool
  cgroup : String → Option CgroupEntry

namespace World

variable (K : Setting) (u : ℕ) (w : World)

def control : Control where
  marker := w.files (markerPath K.lockDir u)
  lock := w.locks (lockPath K.lockDir u)
  slice := w.slices (sliceName u)
  source := w.source (sliceName u)
  last := w.last (sliceName u)
  queue := w.queue.filter (·.slice = sliceName u)
  attached := w.attached.filter (·.slice = sliceName u)
  running := w.running u
  ended := w.ended u
  reported := w.reported u
  begun := w.begun u
  prologOk := w.prologOk u
  hkOk := w.hkOk u
  prologOf n := w.prologOf ⟨u, n⟩
  draft n := w.draft ⟨u, n⟩
  request n := w.request ⟨u, n⟩

def view : View where
  toControl := w.control K u
  lockFile := w.files (lockPath K.lockDir u)
  sliceUnit := w.units (sliceName u)
  service := w.units (serviceName u)
  cgroup path := if below (slicePath u) path then w.cgroup path else none

end World

/-! ### The names a process uses -/

/-- The operation names nothing of another user's. -/
def touches (K : Setting) (p : Pid) : Op → Prop
  | .lstat path => path = markerPath K.lockDir p.uid
  | .openFile path _ _ => path = lockPath K.lockDir p.uid ∨ path = markerPath K.lockDir p.uid
  | .close fd => fd.path = lockPath K.lockDir p.uid ∨ fd.path = markerPath K.lockDir p.uid
  | .flock fd _ => fd.path = lockPath K.lockDir p.uid
  | .unlink path => path = markerPath K.lockDir p.uid
  | .pathExists path => below (slicePath p.uid) path = true
  | .walk top => top = slicePath p.uid
  | .readLines path => below (slicePath p.uid) path = true
  | .run argv _ => match World.decode argv with
    | some (.setProperty slice _) => slice = sliceName p.uid
    | some (.revert slice) => slice = sliceName p.uid
    | some (.start unit) => unit = serviceName p.uid
    | some (.stop unit) => unit = serviceName p.uid
    | some (.kill unit) => unit = sliceName p.uid
    | some .showUser => True
    | none => False
  | .jobList user rank => user = numeral p.uid ∧ rank = numeral K.rank
  | .busCall _ args => ∃ scope, args = ScopeJob.message ⟨scope, sliceName p.uid, p.n⟩
  | _ => True

variable {K : Setting} {p : Pid} {t : Task} {φ : Phase} {u : ℕ} {w w' : World}

theorem allowed_touches {o : Op} (h : φ.allowed K p t o) : touches K p o := by
  cases o with
  | flock fd operation =>
    cases operation with
    | LOCK_UN => exact h
    | _ => exact h.1
  | openFile path flags mode => exact h.imp_right And.left
  | run argv timeout =>
    revert h
    simp only [Phase.allowed, touches]
    cases World.decode argv with
    | none => exact fun h => h
    | some c => cases c <;> first | exact fun h => h | exact fun h => h.1
  | jobList user rank => exact ⟨h.1, h.2.1⟩
  | busCall member args => exact h.2.2
  | lstat path => exact h.1
  | unlink path => exact h.1
  | _ => first | exact h | trivial

/-- A file that was opened with `O_CREAT` is there. -/
theorem created_ne_absent (kind : FileKind) :
    (if kind = .absent then .regular else kind) ≠ FileKind.absent := by
  by_cases h : kind = .absent
  · rw [if_pos h]
    decide
  · rw [if_neg h]
    exact h

/-! ### Another user's steps -/

theorem setAt_ne {α : Type} {f : ℕ → ℕ → α} {v j : ℕ} {a : α} (h : v ≠ u) : setAt f v j a u = f u :=
  Function.update_of_ne (Ne.symm h) _ _

section Frame

variable (hu : p.uid ≠ u)
include hu

theorem lockPath_ne : lockPath K.lockDir u ≠ lockPath K.lockDir p.uid :=
  fun h => hu (lockPath_inj h).symm

theorem markerPath_ne : markerPath K.lockDir u ≠ markerPath K.lockDir p.uid :=
  fun h => hu (markerPath_inj h).symm

theorem sliceName_ne : sliceName u ≠ sliceName p.uid := fun h => hu (sliceName_inj h).symm

theorem serviceName_ne : serviceName u ≠ serviceName p.uid := fun h => hu (serviceName_inj h).symm

theorem pid_ne (n : ℕ) : (⟨u, n⟩ : Pid) ≠ p := fun h => hu (by rw [← h])

theorem frame_files {path : String} (h : path = lockPath K.lockDir p.uid ∨
    path = markerPath K.lockDir p.uid) (kind : FileKind) :
    ({ w with files := Function.update w.files path kind } : World).view K u = w.view K u := by
  have h₁ : lockPath K.lockDir u ≠ path := by
    rcases h with rfl | rfl
    · exact lockPath_ne hu
    · exact lockPath_ne_markerPath _ _ _ _
  have h₂ : markerPath K.lockDir u ≠ path := by
    rcases h with rfl | rfl
    · exact (lockPath_ne_markerPath _ _ _ _).symm
    · exact markerPath_ne hu
  simp only [World.view, World.control, Function.update_of_ne h₁, Function.update_of_ne h₂]

theorem frame_lock (q : Option Pid) :
    ({ w with locks := Function.update w.locks (lockPath K.lockDir p.uid) q } : World).view K u =
      w.view K u := by
  simp only [World.view, World.control, Function.update_of_ne (lockPath_ne hu)]

theorem frame_unlock {path : String} (h : path = lockPath K.lockDir p.uid ∨
    path = markerPath K.lockDir p.uid) : (w.unlock p path).view K u = w.view K u := by
  have h₁ : lockPath K.lockDir u ≠ path := by
    rcases h with rfl | rfl
    · exact lockPath_ne hu
    · exact lockPath_ne_markerPath _ _ _ _
  simp only [World.view, World.control, World.unlock, h₁, false_and, if_false]

theorem frame_unitChange {unit : String} (h : unit = sliceName p.uid ∨ unit = serviceName p.uid)
    (hc : w.unitChange unit w') : w'.view K u = w.view K u := by
  obtain ⟨active, cgroup, rfl, hcg⟩ := hc
  have h₁ : sliceName u ≠ unit := by
    rcases h with rfl | rfl
    · exact sliceName_ne hu
    · exact sliceName_ne_serviceName _ _
  have h₂ : serviceName u ≠ unit := by
    rcases h with rfl | rfl
    · exact (sliceName_ne_serviceName _ _).symm
    · exact serviceName_ne hu
  have h₃ : ∀ path, below (slicePath u) path = true → cgroup path = w.cgroup path := by
    intro path hp
    refine hcg path ?_
    rintro ⟨v, hv, hv'⟩
    obtain rfl := below_slicePath_inj hp hv'
    rcases hv with hv | hv
    · exact h₁ hv.symm
    · exact h₂ hv.symm
  have h₄ : (fun path => if below (slicePath u) path then cgroup path else none) =
      fun path => if below (slicePath u) path then w.cgroup path else none := by
    funext path
    split
    · exact h₃ path ‹_›
    · rfl
  simp only [World.view, World.control, Function.update_of_ne h₁, Function.update_of_ne h₂, h₄]

theorem frame_command {took : Bool} {argv : List String} {timeout : ℚ}
    (h : touches K p (.run argv timeout)) (hc : w.command p took w' (World.decode argv)) :
    w'.view K u = w.view K u := by
  revert h hc
  simp only [touches]
  cases World.decode argv with
  | none => exact fun h => h.elim
  | some c =>
    cases c with
    | setProperty slice args =>
      rintro rfl rfl
      cases took <;> simp [World.view, World.control, Function.update_of_ne (sliceName_ne hu)]
    | revert slice =>
      rintro rfl rfl
      cases took <;> simp [World.view, World.control, Function.update_of_ne (sliceName_ne hu)]
    | start unit => exact fun h hc => frame_unitChange hu (.inr h) hc
    | stop unit => exact fun h hc => frame_unitChange hu (.inr h) hc
    | kill unit => exact fun h hc => frame_unitChange hu (.inl h) hc
    | showUser => rintro - rfl; rfl

/-- An operation of another user's process changes nothing of the user's. -/
theorem frame_effect {o : Op} {r : Res o} (h : touches K p o) (he : w.effect p K.rank o r w') :
    w'.view K u = w.view K u := by
  cases o with
  | openFile path flags mode =>
    cases r with
    | error e => exact congrArg (World.view K u) he
    | ok fd =>
      obtain ⟨-, -, -, rfl⟩ := he
      exact frame_files hu h _
  | close fd =>
    obtain rfl : w' = _ := he
    exact frame_unlock hu h
  | flock fd operation =>
    have hfd : fd.path = lockPath K.lockDir p.uid := h
    rcases r with e | ⟨⟩
    · cases operation <;> exact congrArg (World.view K u) he
    · cases operation with
      | LOCK_UN =>
        obtain rfl : w' = _ := he
        exact frame_unlock hu (.inl hfd)
      | _ =>
        obtain ⟨-, rfl⟩ := he
        rw [hfd]
        exact frame_lock hu _
  | unlink path =>
    rcases r with e | ⟨⟩
    · exact congrArg (World.view K u) he.2
    · obtain rfl : w' = _ := he
      exact frame_files hu (.inr h) _
  | run argv timeout =>
    obtain ⟨took, -, hc⟩ := he
    exact frame_command hu h hc
  | kvsLookupR ids =>
    cases r with
    | error e => exact congrArg (World.view K u) he
    | ok _ =>
      obtain rfl : w' = _ := he
      simp only [World.view, World.control, Function.update_of_ne (pid_ne hu _)]
  | mapperLookup R =>
    rcases r with e | _ | props
    · exact congrArg (World.view K u) he
    · exact congrArg (World.view K u) he
    · obtain rfl : w' = _ := he
      simp only [World.view, World.control, Function.update_of_ne (pid_ne hu _)]
  | busCall member args =>
    obtain ⟨jobs, hj, -, -, rfl⟩ := he
    obtain ⟨scope, hs⟩ := h
    have hq : (w.queue ++ jobs).filter (·.slice = sliceName u) =
        w.queue.filter (·.slice = sliceName u) := by
      rw [List.filter_append, List.append_right_eq_self, List.filter_eq_nil_iff]
      intro job hjob
      rw [← message_inj (hs.symm.trans (hj job hjob))]
      simpa using (sliceName_ne hu).symm
    cases r <;> simp only [World.view, World.control, hq, Function.update_of_ne (pid_ne hu _), if_true,
      Bool.false_eq_true, if_false]
  | lstat path => exact congrArg (World.view K u) he.2
  | pathExists path => exact congrArg (World.view K u) he.2
  | walk top => exact congrArg (World.view K u) he.2
  | readLines path => exact congrArg (World.view K u) he.2
  | jobList user rank => exact congrArg (World.view K u) he.2
  | _ => exact congrArg (World.view K u) he

theorem frame_start {C : Contract} (h : World.start K C p w w' t) : w'.view K u = w.view K u := by
  cases t with
  | prolog j fuel =>
    obtain ⟨-, -, rfl⟩ := h
    simp only [World.view, World.control, World.begin, Function.update_of_ne (pid_ne hu _)]
  | housekeeping j fuel =>
    obtain ⟨-, -, rfl⟩ := h
    simp only [World.view, World.control, World.begin, Function.update_of_ne (pid_ne hu _),
      setAt_ne hu]
  | session argv =>
    obtain ⟨-, rfl⟩ := h
    simp only [World.view, World.control, World.begin, Function.update_of_ne (pid_ne hu _)]

end Frame

/-- A user's lock is held by processes of the user only. -/
def World.locksOwned (K : Setting) (w : World) : Prop :=
  ∀ (u : ℕ) (p : Pid), w.locks (lockPath K.lockDir u) = some p → p.uid = u

/-- In the beginning no lock is held. -/
theorem World.initial.locksOwned (h : w.initial) : w.locksOwned K := by
  intro v q hq
  rw [h.1] at hq
  cases hq

theorem frame_unlockAll (hw : w.locksOwned K) (hu : p.uid ≠ u) :
    (w.unlockAll p).view K u = w.view K u := by
  have h : w.locks (lockPath K.lockDir u) ≠ some p := fun h => hu (hw u p h)
  simp only [World.view, World.control, World.unlockAll, h, if_false]

theorem frame_finish (hw : w.locksOwned K) (hu : p.uid ≠ u) {a : Exit}
    (h : World.finish p a w w' t) : w'.view K u = w.view K u := by
  have hl := frame_unlockAll hw hu
  cases t with
  | prolog j fuel =>
    obtain rfl : w' = _ := h
    rw [← hl]
    split <;> simp only [World.view, World.control, World.unlockAll, Function.update_of_ne (pid_ne hu _),
      setAt_ne hu]
  | housekeeping j fuel =>
    obtain rfl : w' = _ := h
    rw [← hl]
    split <;> simp only [World.view, World.control, World.unlockAll, setAt_ne hu]
  | session argv => exact congrArg (World.view K u) h

theorem frame_kill (hw : w.locksOwned K) (hu : p.uid ≠ u) (h : World.kill p w w') :
    w'.view K u = w.view K u := by
  obtain rfl : w' = _ := h
  rw [← frame_unlockAll hw hu]
  simp only [World.view, World.control, World.unlockAll, Function.update_of_ne (pid_ne hu _)]

/-- The user a step of the world is about. -/
def Act.user : Act → ℕ
  | .report u _ => u
  | .unreport u _ => u
  | .endJob u _ => u
  | .attach u _ => u
  | .unit u _ => u

theorem frame_act {C : Contract} {a : Act} (hu : a.user ≠ u) (h : World.act C w w' a) :
    w'.view K u = w.view K u := by
  have hp : (⟨a.user, 0⟩ : Pid).uid ≠ u := hu
  cases a with
  | report v j =>
    obtain ⟨-, rfl⟩ := h
    have hv : v ≠ u := hu
    simp only [World.view, World.control, setAt_ne hv]
  | unreport v j =>
    obtain ⟨-, rfl⟩ := h
    have hv : v ≠ u := hu
    simp only [World.view, World.control, setAt_ne hv]
  | endJob v j =>
    obtain rfl : w' = _ := h
    have hv : v ≠ u := hu
    simp only [World.view, World.control, setAt_ne hv]
  | attach v job =>
    obtain ⟨-, hs, cgroup, rfl, hcg⟩ := h
    have hjob : ¬ job.slice = sliceName u := fun he => sliceName_ne hp (he.symm.trans hs)
    have hq : (w.queue.erase job).filter (·.slice = sliceName u) =
        w.queue.filter (·.slice = sliceName u) := by
      rw [← List.erase_filter, List.erase_of_not_mem]
      simp [hjob]
    have ha : (w.attached ++ [job]).filter (·.slice = sliceName u) =
        w.attached.filter (·.slice = sliceName u) := by simp [hjob]
    have hc : (fun path => if below (slicePath u) path then cgroup path else none) =
        fun path => if below (slicePath u) path then w.cgroup path else none := by
      funext path
      split
      · refine hcg path (Bool.eq_false_iff.mpr fun hb => hu ?_)
        exact (below_slicePath_inj hb ‹_›)
      · rfl
    simp only [World.view, World.control, hq, ha, hc]
  | unit v name => exact frame_unitChange hp h.1 h.2

/-! ### The lock -/

theorem unlock_locks {path : String} {q : Pid} {f : String} (h : (w.unlock p path).locks f = some q) :
    w.locks f = some q := by
  simp only [World.unlock] at h
  split at h
  · cases h
  · exact h

theorem unlockAll_locks {q : Pid} {f : String} (h : (w.unlockAll p).locks f = some q) :
    w.locks f = some q := by
  simp only [World.unlockAll] at h
  split at h
  · cases h
  · exact h

theorem command_locks {took : Bool} {c : Option World.Command} (hc : c ≠ none)
    (h : w.command p took w' c) : w'.locks = w.locks := by
  cases c with
  | none => exact absurd rfl hc
  | some c =>
    cases c with
    | setProperty slice args => rw [show w' = _ from h]
    | revert slice => rw [show w' = _ from h]
    | showUser => rw [show w' = _ from h]
    | _ =>
      obtain ⟨active, cgroup, rfl, -⟩ := h
      rfl

/-- The lock on a file is taken. -/
def takes (e : Event) : Prop :=
  ∃ fd, e = ⟨.flock fd .LOCK_EX, .ok ()⟩ ∨ e = ⟨.flock fd .LOCK_EX_NB, .ok ()⟩

/-- Taking a lock is the only way to have one. -/
theorem effect_locks {o : Op} {r : Res o} {f : String} {q : Pid} (h : touches K p o)
    (he : w.effect p K.rank o r w') (hq : w'.locks f = some q) :
    w.locks f = some q ∨ q = p ∧ f = lockPath K.lockDir p.uid ∧ takes ⟨o, r⟩ := by
  have hsame : w'.locks = w.locks →
      w.locks f = some q ∨ q = p ∧ f = lockPath K.lockDir p.uid ∧ takes ⟨o, r⟩ :=
    fun hl => .inl (by rw [← hl]; exact hq)
  cases o with
  | openFile path flags mode =>
    cases r with
    | error e => exact hsame (congrArg World.locks he)
    | ok fd =>
      obtain ⟨-, -, -, rfl⟩ := he
      exact hsame rfl
  | close fd =>
    obtain rfl : w' = _ := he
    exact .inl (unlock_locks hq)
  | flock fd operation =>
    have hfd : fd.path = lockPath K.lockDir p.uid := h
    rcases r with e | ⟨⟩
    · cases operation <;> exact hsame (congrArg World.locks he)
    · cases operation with
      | LOCK_UN =>
        obtain rfl : w' = _ := he
        exact .inl (unlock_locks hq)
      | _ =>
        obtain ⟨-, rfl⟩ := he
        simp only [Function.update_apply] at hq
        split at hq
        · cases hq
          exact .inr ⟨rfl, by rw [← hfd]; assumption, fd, by first | exact .inl rfl | exact .inr rfl⟩
        · exact .inl hq
  | unlink path =>
    rcases r with e | ⟨⟩
    · exact hsame (congrArg World.locks he.2)
    · exact hsame (by rw [show w' = _ from he])
  | run argv timeout =>
    obtain ⟨took, -, hc⟩ := he
    refine hsame (command_locks (fun hn => ?_) hc)
    simp only [touches, hn] at h
  | kvsLookupR ids => cases r <;> exact hsame (by rw [show w' = _ from he])
  | mapperLookup R => rcases r with e | _ | props <;> exact hsame (by rw [show w' = _ from he])
  | busCall member args =>
    obtain ⟨jobs, -, -, -, rfl⟩ := he
    exact hsame rfl
  | lstat path => exact hsame (congrArg World.locks he.2)
  | pathExists path => exact hsame (congrArg World.locks he.2)
  | walk top => exact hsame (congrArg World.locks he.2)
  | readLines path => exact hsame (congrArg World.locks he.2)
  | jobList user rank => exact hsame (congrArg World.locks he.2)
  | _ => exact hsame (congrArg World.locks he)

theorem locksOwned_effect (hw : w.locksOwned K) {o : Op} {r : Res o} (h : touches K p o)
    (he : w.effect p K.rank o r w') : w'.locksOwned K := by
  intro u q hq
  rcases effect_locks h he hq with hq | ⟨rfl, hf, -⟩
  · exact hw u q hq
  · exact (lockPath_inj hf).symm

end FluxPam
