/-
# A node that works

An executable node: every operation succeeds if the state lets it, every
command does what it is asked, and a request for a scope is queued. Its answers
are among those the node may give (`Server.serves`), so the runs it computes are
runs of the node (`Server.run`). `job-list` can only be computed for a finite
number of jobs, and the cgroup file system is not walked.
-/
import FluxPam.Node
import FluxPam.Interaction.Play

namespace FluxPam

open Interaction

/-- The node's jobs, and the properties the mapper knows. -/
structure Server (K : Setting) where
  jobs : List ℕ
  props : String → Properties
  maps : ∀ R, K.maps R (props R)

/-- The values a call appends to a message. -/
def BusArg.values : BusArg → List BusVal
  | .append _ values => values
  | _ => []

/-- The scope a message of `StartTransientUnit` asks for. -/
def ScopeJob.ofMessage (args : List BusArg) : Option ScopeJob :=
  match args.flatMap BusArg.values with
  | [.str scope, _, _, .str slice, _, .u32 pid, _] =>
    if (⟨scope, slice, pid⟩ : ScopeJob).message = args then some ⟨scope, slice, pid⟩ else none
  | _ => none

theorem ScopeJob.message_ofMessage {args : List BusArg} {job : ScopeJob}
    (h : ScopeJob.ofMessage args = some job) : job.message = args := by
  unfold ScopeJob.ofMessage at h
  split at h
  · split at h
    · cases h
      exact ‹_›
    · cases h
  · cases h

namespace Server

variable {K : Setting} (V : Server K) (p : Pid) (w : World)

def serveOpen (path : String) (flags : List OpenFlag) : Except Errno Fd × World :=
  if w.files path = .absent ∧ .O_CREAT ∉ flags then (.error .ENOENT, w)
  else if w.files path = .symlink ∧ .O_NOFOLLOW ∈ flags then (.error .ELOOP, w)
  else if w.files path = .directory then (.error Errno.EIO, w)
  else (.ok ⟨path⟩, w.create path)

def serveLock (path : String) : World := { w with locks := Function.update w.locks path (some p) }

def serveRun : World.Command → String × World
  | .setProperty slice args => ("", { w with
      slices := Function.update w.slices slice ((w.slices slice).assignAll args)
      source := Function.update w.source slice (some (w.draft p))
      last := Function.update w.last slice (some .set) })
  | .revert slice => ("", { w with
      slices := Function.update w.slices slice SliceProps.fresh
      source := Function.update w.source slice none
      last := Function.update w.last slice (some .revert) })
  | .start unit => ("", { w with units := Function.update w.units unit true })
  | .stop unit => ("", { w with units := Function.update w.units unit false })
  | .kill unit => ("", { w with units := Function.update w.units unit false })
  | .showUser => ("Linger=no", w)

def serve : (o : Op) → Option (Res o × World)
  | .time => some (0, w)
  | .sleep _ => some ((), w)
  | .getpid => some (p.n, w)
  | .makedirs _ _ => some (.ok (), w)
  | .stat _ => some (.ok 0o700, w)
  | .lstat path =>
    some (if w.files path = .absent then .error .ENOENT else .ok (w.files path), w)
  | .openFile path flags _ => some (serveOpen w path flags)
  | .close fd => some (.ok (), w.unlock p fd.path)
  | .flock fd .LOCK_UN => some (.ok (), w.unlock p fd.path)
  | .flock fd .LOCK_EX => if w.locks fd.path = none then some (.ok (), serveLock p w fd.path) else none
  | .flock fd .LOCK_EX_NB =>
    some (if w.locks fd.path = none then (.ok (), serveLock p w fd.path)
      else (.error .EWOULDBLOCK, w))
  | .unlink path =>
    some (if w.files path = .absent then (.error .ENOENT, w)
      else (.ok (), { w with files := Function.update w.files path .absent }))
  | .pathExists path => some ((w.cgroup path).isSome, w)
  | .walk _ => none
  | .readLines path =>
    match w.cgroup path with
    | some (.procs lines) => some (.ok lines, w)
    | _ => some (.error .ENOENT, w)
  | .run argv _ => (World.decode argv).map fun cmd => (.ok (serveRun p w cmd).1, (serveRun p w cmd).2)
  | .fluxOpen _ => some (.ok (), w)
  | .getRank => some (.ok K.rank, w)
  | .attrGet name => some (.ok (K.attrs name), w)
  | .confGet key => some (.ok (K.conf.dotted key), w)
  | .jobList user rank =>
    if user = numeral p.uid ∧ rank = numeral K.rank then
      some (.ok (V.jobs.filter (w.running p.uid)), w)
    else none
  | .kvsLookupR ids => some (.ok (ids.map fun j => (j, K.R j), []),
      { w with draft := Function.update w.draft p ⟨ids, none⟩ })
  | .mapperLookup R => some (.ok (some (V.props R)),
      { w with draft := Function.update w.draft p { w.draft p with props := some (V.props R) } })
  | .configGet none => some (.ok K.conf, w)
  | .configGet (some _) => some (.error Errno.EIO, w)
  | .jobListRpc _ _ _ => some (.error Errno.EIO, w)
  | .pamGetUser => some (.ok (some "user"), w)
  | .pamGetService => some (some "sshd", w)
  | .pamGetConv => some (false, w)
  | .pamConverse _ => some ((), w)
  | .pamSetData _ => some (true, w)
  | .pamGetData _ => some (true, w)
  | .pamPutenv _ => some (true, w)
  | .getpwnam _ => if p.uid < 2 ^ 32 then some (some (BitVec.ofNat 32 p.uid), w) else none
  | .busOpenSystem => some (true, w)
  | .busNewMethodCall _ => some (true, w)
  | .busAppend _ => some (true, w)
  | .busCall _ args => (ScopeJob.ofMessage args).map fun job => (true,
      { w with queue := w.queue ++ [job], request := Function.update w.request p (some job) })
  | .stuck => none

/-- Every running job is among the server's, and these are the live prologs. -/
def fits (prologs : Pid → Option ℕ) (w : World) : Prop :=
  (∀ u j, w.running u j = true → j ∈ V.jobs) ∧ w.prologOf = prologs

variable {V p w} {w' : World} {prologs : Pid → Option ℕ}

theorem serveOpen_effect {path : String} {flags : List OpenFlag} {mode rank : ℕ} :
    w.effect p rank (.openFile path flags mode) (serveOpen w path flags).1
      (serveOpen w path flags).2 := by
  unfold serveOpen
  split_ifs with h₁ h₂ h₃
  · rfl
  · rfl
  · rfl
  · refine ⟨fun ha => ?_, fun hs hf => h₂ ⟨hs, hf⟩, h₃, rfl⟩
    by_contra hn
    exact h₁ ⟨ha, hn⟩

theorem unitChange_units (unit : String) (b : Bool) :
    w.unitChange unit { w with units := Function.update w.units unit b } :=
  ⟨b, w.cgroup, rfl, fun _ _ => rfl⟩

theorem serveRun_command (cmd : World.Command) :
    w.command p true (serveRun p w cmd).2 (some cmd) := by
  cases cmd with
  | setProperty slice args => rfl
  | revert slice => rfl
  | start unit => exact unitChange_units unit true
  | stop unit => exact unitChange_units unit false
  | kill unit => exact unitChange_units unit false
  | showUser => rfl

/-- **The answers are the node's.** -/
theorem serve_exec {o : Op} {r : Res o} (hf : V.fits prologs w) (h : V.serve p w o = some (r, w')) :
    K.exec p w o r w' := by
  cases o with
  | stuck => cases h
  | walk top => cases h
  | lstat path =>
    cases h
    refine ⟨trivial, fun kind hk => ?_, rfl⟩
    split at hk
    · cases hk
    · cases hk; rfl
  | openFile path flags mode =>
    obtain ⟨rfl, rfl⟩ := Prod.ext_iff.mp (Option.some.inj h)
    refine ⟨fun fd hfd => ?_, serveOpen_effect⟩
    unfold serveOpen at hfd
    split_ifs at hfd
    cases hfd
    rfl
  | flock fd operation =>
    cases operation with
    | LOCK_UN =>
      cases h
      exact ⟨trivial, rfl⟩
    | LOCK_EX =>
      obtain ⟨hl, hr⟩ := Option.ite_none_right_eq_some.mp h
      cases hr
      exact ⟨trivial, hl, rfl⟩
    | LOCK_EX_NB =>
      simp only [serve, Option.some.injEq] at h
      split at h
      · cases h
        exact ⟨trivial, ‹_›, rfl⟩
      · cases h
        exact ⟨trivial, rfl⟩
  | unlink path =>
    simp only [serve, Option.some.injEq] at h
    split at h
    · cases h
      exact ⟨trivial, fun _ => ‹_›, rfl⟩
    · cases h
      exact ⟨trivial, rfl⟩
  | pathExists path =>
    cases h
    exact ⟨trivial, Iff.rfl, rfl⟩
  | readLines path =>
    simp only [serve] at h
    split at h
    · rename_i lines hc
      cases h
      exact ⟨trivial, fun lines' hl => (by cases hl; exact hc), rfl⟩
    · cases h
      exact ⟨trivial, fun lines' hl => (by cases hl), rfl⟩
  | run argv timeout =>
    obtain ⟨cmd, hd, heq⟩ := Option.map_eq_some_iff.mp h
    cases heq
    exact ⟨trivial, true, fun _ _ => rfl, by rw [hd]; exact serveRun_command cmd⟩
  | attrGet name =>
    cases h
    exact ⟨fun s hs => by cases hs; rfl, rfl⟩
  | confGet key =>
    cases h
    exact ⟨fun v hv => by cases hv; rfl, rfl⟩
  | jobList user rank =>
    obtain ⟨⟨rfl, -⟩, hr⟩ := Option.ite_none_right_eq_some.mp h
    cases hr
    refine ⟨trivial, fun ids hids _ u hu j => ?_, rfl⟩
    cases hids
    rw [← numeral_inj hu, List.mem_filter]
    exact ⟨And.right, fun hj => ⟨hf.1 _ j hj, hj⟩⟩
  | kvsLookupR ids =>
    cases h
    exact ⟨fun results hres => by cases hres; rfl, rfl⟩
  | mapperLookup R =>
    cases h
    exact ⟨fun props hp => by cases hp; exact V.maps R, rfl⟩
  | configGet uri =>
    cases uri with
    | none =>
      cases h
      exact ⟨fun _ v hv => by cases hv; rfl, rfl⟩
    | some uri =>
      cases h
      exact ⟨fun h => (by cases h), rfl⟩
  | getpwnam user =>
    obtain ⟨hlt, hr⟩ := Option.ite_none_right_eq_some.mp h
    cases hr
    refine ⟨fun u hu => ?_, rfl⟩
    cases hu
    rw [BitVec.toNat_ofNat, Nat.mod_eq_of_lt hlt]
  | busCall member args =>
    obtain ⟨job, hj, heq⟩ := Option.map_eq_some_iff.mp h
    cases heq
    have hmsg := ScopeJob.message_ofMessage hj
    refine ⟨trivial, [job], ?_, le_rfl, fun _ job' hj' => ?_, rfl⟩
    · rintro job' hj'
      rw [List.mem_singleton.mp hj', hmsg]
    · rw [message_inj (hmsg.trans hj')]
  | getpid => cases h; exact ⟨rfl, rfl⟩
  | _ => cases h; exact ⟨trivial, rfl⟩

theorem serveRun_keeps (cmd : World.Command) : (serveRun p w cmd).2.running = w.running ∧
    (serveRun p w cmd).2.prologOf = w.prologOf := by
  cases cmd <;> exact ⟨rfl, rfl⟩

theorem serve_keeps {o : Op} {r : Res o} (h : V.serve p w o = some (r, w')) :
    w'.running = w.running ∧ w'.prologOf = w.prologOf := by
  cases o with
  | openFile path flags mode =>
    obtain ⟨-, rfl⟩ := Prod.ext_iff.mp (Option.some.inj h)
    unfold serveOpen
    split_ifs <;> exact ⟨rfl, rfl⟩
  | flock fd operation =>
    cases operation with
    | LOCK_UN => cases h; exact ⟨rfl, rfl⟩
    | LOCK_EX =>
      obtain ⟨-, hr⟩ := Option.ite_none_right_eq_some.mp h
      cases hr
      exact ⟨rfl, rfl⟩
    | LOCK_EX_NB =>
      simp only [serve, Option.some.injEq] at h
      split at h <;> cases h <;> exact ⟨rfl, rfl⟩
  | unlink path =>
    simp only [serve, Option.some.injEq] at h
    split at h <;> cases h <;> exact ⟨rfl, rfl⟩
  | readLines path =>
    simp only [serve] at h
    split at h <;> cases h <;> exact ⟨rfl, rfl⟩
  | run argv timeout =>
    obtain ⟨cmd, -, heq⟩ := Option.map_eq_some_iff.mp h
    cases heq
    exact serveRun_keeps cmd
  | jobList user rank =>
    obtain ⟨-, hr⟩ := Option.ite_none_right_eq_some.mp h
    cases hr
    exact ⟨rfl, rfl⟩
  | configGet uri => cases uri <;> cases h <;> exact ⟨rfl, rfl⟩
  | getpwnam user =>
    obtain ⟨-, hr⟩ := Option.ite_none_right_eq_some.mp h
    cases hr
    exact ⟨rfl, rfl⟩
  | busCall member args =>
    obtain ⟨job, -, heq⟩ := Option.map_eq_some_iff.mp h
    cases heq
    exact ⟨rfl, rfl⟩
  | stuck => cases h
  | walk top => cases h
  | _ => cases h; exact ⟨rfl, rfl⟩

theorem serves (V : Server K) (p : Pid) (prologs : Pid → Option ℕ) :
    Serves (V.serve p) (K.exec p) (V.fits prologs) where
  sound _ _ _ _ hf h := serve_exec hf h
  keeps _ _ _ _ hf h := by
    obtain ⟨hr, hp⟩ := serve_keeps h
    exact ⟨by rw [hr]; exact hf.1, hp.trans hf.2⟩

/-! ### Scenarios -/

/-- A script or a session that runs alone, or a step of the world. -/
inductive Scene where
  | task (p : Pid) (t : Task)
  | act (a : Act)

/-- Start a process, if every promise allows it. -/
def start (K : Setting) (p : Pid) (w : World) : Task → Option World
  | .prolog j _ => if w.running p.uid j = true ∧ w.begun p.uid j = false then
      some { w.begin p with prologOf := Function.update w.prologOf p (some j) }
    else none
  | .housekeeping j _ => if w.ended p.uid j = true then
      some { w.begin p with begun := setAt w.begun p.uid j true }
    else none
  | .session argv =>
    if (parseOptions sessionDefaults argv).all (·.lockDir = K.lockDir) then some (w.begin p) else none

def finish (p : Pid) (a : Exit) (w : World) : Task → World
  | .prolog j _ => { w.unlockAll p with
      prologOf := Function.update w.prologOf p none
      prologOk := if a = .status 0 then setAt w.prologOk p.uid j true else w.prologOk }
  | .housekeeping j _ => { w.unlockAll p with
      hkOk := if a = .status 0 then setAt w.hkOk p.uid j true else w.hkOk }
  | .session _ => w

/-- A report, the end of a job, or a scope job that is run. -/
def act (V : Server K) (w : World) : Act → Option World
  | .report u j => if w.ended u j = false ∧ j ∈ V.jobs then
      some { w with running := setAt w.running u j true, reported := setAt w.reported u j true }
    else none
  | .endJob u j => some { w with
      running := setAt w.running u j false, ended := setAt w.ended u j true }
  | .attach u job => if job ∈ w.queue ∧ job.slice = sliceName u then
      some { w with queue := w.queue.erase job, attached := w.attached ++ [job] }
    else none
  | .unreport _ _ => none
  | .unit _ _ => none

/-- Start a process and let it perform up to `n` operations. -/
def launch (V : Server K) (n : ℕ) (p : Pid) (t : Task) (w : World) :
    Option (List Event × Cmd Exit × World) :=
  (start K p w t).bind ((K.program p t).advance (V.serve p) n)

def scene (V : Server K) (w : World) : Scene → Option (List NodeLabel × World)
  | .task p t =>
    match V.launch 1000 p t w with
    | some (tr, .pure a, w') => some (.start p t :: (tr.map fun e => .op p t e.1 e.2) ++ [.finish p t a],
        finish p a w' t)
    | _ => none
  | .act a => (act V w a).map fun w' => ([.world a], w')

/-- What happens in a scenario, and the state it ends in. -/
def play (V : Server K) : List Scene → World → Option (List NodeLabel × World)
  | [], w => some ([], w)
  | s :: scenes, w => (V.scene w s).bind fun x =>
      (play V scenes x.2).map fun y => (x.1 ++ y.1, y.2)

variable {C : Contract} {t : Task} {procs : Pid → Option (Task × Cmd Exit)}

theorem start_start (hw : (∃ argv, t = .session argv) ∨ w.prologOf = fun _ => none)
    (h : start K p w t = some w') : World.start K C p w w' t := by
  cases t with
  | prolog j fuel =>
    obtain ⟨⟨hr, hb⟩, heq⟩ := Option.ite_none_right_eq_some.mp h
    cases heq
    exact ⟨fun _ => hr, fun _ => hb, rfl⟩
  | housekeeping j fuel =>
    obtain ⟨he, heq⟩ := Option.ite_none_right_eq_some.mp h
    cases heq
    have hnone : w.prologOf = fun _ => none := hw.resolve_left fun ⟨_, h⟩ => by cases h
    exact ⟨fun _ => he, fun _ n => (by rw [hnone]; exact fun h => by cases h), rfl⟩
  | session argv =>
    obtain ⟨hd, heq⟩ := Option.ite_none_right_eq_some.mp h
    cases heq
    refine ⟨fun opts ho => ?_, rfl⟩
    rw [ho] at hd
    simpa using hd

theorem start_fits (hf : V.fits prologs w) (h : start K p w t = some w') :
    V.fits w'.prologOf w' := by
  refine ⟨?_, rfl⟩
  cases t with
  | prolog j fuel =>
    obtain ⟨-, heq⟩ := Option.ite_none_right_eq_some.mp h
    cases heq
    exact hf.1
  | housekeeping j fuel =>
    obtain ⟨-, heq⟩ := Option.ite_none_right_eq_some.mp h
    cases heq
    exact hf.1
  | session argv =>
    obtain ⟨-, heq⟩ := Option.ite_none_right_eq_some.mp h
    cases heq
    exact hf.1

theorem finish_finish (a : Exit) : World.finish p a w (finish p a w t) t := by
  cases t <;> rfl

/-- Only the process's own prolog is listed while it runs, and none afterwards. -/
theorem finish_fits {w₁ w₂ : World} (hw : w.prologOf = fun _ => none)
    (h : start K p w t = some w₁) (hf : V.fits w₁.prologOf w₂) (a : Exit) :
    V.fits (fun _ => none) (finish p a w₂ t) := by
  cases t with
  | prolog j fuel =>
    obtain ⟨-, heq⟩ := Option.ite_none_right_eq_some.mp h
    cases heq
    refine ⟨hf.1, ?_⟩
    change Function.update w₂.prologOf p none = _
    rw [hf.2]
    change Function.update (Function.update w.prologOf p (some j)) p none = _
    rw [hw, Function.update_idem]
    exact Function.update_eq_self p (fun _ => none)
  | housekeeping j fuel =>
    obtain ⟨-, heq⟩ := Option.ite_none_right_eq_some.mp h
    cases heq
    exact ⟨hf.1, hf.2.trans hw⟩
  | session argv =>
    obtain ⟨-, heq⟩ := Option.ite_none_right_eq_some.mp h
    cases heq
    exact ⟨hf.1, hf.2.trans hw⟩

/-- A process that is started and advances. -/
theorem launch_run {n : ℕ} {y : Cmd Exit} {tr : List Event} (hf : V.fits prologs w)
    (hw : (∃ argv, t = .session argv) ∨ w.prologOf = fun _ => none) (hp : procs p = none)
    (h : V.launch n p t w = some (tr, y, w')) :
    (node K C).Run ⟨w, procs⟩ (.start p t :: tr.map fun e => .op p t e.1 e.2)
      ⟨w', Function.update procs p (some (t, y))⟩ ∧ V.fits w'.prologOf w' := by
  obtain ⟨w₁, hs, hadv⟩ := Option.bind_eq_some_iff.mp h
  have hfits := start_fits hf hs
  have hrun : (node K C).Run ⟨w₁, Function.update procs p (some (t, K.program p t))⟩ _ _ :=
    (V.serves p w₁.prologOf).advance hfits (Function.update_self ..) hadv
  rw [Function.update_idem] at hrun
  exact ⟨.cons (.start hp (start_start hw hs)) hrun,
    ((V.serves p w₁.prologOf).keeps_advance hfits hadv).1, rfl⟩

theorem act_act {a : Act} (h : V.act w a = some w') : World.act C w w' a := by
  cases a with
  | report u j =>
    obtain ⟨⟨he, -⟩, heq⟩ := Option.ite_none_right_eq_some.mp h
    cases heq
    exact ⟨he, rfl⟩
  | endJob u j =>
    cases h
    rfl
  | attach u job =>
    obtain ⟨⟨hj, hs⟩, heq⟩ := Option.ite_none_right_eq_some.mp h
    cases heq
    exact ⟨hj, hs, w.cgroup, rfl, fun _ _ => rfl⟩
  | unreport u j => cases h
  | unit u name => cases h

theorem setAt_apply {α : Type} {f : ℕ → ℕ → α} {u j v i : ℕ} {a : α} :
    setAt f u j a v i = if v = u ∧ i = j then a else f v i := by
  by_cases hv : v = u
  · subst hv
    by_cases hi : i = j <;> simp [setAt, hi]
  · simp [setAt, hv]

theorem act_fits {a : Act} (hf : V.fits prologs w) (h : V.act w a = some w') :
    V.fits prologs w' := by
  cases a with
  | report u j =>
    obtain ⟨⟨-, hj⟩, heq⟩ := Option.ite_none_right_eq_some.mp h
    cases heq
    refine ⟨fun v i hr => ?_, hf.2⟩
    replace hr : setAt w.running u j true v i = true := hr
    rw [setAt_apply] at hr
    split at hr
    · rw [(‹v = u ∧ i = j›).2]
      exact hj
    · exact hf.1 v i hr
  | endJob u j =>
    cases h
    refine ⟨fun v i hr => ?_, hf.2⟩
    replace hr : setAt w.running u j false v i = true := hr
    rw [setAt_apply] at hr
    split at hr
    · cases hr
    · exact hf.1 v i hr
  | attach u job =>
    obtain ⟨-, heq⟩ := Option.ite_none_right_eq_some.mp h
    cases heq
    exact hf
  | unreport u j => cases h
  | unit u name => cases h

theorem scene_run {s : Scene} {ls} (hf : V.fits (fun _ => none) w) (hp : ∀ p, procs p = none)
    (h : V.scene w s = some (ls, w')) :
    (node K C).Run ⟨w, procs⟩ ls ⟨w', procs⟩ ∧ V.fits (fun _ => none) w' := by
  cases s with
  | act a =>
    obtain ⟨w₁, ha, heq⟩ := Option.map_eq_some_iff.mp h
    cases heq
    exact ⟨.single (.world (act_act ha)), act_fits hf ha⟩
  | task p t =>
    simp only [scene] at h
    split at h
    · rename_i tr a w₂ hl
      cases h
      have hrun := (launch_run (C := C) hf (.inr hf.2) (hp p) hl).1
      obtain ⟨w₀, hs, hadv⟩ := Option.bind_eq_some_iff.mp hl
      have hf₂ := (V.serves p w₀.prologOf).keeps_advance (start_fits hf hs) hadv
      have hfin := hrun.snoc (.finish (Function.update_self ..) (finish_finish (w := w₂) a))
      rw [Function.update_idem, ← hp p, Function.update_eq_self] at hfin
      exact ⟨hfin, finish_fits hf.2 hs hf₂ a⟩
    · cases h

/-- **A scenario is a run.** -/
theorem play_run : ∀ {scenes : List Scene} {w w' : World} {ls}, V.fits (fun _ => none) w →
    (∀ p, procs p = none) → V.play scenes w = some (ls, w') →
      (node K C).Run ⟨w, procs⟩ ls ⟨w', procs⟩ ∧ V.fits (fun _ => none) w'
  | [], _, _, _, hf, _, h => by
    cases h
    exact ⟨.nil, hf⟩
  | s :: scenes, w, w', ls, hf, hp, h => by
    obtain ⟨⟨ls₁, w₁⟩, hs, hrest⟩ := Option.bind_eq_some_iff.mp h
    obtain ⟨⟨ls₂, w₂⟩, hplay, heq⟩ := Option.map_eq_some_iff.mp hrest
    cases heq
    obtain ⟨hr, hf₁⟩ := scene_run (C := C) hf hp hs
    obtain ⟨hr', hf'⟩ := play_run hf₁ hp hplay
    exact ⟨hr.append hr', hf'⟩

end Server

/-! ### A small node -/

/-- A node whose broker runs as user 100, with every option on: the job `j` runs
on the core `j`, and the mapper allows a resource set's cores. -/
def Setting.small : Setting where
  X := .single
  paths := ⟨"/bin/systemctl", "/bin/loginctl"⟩
  lockDirVar := none
  libsystemd := true
  rank := 0
  conf := .obj [
    ("pam", .obj [("manage-user-slice", .bool true), ("kill-user-slice", .bool true)]),
    ("exec", .obj [("sdexec-constrain-resources", .bool true)])]
  attrs name := if name = "security.owner" then "100" else "0"
  jobText := numeral
  R := numeral
  maps R props := props.entries = [("AllowedCPUs", R)]
  rank_attr := by decide
  jobID_text j := by simp [Externals.single, decimal_numeral]

/-- Two jobs may run on it. -/
def Server.small : Server Setting.small where
  jobs := [1, 2]
  props R := ⟨[("AllowedCPUs", R)], by simp⟩
  maps _ := rfl

/-- Nothing runs, and there is no file and no cgroup of a user. -/
def World.empty : World where
  files _ := .absent
  locks _ := none
  slices _ := .fresh
  units _ := false
  cgroup _ := none
  queue := []
  attached := []
  running _ _ := false
  ended _ _ := false
  prologOf _ := none
  draft _ := ⟨[], none⟩
  request _ := none
  source _ := none
  last _ := none
  reported _ _ := false
  begun _ _ := false
  prologOk _ _ := false
  hkOk _ _ := false

theorem World.empty_initial : World.empty.initial :=
  ⟨rfl, rfl, rfl, rfl, rfl, rfl, rfl, rfl, rfl, rfl, rfl, fun _ _ h => by cases h⟩

/-- Everything Flux promises. -/
def Contract.strict : Contract := ⟨True, True, True, True⟩

namespace Server

/-- The small node before anything runs. -/
def idle : Config Pid Op Res Task Exit World := ⟨.empty, fun _ => none⟩

theorem small_fits : small.fits (fun _ => none) World.empty := ⟨fun _ _ h => (by cases h), rfl⟩

/-- A scenario's run on the small node, from which `f` is seen. -/
theorem small_play {α : Type} (scenes : List Scene) (f : List NodeLabel → World → α) {a : α}
    (h : (small.play scenes .empty).map (fun x => f x.1 x.2) = some a) :
    ∃ ls w, (node .small .strict).Run idle ls ⟨w, fun _ => none⟩ ∧ f ls w = a := by
  obtain ⟨⟨ls, w⟩, hw, hf⟩ := Option.map_eq_some_iff.mp h
  exact ⟨ls, w, (play_run small_fits (fun _ => rfl) hw).1, hf⟩

/-- A scenario after which a process is started and performs `n` operations. -/
theorem small_launch {α : Type} (scenes : List Scene) (n : ℕ) (p : Pid) (t : Task)
    (f : List NodeLabel → Cmd Exit → World → α) {a : α}
    (h : ((small.play scenes .empty).bind fun x => (small.launch n p t x.2).map fun y =>
      f (x.1 ++ .start p t :: y.1.map fun e => .op p t e.1 e.2) y.2.1 y.2.2) = some a) :
    ∃ ls y w, (node .small .strict).Run idle ls
      ⟨w, Function.update (fun _ => none) p (some (t, y))⟩ ∧ f ls y w = a := by
  obtain ⟨⟨ls, w₀⟩, hw, hl⟩ := Option.bind_eq_some_iff.mp h
  obtain ⟨⟨tr, y, w⟩, hl, ha⟩ := Option.map_eq_some_iff.mp hl
  obtain ⟨hr, hf⟩ : (node .small .strict).Run idle ls ⟨w₀, fun _ => none⟩ ∧
      small.fits (fun _ => none) w₀ := play_run small_fits (fun _ => rfl) hw
  exact ⟨_, y, w, hr.append (launch_run hf (.inr hf.2) rfl hl).1, ha⟩

/-- A scenario after which a process is started and performs `n` operations, then a
session performs `m`, then the process `k` more. -/
theorem small_meet {α : Type} (scenes : List Scene) (n m k : ℕ) {p q : Pid} (t : Task)
    (argv : List String) (hq : q ≠ p) (f : List NodeLabel → Cmd Exit → World → α) {a : α}
    (h : ((small.play scenes .empty).bind fun x => (small.launch n p t x.2).bind fun y =>
      (small.launch m q (.session argv) y.2.2).bind fun z =>
        (y.2.1.advance (small.serve p) k z.2.2).map fun v =>
          f (x.1 ++ (.start p t :: y.1.map fun e => .op p t e.1 e.2) ++
            (.start q (.session argv) :: z.1.map fun e => .op q (.session argv) e.1 e.2) ++
              v.1.map fun e => .op p t e.1 e.2) z.2.1 v.2.2) = some a) :
    ∃ ls z c, (node .small .strict).Run idle ls c ∧ c.procs q = some (.session argv, z) ∧
      f ls z c.world = a := by
  obtain ⟨⟨ls, w₀⟩, hw, hl⟩ := Option.bind_eq_some_iff.mp h
  obtain ⟨⟨tr₁, y, w₁⟩, hl₁, hl⟩ := Option.bind_eq_some_iff.mp hl
  obtain ⟨⟨tr₂, z, w₂⟩, hl₂, hl⟩ := Option.bind_eq_some_iff.mp hl
  obtain ⟨⟨tr₃, v, w₃⟩, hl₃, ha⟩ := Option.map_eq_some_iff.mp hl
  obtain ⟨hr, hf⟩ : (node .small .strict).Run idle ls ⟨w₀, fun _ => none⟩ ∧
      small.fits (fun _ => none) w₀ := play_run small_fits (fun _ => rfl) hw
  obtain ⟨hr₁, hf₁⟩ : (node .small .strict).Run ⟨w₀, fun _ => none⟩ _ _ ∧ _ :=
    launch_run hf (.inr hf.2) rfl hl₁
  have hidle : Function.update (fun _ => none) p (some (t, y)) q = none := Function.update_of_ne hq _ _
  obtain ⟨hr₂, hf₂⟩ := launch_run (C := .strict) hf₁ (.inl ⟨argv, rfl⟩) hidle hl₂
  have hgoing : Function.update (Function.update (fun _ => none) p (some (t, y))) q
      (some (.session argv, z)) p = some (t, y) :=
    (Function.update_of_ne hq.symm _ _).trans (Function.update_self ..)
  have hr₃ := (small.serves p w₂.prologOf).advance (S := node .small .strict) hf₂ hgoing hl₃
  exact ⟨_, z, _, ((hr.append hr₁).append hr₂).append hr₃,
    (Function.update_of_ne hq _ _).trans (Function.update_self ..), ha⟩

theorem idle_reached {ls} {c : Config Pid Op Res Task Exit World}
    (h : (node .small .strict).Run idle ls c) : Reached .small .strict idle c :=
  ⟨World.empty_initial, fun _ => rfl, ls, h⟩

end Server

end FluxPam
