/-
# Critical sections

What the processes of a user share, they look at and change with the user lock
held (`shares_held`), and no process takes the lock twice. So between two such
steps of one process no other process of the user makes one, and what the one
saw of the marker and the slice is still so when it acts
(`sections_uninterrupted`): the sections of different processes follow one
another, in the order in which the lock was taken.
-/
import FluxPam.Units

namespace FluxPam

open Interaction Monitor

/-- Looks at or changes what the processes of the user share: the marker, the jobs
listed, the slice, the units, the scopes asked for. -/
def shares (K : Setting) (u : ℕ) : Op → Prop
  | .lstat _ | .unlink _ | .jobList _ _ | .busCall _ _ => True
  | .openFile path _ _ => path = markerPath K.lockDir u
  | .run argv _ => World.decode argv ≠ some .showUser
  | _ => False

/-- The marker and the slice of the user. -/
def World.shown (K : Setting) (u : ℕ) (w : World) : FileKind × SliceProps :=
  (w.files (markerPath K.lockDir u), w.slices (sliceName u))

variable {K : Setting} {C : Contract} {p : Pid} {t : Task} {φ : Phase} {w w' : World}

/-! ### The lock -/

theorem shares_held {o : Op} (ho : shares K p.uid o) (ha : (orderly K p t).allowed φ o) :
    φ.hold = .held := by
  obtain ⟨ha, hord⟩ := ha
  cases o with
  | lstat path => exact ha.2
  | unlink path => exact ha.2.1
  | jobList user rank => exact ha.2.2.1
  | busCall member args => exact ha.1
  | openFile path flags mode =>
    obtain rfl : path = _ := ho
    rcases ha with hlock | hmarker
    · exact absurd hlock.symm (lockPath_ne_markerPath _ _ _ _)
    · exact hmarker.2.1
  | run argv timeout =>
    obtain ⟨-, hord⟩ := hord
    change φ.allowedCommand K p t (World.decode argv) at ha
    change World.decode argv ≠ some .showUser at ho
    cases hd : World.decode argv with
    | none =>
      rw [hd] at ha
      exact ha.elim
    | some command =>
      rw [hd] at ha ho hord
      cases command with
      | setProperty slice args => exact ha.2.1
      | revert slice => exact ha.2.1
      | start unit => exact hord.1
      | stop unit => exact hord.1
      | kill unit => exact hord.1
      | showUser => exact absurd rfl ho
  | _ => exact ho.elim

/-- Only `flock` and `close` take the lock or give it up. -/
theorem hold_kept {o : Op} {r : Res o} (hclose : ∀ fd, o ≠ .close fd)
    (hflock : ∀ fd operation, o ≠ .flock fd operation) : (φ.next K p t o r).hold = φ.hold := by
  cases o with
  | close fd => exact absurd rfl (hclose fd)
  | flock fd operation => exact absurd rfl (hflock fd operation)
  | lstat path => cases r <;> rfl
  | openFile path flags mode => cases r <;> rfl
  | jobList user rank => cases r <;> rfl
  | kvsLookupR ids => cases r <;> rfl
  | mapperLookup R =>
    rcases r with e | _ | props
    · rfl
    · rfl
    · rfl
  | unlink path =>
    rcases r with e | ⟨⟩
    · change (if e = .ENOENT then φ.clear else φ).hold = φ.hold
      split <;> rfl
    · rfl
  | run argv timeout =>
    change (φ.nextCommand r.isOk (World.decode argv)).hold = φ.hold
    cases World.decode argv with
    | none => rfl
    | some command => cases command <;> rfl
  | _ => rfl

/-- A lock that was given up is not taken again. -/
theorem hold_next {o : Op} {r : Res o} (ha : φ.allowed K p t o) (hb : φ.hold ≠ .before) :
    (φ.next K p t o r).hold ≠ .before ∧ ((φ.next K p t o r).hold = .held → φ.hold = .held) := by
  have hrelease : φ.release.hold ≠ .before ∧ (φ.release.hold = .held → φ.hold = .held) :=
    ⟨fun h => hb (before_of_release h), fun h => absurd h release_held⟩
  have hkept : ∀ ψ : Phase, ψ.hold = φ.hold → ψ.hold ≠ .before ∧ (ψ.hold = .held → φ.hold = .held) :=
    fun ψ h => ⟨h ▸ hb, fun hh => h ▸ hh⟩
  cases o with
  | close fd =>
    change (if fd.path = lockPath K.lockDir p.uid then φ.release else φ).hold ≠ .before ∧
      ((if fd.path = lockPath K.lockDir p.uid then φ.release else φ).hold = .held → φ.hold = .held)
    split
    · exact hrelease
    · exact hkept φ rfl
  | flock fd operation =>
    cases operation with
    | LOCK_EX => exact absurd ha.2 hb
    | LOCK_EX_NB => exact absurd ha.2 hb
    | LOCK_UN =>
      rcases r with e | ⟨⟩
      · exact hkept _ rfl
      · exact hrelease
  | _ => exact hkept _ (hold_kept (by simp) (by simp))

/-! ### The marker and the slice -/

/-- What is not shared leaves the user's marker and slice alone. -/
theorem shown_effect {u : ℕ} {o : Op} {r : Res o} (ha : φ.allowed K p t o)
    (ho : p.uid = u → ¬ shares K u o) (he : w.effect p K.rank o r w') : w'.shown K u = w.shown K u := by
  by_cases hu : p.uid = u
  swap
  · have hview := frame_effect hu (allowed_touches ha) he
    exact congrArg (fun v : View => (v.marker, v.slice)) hview
  have hunshared := ho hu
  subst hu
  cases o with
  | openFile path flags mode =>
    cases r with
    | error e => exact congrArg (World.shown K p.uid) he
    | ok fd =>
      obtain ⟨-, -, -, rfl⟩ := he
      have hne : markerPath K.lockDir p.uid ≠ path := fun h => hunshared h.symm
      simp only [World.shown, World.create, Function.update_of_ne hne]
  | close fd =>
    obtain rfl : w' = _ := he
    rfl
  | flock fd operation =>
    rcases r with e | ⟨⟩
    · cases operation <;> exact congrArg (World.shown K p.uid) he
    · cases operation with
      | LOCK_UN =>
        obtain rfl : w' = _ := he
        rfl
      | _ =>
        obtain ⟨-, rfl⟩ := he
        rfl
  | run argv timeout =>
    obtain ⟨took, -, hc⟩ := he
    rw [not_not.mp hunshared] at hc
    exact congrArg (World.shown K p.uid) hc
  | kvsLookupR ids =>
    cases r with
    | error e => exact congrArg (World.shown K p.uid) he
    | ok _ =>
      obtain rfl : w' = _ := he
      rfl
  | mapperLookup R =>
    rcases r with e | _ | props
    · exact congrArg (World.shown K p.uid) he
    · exact congrArg (World.shown K p.uid) he
    · obtain rfl : w' = _ := he
      rfl
  | lstat path => exact absurd trivial hunshared
  | unlink path => exact absurd trivial hunshared
  | jobList user rank => exact absurd trivial hunshared
  | busCall member args => exact absurd trivial hunshared
  | pathExists path => exact congrArg (World.shown K p.uid) he.2
  | walk top => exact congrArg (World.shown K p.uid) he.2
  | readLines path => exact congrArg (World.shown K p.uid) he.2
  | _ => exact congrArg (World.shown K p.uid) he

theorem shown_start (h : World.start K C p w w' t) (u : ℕ) : w'.shown K u = w.shown K u := by
  cases t with
  | prolog j fuel =>
    obtain ⟨-, -, rfl⟩ := h
    rfl
  | housekeeping j fuel =>
    obtain ⟨-, -, rfl⟩ := h
    rfl
  | session argv =>
    obtain ⟨-, rfl⟩ := h
    rfl

theorem shown_finish {a : Exit} (h : World.finish p a w w' t) (u : ℕ) : w'.shown K u = w.shown K u := by
  cases t <;> obtain rfl : w' = _ := h <;> rfl

theorem shown_act {a : Act} (h : World.act C w w' a) (u : ℕ) : w'.shown K u = w.shown K u := by
  cases a with
  | report v j =>
    obtain ⟨-, rfl⟩ := h
    rfl
  | unreport v j =>
    obtain ⟨-, rfl⟩ := h
    rfl
  | endJob v j =>
    obtain rfl : w' = _ := h
    rfl
  | attach v job =>
    obtain ⟨-, -, cgroup, rfl, -⟩ := h
    rfl
  | unit v name =>
    obtain ⟨-, active, cgroup, rfl, -⟩ := h
    rfl

/-! ### Steps of the watched node -/

/-- The node followed by monitors that hold commands to their order. -/
abbrev Followed (K : Setting) (C : Contract) :
    Watched Pid Task Phase World → NodeLabel → Watched Pid Task Phase World → Prop :=
  Watch.Step (node K C) ((watchAll K).restrict fun p _ => ordered K p)

variable {m m' : Watched Pid Task Phase World} {l : NodeLabel} {ls : List NodeLabel}

/-- The label is not a start of the process. -/
def goesOn (p : Pid) (l : NodeLabel) : Prop := ∀ t, l ≠ .start p t

/-- The process has taken the lock, or is gone. -/
def Entered (p : Pid) (m : Watched Pid Task Phase World) : Prop :=
  ∀ t φ, m.phases p = some (t, φ) → φ.hold ≠ .before

/-- The process has the lock. -/
def Inside (p : Pid) (m : Watched Pid Task Phase World) : Prop :=
  ∃ t φ, m.phases p = some (t, φ) ∧ φ.hold = .held

theorem Entered.step (hl : goesOn p l) (h : Entered p m) (hs : Followed K C m l m') : Entered p m' := by
  intro t φ' hp
  rcases hs.phase hl hp with hsame | ⟨φ, o, r, -, hφ, ha, rfl⟩
  · exact h _ _ hsame
  · exact (hold_next ha.1 (h _ _ hφ)).1

theorem Inside.of_step (hl : goesOn p l) (h : Entered p m) (hs : Followed K C m l m')
    (hin : Inside p m') : Inside p m := by
  obtain ⟨t, φ', hp, hh⟩ := hin
  rcases hs.phase hl hp with hsame | ⟨φ, o, r, -, hφ, ha, rfl⟩
  · exact ⟨t, φ', hsame, hh⟩
  · exact ⟨t, φ, hφ, (hold_next ha.1 (h _ _ hφ)).2 hh⟩

theorem Inside.entered (h : Inside p m) : Entered p m := by
  intro t φ hp hb
  obtain ⟨t', φ', hp', hh⟩ := h
  cases hp.symm.trans hp'
  cases hh.symm.trans hb

/-- Who makes a shared step has the lock. -/
theorem Inside.of_shares {o : Op} {r : Res o} (ho : shares K p.uid o)
    (hs : Followed K C m (.op p t o r) m') : Inside p m := by
  cases hs with
  | op hφ ha hr he => exact ⟨_, _, hφ, shares_held ho ha⟩

/-- No two processes have the lock. -/
theorem Inside.unique {q : Pid} (ho : Orderly p.uid (userState K p.uid m)) (hq : q.uid = p.uid)
    (hp : Inside p m) (hin : Inside q m) : q = p := by
  obtain ⟨u, n⟩ := p
  obtain ⟨v, k⟩ := q
  obtain rfl : v = u := hq
  obtain ⟨t, φ, hφ, hh⟩ := hp
  obtain ⟨t', φ', hφ', hh'⟩ := hin
  by_contra hne
  exact ho.alone (n := n) (m := k) hφ hh hφ' (fun h => hne (by rw [h])) hh'

/-- The locks are their owners', and the processes of the user stand to its control as
they should. -/
def Lawful (K : Setting) (u : ℕ) (m : Watched Pid Task Phase World) : Prop :=
  m.world.locksOwned K ∧ Orderly u (userState K u m)

theorem Lawful.step {u : ℕ} (h : Lawful K u m) (hs : Followed K C m l m') : Lawful K u m' :=
  ⟨locksOwned_step h.1 hs.of_restrict, h.2.move (step_move h.1 hs.of_restrict)⟩

/-- A step that is nobody's shared one. -/
def unshared (K : Setting) (u : ℕ) (l : NodeLabel) : Prop :=
  ∀ q t o, ∀ r : Res o, l = .op q t o r → q.uid = u → ¬ shares K u o

theorem shown_step {u : ℕ} (hl : unshared K u l) (hs : Followed K C m l m') :
    m'.world.shown K u = m.world.shown K u := by
  cases hs with
  | @op w w' phases q t φ o r hφ ha hr he => exact shown_effect ha.1 (hl q t o r rfl) he.2
  | start hp hw => exact shown_start hw u
  | finish hφ hpost hw => exact shown_finish hw u
  | kill hφ hw =>
    obtain rfl := hw
    rfl
  | world hw => exact shown_act hw u

/-! ### Every run -/

/-- **Sections are not interrupted.** In every run, between two shared steps of one
process no other process of the user makes a shared step; and unless the process
makes one itself, the user's marker and slice are at the second what they were after
the first. -/
theorem sections_uninterrupted {c₀ c₁ d₁ c₂ d₂ : Config Pid Op Res Task Exit World} {t t' : Task}
    {o o' : Op} {r : Res o} {r' : Res o'} (h : Reached K C c₀ c₁)
    (hfirst : (node K C).Step c₁ (.op p t o r) d₁) (hr : (node K C).Run d₁ ls c₂)
    (hsecond : (node K C).Step c₂ (.op p t' o' r') d₂) (hls : ∀ l ∈ ls, goesOn p l)
    (ho : shares K p.uid o) (ho' : shares K p.uid o') :
    (∀ q s x, ∀ a : Res x, .op q s x a ∈ ls → q.uid = p.uid → shares K p.uid x → q = p) ∧
      ((∀ s x, ∀ a : Res x, .op p s x a ∈ ls → ¬ shares K p.uid x) →
        c₂.world.shown K p.uid = d₁.world.shown K p.uid) := by
  have hsound := orderly_sound K C
  obtain ⟨ls₀, hr₀⟩ := h.run
  obtain ⟨m₁, hm₁, hf₁⟩ := Watch.follows_run hsound (Watch.Follows.of_none h.idle) hr₀
  have hlaw₁ : Lawful K p.uid m₁ := hm₁.invariant (I := Lawful K p.uid)
    (fun _ _ _ hi hs => hi.step hs) ⟨h.initial.locksOwned, Orderly.init⟩
  obtain ⟨n₁, hs₁, hg₁⟩ := hf₁.step hsound hfirst
  obtain ⟨m₂, hm₂, hf₂⟩ := Watch.follows_run hsound hg₁ hr
  obtain ⟨n₂, hs₂, -⟩ := hf₂.step hsound hsecond
  have hentered : Entered p n₁ := (Inside.of_shares ho hs₁).entered.step (fun _ h => by cases h) hs₁
  have hinside : Inside p m₂ := Inside.of_shares ho' hs₂
  -- the process has the lock all the time, so any other that makes a shared step is it
  have hown : ∀ q s x, ∀ a : Res x, .op q s x a ∈ ls → q.uid = p.uid → shares K p.uid x → q = p := by
    intro q s x a hmem hq hx
    obtain ⟨before, after, rfl⟩ := List.append_of_mem hmem
    obtain ⟨m₃, m₄, hbefore, hs, hafter⟩ := hm₂.split
    have hgoes : ∀ l ∈ before, goesOn p l := fun l hl => hls l (List.mem_append_left _ hl)
    have hgoes' : ∀ l ∈ after, goesOn p l := fun l hl =>
      hls l (List.mem_append_right _ (List.mem_cons_of_mem _ hl))
    have hop : goesOn p (.op q s x a) := fun _ h => by cases h
    have hentered₃ : Entered p m₃ :=
      hbefore.invariant_on (fun _ _ _ hl he hs => he.step hl hs) hgoes hentered
    have hinside₄ : Inside p m₄ := hafter.back (fun _ _ _ hl he hs => he.step hl hs)
      (fun _ _ _ hl he hs => Inside.of_step hl he hs) hgoes' (hentered₃.step hop hs) hinside
    have hlaw₃ : Lawful K p.uid m₃ := hbefore.invariant (fun _ _ _ hi hs => hi.step hs) (hlaw₁.step hs₁)
    exact Inside.unique hlaw₃.2 hq (hinside₄.of_step hop hentered₃ hs) (Inside.of_shares (hq ▸ hx) hs)
  refine ⟨hown, fun hquiet => ?_⟩
  have hunshared : ∀ l ∈ ls, unshared K p.uid l := by
    rintro _ hmem q s x a rfl hq hx
    obtain rfl := hown q s x a hmem hq hx
    exact hquiet s x a hmem hx
  rw [hf₂.1, hg₁.1]
  exact hm₂.invariant_on (I := fun m => m.world.shown K p.uid = n₁.world.shown K p.uid)
    (fun _ _ _ hl hi hs => (shown_step hl hs).trans hi) hunshared rfl

/-- The shared steps, computed. -/
def sharing (K : Setting) (u : ℕ) : Op → Bool
  | .lstat _ | .unlink _ | .jobList _ _ | .busCall _ _ => true
  | .openFile path _ _ => path = markerPath K.lockDir u
  | .run argv _ =>
    match World.decode argv with
    | some .showUser => false
    | _ => true
  | _ => false

theorem sharing_iff {u : ℕ} {o : Op} : sharing K u o = true ↔ shares K u o := by
  cases o with
  | run argv timeout =>
    change (match World.decode argv with
      | some .showUser => false
      | _ => true) = true ↔ World.decode argv ≠ some .showUser
    cases World.decode argv with
    | none => simp
    | some command => cases command <;> simp
  | _ => simp [sharing, shares]

/-- What is looked for in a run: the start of the prolog and its shared steps, and the
opening of a file by a session. -/
def milestone : NodeLabel → Option ℕ
  | .start p _ => if p = ⟨1000, 7⟩ then some 0 else none
  | .op p _ (.openFile path flags mode) _ =>
    if p = ⟨1000, 8⟩ then some 2
    else if p = ⟨1000, 7⟩ ∧ sharing .small 1000 (.openFile path flags mode) then some 1 else none
  | .op p _ o _ => if p = ⟨1000, 7⟩ ∧ sharing .small 1000 o then some 1 else none
  | _ => none

theorem goesOn_of_milestone (h : milestone l ≠ some 0) : goesOn ⟨1000, 7⟩ l := by
  rintro t rfl
  exact h rfl

theorem milestone_op {o : Op} {r : Res o} (ho : shares .small 1000 o) :
    milestone (.op ⟨1000, 7⟩ t o r) = some 1 := by
  have hsharing := sharing_iff.mpr ho
  cases o <;> simp [milestone, hsharing]

theorem shares_of_milestone (h : milestone l = some 1) :
    ∃ t o, ∃ r : Res o, l = .op ⟨1000, 7⟩ t o r ∧ shares .small 1000 o := by
  cases l with
  | op q t o r =>
    have hq : q = ⟨1000, 7⟩ ∧ sharing .small 1000 o = true := by
      cases o with
      | openFile path flags mode =>
        change (if _ then some 2 else _) = some 1 at h
        split at h
        · cases h
        · exact (Option.ite_none_right_eq_some.mp h).1
      | _ => exact (Option.ite_none_right_eq_some.mp h).1
    obtain ⟨rfl, ho⟩ := hq
    exact ⟨t, o, r, rfl, sharing_iff.mp ho⟩
  | start q t => simp [milestone] at h
  | _ => cases h

theorem opens_of_milestone (h : milestone l = some 2) : ∃ t path flags mode,
    ∃ r : Res (.openFile path flags mode), l = .op ⟨1000, 8⟩ t (.openFile path flags mode) r := by
  cases l with
  | op q t o r =>
    cases o with
    | openFile path flags mode =>
      obtain rfl : q = ⟨1000, 8⟩ := by
        by_contra hq
        simp [milestone, hq] at h
      exact ⟨t, path, flags, mode, r, rfl⟩
    | _ => simp [milestone] at h
  | start q t => simp [milestone] at h
  | _ => cases h

/-- The prolog of job 1, from the listing of the jobs to the update of the slice; a
session of the user opens the lock file in the meantime. -/
theorem sections_uninterrupted_small : ∃ (c₁ d₁ c₂ d₂ : Config Pid Op Res Task Exit World)
    (ls : List NodeLabel) (t t' : Task) (o o' : Op) (r : Res o) (r' : Res o'),
      shares .small 1000 o ∧ shares .small 1000 o' ∧
      (node .small .strict).Step c₁ (.op ⟨1000, 7⟩ t o r) d₁ ∧ (node .small .strict).Run d₁ ls c₂ ∧
      (node .small .strict).Step c₂ (.op ⟨1000, 7⟩ t' o' r') d₂ ∧
      (∃ s path flags mode, ∃ a : Res (.openFile path flags mode),
        .op ⟨1000, 8⟩ s (.openFile path flags mode) a ∈ ls) ∧
      (∀ q s x, ∀ a : Res x, .op q s x a ∈ ls → q.uid = 1000 → shares .small 1000 x → q = ⟨1000, 7⟩) ∧
      c₂.world.shown .small 1000 = d₁.world.shown .small 1000 := by
  obtain ⟨ls, -, c, hr, -, hf⟩ := Server.small_meet [.act (.report 1000 1)] 15 10 3 (p := ⟨1000, 7⟩)
    (q := ⟨1000, 8⟩) (.prolog 1 10) [] (by decide) (fun ls _ _ => ls.filterMap milestone)
    (a := [0, 1, 2, 1]) (by rfl)
  obtain ⟨ls₀, l₀, rest₀, rfl, -, -, hf⟩ := List.filterMap_eq_cons_iff.mp hf
  obtain ⟨ls₁, l₁, rest₁, rfl, -, hone, hf⟩ := List.filterMap_eq_cons_iff.mp hf
  obtain ⟨ls₂, l₂, rest₂, rfl, hnone, htwo, hf⟩ := List.filterMap_eq_cons_iff.mp hf
  obtain ⟨ls₃, l₃, rest₃, rfl, hnone', hthree, -⟩ := List.filterMap_eq_cons_iff.mp hf
  obtain ⟨t, o, r, rfl, ho⟩ := shares_of_milestone hone
  obtain ⟨s, path, flags, mode, a, rfl⟩ := opens_of_milestone htwo
  obtain ⟨t', o', r', rfl, ho'⟩ := shares_of_milestone hthree
  obtain ⟨e, e', hr₀, hs₀, hr⟩ := hr.split
  obtain ⟨c₁, d₁, hr₁, hs₁, hr⟩ := hr.split
  rw [← List.cons_append, ← List.append_assoc] at hr
  obtain ⟨c₂, d₂, hr₂, hs₂, -⟩ := hr.split
  have hreached := Server.idle_reached ((hr₀.snoc hs₀).append hr₁)
  have hbetween : ∀ l ∈ ls₂ ++ .op ⟨1000, 8⟩ s (.openFile path flags mode) a :: ls₃,
      milestone l = none ∨ milestone l = some 2 :=
    List.forall_mem_append.mpr ⟨fun l hl => .inl (hnone l hl),
      List.forall_mem_cons.mpr ⟨.inr htwo, fun l hl => .inl (hnone' l hl)⟩⟩
  have hgoes : ∀ l ∈ ls₂ ++ .op ⟨1000, 8⟩ s (.openFile path flags mode) a :: ls₃, goesOn ⟨1000, 7⟩ l :=
    fun l hl => goesOn_of_milestone (by rcases hbetween l hl with h | h <;> simp [h])
  obtain ⟨hown, hshown⟩ := sections_uninterrupted (p := ⟨1000, 7⟩) hreached hs₁ hr₂ hs₂ hgoes ho ho'
  have hquiet : ∀ s' x, ∀ b : Res x, .op ⟨1000, 7⟩ s' x b ∈
      ls₂ ++ .op ⟨1000, 8⟩ s (.openFile path flags mode) a :: ls₃ → ¬ shares .small 1000 x := by
    intro s' x b hl hx
    have hmile : milestone (.op ⟨1000, 7⟩ s' x b) = some 1 := milestone_op hx
    rcases hbetween _ hl with h | h <;> rw [hmile] at h <;> cases h
  exact ⟨c₁, d₁, c₂, d₂, _, t, t', o, o', r, r', ho, ho', hs₁, hr₂, hs₂,
    ⟨s, path, flags, mode, a, by simp⟩, hown, hshown hquiet⟩

end FluxPam
