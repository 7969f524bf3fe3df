/-
# Following a process by what it has done

A monitor keeps a state for one process, moved by its operations and their
answers, and says in each state which operations the process may perform next.
A program the monitor accepts (`Accepts`) performs no other, whatever it is
answered, and returns in its postcondition; this is proved along the program
text alone, one rule for each way programs are put together, and nothing the
other processes do matters to it.

What matters to them is the shared world. If the monitors accept every program
of a system, each of its steps is one of the watched system's (`Watch.Step`),
where a process is only the state of its monitor and may perform whatever that
allows (`follows_run`). So an invariant of all runs is proved of the watched
system, by cases on what a monitor allows.
-/
import FluxPam.Interaction.System

namespace Interaction

variable {P Op Tag Act σ Φ α β ε : Type} {Res : Op → Type}

/-- What a process may do next, what it may be answered, and how its state
moves. -/
structure Monitor (Op : Type) (Res : Op → Type) (Φ : Type) where
  allowed : Φ → Op → Prop
  answers : (o : Op) → Res o → Prop
  next : Φ → (o : Op) → Res o → Φ

namespace Monitor

variable (M : Monitor Op Res Φ)

/-- From the state `φ` the program performs only what the monitor allows and
returns in `Q`. -/
def Accepts (Q : α → Φ → Prop) : Φ → Prog Op Res α → Prop
  | φ, .pure a => Q a φ
  | φ, .op o k => M.allowed φ o ∧ ∀ r, M.answers o r → Accepts Q (M.next φ o r) (k r)

variable {M} {Q Q' : α → Φ → Prop} {φ : Φ}

theorem accepts_pure {a : α} (h : Q a φ) : M.Accepts Q φ (Pure.pure a : Prog Op Res α) := h

theorem Accepts.of_eq {φ' : Φ} {x : Prog Op Res α} (h : φ' = φ) (hx : M.Accepts Q φ x) :
    M.Accepts Q φ' x := h ▸ hx

theorem Accepts.mono (h : ∀ a φ, Q a φ → Q' a φ) : ∀ {x : Prog Op Res α} {φ},
    M.Accepts Q φ x → M.Accepts Q' φ x
  | .pure a, φ, hx => h a φ hx
  | .op _ _, _, hx => ⟨hx.1, fun r hr => Accepts.mono h (hx.2 r hr)⟩

theorem Accepts.bind {f : α → Prog Op Res β} {B : β → Φ → Prop} :
    ∀ {x : Prog Op Res α} {φ}, M.Accepts Q φ x → (∀ a φ, Q a φ → M.Accepts B φ (f a)) →
      M.Accepts B φ (x >>= f)
  | .pure a, φ, hx, hf => hf a φ hx
  | .op _ k, _, hx, hf => ⟨hx.1, fun r hr => Accepts.bind (x := k r) (hx.2 r hr) hf⟩

theorem accepts_ite {c : Prop} [Decidable c] {x y : Prog Op Res α} (hx : c → M.Accepts Q φ x)
    (hy : ¬ c → M.Accepts Q φ y) : M.Accepts Q φ (if c then x else y) := by
  split
  · exact hx ‹_›
  · exact hy ‹_›

/-- What a monitor without a state accepts is accepted in a state in which all
it allows is allowed and changes nothing. -/
theorem Accepts.embed {N : Monitor Op Res Unit} {Q : α → Prop}
    (ha : ∀ o, N.allowed () o → M.allowed φ o)
    (hn : ∀ o r, N.allowed () o → M.next φ o r = φ) (hr : ∀ o r, M.answers o r → N.answers o r) :
    ∀ {x : Prog Op Res α}, N.Accepts (fun a _ => Q a) () x →
      M.Accepts (fun a φ' => Q a ∧ φ' = φ) φ x
  | .pure _, hx => ⟨hx, rfl⟩
  | .op o k, hx => by
    refine ⟨ha o hx.1, fun r h => ?_⟩
    rw [hn o r hx.1]
    exact Accepts.embed ha hn hr (hx.2 r (hr o r h))

/-! ### Exceptions -/

/-- A step that may raise, then the rest if it does not. -/
theorem Accepts.bindExcept {x : ExceptT ε (Prog Op Res) α} {f : α → ExceptT ε (Prog Op Res) β}
    {A : Except ε α → Φ → Prop} {B : Except ε β → Φ → Prop} (hx : M.Accepts A φ x.run)
    (hf : ∀ a φ, A (.ok a) φ → M.Accepts B φ (f a).run)
    (he : ∀ e φ, A (.error e) φ → B (.error e) φ) : M.Accepts B φ (x >>= f).run := by
  refine Accepts.bind (f := ExceptT.bindCont f) hx fun r φ hr => ?_
  cases r with
  | ok a => exact hf a φ hr
  | error e => exact he e φ hr

/-- What is to hold of the value a program returns holds if it raises. -/
theorem raised {R : α → Prop} (e : ε) (a : α) (h : (Except.error e : Except ε α) = .ok a) : R a := by
  cases h

/-- The same, of what is to hold of the value that is returned only. -/
theorem Accepts.bindReturn {x : ExceptT ε (Prog Op Res) α} {f : α → ExceptT ε (Prog Op Res) β}
    {A : Except ε α → Φ → Prop} {R : β → Φ → Prop} (hx : M.Accepts A φ x.run)
    (hf : ∀ a φ, A (.ok a) φ → M.Accepts (fun r φ => ∀ b, r = .ok b → R b φ) φ (f a).run) :
    M.Accepts (fun r φ => ∀ b, r = .ok b → R b φ) φ (x >>= f).run :=
  hx.bindExcept hf fun e _ _ => raised e

theorem accepts_iteExcept {c : Prop} [Decidable c] {x y : ExceptT ε (Prog Op Res) α}
    {A : Except ε α → Φ → Prop} (hx : c → M.Accepts A φ x.run) (hy : ¬ c → M.Accepts A φ y.run) :
    M.Accepts A φ (if c then x else y).run := by
  split
  · exact hx ‹_›
  · exact hy ‹_›

/-- A `try` block, then what is done with its outcome. -/
theorem Accepts.attemptBind {x : ExceptT ε (Prog Op Res) α}
    {f : Except ε α → ExceptT ε (Prog Op Res) β} {A : Except ε α → Φ → Prop}
    {B : Except ε β → Φ → Prop} (hx : M.Accepts A φ x.run)
    (hf : ∀ r φ, A r φ → M.Accepts B φ (f r).run) : M.Accepts B φ (attempt x >>= f).run := by
  have h := Accepts.bind (f := fun r => (f r).run) hx hf
  have hrun : (attempt x >>= f).run = (x.run >>= fun r => (f r).run) :=
    Prog.bind_assoc' (fun r => Pure.pure (Except.ok r)) (ExceptT.bindCont f) x.run
  rwa [hrun]

theorem Accepts.attempt {x : ExceptT ε (Prog Op Res) α} {A : Except ε α → Φ → Prop}
    {B : Except ε (Except ε α) → Φ → Prop} (hx : M.Accepts A φ x.run)
    (h : ∀ r φ, A r φ → B (.ok r) φ) : M.Accepts B φ (attempt x).run :=
  hx.bind fun r φ hr => h r φ hr

/-! ### A complete run -/

/-- The state after a list of events. -/
def after (M : Monitor Op Res Φ) (φ : Φ) (t : List (Sigma Res)) : Φ :=
  t.foldl (fun φ e => M.next φ e.1 e.2) φ

theorem Accepts.of_runs {exec : σ → (o : Op) → Res o → σ → Prop} : ∀ {x : Prog Op Res α} {φ s t a s'},
    M.Accepts Q φ x → (∀ e ∈ t, M.answers e.1 e.2) → Prog.Runs exec x s t a s' →
      Q a (M.after φ t)
  | .pure _, _, _, _, _, _, hx, _, ⟨rfl, rfl, _⟩ => hx
  | .op _ _, _, _, _, _, _, hx, ht, ⟨r, _, _, _, ht', h⟩ => by
    subst ht'
    have hk := hx.2 r (ht ⟨_, r⟩ (by simp))
    have := Accepts.of_runs hk (fun e he => ht e (by simp [he])) h
    exact this

/-- What every allowed step of a run preserves. -/
theorem Accepts.preserves {exec : σ → (o : Op) → Res o → σ → Prop} {I : σ → Prop} :
    ∀ {x : Prog Op Res α} {φ s t a s'}, M.Accepts Q φ x → (∀ e ∈ t, M.answers e.1 e.2) →
      Prog.Runs exec x s t a s' → (∀ φ s o (r : Res o) s', ⟨o, r⟩ ∈ t → M.allowed φ o →
        exec s o r s' → I s → I s') → I s → I s'
  | .pure _, _, _, _, _, _, _, _, ⟨_, _, hs⟩, _, hI => hs ▸ hI
  | .op o _, φ, _, _, _, _, hx, ht, ⟨r, _, t', he, ht', h⟩, hstep, hI => by
    subst ht'
    have hk := hx.2 r (ht ⟨o, r⟩ List.mem_cons_self)
    refine hk.preserves (fun e he => ht e (List.mem_cons_of_mem _ he)) h ?_
      (hstep φ _ o r _ List.mem_cons_self hx.1 he hI)
    exact fun φ s o r s' hmem => hstep φ s o r s' (List.mem_cons_of_mem _ hmem)

/-- What one event of a run establishes and every allowed step preserves. -/
theorem Accepts.establishes {exec : σ → (o : Op) → Res o → σ → Prop} {I : σ → Prop} {o : Op} {r : Res o} :
    ∀ {x : Prog Op Res α} {φ s t a s'}, M.Accepts Q φ x → (∀ e ∈ t, M.answers e.1 e.2) →
      Prog.Runs exec x s t a s' → ⟨o, r⟩ ∈ t → (∀ φ s s', M.allowed φ o → exec s o r s' → I s') →
        (∀ φ s o (r : Res o) s', M.allowed φ o → exec s o r s' → I s → I s') → I s'
  | .pure _, _, _, _, _, _, _, _, ⟨ht, _, _⟩, hmem, _, _ => by
    rw [ht] at hmem
    exact absurd hmem List.not_mem_nil
  | .op o' _, φ, _, _, _, _, hx, ht, ⟨r', _, t', he, ht', h⟩, hmem, ho, hstep => by
    subst ht'
    have hk := hx.2 r' (ht ⟨o', r'⟩ List.mem_cons_self)
    have ht' : ∀ e ∈ t', M.answers e.1 e.2 := fun e he => ht e (List.mem_cons_of_mem _ he)
    rcases List.mem_cons.mp hmem with heq | hmem
    · cases heq
      exact hk.preserves ht' h (fun φ s o r s' _ => hstep φ s o r s') (ho _ _ _ hx.1 he)
    · exact hk.establishes ht' h hmem ho hstep

/-! ### Whatever it is answered -/

/-- The monitor that allows the operations in `q`, in any order. -/
def only (q : Op → Prop) (answers : (o : Op) → Res o → Prop) : Monitor Op Res Unit where
  allowed _ o := q o
  answers := answers
  next _ _ _ := ()

/-- Whatever it is answered, the program performs operations in `q` and returns
in `R`. -/
abbrev Keeps (q : Op → Prop) (R : α → Prop) (x : Prog Op Res α) : Prop :=
  (only q fun _ _ => True).Accepts (fun a _ => R a) () x

theorem Keeps.imp {q q' : Op → Prop} {R : α → Prop} {x : Prog Op Res α} (h : ∀ o, q o → q' o)
    (hx : Keeps q R x) : Keeps q' R x :=
  (Accepts.embed (M := only q' fun _ _ => True) (N := only q fun _ _ => True) h (fun _ _ _ => rfl)
    (fun _ _ hr => hr) hx).mono fun _ _ hr => hr.1

/-! ### What a run did -/

/-- The monitor that allows everything and keeps the events of the operations
in `p`. -/
def log (p : Op → Bool) (answers : (o : Op) → Res o → Prop) :
    Monitor Op Res (List (Sigma Res)) where
  allowed _ _ := True
  answers := answers
  next φ o r := if p o then φ ++ [⟨o, r⟩] else φ

theorem log_after {p : Op → Bool} {answers : (o : Op) → Res o → Prop} :
    ∀ (t : List (Sigma Res)) (φ : List (Sigma Res)),
      (log p answers).after φ t = φ ++ t.filter (p ·.1)
  | [], φ => (List.append_nil φ).symm
  | e :: t, φ => by
    rw [after, List.foldl_cons]
    change (log p answers).after _ t = _
    rw [log_after t]
    cases he : p e.1 <;> simp [log, he]

/-- A program that performs nothing in the log leaves it. -/
theorem Accepts.log_of_only {p : Op → Bool} {answers : (o : Op) → Res o → Prop} {Q : α → Prop}
    {x : Prog Op Res α} (h : (only (p · = false) answers).Accepts (fun a _ => Q a) () x)
    {φ : List (Sigma Res)} : (log p answers).Accepts (fun a φ' => Q a ∧ φ' = φ) φ x :=
  Accepts.embed (M := log p answers) (N := only (p · = false) answers) (fun _ _ => trivial)
    (fun o r ho => if_neg (by rw [show p o = false from ho]; exact Bool.false_ne_true))
    (fun _ _ h => h) h

/-- What holds of the log of every run of a program the monitor accepts. -/
theorem Accepts.filter_of_runs {exec : σ → (o : Op) → Res o → σ → Prop} {p : Op → Bool}
    {answers : (o : Op) → Res o → Prop} {Q : α → List (Sigma Res) → Prop} {x : Prog Op Res α}
    {s s' : σ} {t : List (Sigma Res)} {a : α} (hx : (log p answers).Accepts Q [] x)
    (ht : ∀ e ∈ t, answers e.1 e.2) (h : Prog.Runs exec x s t a s') : Q a (t.filter (p ·.1)) := by
  have := hx.of_runs ht h
  rwa [log_after, List.nil_append] at this

end Monitor

/-! ### The watched system -/

/-- A monitor for each process, its first state and what a process that returns
owes. -/
structure Watch (P Op : Type) (Res : Op → Type) (Tag Φ α : Type) where
  monitor : P → Tag → Monitor Op Res Φ
  init : P → Tag → Φ
  post : P → Tag → α → Φ → Prop

/-- The world and, for each live process, the state of its monitor. -/
structure Watched (P Tag Φ σ : Type) where
  world : σ
  phases : P → Option (Tag × Φ)

namespace Watch

variable (S : System P Op Res Tag Act α σ) (W : Watch P Op Res Tag Φ α)

/-- The monitor's state fits what the process still has to do. -/
def Fits (p : P) : Option (Tag × Prog Op Res α) → Option (Tag × Φ) → Prop
  | none, none => True
  | some (t, x), some (t', φ) => t = t' ∧ (W.monitor p t).Accepts (W.post p t) φ x
  | _, _ => False

def Follows (c : Config P Op Res Tag α σ) (m : Watched P Tag Φ σ) : Prop :=
  c.world = m.world ∧ ∀ p, W.Fits p (c.procs p) (m.phases p)

variable {S W} {c c' : Config P Op Res Tag α σ} {m : Watched P Tag Φ σ}

theorem Follows.of_none (hp : ∀ p, c.procs p = none) : Follows W c ⟨c.world, fun _ => none⟩ :=
  ⟨rfl, fun p => by simp [hp p, Fits]⟩

theorem Follows.gone {p : P} (h : Follows W c m) (hp : c.procs p = none) : m.phases p = none := by
  have := h.2 p
  rw [hp] at this
  cases hm : m.phases p with
  | none => rfl
  | some _ => rw [hm] at this; exact this.elim

theorem Follows.live {p : P} {t x} (h : Follows W c m) (hp : c.procs p = some (t, x)) :
    ∃ φ, m.phases p = some (t, φ) ∧ (W.monitor p t).Accepts (W.post p t) φ x := by
  have := h.2 p
  rw [hp] at this
  cases hm : m.phases p with
  | none => rw [hm] at this; exact this.elim
  | some tφ =>
    rw [hm] at this
    obtain ⟨rfl, ha⟩ := this
    exact ⟨_, rfl, ha⟩

variable [DecidableEq P]

variable (S W) in
inductive Step : Watched P Tag Φ σ → Label P Op Res Tag Act α → Watched P Tag Φ σ → Prop where
  | op {w w' phases p t φ o} {r : Res o} : phases p = some (t, φ) → (W.monitor p t).allowed φ o →
      (W.monitor p t).answers o r → S.exec p w o r w' →
      Step ⟨w, phases⟩ (.op p t o r)
        ⟨w', Function.update phases p (some (t, (W.monitor p t).next φ o r))⟩
  | start {w w' phases p t} : phases p = none → S.start p t w w' →
      Step ⟨w, phases⟩ (.start p t) ⟨w', Function.update phases p (some (t, W.init p t))⟩
  | finish {w w' phases p t φ a} : phases p = some (t, φ) → W.post p t a φ → S.finish p t a w w' →
      Step ⟨w, phases⟩ (.finish p t a) ⟨w', Function.update phases p none⟩
  | kill {w w' phases p t φ} : phases p = some (t, φ) → S.kill p t w w' →
      Step ⟨w, phases⟩ (.kill p t) ⟨w', Function.update phases p none⟩
  | world {w w' phases a} : S.world a w w' → Step ⟨w, phases⟩ (.world a) ⟨w', phases⟩

variable (S W) in
/-- The monitors accept every program a process may be started with, and expect
the answers the world gives. -/
structure Sound : Prop where
  answers : ∀ p t w o (r : Res o) w', S.exec p w o r w' → (W.monitor p t).answers o r
  accepts : ∀ p t w w', S.start p t w w' →
    (W.monitor p t).Accepts (W.post p t) (W.init p t) (S.body p t)

/-- One process moves, or goes. -/
theorem Follows.update {p : P} {w : σ} {v : Option (Tag × Prog Op Res α)} {u : Option (Tag × Φ)}
    (h : Follows W c m) (hp : W.Fits p v u) :
    Follows W ⟨w, Function.update c.procs p v⟩ ⟨w, Function.update m.phases p u⟩ := by
  refine ⟨rfl, fun q => ?_⟩
  by_cases hq : q = p
  · subst hq
    simpa using hp
  · simpa [Function.update_of_ne hq] using h.2 q

theorem Follows.step (hS : Sound S W) {l} (h : Follows W c m) (hs : S.Step c l c') :
    ∃ m', Step S W m l m' ∧ Follows W c' m' := by
  obtain ⟨v, phases⟩ := m
  cases hs with
  | @op w w' procs p t o k r hp he =>
    obtain rfl : w = v := h.1
    obtain ⟨φ, hφ, ha⟩ := h.live hp
    have hr := hS.answers p t w o r w' he
    exact ⟨_, .op hφ ha.1 hr he, h.update ⟨rfl, ha.2 r hr⟩⟩
  | @start w w' procs p t hp hw =>
    obtain rfl : w = v := h.1
    exact ⟨_, .start (h.gone hp) hw, h.update ⟨rfl, hS.accepts p t w w' hw⟩⟩
  | @finish w w' procs p t a hp hw =>
    obtain rfl : w = v := h.1
    obtain ⟨φ, hφ, ha⟩ := h.live hp
    exact ⟨_, .finish hφ ha hw, h.update trivial⟩
  | @kill w w' procs p t x hp hw =>
    obtain rfl : w = v := h.1
    obtain ⟨φ, hφ, -⟩ := h.live hp
    exact ⟨_, .kill hφ hw, h.update trivial⟩
  | @world w w' procs a hw =>
    obtain rfl : w = v := h.1
    exact ⟨_, .world hw, rfl, h.2⟩

/-- The state of a process that goes on is its old one, moved by its own operation if the
step is that. -/
theorem Step.phase {l : Label P Op Res Tag Act α} {m m' : Watched P Tag Φ σ} {p : P} {t : Tag} {φ' : Φ}
    (h : Step S W m l m') (hl : ∀ t, l ≠ .start p t) (hp : m'.phases p = some (t, φ')) :
    m.phases p = some (t, φ') ∨ ∃ φ o, ∃ r : Res o, l = .op p t o r ∧ m.phases p = some (t, φ) ∧
      (W.monitor p t).allowed φ o ∧ φ' = (W.monitor p t).next φ o r := by
  have hother : ∀ {phases : P → Option (Tag × Φ)} {q : P} {v : Option (Tag × Φ)}, q ≠ p →
      Function.update phases q v p = some (t, φ') → phases p = some (t, φ') :=
    fun hq h => (Function.update_of_ne (Ne.symm hq) ..).symm.trans h
  have hgone : ∀ {phases : P → Option (Tag × Φ)},
      Function.update phases p none p ≠ some (t, φ') := fun {phases} h => by
    rw [Function.update_self] at h
    cases h
  cases h with
  | @op w w' phases q t' φ o r hq ha hr he =>
    by_cases hqp : q = p
    · subst hqp
      cases (Function.update_self ..).symm.trans hp
      exact .inr ⟨φ, o, r, rfl, hq, ha, rfl⟩
    · exact .inl (hother hqp hp)
  | @start w w' phases q t' hq hw =>
    by_cases hqp : q = p
    · exact absurd (hqp ▸ rfl) (hl t')
    · exact .inl (hother hqp hp)
  | @finish w w' phases q t' φ a hq hpost hw =>
    by_cases hqp : q = p
    · exact absurd (hqp ▸ hp) hgone
    · exact .inl (hother hqp hp)
  | @kill w w' phases q t' φ hq hw =>
    by_cases hqp : q = p
    · exact absurd (hqp ▸ hp) hgone
    · exact .inl (hother hqp hp)
  | world hw => exact .inl hp

/-- **Following a run.** Every run of the system is a run of the watched
system. -/
theorem follows_run (hS : Sound S W) {ls} (h : Follows W c m) (hr : S.Run c ls c') :
    ∃ m', Steps (Step S W) m ls m' ∧ Follows W c' m' := by
  induction hr with
  | nil => exact ⟨m, .nil, h⟩
  | snoc _ hs ih =>
    obtain ⟨m₁, hm, h₁⟩ := ih
    obtain ⟨m₂, hs', h₂⟩ := h₁.step hS hs
    exact ⟨m₂, hm.snoc hs', h₂⟩

end Watch

end Interaction
