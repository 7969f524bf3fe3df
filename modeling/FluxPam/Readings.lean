/-
# Two readings of the owner attribute

The scripts read `security.owner` with `int ()`, the session module with
`strtol`. Of a text that `strtol` reads to its end `int ()` reads the same
integer or, if the text is empty or has too many digits, none (`eq_of_pyInt`), but
the module narrows it to a `uid_t`. So whatever the attribute says, the module
takes for the owner only whom the scripts take for the owner, if they can tell, or
whom an integer outside the uids is narrowed to (`owner_of_attrUid`); and a
session let in without a scope is one of a user whom the scripts skip, or of such
a one (`unscoped_skipped`). What only `int ()` reads leaves the user managed for
the module.
-/
import FluxPam.Owner

namespace FluxPam

open Interaction Monitor

/-! ### `int ()` -/

/-- What `int ()` reads of a text that denotes an integer is that integer. -/
theorem eq_of_pyInt {s : String} {n i : ℤ} (h : Denotes s n) (hi : pyInt s = some i) : i = n := by
  obtain ⟨blanks, sign, digits, hs, hblank, hdigit, hne, hsign⟩ := h
  have hmark : sign = [] ∨ sign = ['+'] ∨ sign = ['-'] := by
    rcases hsign with ⟨hsign | hsign, -⟩ | ⟨hsign, -⟩
    · exact .inl hsign
    · exact .inr (.inl hsign)
    · exact .inr (.inr hsign)
  have hvalue : (if sign = ['-'] then -(Nat.ofDigitChars 10 digits 0 : ℤ)
      else (Nat.ofDigitChars 10 digits 0 : ℤ)) = n := by
    rcases hsign with ⟨rfl | rfl, rfl⟩ | ⟨rfl, rfl⟩ <;> simp
  rw [pyInt_eq hs hblank hmark hdigit hne, hvalue] at hi
  split at hi
  · exact (Option.some.inj hi).symm
  · cases hi

/-! ### Both readings -/

/-- The text denotes an integer that is no uid and is narrowed to `u`. -/
def Wraps (text : String) (u : ℕ) : Prop :=
  ∃ n : ℤ, Denotes text n ∧ (n < 0 ∨ 2 ^ 32 ≤ n) ∧ n % 2 ^ 32 = u

/-- Whom the session module takes for the owner, the scripts take for the
owner, unless they cannot tell or the integer was narrowed. -/
theorem owner_of_attrUid {text : String} {i : ℤ} (h : attrUid text ≠ noUid) (hi : pyInt text = some i) :
    i = (attrUid text).toNat ∨ Wraps text (attrUid text).toNat := by
  rcases denotes_of_attrUid h with rfl | ⟨n, hn, -, -, heq⟩
  · cases hi
  have hmod : n % 2 ^ 32 = ((attrUid text).toNat : ℤ) := by
    rw [heq, BitVec.toNat_ofInt]
    omega
  by_cases hout : n < 0 ∨ 2 ^ 32 ≤ n
  · exact .inr ⟨n, hn, hout, hmod⟩
  · have hfit : n % 2 ^ 32 = n := Int.emod_eq_of_lt (by omega) (by omega)
    rw [← hmod, hfit]
    exact .inl (eq_of_pyInt hn hi)

/-! ### The gate -/

variable {K : Setting} {p : Pid} {w w' : World} {t : List Event}

/-- The session module does not manage the user. -/
def Waived (K : Setting) (u : ℕ) : Prop :=
  K.manage.truthy = false ∨
    attrUid (K.attrs "security.owner") ≠ noUid ∧ (attrUid (K.attrs "security.owner")).toNat = u

/-- A scope is asked for. -/
def Scoped (φ : List Event) : Prop := ∃ args, ⟨.busCall "StartTransientUnit" args, true⟩ ∈ φ

theorem log_manageSession_waived {libsystemd : Bool} {opts : Options} {user : String} {uid : Uid}
    (hu : uid.toNat = p.uid) : (sessionLog (K.answers p)).Accepts
      (fun ret φ => ret = .PAM_SUCCESS → Waived K p.uid ∨ Scoped φ) []
      (manageSession libsystemd opts user uid) := by
  refine (only_checkPamManageUserSlice noted_of_talk).log_of_only.bind fun found φ ⟨hfound, hφ⟩ => ?_
  subst hφ
  rcases found with _ | ⟨manage, owner⟩
  · intro h
    cases h
  obtain ⟨⟨config, hconfig, hflag⟩, hown⟩ := hfound manage owner rfl
  obtain rfl := hconfig rfl config rfl
  refine accepts_ite (fun hm _ => .inl (.inl ?_)) fun _ =>
    accepts_ite (fun ho _ => .inl (.inr ?_)) fun _ => ?_
  · exact (unpackFlag_truthy hflag).trans (by simpa using hm)
  · rcases hown with hno | ⟨text, htext, rfl⟩
    · exact absurd hno ho.1
    · obtain rfl := htext text rfl
      exact ⟨ho.1, by rw [← ho.2, hu]⟩
  · refine (log_attach fun r hr => hr).mono fun ret φ h hret => .inr ?_
    obtain ⟨-, scope, fd, r, rfl⟩ := h.admits hret
    exact ⟨_, .tail _ (.tail _ (.tail _ (.head _)))⟩

/-- A session that is let in asks for a scope, or the module does not manage
the user. -/
theorem log_session_waived {libsystemd : Bool} {argv : List String} :
    (sessionLog (K.answers p)).Accepts (fun ret φ => ret = .PAM_SUCCESS → Waived K p.uid ∨ Scoped φ) []
      (pamSmOpenSession libsystemd argv) := by
  refine accepts_pamSmOpenSession (U := fun uid => uid.toNat = p.uid) (fun o ho => ⟨trivial, ?_⟩)
    (fun _ v h => h v rfl) (fun _ hret h => absurd h hret) fun opts user uid hu =>
      log_manageSession_waived hu
  cases o <;> first | exact fun _ => rfl | exact ho.elim

/-- Whom the module does not manage the scripts skip, if they can tell, or the
integer the owner attribute denotes was narrowed. -/
theorem Waived.unmanaged {u : ℕ} {i : ℤ} (h : Waived K u) (hi : pyInt (K.attrs "security.owner") = some i) :
    ¬ K.managed u ∨ Wraps (K.attrs "security.owner") u := by
  rcases h with hoff | ⟨hno, rfl⟩
  · refine .inl fun hK => ?_
    rw [Setting.managed, hoff] at hK
    exact Bool.false_ne_true hK.2
  · rcases owner_of_attrUid hno hi with rfl | hwraps
    · exact .inl fun hK => hK.1 hi
    · exact .inr hwraps

/-- A script that decides whether to skip has read an integer. -/
theorem quiet_reads (self : PAMHelper) : Quietly K p
    (fun r => ∀ b, r = .ok b → ∃ i, pyInt (K.attrs "security.owner") = some i) self.shouldSkip.run := by
  refine Quietly.bindExcept (quiet_attrInt _) (fun n hn => ?_) fun e _ => raised e
  have hread : ∃ i, pyInt (K.attrs "security.owner") = some i := ⟨n, hn n rfl⟩
  exact accepts_iteExcept (fun _ _ _ => hread) fun _ _ _ => hread

theorem owner_reads {fuel j : ℕ} {systemctl loginctl : String} {b : Bool}
    (h : Prog.Runs (K.exec p) (skips K fuel p.uid j systemctl loginctl).run w t (.ok b) w') :
    ∃ i, pyInt (K.attrs "security.owner") = some i := by
  have hacc : (watch K p (.prolog j fuel)).Accepts
      (fun r _ => ∀ b, r = .ok b → ∃ i, pyInt (K.attrs "security.owner") = some i) .init
      (skips K fuel p.uid j systemctl loginctl).run :=
    accepts_init.bindReturn fun helper φ _ => (quiet_reads helper).accepts.mono fun r φ h => h.1
  exact hacc.of_runs (Setting.answered h) h b rfl

/-- **No misread owner gets past the gate.** Whatever the owner attribute says:
if a session of the user is let in and asked for no scope, then a script that
can tell skips the user, or the integer of the attribute is no uid and was
narrowed to the user's. -/
theorem unscoped_skipped (libsystemd : Bool) (argv : List String) (fuel j : ℕ)
    (systemctl loginctl : String) {n : ℕ} {v v' : World} {t' : List Event} {skip : Bool}
    (hskip : Prog.Runs (K.exec ⟨p.uid, n⟩) (skips K fuel p.uid j systemctl loginctl).run v t'
      (.ok skip) v')
    (hsession : Prog.Runs (K.exec p) (pamSmOpenSession libsystemd argv) w t .PAM_SUCCESS w')
    (hscope : ∀ args r, ⟨.busCall "StartTransientUnit" args, r⟩ ∉ t) :
    skip = true ∨ Wraps (K.attrs "security.owner") p.uid := by
  have hlog := log_session_waived.filter_of_runs (Setting.answered hsession) hsession rfl
  have hwaived : Waived K p.uid := by
    refine hlog.resolve_right ?_
    rintro ⟨args, h⟩
    exact hscope args true (List.mem_of_mem_filter h)
  obtain ⟨i, hi⟩ := owner_reads hskip
  rcases hwaived.unmanaged hi with hK | hwraps
  · exact .inl ((skips_iff hskip).mpr hK)
  · exact .inr hwraps

/-- The small node, with an owner attribute just past the uids. -/
def Setting.narrowed : Setting where
  __ := Setting.small
  attrs name := if name = "security.owner" then "4294968296" else "0"
  rank_attr := by decide

def Server.narrowed : Server Setting.narrowed where
  jobs := Server.small.jobs
  props := Server.small.props
  maps := Server.small.maps

/-- Is no request to the bus. -/
def busless : Event → Bool
  | ⟨.busCall _ _, _⟩ => false
  | _ => true

/-- There the user 1000, whom the scripts manage, is let in without a scope. -/
theorem unscoped_skipped_narrowed : ∃ (v' w' : World) (t t' : List Event),
    Prog.Runs (Setting.narrowed.exec ⟨1000, 8⟩)
      (skips .narrowed 1 1000 1 "/bin/systemctl" "/bin/loginctl").run .empty t' (.ok false) v' ∧
    Prog.Runs (Setting.narrowed.exec ⟨1000, 7⟩) (pamSmOpenSession true []) .empty t .PAM_SUCCESS w' ∧
    (∀ args r, ⟨.busCall "StartTransientUnit" args, r⟩ ∉ t) ∧
    (false = true ∨ Wraps "4294968296" 1000) := by
  have hfits : Server.narrowed.fits (fun _ => none) World.empty := ⟨fun _ _ h => (by cases h), rfl⟩
  have hskip : ∃ v' t', Prog.Runs (Setting.narrowed.exec ⟨1000, 8⟩)
      (skips .narrowed 1 1000 1 "/bin/systemctl" "/bin/loginctl").run .empty t' (.ok false) v' :=
    ⟨_, _, (Server.narrowed.serves ⟨1000, 8⟩ _).runs (n := 50) hfits rfl⟩
  have hsession : ∃ w' t, Prog.Runs (Setting.narrowed.exec ⟨1000, 7⟩) (pamSmOpenSession true []) .empty
      t .PAM_SUCCESS w' ∧ t.all busless = true :=
    ⟨_, _, (Server.narrowed.serves ⟨1000, 7⟩ _).runs (n := 50) hfits rfl, rfl⟩
  obtain ⟨v', t', h'⟩ := hskip
  obtain ⟨w', t, h, hnone⟩ := hsession
  have hscope : ∀ args r, (⟨.busCall "StartTransientUnit" args, r⟩ : Event) ∉ t := by
    intro args r hmem
    exact absurd (List.all_eq_true.mp hnone _ hmem) Bool.false_ne_true
  exact ⟨v', w', t, t', h', h, hscope,
    unscoped_skipped (p := ⟨1000, 7⟩) true [] 1 1 "/bin/systemctl" "/bin/loginctl" h' h hscope⟩

end FluxPam
