/-
# Who is managed

The scripts and the session module decide whether a user is managed from the
same broker, each in its own way: Python takes the truth value of whatever the
configuration holds and compares `int`s, C unpacks a boolean and truncates a
`long`. Neither lets a user in without a scope whom the other manages, and where
the switch is a boolean they agree (`session_agrees`).
-/
import FluxPam.Conform
import FluxPam.Server
import FluxPam.Transaction

namespace FluxPam

open Interaction Monitor

/-! ### The switch -/

/-- The broker's configuration is a table, and so is `pam`, if it is there. -/
structure BrokerConfig (conf : Json) : Prop where
  table : conf.isObj = true
  pam : ∀ v, conf.get? "pam" = some v → v.isObj = true

theorem dotted_manage (conf : Json) : conf.dotted "pam.manage-user-slice" =
    (conf.get? "pam").bind (Json.get? "manage-user-slice") := by
  have : "pam.manage-user-slice".toList.splitOn '.' = ["pam".toList, "manage-user-slice".toList] := by
    decide
  rw [Json.dotted, this]
  simp

/-- What the format takes: two tables, of which the inner may be missing, and a
boolean, if there is anything. -/
theorem unpackFlag_eq_some {table key : String} {conf : Json} {b : Bool} :
    unpackFlag table key conf = some b ↔
      conf.isObj = true ∧ (∀ v, conf.get? table = some v → v.isObj = true) ∧
        ((conf.get? table).bind (Json.get? key) = some (.bool b) ∨
          (conf.get? table).bind (Json.get? key) = none ∧ b = false) := by
  rw [unpackFlag]
  by_cases hconf : conf.isObj = true
  · rw [Json.optField_eq hconf]
    cases hpam : conf.get? table with
    | none => simp [hconf]
    | some v =>
      by_cases hv : v.isObj = true
      · dsimp only
        rw [Json.optField_eq hv]
        cases hkey : v.get? key with
        | none => simp [hconf, hv, hkey]
        | some x => cases x <;> simp [hconf, hv, hkey, Json.asBool]
      · simp [Json.optField, hv]
  · simp [Json.optField, hconf]

/-- A switch the format takes has the truth value it unpacks. -/
theorem unpackFlag_truthy {conf : Json} {b : Bool}
    (h : unpackFlag "pam" "manage-user-slice" conf = some b) :
    ((conf.dotted "pam.manage-user-slice").getD (.bool false)).truthy = b := by
  rw [dotted_manage]
  obtain ⟨-, -, h | ⟨h, hb⟩⟩ := unpackFlag_eq_some.mp h
  · rw [h]
    rfl
  · rw [h, hb]
    rfl

/-- The format takes a switch that is absent or a boolean. -/
theorem unpackFlag_boolean {conf : Json} (hc : BrokerConfig conf)
    (hb : ∀ v, conf.dotted "pam.manage-user-slice" = some v → ∃ b, v = .bool b) :
    unpackFlag "pam" "manage-user-slice" conf =
      some ((conf.dotted "pam.manage-user-slice").getD (.bool false)).truthy := by
  rw [dotted_manage] at hb ⊢
  refine unpackFlag_eq_some.mpr ⟨hc.table, hc.pam, ?_⟩
  cases hkey : (conf.get? "pam").bind (Json.get? "manage-user-slice") with
  | none => exact .inr ⟨rfl, rfl⟩
  | some v =>
    obtain ⟨b, rfl⟩ := hb v hkey
    exact .inl rfl

/-! ### The owner -/

/-- The attribute names a uid, in decimal. -/
def namesUid (text : String) : Prop := ∃ n < 2 ^ 32 - 1, text = numeral n

theorem attrUid_numeral {n : ℕ} (h : n < 2 ^ 32 - 1) : attrUid (numeral n) = BitVec.ofNat 32 n := by
  have hmax : (n : ℤ) ≤ LONG_MAX := by unfold LONG_MAX; omega
  unfold attrUid
  rw [strtol_numeral hmax]
  simp

/-- Both readings of a numeral agree. -/
theorem attrUid_eq_iff {text : String} (h : namesUid text) (uid : Uid) :
    (attrUid text ≠ noUid ∧ uid = attrUid text) ↔ pyInt text = some (uid.toNat : ℤ) := by
  obtain ⟨n, hn, rfl⟩ := h
  have hnat : (BitVec.ofNat 32 n).toNat = n := by
    rw [BitVec.toNat_ofNat]
    omega
  rw [attrUid_numeral hn, pyInt_numeral (lt_maxStrDigits (by omega))]
  constructor
  · rintro ⟨-, rfl⟩
    rw [hnat]
  · intro h
    have hu : n = uid.toNat := Int.ofNat.inj (Option.some.inj h)
    refine ⟨fun hno => ?_, BitVec.eq_of_toNat_eq (by rw [hnat, hu])⟩
    have : n = 2 ^ 32 - 1 := by
      rw [← hnat, hno]
      rfl
    omega

/-! ### The scripts -/

variable {K : Setting} {p : Pid} {w w' : World} {t : List Event}

/-- What a script of the user's job does to ask whether to skip. -/
def skips (K : Setting) (fuel u j : ℕ) (systemctl loginctl : String) : Py Bool := do
  let helper ← PAMHelper.init K.X fuel (K.environ u j) u j systemctl loginctl
  helper.shouldSkip

theorem skips_iff {fuel j : ℕ} {systemctl loginctl : String} {b : Bool}
    (h : Prog.Runs (K.exec p) (skips K fuel p.uid j systemctl loginctl).run w t (.ok b) w') :
    b = true ↔ ¬ K.managed p.uid := by
  have hacc : (watch K p (.prolog j fuel)).Accepts
      (fun r _ => ∀ b, r = .ok b → (b = true ↔ ¬ K.managed p.uid)) .init
      (skips K fuel p.uid j systemctl loginctl).run := by
    refine accepts_init.bindReturn fun helper φ hφ => ?_
    obtain ⟨hh, rfl⟩ := hφ helper rfl
    exact hh.quiet_shouldSkip.accepts.mono fun r φ h => h.1
  exact hacc.of_runs (Setting.answered h) h b rfl

/-! ### The session module -/

/-- A session that is let in requested a scope, or the user is not managed. -/
theorem log_pamSmOpenSession (howner : namesUid (K.attrs "security.owner")) {libsystemd : Bool}
    {argv : List String} : (sessionLog (K.answers p)).Accepts
      (fun ret φ => ret = .PAM_SUCCESS → ¬ K.managed p.uid ∨
        ∃ args, ⟨.busCall "StartTransientUnit" args, true⟩ ∈ φ) []
      (pamSmOpenSession libsystemd argv) := by
  unfold pamSmOpenSession
  cases parseOptions sessionDefaults argv with
  | none =>
    intro h
    cases h
  | some opts =>
    refine ⟨trivial, fun service _ => accepts_ite (fun _ h => by cases h) fun _ => ?_⟩
    refine ⟨trivial, fun r _ => accepts_ite (fun _ => ?_) fun _ h => by cases h⟩
    refine Accepts.bind (Accepts.log_of_only (only_getPamUserUid (U := fun uid => uid.toNat = p.uid) rfl
      (fun _ => rfl) fun _ v h => h v rfl)) fun r φ ⟨huser, hφ⟩ => ?_
    subst hφ
    rcases r with _ | ⟨user, uid⟩
    · intro h
      cases h
    have hu := huser user uid rfl
    refine (only_checkPamManageUserSlice noted_of_talk).log_of_only.bind fun found φ ⟨hfound, hφ⟩ => ?_
    subst hφ
    rcases found with _ | ⟨manage, owner⟩
    · intro h
      cases h
    obtain ⟨⟨config, hconfig, hflag⟩, hown⟩ := hfound manage owner rfl
    obtain rfl := hconfig rfl config rfl
    refine accepts_ite (fun hm _ => .inl fun hK => ?_) fun _ =>
      accepts_ite (fun ho _ => .inl fun hK => ?_) fun _ => ?_
    · -- the switch is off for the scripts too
      have := unpackFlag_truthy hflag
      rw [Setting.managed, Setting.manage, this] at hK
      rw [hK.2] at hm
      cases hm
    · rcases hown with hno | ⟨text, htext, rfl⟩
      · exact ho.1 hno
      · obtain rfl := htext text rfl
        have := (attrUid_eq_iff howner uid).mp ho
        rw [hu] at this
        exact hK.1 this
    · refine (log_attach fun r hr => hr).mono fun ret φ h hret => .inr ?_
      obtain ⟨-, scope, fd, r, rfl⟩ := h.admits hret
      exact ⟨_, .tail _ (.tail _ (.tail _ (.head _)))⟩

/-- The Flux requests of a session succeed. -/
def served : (o : Op) → Res o → Prop
  | .fluxOpen none, r => r = .ok ()
  | .attrGet _, r => ∃ text, r = .ok text
  | .configGet none, r => ∃ config, r = .ok config
  | _, _ => True

/-- A run of a session that can reach Flux. -/
def ReachesFlux (t : List Event) : Prop :=
  (∀ e ∈ t, served e.1 e.2) ∧ ∃ r, ⟨.configGet none, r⟩ ∈ t

/-- The request for the configuration, and a look at a marker. -/
def consulting : Op → Bool
  | .configGet _ | .lstat _ => true
  | _ => false

/-- What a session that reaches Flux is answered. -/
def reaching (K : Setting) (p : Pid) (o : Op) (r : Res o) : Prop := K.answers p o r ∧ served o r

theorem log_checkPamManageUserSlice (hconf : BrokerConfig K.conf)
    (hbool : ∀ v, K.conf.dotted "pam.manage-user-slice" = some v → ∃ b, v = .bool b) :
    (log consulting (reaching K p)).Accepts
      (fun r φ => r = some (K.manage.truthy, attrUid (K.attrs "security.owner")) ∧
        φ = [⟨.configGet none, .ok K.conf⟩]) [] checkPamManageUserSlice := by
  refine ⟨trivial, fun r hr => ?_⟩
  obtain rfl : r = .ok () := hr.2
  refine ⟨trivial, fun r hr => ?_⟩
  obtain ⟨text, rfl⟩ : ∃ text, r = .ok text := hr.2
  obtain rfl := hr.1 text rfl
  refine ⟨trivial, fun r hr => ?_⟩
  obtain ⟨config, rfl⟩ : ∃ config, r = .ok config := hr.2
  obtain rfl := hr.1 rfl config rfl
  refine ⟨?_, rfl⟩
  rw [unpackFlag_boolean hconf hbool]
  rfl

/-- A user who is not managed is let in, and no marker is looked at. -/
theorem log_unmanaged (hconf : BrokerConfig K.conf) (howner : namesUid (K.attrs "security.owner"))
    (hbool : ∀ v, K.conf.dotted "pam.manage-user-slice" = some v → ∃ b, v = .bool b)
    (hK : ¬ K.managed p.uid) {libsystemd : Bool} {argv : List String} :
    (log consulting (reaching K p)).Accepts
      (fun ret φ => φ = [] ∨ ret = .PAM_SUCCESS ∧ ∀ path r, ⟨.lstat path, r⟩ ∉ φ) []
      (pamSmOpenSession libsystemd argv) := by
  have hsuccess : ∀ φ : List Event, φ = [⟨.configGet none, .ok K.conf⟩] → φ = [] ∨
      PamRet.PAM_SUCCESS = .PAM_SUCCESS ∧ ∀ path r, ⟨.lstat path, r⟩ ∉ φ := by
    rintro φ rfl
    exact .inr ⟨rfl, fun path r h => by cases List.mem_singleton.mp h⟩
  unfold pamSmOpenSession
  cases parseOptions sessionDefaults argv with
  | none => exact .inl rfl
  | some opts =>
    refine ⟨trivial, fun service _ => accepts_ite (fun _ => .inl rfl) fun _ => ?_⟩
    refine ⟨trivial, fun r _ => accepts_ite (fun _ => ?_) fun _ => .inl rfl⟩
    refine Accepts.bind (Accepts.log_of_only (only_getPamUserUid (U := fun uid => uid.toNat = p.uid) rfl
      (fun _ => rfl) fun _ v h => h.1 v rfl)) fun r φ ⟨huser, hφ⟩ => ?_
    subst hφ
    rcases r with _ | ⟨user, uid⟩
    · exact .inl rfl
    have hu := huser user uid rfl
    refine (log_checkPamManageUserSlice hconf hbool).bind fun found φ ⟨hfound, hφ⟩ => ?_
    subst hfound
    refine accepts_ite (fun _ => hsuccess φ hφ) fun hm =>
      accepts_ite (fun _ => hsuccess φ hφ) fun ho => absurd ⟨fun h => ho ?_, by simpa using hm⟩ hK
    rw [← hu] at h
    exact (attrUid_eq_iff howner uid).mpr h

/-! ### Both -/

/-- **Who is managed.** A session that is let in without asking for a scope is
one of a user whom the scripts skip; and where the switch is absent or a
boolean, a user whom the scripts skip is let in, and no marker is looked at. -/
theorem session_agrees (hconf : BrokerConfig K.conf) (howner : namesUid (K.attrs "security.owner"))
    (libsystemd : Bool) (argv : List String) (fuel j : ℕ) (systemctl loginctl : String)
    {n : ℕ} {v v' : World} {t' : List Event} {skip : Bool} {ret : PamRet}
    (hskip : Prog.Runs (K.exec ⟨p.uid, n⟩) (skips K fuel p.uid j systemctl loginctl).run v t' (.ok skip) v')
    (hsession : Prog.Runs (K.exec p) (pamSmOpenSession libsystemd argv) w t ret w') :
    (ret = .PAM_SUCCESS → (∀ args r, ⟨.busCall "StartTransientUnit" args, r⟩ ∉ t) → skip = true) ∧
    (skip = true → (∀ v, K.conf.dotted "pam.manage-user-slice" = some v → ∃ b, v = .bool b) →
      ReachesFlux t → ret = .PAM_SUCCESS ∧ ∀ path r, ⟨.lstat path, r⟩ ∉ t) := by
  have hanswers := Setting.answered hsession
  constructor
  · intro hret hscope
    rw [skips_iff hskip]
    refine ((log_pamSmOpenSession howner).filter_of_runs hanswers hsession hret).resolve_right ?_
    rintro ⟨args, h⟩
    exact hscope args true (List.mem_of_mem_filter h)
  · intro hskip' hbool ⟨hserved, r, hreach⟩
    have hlog := (log_unmanaged (p := p) hconf howner hbool ((skips_iff hskip).mp hskip')).filter_of_runs
      (fun e he => ⟨hanswers e he, hserved e he⟩) hsession
    rcases hlog with hnone | ⟨hret, hmarker⟩
    · exact absurd (hnone ▸ List.mem_filter.mpr ⟨hreach, rfl⟩) List.not_mem_nil
    · exact ⟨hret, fun path r h => hmarker path r (List.mem_filter.mpr ⟨h, rfl⟩)⟩

/-- The session of the instance owner on the small node. -/
def ownerSession : List Event :=
  [⟨.pamGetService, some "sshd"⟩, ⟨.pamGetData "pam_flux_authorized", true⟩,
    ⟨.pamGetUser, .ok (some "user")⟩, ⟨.getpwnam "user", some 100⟩, ⟨.fluxOpen none, .ok ()⟩,
    ⟨.attrGet "security.owner", .ok "100"⟩, ⟨.configGet none, .ok Setting.small.conf⟩]

/-- On the small node the instance owner is skipped and let in. -/
theorem session_agrees_small : ∃ (v' w' : World) (t' : List Event) (skip : Bool) (ret : PamRet),
    Prog.Runs (Setting.small.exec ⟨100, 8⟩) (skips .small 1 100 1 "/bin/systemctl" "/bin/loginctl").run
      .empty t' (.ok skip) v' ∧
    Prog.Runs (Setting.small.exec ⟨100, 7⟩) (pamSmOpenSession true []) .empty ownerSession ret w' ∧
    (∀ args r, ⟨.busCall "StartTransientUnit" args, r⟩ ∉ ownerSession) ∧ ReachesFlux ownerSession ∧
    skip = true ∧ ret = .PAM_SUCCESS ∧ ∀ path r, ⟨.lstat path, r⟩ ∉ ownerSession := by
  have hskip : ∃ v' t, Prog.Runs (Setting.small.exec ⟨100, 8⟩)
      (skips .small 1 100 1 "/bin/systemctl" "/bin/loginctl").run .empty t (.ok true) v' :=
    ⟨_, _, (Server.small.serves ⟨100, 8⟩ _).runs (n := 50) Server.small_fits rfl⟩
  obtain ⟨v', t', hskip⟩ := hskip
  have hsession : Prog.Runs (Setting.small.exec ⟨100, 7⟩) (pamSmOpenSession true []) .empty ownerSession
      .PAM_SUCCESS .empty :=
    (Server.small.serves ⟨100, 7⟩ _).runs (n := 50) Server.small_fits rfl
  have hconf : BrokerConfig Setting.small.conf := by
    refine ⟨rfl, fun v hv => ?_⟩
    cases hv
    rfl
  have hbool : ∀ v, Setting.small.conf.dotted "pam.manage-user-slice" = some v → ∃ b, v = .bool b :=
    fun v hv => ⟨true, (Option.some.inj hv).symm⟩
  have hscope : ∀ args r, ⟨.busCall "StartTransientUnit" args, r⟩ ∉ ownerSession := by
    simp [ownerSession]
  have hreaches : ReachesFlux ownerSession :=
    ⟨by simp [ownerSession, served], .ok Setting.small.conf, by simp [ownerSession]⟩
  have hagrees := session_agrees hconf ⟨100, by decide, by decide⟩ true [] 1 1 "/bin/systemctl"
    "/bin/loginctl" hskip hsession
  exact ⟨v', .empty, t', true, .PAM_SUCCESS, hskip, hsession, hscope, hreaches, hagrees.1 rfl hscope,
    hagrees.2 rfl hbool hreaches⟩

end FluxPam
