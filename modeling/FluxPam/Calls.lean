/-
# The session module's calls

What the functions the session is put together from perform and return, for
every monitor without a state that allows them to talk (`talk`): the discipline
of the node and the log of a login both follow sessions through these.
-/
import FluxPam.Session
import FluxPam.Interaction.Monitor

namespace FluxPam

open Interaction Monitor

/-- The operations that ask PAM, Flux or the bus, and leave the files and the
slice alone. -/
def talk : Op → Prop
  | .pamGetUser | .getpwnam _ | .pamGetConv | .pamConverse _ | .pamPutenv _ | .fluxOpen _
  | .attrGet _ | .configGet _ | .busAppend _ => True
  | _ => False

variable {q : Op → Prop} {answers : (o : Op) → Res o → Prop}

theorem only_getPamUserUid {U : Uid → Prop} (hq : q .pamGetUser) (hq' : ∀ name, q (.getpwnam name))
    (huser : ∀ name v, answers (.getpwnam name) (some v) → U v) :
    (only q answers).Accepts (fun r _ => ∀ user v, r = some (user, v) → U v) () getPamUserUid := by
  refine ⟨hq, fun r _ => ?_⟩
  rcases r with e | _ | user
  · intro user v h
    cases h
  · intro user v h
    cases h
  · refine accepts_ite (fun _ => fun user v h => by cases h) fun _ => ⟨hq' user, fun r hr => ?_⟩
    rcases r with _ | v
    · intro user v h
      cases h
    · rintro user v' ⟨⟩
      exact huser _ v hr

/-- What a session asks to learn for whom it is. -/
def inquires : Op → Prop
  | .pamGetService | .pamGetData _ | .pamGetUser | .getpwnam _ => True
  | _ => False

/-- A session that learns for whom it is in a state which that leaves alone. -/
theorem accepts_pamSmOpenSession {Φ : Type} {M : Monitor Op Res Φ} {φ : Φ} {Q : PamRet → Φ → Prop}
    {U : Uid → Prop} {libsystemd : Bool} {argv : List String}
    (hstill : ∀ o, inquires o → M.allowed φ o ∧ ∀ r, M.next φ o r = φ)
    (huser : ∀ name v, M.answers (.getpwnam name) (some v) → U v)
    (hret : ∀ ret, ret ≠ .PAM_SUCCESS → Q ret φ)
    (hmanage : ∀ opts user uid, U uid → M.Accepts Q φ (manageSession libsystemd opts user uid)) :
    M.Accepts Q φ (pamSmOpenSession libsystemd argv) := by
  obtain ⟨hservice, hserved⟩ := hstill .pamGetService trivial
  obtain ⟨hdata, hread⟩ := hstill (.pamGetData "pam_flux_authorized") trivial
  unfold pamSmOpenSession
  cases parseOptions sessionDefaults argv with
  | none => exact hret _ (by decide)
  | some opts =>
    refine ⟨hservice, fun service _ => ?_⟩
    rw [hserved]
    refine accepts_ite (fun _ => hret _ (by decide)) fun _ => ⟨hdata, fun r _ => ?_⟩
    rw [hread]
    refine accepts_ite (fun _ => ?_) fun _ => hret _ (by decide)
    refine (Accepts.embed (M := M) (N := only inquires M.answers) (fun o ho => (hstill o ho).1)
      (fun o r ho => (hstill o ho).2 r) (fun _ _ h => h) (only_getPamUserUid (U := U) trivial
        (fun _ => trivial) huser)).bind fun r φ' ⟨hfound, hφ⟩ => ?_
    subst hφ
    rcases r with _ | ⟨user, uid⟩
    · exact hret _ (by decide)
    · exact hmanage opts user uid (hfound user uid rfl)

variable (hq : ∀ o, talk o → q o)
include hq

theorem only_sendDenialMsg (user : String) :
    (only q answers).Accepts (fun _ _ => True) () (sendDenialMsg user) := by
  refine ⟨hq _ trivial, fun conv _ => ?_⟩
  cases conv
  · exact trivial
  · exact ⟨hq _ trivial, fun _ _ => trivial⟩

theorem only_attrGetUid (name : String) : (only q answers).Accepts
    (fun owner _ => owner = noUid ∨ ∃ text, answers (.attrGet name) (.ok text) ∧ owner = attrUid text)
    () (attrGetUid name) := by
  refine ⟨hq _ trivial, fun r hr => ?_⟩
  rcases r with e | text
  · exact .inl rfl
  · exact .inr ⟨text, hr, rfl⟩

/-- Where the flag and the owner come from. -/
theorem only_checkPamManageUserSlice : (only q answers).Accepts
    (fun r _ => ∀ manage owner, r = some (manage, owner) →
      (∃ config, answers (.configGet none) (.ok config) ∧
        unpackFlag "pam" "manage-user-slice" config = some manage) ∧
      (owner = noUid ∨ ∃ text, answers (.attrGet "security.owner") (.ok text) ∧ owner = attrUid text))
    () checkPamManageUserSlice := by
  refine ⟨hq _ trivial, fun r _ => ?_⟩
  rcases r with e | ⟨⟩
  · intro manage owner h
    cases h
  refine (only_attrGetUid hq "security.owner").bind fun owner _ howner => ⟨hq _ trivial, fun r hr => ?_⟩
  rcases r with e | config
  · intro manage owner h
    cases h
  · intro manage owner' h
    obtain ⟨manage', hflag, heq⟩ := Option.map_eq_some_iff.mp h
    cases heq
    exact ⟨⟨config, hr, hflag⟩, howner⟩

theorem only_busAppendAll : ∀ args : List BusArg,
    (only q answers).Accepts (fun _ _ => True) () (busAppendAll args)
  | [] => trivial
  | arg :: args => by
    refine ⟨hq _ trivial, fun r _ => ?_⟩
    cases r
    · exact trivial
    · exact only_busAppendAll args

theorem only_setEnvironment (uid : Uid) :
    (only q answers).Accepts (fun ret _ => ret ≠ .PAM_IGNORE) () (setEnvironment uid) := by
  have herr : PamRet.PAM_SESSION_ERR ≠ .PAM_IGNORE := by decide
  refine accepts_ite (fun _ => herr) fun _ => accepts_ite (fun _ => herr) fun _ =>
    ⟨hq _ trivial, fun r _ => ?_⟩
  cases r
  · exact herr
  · refine ⟨hq _ trivial, fun r _ => ?_⟩
    cases r
    · exact herr
    · intro h
      cases h

end FluxPam
