/-
# What an admission rests on

`pam_sm_acct_mgmt` asks Flux for the jobs on the node and admits a user for
something it was told: a job of the user's own, or an instance of the owner that
starts here and lets guests in (`account_outcome`). Whatever the job list holds,
malformed entries included, it admits for nothing else, the sentinel is set for
a job owner only, and no instance is talked to but through a local socket whose
path an entry gave (`uriToLocal_eq_some`).
-/
import FluxPam.Account
import FluxPam.Interaction.Expand

namespace FluxPam

open Interaction Prog

/-! ### The uri of an instance -/

theorem afterPrefix_eq_some {pre s rest : String} : afterPrefix pre s = some rest ↔ s = pre ++ rest := by
  rw [afterPrefix, Option.ite_none_right_eq_some, List.isPrefixOf_iff_prefix]
  constructor
  · rintro ⟨⟨tail, htail⟩, hrest⟩
    have hrest : String.ofList (s.toList.drop pre.toList.length) = rest := Option.some.inj hrest
    rw [← htail, List.drop_left] at hrest
    rw [← hrest, ← String.toList_inj, String.toList_append, String.toList_ofList, htail]
  · rintro rfl
    refine ⟨⟨rest.toList, String.toList_append.symm⟩, ?_⟩
    rw [String.toList_append, List.drop_left, String.ofList_toList]

/-- What is left from the first slash on. -/
theorem first_slash : ∀ {cs path : List Char} {c : Char}, cs.dropWhile (· ≠ '/') = c :: path →
    c = '/' ∧ ∃ host, cs = host ++ '/' :: path ∧ '/' ∉ host
  | d :: cs, path, c, h => by
    by_cases hd : d = '/'
    · rw [List.dropWhile_cons_of_neg (by simpa using hd)] at h
      obtain ⟨rfl, rfl⟩ := List.cons.inj h
      exact ⟨hd, [], by rw [hd]; rfl, List.not_mem_nil⟩
    · rw [List.dropWhile_cons_of_pos (by simpa using hd)] at h
      obtain ⟨hc, host, rfl, hhost⟩ := first_slash h
      exact ⟨hc, d :: host, rfl, by simp [hhost, Ne.symm hd]⟩

/-- The host goes, the path stays: `ssh://host/path` becomes `local:///path`, and
nothing else is made a local uri. -/
theorem uriToLocal_eq_some {uri l : String} : uriToLocal uri = some l ↔
    ∃ host path : String, uri = "ssh://" ++ host ++ "/" ++ path ∧ '/' ∉ host.toList ∧
      l = "local://" ++ "/" ++ path := by
  rw [uriToLocal]
  constructor
  · intro h
    cases hrest : afterPrefix "ssh://" uri with
    | none =>
      rw [hrest] at h
      cases h
    | some rest =>
      rw [hrest] at h
      obtain rfl := afterPrefix_eq_some.mp hrest
      cases hdrop : rest.toList.dropWhile (· ≠ '/') with
      | nil =>
        simp only [hdrop] at h
        cases h
      | cons c cs =>
        simp only [hdrop] at h
        obtain ⟨rfl, front, hsplit, hfront⟩ := first_slash hdrop
        refine ⟨String.ofList front, String.ofList cs, ?_, by rwa [String.toList_ofList], ?_⟩
        · rw [← String.toList_inj]
          simp [hsplit]
        · rw [← Option.some.inj h, ← String.toList_inj]
          simp
  · rintro ⟨host, path, rfl, hhost, rfl⟩
    have hrest : afterPrefix "ssh://" ("ssh://" ++ host ++ "/" ++ path) = some (host ++ "/" ++ path) :=
      afterPrefix_eq_some.mpr (by simp only [String.append_assoc])
    have hdrop : (host ++ "/" ++ path).toList.dropWhile (· ≠ '/') = '/' :: path.toList := by
      simp only [String.toList_append, List.append_assoc]
      rw [List.dropWhile_append_of_pos fun c hc => ?_]
      · rfl
      · simpa using fun h : c = '/' => hhost (h ▸ hc)
    rw [hrest]
    simp only [hdrop]
    rw [Option.some.injEq, ← String.toList_inj]
    simp

/-! ### What may be granted -/

/-- An entry of the user's is on the list, and none before it is malformed. -/
def OwnJob (uid : Uid) (jobs : List Json) : Prop :=
  ∃ front entry back job, jobs = front ++ entry :: back ∧ (∀ e ∈ front, unpackEntry e ≠ none) ∧
    unpackEntry entry = some job ∧ job.userid = uid

/-- The local socket of an instance, as an entry gives it. -/
def LocalSocket (uri l : String) : Prop :=
  ∃ host path : String, uri = "ssh://" ++ host ++ "/" ++ path ∧ '/' ∉ host.toList ∧
    l = "local://" ++ "/" ++ path

/-- An instance whose job an entry of the user `allow` is, and which starts on the
node `rank`; asked through its local socket, it said that it lets guests in. -/
structure GuestInstance (X : Externals) (rank : ℕ) (allow : Uid) (jobs : List Json) (t : List Event) :
    Prop where
  entry : ∃ entry ∈ jobs, ∃ job ids uri l config, unpackEntry entry = some job ∧ job.userid = allow ∧
    X.idsetDecode job.ranks = some ids ∧ idsetFirst X ids = rank ∧
    job.uri = some uri ∧ LocalSocket uri l ∧
    ⟨.fluxOpen (some l), .ok ()⟩ ∈ t ∧ ⟨.configGet (some l), .ok config⟩ ∈ t ∧
    unpackFlag "access" "allow-guest-user" config = some true

variable {X : Externals} {t t' : List Event} {rank : ℕ} {uid allow : Uid} {jobs : List Json}

theorem OwnJob.cons {entry : Json} {job : JobEntry} (he : unpackEntry entry = some job)
    (h : OwnJob uid jobs) : OwnJob uid (entry :: jobs) := by
  obtain ⟨front, entry', back, job', rfl, hfront, he', hu⟩ := h
  exact ⟨entry :: front, entry', back, job', rfl, List.forall_mem_cons.mpr ⟨by simp [he], hfront⟩, he', hu⟩

/-- A list whose first entry is another user's. -/
theorem OwnJob.tail {entry : Json} {job : JobEntry} (he : unpackEntry entry = some job)
    (hu : job.userid ≠ uid) (h : OwnJob uid (entry :: jobs)) : OwnJob uid jobs := by
  obtain ⟨front, entry', back, job', heq, hfront, he', hu'⟩ := h
  cases front with
  | nil =>
    obtain ⟨rfl, rfl⟩ := List.cons.inj heq
    rw [he] at he'
    cases he'
    exact absurd hu' hu
  | cons e front =>
    obtain ⟨rfl, rfl⟩ := List.cons.inj heq
    exact ⟨front, entry', back, job', rfl, fun e he => hfront e (List.mem_cons_of_mem _ he), he', hu'⟩

theorem GuestInstance.mono {jobs' : List Json} (h : GuestInstance X rank allow jobs t)
    (hj : ∀ e ∈ jobs, e ∈ jobs') (ht : ∀ e ∈ t, e ∈ t') : GuestInstance X rank allow jobs' t' := by
  obtain ⟨entry, hmem, job, ids, uri, l, config, he, hu, hi, hr, huri, hl, hopen, hget, hflag⟩ := h
  exact ⟨entry, hj _ hmem, job, ids, uri, l, config, he, hu, hi, hr, huri, hl, ht _ hopen, ht _ hget, hflag⟩

/-! ### The functions -/

/-- An instance is talked to through its local socket, and nobody else is. -/
def Contacts (o : Op) : Prop :=
  ∃ uri l, LocalSocket uri l ∧ (o = .fluxOpen (some l) ∨ o = .configGet (some l))

theorem traces_checkGuestAllowed {uri : Option String} {b : Bool}
    (h : Traces (checkGuestAllowed uri) t b) : (∀ e ∈ t, Contacts e.1) ∧ (b = true →
      ∃ u l config, uri = some u ∧ LocalSocket u l ∧ ⟨.fluxOpen (some l), .ok ()⟩ ∈ t ∧
        ⟨.configGet (some l), .ok config⟩ ∈ t ∧ unpackFlag "access" "allow-guest-user" config = some true) := by
  cases uri with
  | none =>
    obtain ⟨rfl, rfl⟩ := traces_pure.mp h
    exact ⟨by simp, by simp⟩
  | some u =>
    rw [checkGuestAllowed] at h
    cases hl : uriToLocal u with
    | none =>
      rw [hl] at h
      obtain ⟨rfl, rfl⟩ := traces_pure.mp h
      exact ⟨by simp, by simp⟩
    | some l =>
      have hsocket : LocalSocket u l := uriToLocal_eq_some.mp hl
      rw [hl] at h
      obtain ⟨r, t₁, rfl, h₁⟩ := traces_performBind.mp h
      have hopen : Contacts (.fluxOpen (some l)) := ⟨u, l, hsocket, .inl rfl⟩
      rcases r with e | ⟨⟩
      · obtain ⟨rfl, rfl⟩ := traces_pure.mp h₁
        exact ⟨by simpa using hopen, by simp⟩
      obtain ⟨r, t₂, rfl, h₂⟩ := traces_performBind.mp h₁
      have hget : Contacts (.configGet (some l)) := ⟨u, l, hsocket, .inr rfl⟩
      rcases r with e | config
      · obtain ⟨rfl, rfl⟩ := traces_pure.mp h₂
        exact ⟨by simpa using ⟨hopen, hget⟩, by simp⟩
      · obtain ⟨rfl, rfl⟩ := traces_pure.mp h₂
        refine ⟨by simpa using ⟨hopen, hget⟩, fun hb => ⟨u, l, config, rfl, hsocket, by simp, by simp, ?_⟩⟩
        cases hflag : unpackFlag "access" "allow-guest-user" config with
        | none => simp [hflag] at hb
        | some flag => simpa [hflag] using hb

/-- The classification of a list, whatever its entries are. -/
theorem traces_checkJobsArray : ∀ {jobs : List Json} {t : List Event} {a : FluxAuth},
    Traces (checkJobsArray X rank uid allow jobs) t a →
      (∀ e ∈ t, allow ≠ uid ∧ Contacts e.1) ∧ (a = .jobOwner → OwnJob uid jobs) ∧
      (a = .guest → allow ≠ uid ∧ GuestInstance X rank allow jobs t) ∧ (a = .denied → ¬ OwnJob uid jobs)
  | [], t, a, h => by
    obtain ⟨rfl, rfl⟩ := traces_pure.mp h
    refine ⟨by simp, by simp, by simp, fun _ => ?_⟩
    rintro ⟨front, entry, back, job, heq, -⟩
    simp at heq
  | entry :: jobs, t, a, h => by
    rw [checkJobsArray] at h
    cases he : unpackEntry entry with
    | none =>
      rw [he] at h
      obtain ⟨rfl, rfl⟩ := traces_pure.mp h
      refine ⟨by simp, by simp, by simp, fun _ => ?_⟩
      rintro ⟨front, entry', back, job, heq, hfront, he', -⟩
      cases front with
      | nil =>
        obtain ⟨rfl, rfl⟩ := List.cons.inj heq
        cases he.symm.trans he'
      | cons e front =>
        obtain ⟨rfl, rfl⟩ := List.cons.inj heq
        exact hfront _ List.mem_cons_self he
    | some job =>
      rw [he] at h
      dsimp only at h
      split at h
      · rename_i hu
        obtain ⟨rfl, rfl⟩ := traces_pure.mp h
        exact ⟨by simp, fun _ => ⟨[], entry, jobs, job, rfl, by simp, he, hu⟩, by simp, by simp⟩
      rename_i hu
      -- the rest of the list decides
      have hrest : ∀ {t₁ t₂ : List Event}, t = t₁ ++ t₂ → (∀ e ∈ t₁, allow ≠ uid ∧ Contacts e.1) →
          Traces (checkJobsArray X rank uid allow jobs) t₂ a →
          (∀ e ∈ t, allow ≠ uid ∧ Contacts e.1) ∧ (a = .jobOwner → OwnJob uid (entry :: jobs)) ∧
          (a = .guest → allow ≠ uid ∧ GuestInstance X rank allow (entry :: jobs) t) ∧
          (a = .denied → ¬ OwnJob uid (entry :: jobs)) := by
        rintro t₁ t₂ rfl ht₁ h₂
        obtain ⟨hcontacts, hown, hguest, hdenied⟩ := traces_checkJobsArray h₂
        refine ⟨List.forall_mem_append.mpr ⟨ht₁, hcontacts⟩, fun ha => (hown ha).cons he, fun ha => ?_,
          fun ha ho => hdenied ha (ho.tail he hu)⟩
        exact ⟨(hguest ha).1, (hguest ha).2.mono (fun e => List.mem_cons_of_mem _)
          fun e => List.mem_append_right _⟩
      split at h
      · rename_i hallow
        have hne : allow ≠ uid := hallow ▸ hu
        obtain ⟨t₁, b, t₂, hb, h₂, rfl⟩ := traces_bind.mp h
        have hgranted : (∀ e ∈ t₁, allow ≠ uid ∧ Contacts e.1) ∧
            (b = true → GuestInstance X rank allow (entry :: jobs) (t₁ ++ t₂)) := by
          rw [guestGranted] at hb
          cases hids : X.idsetDecode job.ranks with
          | none =>
            rw [hids] at hb
            obtain ⟨rfl, rfl⟩ := traces_pure.mp hb
            exact ⟨by simp, by simp⟩
          | some ids =>
            rw [hids] at hb
            dsimp only at hb
            split at hb
            · rename_i hr
              obtain ⟨hcontacts, hinst⟩ := traces_checkGuestAllowed hb
              refine ⟨fun e he => ⟨hne, hcontacts e he⟩, fun hb => ?_⟩
              obtain ⟨u, l, config, huri, hl, hopen, hget, hflag⟩ := hinst hb
              exact ⟨entry, List.mem_cons_self, job, ids, u, l, config, he, hallow, hids, hr.symm, huri, hl,
                List.mem_append_left _ hopen, List.mem_append_left _ hget, hflag⟩
            · obtain ⟨rfl, rfl⟩ := traces_pure.mp hb
              exact ⟨by simp, by simp⟩
        cases b with
        | true =>
          obtain ⟨rfl, rfl⟩ := traces_pure.mp h₂
          rw [List.append_nil] at hgranted ⊢
          exact ⟨hgranted.1, by simp, fun _ => ⟨hne, hgranted.2 rfl⟩, by simp⟩
        | false => exact hrest rfl hgranted.1 h₂
      · exact hrest (List.nil_append t).symm (by simp) h

theorem parseOptions_allowGuestUser : ∀ {argv : List String} {defaults opts : Options},
    parseOptions defaults argv = some opts → opts.allowGuestUser = true →
      defaults.allowGuestUser = true ∨ "allow-guest-user" ∈ argv
  | [], defaults, opts, h, ho => by
    obtain rfl : defaults = opts := Option.some.inj h
    exact .inl ho
  | arg :: argv, defaults, opts, h, ho => by
    rw [parseOptions] at h
    split at h
    · rename_i harg
      exact .inr (by simp [harg])
    have hrest : ∀ defaults' : Options, defaults'.allowGuestUser = defaults.allowGuestUser →
        parseOptions defaults' argv = some opts →
        defaults.allowGuestUser = true ∨ "allow-guest-user" ∈ arg :: argv := fun defaults' hd h =>
      (parseOptions_allowGuestUser h ho).imp (fun h => hd ▸ h) (List.mem_cons_of_mem _)
    split at h
    · exact hrest _ (by rfl) h
    split at h
    · exact hrest _ (by rfl) h
    split at h
    · exact hrest _ (by rfl) h
    · cases h

/-- The instance owner, as the node says. -/
def OwnerIs (allow : Uid) (t : List Event) : Prop :=
  allow ≠ noUid ∧ ∃ text, ⟨.attrGet "security.owner", .ok text⟩ ∈ t ∧ allow = attrUid text

theorem traces_allowIfUser {opts : Options} (h : Traces (allowIfUser opts uid) t allow) :
    (∀ e ∈ t, e.1 = .attrGet "security.owner") ∧
      (allow = uid ∨ opts.allowGuestUser = true ∧ OwnerIs allow t) := by
  rw [allowIfUser] at h
  split at h
  · rename_i hg
    obtain ⟨t₁, owner, t₂, hattr, h₂, rfl⟩ := traces_bind.mp h
    obtain ⟨r, t₃, rfl, h₁⟩ := traces_performBind.mp hattr
    have hread : t₃ = [] ∧ (owner = noUid ∨ ∃ text, r = .ok text ∧ owner = attrUid text) := by
      rcases r with e | text
      · exact (traces_pure.mp h₁).imp_right .inl
      · exact (traces_pure.mp h₁).imp_right fun h => .inr ⟨text, rfl, h⟩
    obtain ⟨rfl, howner⟩ := hread
    split at h₂
    · rename_i hne
      obtain ⟨rfl, rfl⟩ := traces_pure.mp h₂
      obtain ⟨text, rfl, htext⟩ := howner.resolve_left hne
      exact ⟨by simp, .inr ⟨hg, hne, text, by simp, htext⟩⟩
    · obtain ⟨rfl, rfl⟩ := traces_pure.mp h₂
      exact ⟨by simp, .inl rfl⟩
  · obtain ⟨rfl, rfl⟩ := traces_pure.mp h
    exact ⟨by simp, .inl rfl⟩

/-- What the classification asks; instances are contacted for guests only. -/
def asks (opts : Options) : Op → Prop
  | .fluxOpen (some l) => opts.allowGuestUser = true ∧ ∃ uri, LocalSocket uri l
  | .fluxOpen none | .getRank | .attrGet _ | .jobListRpc _ _ _ | .configGet _ => True
  | _ => False

theorem asks_contacts {opts : Options} {o : Op} (hg : opts.allowGuestUser = true) (h : Contacts o) :
    asks opts o := by
  obtain ⟨uri, l, hl, rfl | rfl⟩ := h
  · exact ⟨hg, uri, hl⟩
  · exact trivial

/-- The node answered with a list of the jobs of the user and of `allow` that run
on it. -/
structure Listed (t : List Event) (uid : Uid) (rank : ℕ) (allow : Uid) (jobs : List Json) : Prop where
  opened : ⟨.fluxOpen none, .ok ()⟩ ∈ t
  ranked : ⟨.getRank, .ok rank⟩ ∈ t
  listed : ∃ payload v, ⟨.jobListRpc uid allow (numeral rank), .ok payload⟩ ∈ t ∧
    Json.reqField "jobs" some payload = some v ∧ jobs = arrayElems v

/-- No list was obtained. -/
def Unlisted (t : List Event) : Prop :=
  ∀ uid allow rank payload, ⟨.jobListRpc uid allow rank, .ok payload⟩ ∈ t →
    Json.reqField "jobs" some payload = none

/-- What each classification rests on. -/
def Grounds (X : Externals) (opts : Options) (t : List Event) (uid : Uid) (rank : ℕ) (allow : Uid)
    (jobs : List Json) : FluxAuth → Prop
  | .jobOwner => OwnJob uid jobs
  | .guest => opts.allowGuestUser = true ∧ OwnerIs allow t ∧ GuestInstance X rank allow jobs t
  | .denied => ¬ OwnJob uid jobs

/-- No list was asked for. -/
theorem Unlisted.of_forall (h : ∀ e ∈ t, ∀ uid allow rank, e.1 ≠ .jobListRpc uid allow rank) :
    Unlisted t := fun uid allow rank _ hmem => absurd rfl (h _ hmem uid allow rank)

theorem traces_fluxCheckUser {opts : Options} {a : FluxAuth}
    (h : Traces (fluxCheckUser X opts uid) t a) : (∀ e ∈ t, asks opts e.1) ∧
      (a = .denied ∧ Unlisted t ∨
        ∃ rank allow jobs, Listed t uid rank allow jobs ∧ Grounds X opts t uid rank allow jobs a) := by
  obtain ⟨r, t₁, rfl, h₁⟩ := traces_performBind.mp h
  rcases r with e | ⟨⟩
  · obtain ⟨rfl, rfl⟩ := traces_pure.mp h₁
    exact ⟨by simp [asks], .inl ⟨rfl, .of_forall (by simp)⟩⟩
  obtain ⟨r, t₂, rfl, h₂⟩ := traces_performBind.mp h₁
  rcases r with e | rank
  · obtain ⟨rfl, rfl⟩ := traces_pure.mp h₂
    exact ⟨by simp [asks], .inl ⟨rfl, .of_forall (by simp)⟩⟩
  obtain ⟨t₃, allow, t₄, hallow, h₄, rfl⟩ := traces_bind.mp h₂
  obtain ⟨hasked, howner⟩ := traces_allowIfUser hallow
  have hasks : ∀ e ∈ t₃, asks opts e.1 := fun e he => by rw [hasked e he]; exact trivial
  have hrequest : ∀ e ∈ t₃, ∀ u al r, e.1 ≠ .jobListRpc u al r :=
    fun e he u al r heq => by cases (hasked e he).symm.trans heq
  dsimp only at h₄
  split at h₄
  · obtain ⟨rfl, rfl⟩ := traces_pure.mp h₄
    exact ⟨by simpa [asks] using hasks, .inl ⟨rfl, .of_forall (by simpa using hrequest)⟩⟩
  rename_i hfits
  have hrank : (snprintf 16 (numeral rank)).2 = numeral rank :=
    congrArg Prod.snd (snprintf_of_lt (Nat.lt_of_not_ge hfits))
  rw [hrank] at h₄
  obtain ⟨r, t₅, rfl, h₅⟩ := traces_performBind.mp h₄
  rcases r with e | payload
  · obtain ⟨rfl, rfl⟩ := traces_pure.mp h₅
    refine ⟨by simpa [asks, or_imp, forall_and] using hasks, .inl ⟨rfl, ?_⟩⟩
    intro u al r payload hmem
    simp only [List.mem_cons, List.mem_append, List.not_mem_nil, or_false] at hmem
    rcases hmem with heq | heq | hmem | heq
    · cases heq
    · cases heq
    · exact absurd rfl (hrequest _ hmem u al r)
    · cases heq
  cases hjobs : Json.reqField "jobs" some payload with
  | none =>
    simp only [hjobs] at h₅
    obtain ⟨rfl, rfl⟩ := traces_pure.mp h₅
    refine ⟨by simpa [asks, or_imp, forall_and] using hasks, .inl ⟨rfl, ?_⟩⟩
    intro u al r payload' hmem
    simp only [List.mem_cons, List.mem_append, List.not_mem_nil, or_false] at hmem
    rcases hmem with heq | heq | hmem | heq
    · cases heq
    · cases heq
    · exact absurd rfl (hrequest _ hmem u al r)
    · cases heq
      exact hjobs
  | some v =>
    simp only [hjobs] at h₅
    obtain ⟨hcontacts, hown, hguest, hdenied⟩ := traces_checkJobsArray h₅
    have hg : allow ≠ uid → opts.allowGuestUser = true ∧ OwnerIs allow t₃ := fun hne =>
      howner.resolve_left hne
    have hrest : ∀ e ∈ t₅, asks opts e.1 := fun e he =>
      asks_contacts (hg (hcontacts e he).1).1 (hcontacts e he).2
    refine ⟨by simpa [asks, or_imp, forall_and] using ⟨hasks, hrest⟩, .inr ⟨rank, allow, arrayElems v, ?_, ?_⟩⟩
    · exact ⟨by simp, by simp, payload, v, by simp, hjobs, rfl⟩
    · cases a with
      | jobOwner => exact hown rfl
      | denied => exact hdenied rfl
      | guest =>
        obtain ⟨hne, hinst⟩ := hguest rfl
        obtain ⟨hopt, hno, text, hmem, htext⟩ := hg hne
        refine ⟨hopt, ⟨hno, text, ?_, htext⟩, hinst.mono (fun _ he => he) fun e he => by simp [he]⟩
        simp [hmem]

/-! ### The entry point -/

/-- What is asked about the login itself. -/
def identifies : Op → Prop
  | .pamGetUser | .getpwnam _ | .pamGetService => True
  | _ => False

/-- The user to log in is known, and it is not the service that starts the user's
own manager. -/
structure Identified (argv : List String) (t : List Event) (uid : Uid) : Prop where
  user : ∃ user, ⟨.pamGetUser, .ok (some user)⟩ ∈ t ∧ user ≠ "" ∧ ⟨.getpwnam user, some uid⟩ ∈ t
  service : ∃ service, ⟨.pamGetService, service⟩ ∈ t ∧ service ≠ some "systemd-user"
  options : parseOptions ⟨false, false, "", ""⟩ argv ≠ none

/-- The sentinel is not set. -/
def Unmarked (t : List Event) : Prop := ∀ e ∈ t, ∀ name, e.1 ≠ .pamSetData name

/-- What `pam_sm_acct_mgmt` returns, and what it returns it for. -/
inductive Account (X : Externals) (argv : List String) (t : List Event) : PamRet → Prop where
  | unknown : (∀ e ∈ t, identifies e.1) → Account X argv t .PAM_USER_UNKNOWN
  | options : (∀ e ∈ t, identifies e.1) → parseOptions ⟨false, false, "", ""⟩ argv = none →
      Account X argv t .PAM_SYSTEM_ERR
  | ignored : (∀ e ∈ t, identifies e.1) → ⟨.pamGetService, some "systemd-user"⟩ ∈ t →
      Account X argv t .PAM_IGNORE
  | unlisted {uid : Uid} : Identified argv t uid → Unlisted t → Unmarked t → Account X argv t .PAM_PERM_DENIED
  | denied {uid allow : Uid} {rank : ℕ} {jobs : List Json} : Identified argv t uid →
      Listed t uid rank allow jobs → ¬ OwnJob uid jobs → Unmarked t → Account X argv t .PAM_PERM_DENIED
  | guest {uid allow : Uid} {rank : ℕ} {jobs : List Json} : Identified argv t uid →
      Listed t uid rank allow jobs → "allow-guest-user" ∈ argv → OwnerIs allow t →
      GuestInstance X rank allow jobs t → Unmarked t → Account X argv t .PAM_SUCCESS
  | own {uid allow : Uid} {rank : ℕ} {jobs : List Json} {b : Bool} : Identified argv t uid →
      Listed t uid rank allow jobs → OwnJob uid jobs → ⟨.pamSetData "pam_flux_authorized", b⟩ ∈ t →
      Account X argv t (if b then .PAM_SUCCESS else .PAM_SYSTEM_ERR)

variable {argv : List String} {ret : PamRet}

theorem Listed.mono (h : Listed t uid rank allow jobs) (ht : ∀ e ∈ t, e ∈ t') :
    Listed t' uid rank allow jobs := by
  obtain ⟨hopen, hrank, payload, v, hlist, hv⟩ := h
  exact ⟨ht _ hopen, ht _ hrank, payload, v, ht _ hlist, hv⟩

theorem OwnerIs.mono (h : OwnerIs allow t) (ht : ∀ e ∈ t, e ∈ t') : OwnerIs allow t' := by
  obtain ⟨hno, text, hmem, htext⟩ := h
  exact ⟨hno, text, ht _ hmem, htext⟩

theorem traces_getPamUserUid {r : Option (String × Uid)} (h : Traces getPamUserUid t r) :
    (∀ e ∈ t, identifies e.1) ∧ ∀ user uid, r = some (user, uid) →
      ⟨.pamGetUser, .ok (some user)⟩ ∈ t ∧ user ≠ "" ∧ ⟨.getpwnam user, some uid⟩ ∈ t := by
  obtain ⟨a, t₁, rfl, h₁⟩ := traces_performBind.mp h
  rcases a with e | _ | user
  · obtain ⟨rfl, rfl⟩ := traces_pure.mp h₁
    exact ⟨by simp [identifies], by simp⟩
  · obtain ⟨rfl, rfl⟩ := traces_pure.mp h₁
    exact ⟨by simp [identifies], by simp⟩
  dsimp only at h₁
  split at h₁
  · obtain ⟨rfl, rfl⟩ := traces_pure.mp h₁
    exact ⟨by simp [identifies], by simp⟩
  rename_i hne
  obtain ⟨a, t₂, rfl, h₂⟩ := traces_performBind.mp h₁
  rcases a with _ | uid
  · obtain ⟨rfl, rfl⟩ := traces_pure.mp h₂
    exact ⟨by simp [identifies], by simp⟩
  · obtain ⟨rfl, rfl⟩ := traces_pure.mp h₂
    refine ⟨by simp [identifies], ?_⟩
    rintro _ _ ⟨⟩
    exact ⟨by simp, hne, by simp⟩

/-- What is known before Flux is asked. -/
theorem traces_acctPrelude {r : PamRet ⊕ (String × Uid × Options)} (h : Traces (acctPrelude argv) t r) :
    (∀ e ∈ t, identifies e.1) ∧ (∀ ret, r = .inl ret → Account X argv t ret) ∧
      ∀ user uid opts, r = .inr (user, uid, opts) → Identified argv t uid ∧
        parseOptions ⟨false, false, "", ""⟩ argv = some opts := by
  obtain ⟨t₁, found, t₂, hfound, h₂, rfl⟩ := traces_bind.mp h
  obtain ⟨hasks, huser⟩ := traces_getPamUserUid hfound
  cases found with
  | none =>
    obtain ⟨rfl, rfl⟩ := traces_pure.mp h₂
    rw [List.append_nil]
    refine ⟨hasks, ?_, by simp⟩
    rintro _ ⟨⟩
    exact .unknown hasks
  | some found =>
    obtain ⟨user, uid⟩ := found
    dsimp only at h₂
    cases hopts : parseOptions ⟨false, false, "", ""⟩ argv with
    | none =>
      rw [hopts] at h₂
      obtain ⟨rfl, rfl⟩ := traces_pure.mp h₂
      rw [List.append_nil]
      refine ⟨hasks, ?_, by simp⟩
      rintro _ ⟨⟩
      exact .options hasks hopts
    | some opts =>
      rw [hopts] at h₂
      obtain ⟨service, t₃, rfl, h₃⟩ := traces_performBind.mp h₂
      have hasks₃ : ∀ e ∈ t₁ ++ [⟨.pamGetService, service⟩], identifies e.1 :=
        List.forall_mem_append.mpr ⟨hasks, by simp [identifies]⟩
      split at h₃
      · rename_i hs
        obtain ⟨rfl, rfl⟩ := traces_pure.mp h₃
        refine ⟨hasks₃, ?_, by simp⟩
        rintro _ ⟨⟩
        exact .ignored hasks₃ (by simp [hs])
      · rename_i hs
        obtain ⟨rfl, rfl⟩ := traces_pure.mp h₃
        refine ⟨hasks₃, by simp, ?_⟩
        rintro _ _ _ ⟨⟩
        obtain ⟨hget, hne, hpw⟩ := huser user uid rfl
        exact ⟨⟨⟨user, by simp [hget], hne, by simp [hpw]⟩, ⟨service, by simp, hs⟩, by simp [hopts]⟩, rfl⟩

/-- What tells the user. -/
def tells : Op → Prop
  | .pamGetConv | .pamConverse _ => True
  | _ => False

theorem traces_sendDenialMsg {user : String} {u : Unit} (h : Traces (sendDenialMsg user) t u) :
    ∀ e ∈ t, tells e.1 := by
  obtain ⟨b, t₁, rfl, h₁⟩ := traces_performBind.mp h
  cases b with
  | false =>
    obtain ⟨rfl, rfl⟩ := traces_pure.mp h₁
    simp [tells]
  | true =>
    obtain rfl := traces_perform.mp h₁
    simp [tells]

/-- The sentinel is for a job owner; only who is refused is told. -/
theorem traces_acctResult {user : String} {a : FluxAuth} (h : Traces (acctResult user a) t ret) :
    (a = .jobOwner ∧ ∃ b : Bool, t = [⟨.pamSetData "pam_flux_authorized", b⟩] ∧
      ret = if b then .PAM_SUCCESS else .PAM_SYSTEM_ERR) ∨
    (∀ e ∈ t, tells e.1) ∧
      (a = .guest ∧ ret = .PAM_SUCCESS ∨ a = .denied ∧ ret = .PAM_PERM_DENIED) := by
  cases a with
  | denied =>
    obtain ⟨t₁, u, t₂, hsend, h₂, rfl⟩ := traces_bind.mp h
    obtain ⟨rfl, rfl⟩ := traces_pure.mp h₂
    rw [List.append_nil]
    exact .inr ⟨traces_sendDenialMsg hsend, .inr ⟨rfl, rfl⟩⟩
  | guest =>
    obtain ⟨rfl, rfl⟩ := traces_pure.mp h
    exact .inr ⟨by simp, .inl ⟨rfl, rfl⟩⟩
  | jobOwner =>
    obtain ⟨b, t₁, rfl, h₁⟩ := traces_performBind.mp h
    cases b <;> obtain ⟨rfl, rfl⟩ := traces_pure.mp h₁ <;> exact .inl ⟨rfl, _, rfl, rfl⟩

/-- The login of a user who is identified, by what the classification rests on. -/
theorem account_of_result {opts : Options} {user : String} {t₁ t₂ t₃ : List Event} {a : FluxAuth}
    (hid : Identified argv t₁ uid) (hasks₁ : ∀ e ∈ t₁, identifies e.1)
    (hopt : opts.allowGuestUser = true → "allow-guest-user" ∈ argv)
    (hcheck : Traces (fluxCheckUser X opts uid) t₂ a) (hresult : Traces (acctResult user a) t₃ ret) :
    Account X argv (t₁ ++ (t₂ ++ t₃)) ret := by
  obtain ⟨hasks₂, hgrounds⟩ := traces_fluxCheckUser hcheck
  have hid' : Identified argv (t₁ ++ (t₂ ++ t₃)) uid := by
    obtain ⟨⟨user, hget, hne, hpw⟩, ⟨service, hserv, hs⟩, ho⟩ := hid
    exact ⟨⟨user, by simp [hget], hne, by simp [hpw]⟩, ⟨service, by simp [hserv], hs⟩, ho⟩
  have hin : ∀ e ∈ t₂, e ∈ t₁ ++ (t₂ ++ t₃) := fun e he => by simp [he]
  have hunmarked : (∀ e ∈ t₃, tells e.1) → Unmarked (t₁ ++ (t₂ ++ t₃)) := by
    intro htells e he name heq
    simp only [List.mem_append] at he
    rcases he with he | he | he
    · exact absurd (hasks₁ e he) (by rw [heq]; exact id)
    · exact absurd (hasks₂ e he) (by rw [heq]; exact id)
    · exact absurd (htells e he) (by rw [heq]; exact id)
  have hunlisted : (∀ e ∈ t₃, tells e.1) → Unlisted t₂ → Unlisted (t₁ ++ (t₂ ++ t₃)) := by
    intro htells hno u al rank payload he
    simp only [List.mem_append] at he
    rcases he with he | he | he
    · exact (hasks₁ _ he).elim
    · exact hno u al rank payload he
    · exact (htells _ he).elim
  rcases traces_acctResult hresult with ⟨rfl, b, ht₃, rfl⟩ | ⟨htells, ⟨rfl, rfl⟩ | ⟨rfl, rfl⟩⟩
  · obtain ⟨hdenied, -⟩ | ⟨rank, allow, jobs, hlisted, hown⟩ := hgrounds
    · cases hdenied
    · exact .own hid' (hlisted.mono hin) hown (by simp [ht₃])
  · obtain ⟨hdenied, -⟩ | ⟨rank, allow, jobs, hlisted, hguest, howner, hinst⟩ := hgrounds
    · cases hdenied
    · exact .guest hid' (hlisted.mono hin) (hopt hguest) (howner.mono hin)
        (hinst.mono (fun _ he => he) hin) (hunmarked htells)
  · obtain ⟨-, hno⟩ | ⟨rank, allow, jobs, hlisted, hown⟩ := hgrounds
    · exact .unlisted hid' (hunlisted htells hno) (hunmarked htells)
    · exact .denied hid' (hlisted.mono hin) hown (hunmarked htells)

/-- **An admission rests on what the node said.** Whatever the node answers,
`pam_sm_acct_mgmt` admits a user it identified either for a job of the user's on
the list the node gave, after setting the sentinel, or with `allow-guest-user`
for an instance of the owner that starts on this node and, asked through its
local socket, lets guests in, and then without the sentinel; it denies a user
only for want of a list or of a job of the user's on it. -/
theorem account_outcome (h : Traces (pamSmAcctMgmt X argv) t ret) : Account X argv t ret ∧
    ∀ l r, ⟨.fluxOpen (some l), r⟩ ∈ t → "allow-guest-user" ∈ argv ∧ ∃ uri, LocalSocket uri l := by
  obtain ⟨t₁, r, t₂, hprelude, h₂, rfl⟩ := traces_bind.mp h
  obtain ⟨hasks₁, hstop, hgo⟩ := traces_acctPrelude hprelude
  rcases r with ret' | ⟨user, uid, opts⟩
  · obtain ⟨rfl, rfl⟩ := traces_pure.mp h₂
    rw [List.append_nil]
    exact ⟨hstop _ rfl, fun l r hmem => (hasks₁ _ hmem).elim⟩
  · obtain ⟨hid, hopts⟩ := hgo user uid opts rfl
    obtain ⟨t₃, a, t₄, hcheck, hresult, rfl⟩ := traces_bind.mp h₂
    have hopt : opts.allowGuestUser = true → "allow-guest-user" ∈ argv := fun ho =>
      (parseOptions_allowGuestUser hopts ho).resolve_left Bool.false_ne_true
    refine ⟨account_of_result hid hasks₁ hopt hcheck hresult, fun l r hmem => ?_⟩
    simp only [List.mem_append] at hmem
    rcases hmem with hmem | hmem | hmem
    · exact (hasks₁ _ hmem).elim
    · obtain ⟨hguest, hl⟩ := (traces_fluxCheckUser hcheck).1 _ hmem
      exact ⟨hopt hguest, hl⟩
    · rcases traces_acctResult hresult with ⟨rfl, b, rfl, -⟩ | ⟨htells, -⟩
      · simp at hmem
      · exact (htells _ hmem).elim

/-- The node of a guest: the instance of the owner 1000 starts here. -/
def guestScript : List Event :=
  [⟨.pamGetUser, .ok (some "guest")⟩, ⟨.getpwnam "guest", some 1001⟩, ⟨.pamGetService, some "sshd"⟩,
    ⟨.fluxOpen none, .ok ()⟩, ⟨.getRank, .ok 3⟩, ⟨.attrGet "security.owner", .ok "1000"⟩,
    ⟨.jobListRpc 1001 1000 "3", .ok (.obj [("jobs", .arr [
      .obj [("userid", .int 1000), ("ranks", .str "3"),
        ("annotations", .obj [("user", .obj [("uri", .str "ssh://node/run/flux/local")])])]])])⟩,
    ⟨.fluxOpen (some "local:///run/flux/local"), .ok ()⟩,
    ⟨.configGet (some "local:///run/flux/local"),
      .ok (.obj [("access", .obj [("allow-guest-user", .bool true)])])⟩]

/-- A guest is let in. -/
theorem account_outcome_guest : Traces (pamSmAcctMgmt .single ["allow-guest-user"]) guestScript .PAM_SUCCESS ∧
    Account .single ["allow-guest-user"] guestScript .PAM_SUCCESS := by
  have h : Traces (pamSmAcctMgmt .single ["allow-guest-user"]) guestScript .PAM_SUCCESS :=
    traces_of_script (n := 20) (by with_unfolding_all rfl)
  exact ⟨h, (account_outcome h).1⟩

end FluxPam
