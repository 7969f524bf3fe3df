/-
# How a login is classified

`check_jobs_array` stops at the first entry that grants anything. What it is
for (`Login.expected`) looks at the whole list: a user with a job of their own
is the job owner, else an instance that lets guests in makes a guest. The two
agree except on a list where an instance that lets the user in as a guest
stands before the first of the user's own jobs (`Login.shadowed`): there the
user is taken for a guest, gets no sentinel and is admitted without a scope.
-/
import FluxPam.Account

namespace FluxPam

open Interaction

/-! ### The logins -/

/-- An entry of the job list that is well formed: an object whose `userid` is a
uid and whose `ranks` is the text of an idset that is not empty. -/
structure WellFormedEntry (X : Externals) where
  json : Json
  userid : ℕ
  ranks : String
  ids : List ℕ
  uri : Option String
  useridField : json.get? "userid" = some (.int userid)
  userid_lt : userid < 2 ^ 32 - 1
  unpacks : unpackEntry json = some ⟨BitVec.ofNat 32 userid, ranks, uri⟩
  decodes : X.idsetDecode ranks = some ids
  nonempty : ids ≠ []

/-- A login up to the classification: how the node answers, the options, the
user and the list `job-list` answers. -/
structure Login (X : Externals) where
  answer : (o : Op) → Res o
  opts : Options
  uid : Uid
  rank : ℕ
  entries : List (WellFormedEntry X)
  payload : Json
  rank_lt : rank < 2 ^ 32
  opened : answer (.fluxOpen none) = .ok ()
  ranked : answer .getRank = .ok rank
  listed : ∀ allow, answer (.jobListRpc uid allow (numeral rank)) = .ok payload
  jobs : Json.reqField "jobs" some payload = some (.arr (entries.map (·.json)))

variable {X : Externals}

namespace Login

variable (L : Login X)

/-- The classification the code computes. -/
def result : FluxAuth := Prog.eval L.answer (fluxCheckUser X L.opts L.uid)

/-- The instance owner as the module reads it; `noUid` if it cannot. -/
def owner : Uid := Prog.eval L.answer (attrGetUid "security.owner")

def own (e : WellFormedEntry X) : Prop := e.userid = L.uid.toNat

/-- The entry is the instance owner's, this node is the first of its ranks, and
its instance allows guests. -/
def admitsGuest (e : WellFormedEntry X) : Prop :=
  e.userid = L.owner.toNat ∧ e.ids.min? = some L.rank ∧
    Prog.eval L.answer (checkGuestAllowed e.uri) = true

/-- Whether `allow-guest-user` is set and there is an owner to allow it for. -/
def guests : Prop := L.opts.allowGuestUser = true ∧ L.owner ≠ noUid

instance (e : WellFormedEntry X) : Decidable (L.own e) := inferInstanceAs (Decidable (_ = _))
instance (e : WellFormedEntry X) : Decidable (L.admitsGuest e) :=
  inferInstanceAs (Decidable (_ ∧ _ ∧ _))
instance : Decidable L.guests := inferInstanceAs (Decidable (_ ∧ _))

/-- What the classification is for. -/
def expected : FluxAuth :=
  if ∃ e ∈ L.entries, L.own e then .jobOwner
  else if L.guests ∧ ∃ e ∈ L.entries, L.admitsGuest e then .guest
  else .denied

/-- An entry that admits the user as a guest stands before the first of the
user's own. -/
def shadowed : Prop :=
  L.guests ∧ ∃ front e back, L.entries = front ++ e :: back ∧ L.own e ∧
    (∀ f ∈ front, ¬ L.own f) ∧ ∃ g ∈ front, L.admitsGuest g

/-! ### The scan -/

/-- Whose jobs grant guest access. -/
def allow : Uid := Prog.eval L.answer (allowIfUser L.opts L.uid)

theorem allow_eq : L.allow = if L.guests then L.owner else L.uid := by
  unfold allow allowIfUser
  by_cases h : L.opts.allowGuestUser = true
  · rw [if_pos h, Prog.eval_bind]
    change Prog.eval L.answer (if L.owner ≠ noUid then pure L.owner else pure L.uid) = _
    by_cases ho : L.owner ≠ noUid
    · rw [if_pos ho, if_pos ⟨h, ho⟩]
      rfl
    · rw [if_neg ho, if_neg fun hg => ho hg.2]
      rfl
  · rw [if_neg h, if_neg fun hg => h hg.1]
    rfl

theorem ofNat_eq_iff {n : ℕ} {u : Uid} (h : n < 2 ^ 32 - 1) : BitVec.ofNat 32 n = u ↔ n = u.toNat := by
  rw [BitVec.toNat_eq, BitVec.toNat_ofNat, Nat.mod_eq_of_lt (by omega)]

/-- Whether an entry of the allowed user lets a guest in. -/
theorem eval_guestGranted (e : WellFormedEntry X) {u : Uid} :
    Prog.eval L.answer (guestGranted X L.rank ⟨u, e.ranks, e.uri⟩) = true ↔
      e.ids.min? = some L.rank ∧ Prog.eval L.answer (checkGuestAllowed e.uri) = true := by
  obtain ⟨m, hm⟩ : ∃ m, e.ids.min? = some m := by
    cases h : e.ids.min? with
    | none => exact absurd (List.min?_eq_none_iff.mp h) e.nonempty
    | some m => exact ⟨m, rfl⟩
  simp only [guestGranted, e.decodes, idsetFirst, hm, Option.getD_some, Option.some.injEq]
  by_cases h : L.rank = m
  · rw [if_pos h, and_iff_right h.symm]
  · rw [if_neg h]
    constructor
    · intro h'
      cases h'
    · rintro ⟨rfl, -⟩
      exact absurd rfl h

/-- The scan, in terms of what the entries grant. -/
def scan : List (WellFormedEntry X) → FluxAuth
  | [] => .denied
  | e :: es => if L.own e then .jobOwner
    else if L.guests ∧ L.admitsGuest e then .guest
    else scan es

theorem eval_checkJobsArray : ∀ es : List (WellFormedEntry X),
    Prog.eval L.answer (checkJobsArray X L.rank L.uid L.allow (es.map (·.json))) = L.scan es
  | [] => rfl
  | e :: es => by
    have ih := eval_checkJobsArray es
    simp only [List.map_cons, checkJobsArray, e.unpacks, ofNat_eq_iff e.userid_lt, scan]
    by_cases how : e.userid = L.uid.toNat
    · rw [if_pos how, if_pos (show L.own e from how)]
      rfl
    rw [if_neg how, if_neg (show ¬ L.own e from how)]
    by_cases hall : e.userid = L.allow.toNat
    · rw [if_pos hall]
      have hg : L.guests := by
        by_contra hg
        rw [allow_eq, if_neg hg] at hall
        exact how hall
      rw [allow_eq, if_pos hg] at hall
      rw [Prog.eval_bind]
      by_cases hgr : Prog.eval L.answer (guestGranted X L.rank
          ⟨BitVec.ofNat 32 e.userid, e.ranks, e.uri⟩) = true
      · rw [if_pos hgr, if_pos ⟨hg, hall, (L.eval_guestGranted e).mp hgr⟩]
        rfl
      · rw [if_neg hgr, if_neg fun h => hgr ((L.eval_guestGranted e).mpr h.2.2), ih]
    · rw [if_neg hall, ih, if_neg]
      rintro ⟨hg, ho, -⟩
      rw [allow_eq, if_pos hg] at hall
      exact hall ho

theorem result_eq_scan : L.result = L.scan L.entries := by
  have hsize : (numeral L.rank).utf8ByteSize < 16 := by
    have := numeral_size (k := 10) (by decide) (lt_trans L.rank_lt (by decide))
    omega
  simp only [result, fluxCheckUser, perform, Prog.eval_bind, Prog.eval_perform, L.opened, L.ranked]
  generalize hs : snprintf 16 (numeral L.rank) = ns
  rw [snprintf_of_lt hsize] at hs
  subst hs
  rw [if_neg (by simpa using hsize)]
  simp only [Prog.eval_bind, Prog.eval_perform, L.listed, L.jobs, arrayElems]
  exact L.eval_checkJobsArray L.entries

/-! ### The scan and what it is for -/

theorem scan_of_no_own : ∀ {es : List (WellFormedEntry X)}, (∀ e ∈ es, ¬ L.own e) →
    L.scan es = if L.guests ∧ ∃ e ∈ es, L.admitsGuest e then .guest else .denied
  | [], _ => by simp [scan]
  | e :: es, h => by
    rw [scan, if_neg (h e (by simp)), scan_of_no_own fun f hf => h f (by simp [hf])]
    by_cases hg : L.guests ∧ L.admitsGuest e
    · rw [if_pos hg, if_pos ⟨hg.1, e, by simp, hg.2⟩]
    · rw [if_neg hg]
      refine if_congr (and_congr_right fun hG => ?_) rfl rfl
      simp only [List.mem_cons, exists_eq_or_imp]
      exact (or_iff_right fun h => hg ⟨hG, h⟩).symm

/-- Up to its first own entry a list is scanned as if there were none. -/
theorem scan_append : ∀ {front back : List (WellFormedEntry X)} {e}, (∀ f ∈ front, ¬ L.own f) →
    L.own e → L.scan (front ++ e :: back) =
      if L.guests ∧ ∃ g ∈ front, L.admitsGuest g then .guest else .jobOwner
  | [], back, e, _, he => by simp [scan, he]
  | f :: front, back, e, h, he => by
    rw [List.cons_append, scan, if_neg (h f (by simp)),
      scan_append (fun g hg => h g (by simp [hg])) he]
    by_cases hg : L.guests ∧ L.admitsGuest f
    · rw [if_pos hg, if_pos ⟨hg.1, f, by simp, hg.2⟩]
    · rw [if_neg hg]
      refine if_congr (and_congr_right fun hG => ?_) rfl rfl
      simp only [List.mem_cons, exists_eq_or_imp]
      exact (or_iff_right fun h => hg ⟨hG, h⟩).symm

theorem exists_first_own : ∀ (es : List (WellFormedEntry X)), (∃ e ∈ es, L.own e) →
    ∃ front e back, es = front ++ e :: back ∧ L.own e ∧ ∀ f ∈ front, ¬ L.own f
  | [], h => by simp at h
  | e :: es, h => by
    by_cases he : L.own e
    · exact ⟨[], e, es, rfl, he, by simp⟩
    · obtain ⟨front, f, back, rfl, hf, hfront⟩ := exists_first_own es (by simpa [he] using h)
      exact ⟨e :: front, f, back, rfl, hf, by simpa [he] using hfront⟩

/-- The first own entry of a list is at one place. -/
theorem first_own_unique : ∀ {front front' back back' : List (WellFormedEntry X)} {e e'},
    front ++ e :: back = front' ++ e' :: back' → L.own e → L.own e' → (∀ f ∈ front, ¬ L.own f) →
    (∀ f ∈ front', ¬ L.own f) → front = front'
  | [], [], _, _, _, _, _, _, _, _, _ => rfl
  | [], f :: front', _, _, e, _, h, he, _, _, hf' => by
    simp only [List.nil_append, List.cons_append, List.cons.injEq] at h
    exact absurd he (h.1 ▸ hf' f (by simp))
  | f :: front, [], _, _, _, e', h, _, he', hf, _ => by
    simp only [List.nil_append, List.cons_append, List.cons.injEq] at h
    exact absurd he' (h.1 ▸ hf f (by simp))
  | f :: front, f' :: front', _, _, _, _, h, he, he', hf, hf' => by
    simp only [List.cons_append, List.cons.injEq] at h
    rw [h.1, first_own_unique h.2 he he' (fun g hg => hf g (by simp [hg]))
      fun g hg => hf' g (by simp [hg])]

/-- **Classification.** The code classifies a login as it should exactly when no
entry that admits the user as a guest stands before the first of the user's
own. -/
theorem result_eq_expected (L : Login X) : L.result = L.expected ↔ ¬ L.shadowed := by
  rw [result_eq_scan, expected]
  by_cases hown : ∃ e ∈ L.entries, L.own e
  · obtain ⟨front, e, back, hes, he, hfront⟩ := L.exists_first_own _ hown
    rw [if_pos hown, hes, L.scan_append hfront he]
    have hsh : L.shadowed ↔ L.guests ∧ ∃ g ∈ front, L.admitsGuest g := by
      constructor
      · rintro ⟨hg, front', e', back', hes', he', hfront', h⟩
        rw [L.first_own_unique (hes.symm.trans hes') he he' hfront hfront']
        exact ⟨hg, h⟩
      · rintro ⟨hg, h⟩
        exact ⟨hg, front, e, back, hes, he, hfront, h⟩
    rw [hsh]
    split_ifs with h <;> simp [h]
  · rw [if_neg hown, L.scan_of_no_own fun e he hoe => hown ⟨e, he, hoe⟩]
    refine iff_of_true rfl ?_
    rintro ⟨-, front, e, back, hes, he, -⟩
    exact hown ⟨e, by rw [hes]; simp, he⟩

/-- The user 1001 logs in on rank 0, where the instance owner, 1000, runs an
instance that allows guests, and the user a job that was listed later. -/
def ownerFirst : Login Externals.single where
  answer
    | .fluxOpen _ => .ok ()
    | .getRank => .ok 0
    | .attrGet _ => .ok "1000"
    | .jobListRpc _ _ _ => .ok (.obj [("jobs", .arr [
        .obj [("userid", .int 1000), ("ranks", .str "0"),
          ("annotations", .obj [("user", .obj [("uri", .str "ssh://node/run/flux/local")])])],
        .obj [("userid", .int 1001), ("ranks", .str "0")]])])
    | .configGet _ => .ok (.obj [("access", .obj [("allow-guest-user", .bool true)])])
    | _ => default
  opts := ⟨true, false, "", ""⟩
  uid := 1001
  rank := 0
  entries := [
    { json := .obj [("userid", .int 1000), ("ranks", .str "0"),
        ("annotations", .obj [("user", .obj [("uri", .str "ssh://node/run/flux/local")])])]
      userid := 1000, ranks := "0", ids := [0], uri := some "ssh://node/run/flux/local"
      useridField := rfl, userid_lt := by decide, unpacks := rfl, decodes := by decide
      nonempty := by decide },
    { json := .obj [("userid", .int 1001), ("ranks", .str "0")]
      userid := 1001, ranks := "0", ids := [0], uri := none
      useridField := rfl, userid_lt := by decide, unpacks := rfl, decodes := by decide
      nonempty := by decide }]
  payload := .obj [("jobs", .arr [
    .obj [("userid", .int 1000), ("ranks", .str "0"),
      ("annotations", .obj [("user", .obj [("uri", .str "ssh://node/run/flux/local")])])],
    .obj [("userid", .int 1001), ("ranks", .str "0")]])]
  rank_lt := by decide
  opened := rfl
  ranked := rfl
  listed _ := rfl
  jobs := rfl

/-- A user with a job of their own is taken for a guest. -/
theorem ownerFirst_result : ¬ ∀ L : Login Externals.single, L.result = L.expected := by
  intro h
  have hr : ownerFirst.result = .guest := by rfl
  have he : ownerFirst.expected = .jobOwner := by decide
  have := h ownerFirst
  rw [hr, he] at this
  cases this

end Login

end FluxPam
