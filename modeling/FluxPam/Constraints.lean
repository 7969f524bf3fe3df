/-
# The constraint update of both scripts

`apply_resource_constraints`, as the prolog and housekeeping call it, either
runs one `set-property` or none, and the one it runs carries the mapper's answer
for the union of `R` over all the jobs it is for (`constraints_all_or_nothing`).
The lookup drops the jobs it fails on and reports an error for them; its errors
are read before its results, and the list it is given is never empty, so an
empty union is never taken for one that has nothing to constrain.
-/
import FluxPam.Deeds
import FluxPam.Devices
import FluxPam.Footprint
import Mathlib.Data.List.Forall2

namespace FluxPam

open Interaction Prog Monitor PAMHelper

variable {X : Externals} {R : ℕ → String} {self : PAMHelper} {σ : Type}
  {exec : σ → (o : Op) → Res o → σ → Prop} {w w' : σ} {t : List Event}

/-! ### What the lookup is assumed to do -/

/-- `JobKVSLookup`: `data ()` is the `R` of each job that was found, in order,
and there is an error if one was not. -/
def looksUp (R : ℕ → String) : (o : Op) → Res o → Prop
  | .kvsLookupR ids, r => ∀ results errors, r = .ok (results, errors) →
      ∃ found, found.Sublist ids ∧ results = found.map (fun j => (j, R j)) ∧
        (found ≠ ids → errors ≠ [])
  | _, _ => True

/-- A lookup without errors has found every job. -/
def findsAll (R : ℕ → String) : (o : Op) → Res o → Prop
  | .kvsLookupR ids, r => ∀ results, r = .ok (results, []) → results = ids.map fun j => (j, R j)
  | _, _ => True

theorem findsAll_of_looksUp {o : Op} {r : Res o} (h : looksUp R o r) : findsAll R o r := by
  cases o with
  | kvsLookupR ids =>
    intro results hr
    obtain ⟨found, -, rfl, hfound⟩ := h results [] hr
    by_cases hids : found = ids
    · rw [hids]
    · exact absurd rfl (hfound hids)
  | _ => exact trivial

/-- The resource sets of all of a list of jobs, united in order. -/
def IsUnion (X : Externals) (R : ℕ → String) (ids : List ℕ) (union : X.RSet) : Prop :=
  ∃ first rest, List.Forall₂ (fun j rset => X.resourceSet (R j) = .ok rset) ids (first :: rest) ∧
    union = rest.foldl X.union first

/-! ### The union -/

/-- The loop goes on from a union with the sets that are left. -/
theorem unionLoop_some : ∀ {texts : List String} {u : X.RSet} {r : Option X.RSet},
    unionLoop X (some u) texts = .ok r →
      ∃ rsets, List.Forall₂ (fun text rset => X.resourceSet text = .ok rset) texts rsets ∧
        r = some (rsets.foldl X.union u)
  | [], u, r, h => by
    cases h
    exact ⟨[], .nil, rfl⟩
  | text :: texts, u, r, h => by
    unfold unionLoop at h
    cases hset : X.resourceSet text with
    | error e =>
      rw [hset] at h
      cases h
    | ok rset =>
      rw [hset] at h
      obtain ⟨rsets, hall, hr⟩ := unionLoop_some h
      exact ⟨rset :: rsets, .cons hset hall, hr⟩

theorem unionLoop_none {texts : List String} {u : X.RSet} (h : unionLoop X none texts = .ok (some u)) :
    ∃ first rest, List.Forall₂ (fun text rset => X.resourceSet text = .ok rset) texts (first :: rest) ∧
      u = rest.foldl X.union first := by
  cases texts with
  | nil => cases h
  | cons text texts =>
    unfold unionLoop at h
    cases hset : X.resourceSet text with
    | error e =>
      rw [hset] at h
      cases h
    | ok rset =>
      rw [hset] at h
      obtain ⟨rsets, hall, hr⟩ := unionLoop_some h
      exact ⟨rset, rsets, .cons hset hall, Option.some.inj hr⟩

/-- `resource_union` looks the jobs up once; if it returns, every job was found,
and it returns the union of all of them. -/
theorem runs_unionOf {ids : List ℕ} {r : Except Exn (Option X.RSet)} (hids : ids ≠ [])
    (hR : ∀ e ∈ t, findsAll R e.1 e.2) (h : Runs exec (unionOf X ids).run w t r w') :
    ∃ answer, t = [⟨.kvsLookupR ids, answer⟩] ∧ ∀ u, r = .ok u →
      answer = .ok (ids.map (fun j => (j, R j)), []) ∧ ∃ union, u = some union ∧ IsUnion X R ids union := by
  rw [unionOf, if_neg hids] at h
  rcases runs_raisingBind.mp h with ⟨t₁, ⟨results, errors⟩, w₁, t₂, hlookup, hrest, rfl⟩ | ⟨e, hlookup, rfl⟩
  · obtain ⟨-, rfl⟩ := runs_perform.mp hlookup
    dsimp only at hrest
    by_cases herrors : errors = []
    · subst herrors
      obtain rfl : results = ids.map fun j => (j, R j) :=
        hR ⟨.kvsLookupR ids, _⟩ List.mem_cons_self results rfl
      rw [if_neg (by simp), List.map_map, Function.comp_def] at hrest
      cases hloop : unionLoop X none (ids.map R) with
      | error e =>
        rw [hloop] at hrest
        obtain ⟨rfl, rfl, -⟩ := hrest
        exact ⟨_, rfl, fun u hu => by cases hu⟩
      | ok u =>
        rw [hloop] at hrest
        cases u with
        | none =>
          obtain ⟨rfl, rfl, -⟩ := hrest
          exact ⟨_, rfl, fun u hu => by cases hu⟩
        | some union =>
          obtain ⟨rfl, rfl, -⟩ := hrest
          refine ⟨_, rfl, fun u hu => ⟨rfl, union, (Except.ok.inj hu).symm, ?_⟩⟩
          obtain ⟨first, rest, hall, hunion⟩ := unionLoop_none hloop
          exact ⟨first, rest, List.forall₂_map_left_iff.mp hall, hunion⟩
    · rw [if_pos herrors] at hrest
      obtain ⟨rfl, rfl, -⟩ := hrest
      exact ⟨_, rfl, fun u hu => by cases hu⟩
  · obtain ⟨-, rfl⟩ := runs_perform.mp hlookup
    exact ⟨_, rfl, fun u hu => by cases hu⟩

/-! ### The call -/

namespace PAMHelper

/-- The helper once the jobs are listed. -/
def withJobs (self : PAMHelper) (jobs : List ℕ) : PAMHelper :=
  { self with cachedJobids := some (jobs.filter (· ≠ self.jobid)) }

/-- The jobs an update is for: the other jobs listed, and in the prolog the
starting job. -/
def targets (self : PAMHelper) (includeCurrent : Bool) (jobs : List ℕ) : List ℕ :=
  jobs.filter (· ≠ self.jobid) ++ if includeCurrent then [self.jobid] else []

def setPropertyCommand (self : PAMHelper) (properties : Properties) : List String :=
  [self.systemctl, "set-property", "--runtime", sliceName self.userid] ++ assignments properties

end PAMHelper

/-- A command that sets properties of a slice. -/
def setsProperty : Op → Bool
  | .run (_ :: verb :: _) _ => verb = "set-property"
  | _ => false

/-- What a call does for a list of jobs: nothing if constraints are off; else
one `set-property`, of the mapper's answer for the union of all the jobs, and it
raises if that fails; or it raises and there is no `set-property`. -/
inductive Applied (X : Externals) (R : ℕ → String) (self : PAMHelper) (ids : List ℕ) :
    List Event → Except Exn Unit → Prop where
  | disabled : self.applyResources.truthy = false → Applied X R self ids [] (.ok ())
  | failed {t e} : self.applyResources.truthy = true → (∀ e ∈ t, setsProperty e.1 = false) →
      Applied X R self ids t (.error e)
  | applied {union P answer} : self.applyResources.truthy = true → IsUnion X R ids union →
      Applied X R self ids
        [⟨.kvsLookupR ids, .ok (ids.map (fun j => (j, R j)), [])⟩,
          ⟨.mapperLookup (X.encode union), .ok (some P)⟩, ⟨.run (self.setPropertyCommand P) 30, answer⟩]
        ((answer.mapError RunError.toExn).map fun _ => ())

theorem resourceUnion_withJobs {includeCurrent : Bool} {jobs : List ℕ} :
    resourceUnion X (self.withJobs jobs) includeCurrent = unionOf X (self.targets includeCurrent jobs) := by
  cases includeCurrent
  · rw [targets, if_neg (by simp), List.append_nil]
    rfl
  · rfl

/-- The update of a list of jobs that is not empty. -/
theorem applied_of_runs {includeCurrent : Bool} {jobs : List ℕ} {r : Except Exn Unit}
    (hids : self.targets includeCurrent jobs ≠ []) (hR : ∀ e ∈ t, findsAll R e.1 e.2)
    (h : Runs exec (applyResourceConstraints X (self.withJobs jobs) includeCurrent).run w t r w') :
    Applied X R self (self.targets includeCurrent jobs) t r := by
  rw [applyResourceConstraints, resourceUnion_withJobs] at h
  by_cases hon : self.applyResources.truthy = true
  · rw [if_neg (by simpa [withJobs] using hon)] at h
    rcases runs_exceptBind.mp h with ⟨t₁, u, w₁, t₂, hunion, hrest, rfl⟩ | ⟨e, hunion, rfl⟩
    · obtain ⟨answer, rfl, hok⟩ := runs_unionOf hids (fun e he => hR e (List.mem_append_left _ he)) hunion
      obtain ⟨rfl, union, rfl, hisUnion⟩ := hok u rfl
      rcases runs_raisingBind.mp hrest with ⟨t₃, props, w₂, t₄, hmapper, hset, rfl⟩ | ⟨e, hmapper, rfl⟩
      · obtain ⟨-, rfl⟩ := runs_perform.mp hmapper
        cases props with
        | none =>
          obtain ⟨rfl, rfl, -⟩ := hset
          exact .failed hon (by simp [setsProperty])
        | some P =>
          rcases runs_modifySlice hset with ⟨-, answer, rfl, rfl⟩ | ⟨-, rfl, msg, rfl⟩
          · exact .applied hon hisUnion
          · exact .failed hon (by simp [setsProperty])
      · obtain ⟨-, rfl⟩ := runs_perform.mp hmapper
        exact .failed hon (by simp [setsProperty])
    · obtain ⟨answer, rfl, -⟩ := runs_unionOf hids hR hunion
      exact .failed hon (by simp [setsProperty])
  · rw [if_pos (by simpa [withJobs] using hon)] at h
    obtain ⟨rfl, rfl, -⟩ := h
    exact .disabled (by simpa using hon)

/-! ### What the scripts do around it -/

/-- Neither lists jobs nor sets properties. -/
def idle (o : Op) : Prop := setsProperty o = false ∧ ∀ user rank, o ≠ .jobList user rank

theorem idle_command {arg verb : String} {args : List String} {timeout : ℚ}
    (h : verb ≠ "set-property") : idle (.run (arg :: verb :: args) timeout) :=
  ⟨by simpa [setsProperty] using h, by simp⟩

theorem keeps_userSliceTeardown {fuel : ℕ} :
    Keeps idle (fun _ => True) (userSliceTeardown fuel self).run := by
  rw [← expand_userSliceTeardown self fuel]
  refine keeps_expand (fun d => ?_) _
  have hlooks : ∀ o, looks o → idle o := fun o ho => by
    cases o <;> first | exact ho.elim | exact ⟨rfl, by simp⟩
  cases d with
  | check => exact (keeps_checkOrphanProcesses.imp hlooks).mono fun _ _ _ => trivial
  | stop => exact ⟨idle_command (by decide), fun _ _ => trivial⟩
  | kill signal => exact ⟨idle_command (by decide), fun _ _ => trivial⟩
  | revert => exact ⟨idle_command (by decide), fun _ _ => trivial⟩
  | _ => exact ⟨⟨rfl, by simp⟩, fun _ _ => trivial⟩

theorem runs_activeLocalJobs {r : Except Exn (PAMHelper × ℕ)}
    (h : Runs exec (activeLocalJobs self).run w t r w') :
    (∃ e, t = [⟨.jobList (toString self.userid) (toString self.rank), .error e⟩] ∧
        r = .error e.toExn) ∨
      ∃ jobs, t = [⟨.jobList (toString self.userid) (toString self.rank), .ok jobs⟩] ∧
        r = .ok (self.withJobs jobs, (self.targets false jobs).length) := by
  rcases runs_raisingBind.mp h with ⟨t₁, jobs, w₁, t₂, hlist, ⟨rfl, rfl, -⟩, rfl⟩ | ⟨e, hlist, rfl⟩
  · obtain ⟨-, rfl⟩ := runs_perform.mp hlist
    exact .inr ⟨jobs, rfl, by simp [targets, withJobs]⟩
  · obtain ⟨-, rfl⟩ := runs_perform.mp hlist
    exact .inl ⟨e, rfl, rfl⟩

/-- A run of a script: the call is made for the jobs listed, if it is for any,
and nothing else sets a property; what the script does if it raises is `fails`. -/
inductive Around (X : Externals) (R : ℕ → String) (self : PAMHelper) (includeCurrent : Bool)
    (fails : Exn → Except Exn ℤ) : List Event → Except Exn ℤ → Prop where
  | none {t r} : (∀ e ∈ t, setsProperty e.1 = false) →
      (∀ jobs, self.targets includeCurrent jobs ≠ [] →
        ⟨.jobList (toString self.userid) (toString self.rank), .ok jobs⟩ ∉ t) →
      Around X R self includeCurrent fails t r
  | call {before jobs c after r₁ r} : (∀ e ∈ before, setsProperty e.1 = false) →
      (∀ e ∈ after, setsProperty e.1 = false) → self.targets includeCurrent jobs ≠ [] →
      Applied X R self (self.targets includeCurrent jobs) c r₁ →
      (∀ e, r₁ = .error e → after = [] ∧ r = fails e) →
      Around X R self includeCurrent fails
        (before ++ ⟨.jobList (toString self.userid) (toString self.rank), .ok jobs⟩ :: (c ++ after)) r

variable {includeCurrent : Bool} {fails : Exn → Except Exn ℤ} {r : Except Exn ℤ}

/-- A run in which no jobs are listed. -/
theorem Around.of_idle (h : ∀ e ∈ t, idle e.1) : Around X R self includeCurrent fails t r :=
  .none (fun e he => (h e he).1) fun _ _ hmem => (h _ hmem).2 _ _ rfl

/-- A run that ends where the jobs could not be listed. -/
theorem Around.unlisted {before : List Event} {e : Errno} (h : ∀ e ∈ before, idle e.1) :
    Around X R self includeCurrent fails
      (before ++ [⟨.jobList (toString self.userid) (toString self.rank), .error e⟩]) r := by
  refine .none (fun e he => ?_) fun jobs _ hmem => ?_
  · rcases List.mem_append.mp he with he | he
    · exact (h e he).1
    · obtain rfl := List.mem_singleton.mp he
      rfl
  · rcases List.mem_append.mp hmem with he | he
    · exact (h _ he).2 _ _ rfl
    · simp at he

theorem idle_of_runs {α : Type} {x : Cmd α} {a : α} (hx : Keeps idle (fun _ => True) x)
    (h : Runs exec x w t a w') : ∀ e ∈ t, idle e.1 :=
  (h.traces.keeps hx).1

theorem setsProperty_of_idle {before : List Event} (h : ∀ e ∈ before, idle e.1) :
    ∀ e ∈ before, setsProperty e.1 = false := fun e he => (h e he).1

theorem targets_true {jobs : List ℕ} : self.targets true jobs ≠ [] := by
  simp [targets]

/-- The prolog once the linger check has passed. -/
theorem around_constrain {before : List Event} (hbefore : ∀ e ∈ before, idle e.1)
    (hR : ∀ e ∈ t, findsAll R e.1 e.2) (h : Runs exec (Prolog.constrain X self).run w t r w') :
    Around X R self true (fun _ => .ok 1) (before ++ t) r := by
  rcases runs_exceptBind.mp h with ⟨t₁, ⟨helper, count⟩, w₁, t₂, hlist, hrest, rfl⟩ | ⟨e, hlist, rfl⟩
  · rcases runs_activeLocalJobs hlist with ⟨e, -, he⟩ | ⟨jobs, rfl, he⟩
    · cases he
    cases he
    obtain ⟨c, r₁, w₂, after, hcall, hpublish, rfl⟩ := runs_attemptBind.mp hrest
    have happlied : Applied X R self (self.targets true jobs) c r₁ :=
      applied_of_runs targets_true (fun e he => hR e (by simp [he])) hcall
    rw [List.singleton_append]
    cases r₁ with
    | error e =>
      obtain ⟨hafter, rfl, -⟩ := hpublish
      exact .call (setsProperty_of_idle hbefore) (by simp [hafter]) targets_true happlied
        fun e he => ⟨hafter, rfl⟩
    | ok u =>
      have hafter := idle_of_runs (keeps_publish ⟨rfl, by simp⟩ (fun _ => ⟨rfl, by simp⟩)
        (idle_command (by decide))) hpublish
      exact .call (setsProperty_of_idle hbefore) (setsProperty_of_idle hafter) targets_true happlied
        fun e he => by cases he
  · rcases runs_activeLocalJobs hlist with ⟨e, rfl, he⟩ | ⟨jobs, rfl, he⟩
    · exact .unlisted hbefore
    · cases he

/-- The prolog in its `with` statement. -/
theorem around_prolog (hR : ∀ e ∈ t, findsAll R e.1 e.2)
    (h : Runs exec (Prolog.body X self).run w t r w') :
    Around X R self true (fun _ => .ok 1) t r := by
  rcases runs_exceptBind.mp h with ⟨t₁, skip, w₁, t₂, hskip, hrest, rfl⟩ | ⟨e, hskip, rfl⟩
  · have hidle := idle_of_runs (keeps_shouldSkip ⟨rfl, by simp⟩) hskip
    by_cases hs : skip = true
    · rw [if_pos hs] at hrest
      obtain ⟨rfl, rfl, -⟩ := hrest
      exact .of_idle (by simpa using hidle)
    rw [if_neg hs] at hrest
    obtain ⟨t₃, linger, w₂, t₄, hlinger, hrest, rfl⟩ := runs_attemptBind.mp hrest
    have hbefore : ∀ e ∈ t₁ ++ t₃, idle e.1 := fun e he =>
      (List.mem_append.mp he).elim (hidle e)
        (idle_of_runs (keeps_checkLinger (idle_command (by decide))) hlinger e)
    have hstop : t₄ = [] → Around X R self true (fun _ => .ok 1) (t₁ ++ (t₃ ++ t₄)) r := by
      rintro rfl
      exact .of_idle (by simpa using hbefore)
    rcases linger with e | ⟨_ | _⟩
    · cases e <;> exact hstop hrest.1
    · rw [← List.append_assoc]
      exact around_constrain hbefore (fun e he => hR e (by simp [he])) hrest
    · exact hstop hrest.1
  · exact .of_idle (idle_of_runs (keeps_shouldSkip ⟨rfl, by simp⟩) hskip)

/-- Housekeeping in its `with` statement. -/
theorem around_housekeeping {fuel : ℕ} (hR : ∀ e ∈ t, findsAll R e.1 e.2)
    (h : Runs exec (Housekeeping.body X fuel self).run w t r w') :
    Around X R self false .error t r := by
  rcases runs_exceptBind.mp h with ⟨t₁, skip, w₁, t₂, hskip, hrest, rfl⟩ | ⟨e, hskip, rfl⟩
  · have hidle := idle_of_runs (keeps_shouldSkip ⟨rfl, by simp⟩) hskip
    by_cases hs : skip = true
    · rw [if_pos hs] at hrest
      obtain ⟨rfl, rfl, -⟩ := hrest
      exact .of_idle (by simpa using hidle)
    rw [if_neg hs] at hrest
    rcases runs_exceptBind.mp hrest with ⟨t₃, ⟨helper, count⟩, w₂, t₄, hlist, hrest, rfl⟩ | ⟨e, hlist, rfl⟩
    · rcases runs_activeLocalJobs hlist with ⟨e, -, he⟩ | ⟨jobs, rfl, he⟩
      · cases he
      cases he
      dsimp only at hrest
      have hbefore := setsProperty_of_idle hidle
      by_cases hnone : self.targets false jobs = []
      · -- no other job runs: the teardown
        rw [if_pos (by simp [hnone])] at hrest
        have hidle' : ∀ e ∈ t₄, idle e.1 := by
          rcases runs_exceptBind.mp hrest with ⟨t₅, u, w₃, t₆, hteardown, ⟨rfl, -⟩, rfl⟩ | ⟨e, hteardown, -⟩
          · simpa using idle_of_runs keeps_userSliceTeardown hteardown
          · exact idle_of_runs keeps_userSliceTeardown hteardown
        refine .none (fun e he => ?_) fun jobs' hne hmem => ?_
        · simp only [List.mem_append, List.mem_singleton] at he
          rcases he with he | rfl | he
          · exact hbefore e he
          · rfl
          · exact (hidle' e he).1
        · simp only [List.mem_append, List.mem_singleton] at hmem
          rcases hmem with he | he | he
          · exact (hidle _ he).2 _ _ rfl
          · cases he
            exact hne hnone
          · exact (hidle' _ he).2 _ _ rfl
      · rw [if_neg (by simpa using hnone)] at hrest
        rcases runs_exceptBind.mp hrest with ⟨c, u, w₃, t₅, hcall, ⟨rfl, rfl, -⟩, rfl⟩ | ⟨e, hcall, rfl⟩
        · have happlied := applied_of_runs hnone (fun e he => hR e (by simp [he])) hcall
          rw [List.singleton_append]
          exact .call hbefore (by simp) hnone happlied fun e he => by cases he
        · have happlied := applied_of_runs hnone (fun e he => hR e (by simp [he])) hcall
          rw [List.singleton_append, ← List.append_nil t₄]
          exact .call hbefore (by simp) hnone happlied fun e he => ⟨rfl, by cases he; rfl⟩
    · rcases runs_activeLocalJobs hlist with ⟨e, rfl, he⟩ | ⟨jobs, rfl, he⟩
      · exact .unlisted hidle
      · cases he
  · exact .of_idle (idle_of_runs (keeps_shouldSkip ⟨rfl, by simp⟩) hskip)

/-! ### Both scripts -/

/-- **An update is made for all the jobs or not at all.** In a run of the
prolog or of housekeeping whose lookup does what it is documented to, the call
is made once the jobs are listed, by housekeeping only if another job runs; it
runs one `set-property`, of the mapper's answer for the union over all the jobs
it is for, or none; and `resource_union` never returns an empty dictionary. -/
theorem constraints_all_or_nothing (X : Externals) (R : ℕ → String) (self : PAMHelper) (fuel : ℕ)
    {t : List Event} {r : Except Exn ℤ} (hR : ∀ e ∈ t, looksUp R e.1 e.2) :
    (Traces (Prolog.body X self).run t r → Around X R self true (fun _ => .ok 1) t r) ∧
    (Traces (Housekeeping.body X fuel self).run t r → Around X R self false .error t r) ∧
    ∀ (includeCurrent : Bool) (jobs : List ℕ) (c : List Event) (u : Option X.RSet),
      self.targets includeCurrent jobs ≠ [] → (∀ e ∈ c, looksUp R e.1 e.2) →
        Traces (resourceUnion X (self.withJobs jobs) includeCurrent).run c (.ok u) → u ≠ none := by
  have hall : ∀ e ∈ t, findsAll R e.1 e.2 := fun e he => findsAll_of_looksUp (hR e he)
  refine ⟨around_prolog hall, around_housekeeping hall, fun includeCurrent jobs c u hne hc h => ?_⟩
  rw [resourceUnion_withJobs] at h
  obtain ⟨answer, -, hok⟩ := runs_unionOf hne (fun e he => findsAll_of_looksUp (hc e he)) h
  obtain ⟨-, union, rfl, -⟩ := hok u rfl
  exact Option.some_ne_none union

/-- Housekeeping of job 1 updates the slice for jobs 2 and 3. -/
theorem constraints_all_or_nothing_small : ∃ t,
    Traces (Housekeeping.body .single 0 .small).run t (.ok 0) ∧
      Around .single numeral .small false .error t (.ok 0) := by
  have h : Traces (Housekeeping.body .single 0 .small).run
      [⟨.attrGet "security.owner", .ok "100"⟩, ⟨.jobList "1000" "0", .ok [2, 1, 3]⟩,
        ⟨.kvsLookupR [2, 3], .ok ([(2, "2"), (3, "3")], [])⟩,
        ⟨.mapperLookup "2,3", .ok (some ∅)⟩,
        ⟨.run (PAMHelper.small.setPropertyCommand ∅) 30, .ok ""⟩] (.ok 0) :=
    traces_of_script (n := 20) (by with_unfolding_all rfl)
  refine ⟨_, h, (constraints_all_or_nothing .single numeral .small 0 ?_).2.1 h⟩
  simp only [List.forall_mem_cons]
  refine ⟨trivial, trivial, fun results errors he => ?_, trivial, trivial, by simp⟩
  cases he
  exact ⟨[2, 3], .refl _, by decide, fun hne => absurd rfl hne⟩

end FluxPam
