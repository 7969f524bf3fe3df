/-
# What the node comes back to

However the prologs and housekeepings of a user interleaved, and whatever
failed or was killed, once every job that runs has been set up and every job
that ended has been cleaned up the running jobs say whether there is a marker
and which update is in force (`Spec`): if a job runs there is one, over an update
for just these jobs; if none runs there is neither. The update's properties are
the mapper's for the union of the jobs' resources, in whatever order they were
listed and looked up (`running_resources`). An update replaces the device list
and what it assigns, and no more, so a name that it leaves out keeps what an
earlier update gave it; where the mapper always answers the same names, nothing
is left of earlier updates.
-/
import FluxPam.Cleanup
import Mathlib.Data.Set.Lattice

namespace FluxPam

open Interaction

/-! ### The specification -/

/-- What is to be so of a user whose running jobs are `jobs`: the marker, and the
update that is in force. Names that the update does not assign may keep older
values. -/
structure Spec (K : Setting) (u : ℕ) (jobs : Set ℕ) (w : World) : Prop where
  marker : w.files (markerPath K.lockDir u) ≠ .absent ↔ jobs.Nonempty
  grants : jobs.Nonempty → ∃ d, K.carries u w d ∧ ∀ j, j ∈ d.ids ↔ j ∈ jobs
  released : ¬ jobs.Nonempty → w.source (sliceName u) = none

/-- Every running job has been set up, and every job that ended cleaned up. -/
structure SetUp (u : ℕ) (w : World) : Prop where
  prologs : ∀ j, w.running u j = true → w.prologOk u j = true
  housekeepings : ∀ j, w.reported u j = true → w.ended u j = true → w.hkOk u j = true

/-! ### What the slice's update is for -/

/-- Jobs do not go unnoticed, an update is for jobs that were reported, and what
was reverted carries none. -/
structure Known (s : UserState) : Prop where
  lasting : ∀ j, s.ctl.reported j = true → s.ctl.running j = true ∨ s.ctl.ended j = true
  source : ∀ d, s.ctl.source = some d → ∀ j ∈ d.ids, s.ctl.reported j = true
  reverted : s.ctl.last ≠ some .set → s.ctl.source = none

variable {K : Setting} {C : Contract} {u : ℕ} {s s' : UserState}

/-- A job that was reported still is, or has ended. -/
theorem lasting_of_move (hS : C.steady) (hm : Move K C u s s')
    (h : ∀ j, s.ctl.reported j = true → s.ctl.running j = true ∨ s.ctl.ended j = true) (j : ℕ) :
    s'.ctl.reported j = true → s'.ctl.running j = true ∨ s'.ctl.ended j = true := by
  cases hm with
  | @report i he =>
    intro hrep
    rcases update_true_iff.mp hrep with rfl | hrep
    · exact .inl (Function.update_self ..)
    · exact (h j hrep).imp_left fun hr => update_true_iff.mpr (.inr hr)
  | unreport hs => exact absurd hS hs
  | @endJob i =>
    intro hrep
    by_cases hij : j = i
    · exact .inr (update_true_iff.mpr (.inl hij))
    · exact (h j hrep).imp (fun hr => update_false_iff.mpr ⟨hij, hr⟩) fun he =>
        update_true_iff.mpr (.inr he)
  | _ => exact h j

theorem Known.move (hS : C.steady) (hr : C.reported) (hq : C.sequential) (hs : Sane K u s)
    (ht : Timeline C s) (hc : Cleans s) (h : Known s) (hm : Move K C u s s') : Known s' := by
  have hkeep : s'.ctl.source = s.ctl.source → ∀ d, s'.ctl.source = some d → ∀ j ∈ d.ids,
      s'.ctl.reported j = true := fun hsrc d hd j hj =>
    reported_of_move hm (h.source d (hsrc ▸ hd) j hj)
  have hchange := hm.change hs.process
  refine ⟨lasting_of_move hS hm h.lasting, ?_, ?_⟩
  · cases hchange with
    | none hmk hsrc hl => exact hkeep hsrc
    | publish hp hpub hmk hsrc hl => exact hkeep hsrc
    | clear hp hcl hmk hsrc hl => exact hkeep hsrc
    | revert hp hh hcl hmk hsrc hl =>
      intro d hd
      cases hsrc.symm.trans hd
    | @update n t φ others d took hp hh hot hids hne hmk hsrc hl =>
      cases took with
      | false => exact hkeep hsrc
      | true =>
        intro d' hd' j hj
        obtain rfl : d = d' := Option.some.inj (hsrc.symm.trans hd')
        exact reported_of_move hm (hc.wanted_pending ht hr hq hp hh hot (hids ▸ hj)).1
  · cases hchange with
    | none hmk hsrc hl => rw [hsrc, hl]; exact h.reverted
    | publish hp hpub hmk hsrc hl => rw [hsrc, hl]; exact h.reverted
    | clear hp hcl hmk hsrc hl => rw [hsrc, hl]; exact h.reverted
    | revert hp hh hcl hmk hsrc hl => exact fun _ => hsrc
    | update took hp hh hot hids hne hmk hsrc hl => exact fun hne' => absurd hl hne'

theorem World.initial.known {w : World} (h : w.initial) : Known ⟨w.control K u, fun _ => none⟩ := by
  obtain ⟨-, -, -, -, -, hsource, hlast, hrep, -⟩ := h
  have hnone : (w.control K u).source = none := congrFun hsource _
  refine ⟨fun j hj => .inl ?_, fun d hd => ?_, fun _ => hnone⟩
  · change w.running u j = true
    rwa [← hrep]
  · cases hnone.symm.trans hd

/-! ### Runs -/

variable {c₀ c : Config Pid Op Res Task Exit World}

/-- All that every run keeps of a managed user. -/
structure Kept (K : Setting) (C : Contract) (u : ℕ) (s : UserState) : Prop where
  sane : Sane K u s
  contains : Contains s
  expels : Expels s
  cleans : Cleans s
  known : Known s

theorem Reached.kept (h : Reached K C c₀ c) (hr : C.reported) (hS : C.steady) (ho : C.afterwards)
    (hq : C.sequential) (hK : K.managed u) (hk : K.constrain.truthy = true)
    (hm : c₀.world.files (markerPath K.lockDir u) = .absent) :
    ∃ m, c.world = m.world ∧ Kept K C u (userState K u m) := by
  obtain ⟨m, hf, -, hi⟩ := h.invariant_sane (I := Kept K C u) hm
    ⟨h.initial.sane hm, h.initial.contains, h.initial.expels, h.initial.cleans hm, h.initial.known⟩
    fun s s' hs ht hi hm => ⟨hs.move hm, hi.contains.move hK hk hr hS ho hs ht hm,
      hi.expels.move hK hk ho hq hs ht hm, hi.cleans.move hK hr ho hq hs ht hm,
      hi.known.move hS hr hq hs ht hi.cleans hm⟩
  exact ⟨m, hf.1, hi⟩

/-- Every reported job runs, or is cleaned up. -/
theorem Kept.runs_or_cleaned (h : Kept K C u s)
    (hh : ∀ j, s.ctl.reported j = true → s.ctl.ended j = true → s.ctl.hkOk j = true) {j : ℕ}
    (hj : s.ctl.reported j = true) : s.ctl.running j = true ∨ s.ctl.hkOk j = true :=
  (h.known.lasting j hj).imp_right (hh j hj)

theorem Kept.marker (h : Kept K C u s)
    (hp : ∀ j, s.ctl.running j = true → s.ctl.prologOk j = true)
    (hh : ∀ j, s.ctl.reported j = true → s.ctl.ended j = true → s.ctl.hkOk j = true) :
    s.ctl.marker ≠ .absent ↔ ∃ j, s.ctl.running j = true := by
  constructor
  · intro hmark
    obtain ⟨j, hj, hk⟩ := h.cleans.owed hmark
    refine ⟨j, (h.runs_or_cleaned hh hj).resolve_right fun hk' => ?_⟩
    rw [hk] at hk'
    cases hk'
  · rintro ⟨j, hj⟩
    exact h.contains.marked j (.inl (hp j hj)) hj

/-- As long as a job runs, the slice's update is for the running jobs. -/
theorem Kept.grants_iff (h : Kept K C u s) (hk : K.constrain.truthy = true)
    (hp : ∀ j, s.ctl.running j = true → s.ctl.prologOk j = true)
    (hh : ∀ j, s.ctl.reported j = true → s.ctl.ended j = true → s.ctl.hkOk j = true)
    (hrun : ∃ j, s.ctl.running j = true) :
    ∃ d, s.ctl.source = some d ∧ ∀ j, j ∈ d.ids ↔ s.ctl.running j = true := by
  have hmark := (h.marker hp hh).mpr hrun
  obtain ⟨d, hd⟩ := Option.ne_none_iff_exists'.mp (h.sane.control.constrained hk hmark)
  refine ⟨d, hd, fun j => ⟨fun hj => ?_, fun hj => ?_⟩⟩
  · refine (h.runs_or_cleaned hh (h.known.source d hd j hj)).resolve_right fun hj' => ?_
    exact h.expels.expelled j (.inl hj') hmark ⟨d, hd, hj⟩
  · obtain ⟨d', hd', hj'⟩ := h.contains.granted j (.inl (hp j hj)) hj
    obtain rfl := Option.some.inj (hd.symm.trans hd')
    exact hj'

/-- When no job runs, the slice carries no update. -/
theorem Kept.released (h : Kept K C u s)
    (hh : ∀ j, s.ctl.reported j = true → s.ctl.ended j = true → s.ctl.hkOk j = true)
    (hrun : ¬ ∃ j, s.ctl.running j = true) : s.ctl.source = none := by
  refine h.known.reverted fun hset => ?_
  obtain ⟨j, hj, hns⟩ := h.cleans.pending (.inr (.inl hset))
  rcases h.runs_or_cleaned hh hj with hj' | hj'
  · exact hrun ⟨j, hj'⟩
  · exact hns (.inl hj')

/-- **Back to the specification.** Once every running job is set up and every
job that ended is cleaned up, the user's state is what the running jobs
require. -/
theorem quiescent_spec (h : Reached K C c₀ c) (hr : C.reported) (hS : C.steady) (ho : C.afterwards)
    (hq : C.sequential) (hK : K.managed u) (hk : K.constrain.truthy = true)
    (hm : c₀.world.files (markerPath K.lockDir u) = .absent) (hset : SetUp u c.world) :
    Spec K u {j | c.world.running u j = true} c.world := by
  obtain ⟨m, hw, hkept⟩ := h.kept hr hS ho hq hK hk hm
  rw [hw] at hset ⊢
  refine ⟨hkept.marker hset.prologs hset.housekeepings, fun hrun => ?_, fun hrun => ?_⟩
  · obtain ⟨d, hd, hids⟩ := hkept.grants_iff hk hset.prologs hset.housekeepings hrun
    exact ⟨d, hkept.sane.control.carries hd, hids⟩
  · exact hkept.released hset.housekeepings hrun

/-- User 1000 while job 2 runs and job 1 is cleaned up. -/
theorem small_setUp : ∃ ls w, (node .small .strict).Run Server.idle ls ⟨w, fun _ => none⟩ ∧
    {j | w.running 1000 j = true} = {2} ∧ SetUp 1000 w := by
  let none : ℕ → ℕ → Bool := fun _ _ => false
  obtain ⟨ls, w, hr, hw⟩ := Server.small_play
    [.act (.report 1000 1), .task ⟨1000, 7⟩ (.prolog 1 10), .act (.report 1000 2),
      .task ⟨1000, 8⟩ (.prolog 2 10), .act (.endJob 1000 1), .task ⟨1000, 9⟩ (.housekeeping 1 10)]
    (fun _ w => (w.running, w.prologOk, w.ended, w.hkOk))
    (a := (setAt (setAt (setAt none 1000 1 true) 1000 2 true) 1000 1 false,
      setAt (setAt none 1000 1 true) 1000 2 true, setAt none 1000 1 true, setAt none 1000 1 true))
    (by rfl)
  simp only [Prod.mk.injEq] at hw
  obtain ⟨hrun, hpok, hend, hhk⟩ := hw
  have hjobs : ∀ j, w.running 1000 j = true ↔ j = 2 := fun j => by
    simp [hrun, none, setAt, Function.update_apply]
    omega
  refine ⟨ls, w, hr, Set.ext hjobs, fun j hj => ?_, fun j _ hj => ?_⟩
  · obtain rfl := (hjobs j).mp hj
    rw [hpok]
    rfl
  · rwa [hhk, ← hend]

theorem quiescent_spec_small : ∃ w, Spec .small 1000 {2} w := by
  obtain ⟨ls, w, hr, hjobs, hset⟩ := small_setUp
  exact ⟨w, hjobs ▸ quiescent_spec (Server.idle_reached hr) trivial trivial trivial trivial
    (by decide) rfl rfl hset⟩

/-! ### The resources -/

section Resources

variable {X : Externals} {α : Type}

/-- What the resource sets of some jobs amount to, where a resource set means
the resources `den` gives it. -/
def resources (X : Externals) (den : X.RSet → Set α) (Rs : Set String) : Set α :=
  {a | ∃ R ∈ Rs, ∃ rset, X.resourceSet R = .ok rset ∧ a ∈ den rset}

/-- The loop's result means what it had and what the texts mean, each of which is
a resource set. -/
theorem unionLoop_resources {den : X.RSet → Set α} (hden : ∀ a b, den (X.union a b) = den a ∪ den b) :
    ∀ {Rs : List String} {acc : Option X.RSet} {union : X.RSet},
      PAMHelper.unionLoop X acc Rs = .ok (some union) →
        den union = acc.elim ∅ den ∪ resources X den {R | R ∈ Rs} ∧
          ∀ R ∈ Rs, ∃ rset, X.resourceSet R = .ok rset
  | [], acc, union, h => by
    rw [PAMHelper.unionLoop] at h
    cases h
    exact ⟨by simp [resources], by simp⟩
  | R :: Rs, acc, union, h => by
    rw [PAMHelper.unionLoop] at h
    cases hR : X.resourceSet R with
    | error e =>
      rw [hR] at h
      cases h
    | ok rset =>
      rw [hR] at h
      have hhead : resources X den {S | S ∈ R :: Rs} = den rset ∪ resources X den {S | S ∈ Rs} := by
        ext a
        simp [resources, hR]
      obtain ⟨hu, hrest⟩ : den union = (acc.elim ∅ den ∪ den rset) ∪ resources X den {S | S ∈ Rs} ∧
          ∀ S ∈ Rs, ∃ rset, X.resourceSet S = .ok rset := by
        cases acc with
        | none => simpa using unionLoop_resources hden h
        | some acc => simpa [hden] using unionLoop_resources hden h
      refine ⟨by rw [hu, hhead, Set.union_assoc], fun S hS => ?_⟩
      rcases List.mem_cons.mp hS with rfl | hS
      · exact ⟨rset, hR⟩
      · exact hrest S hS

end Resources

/-! ### Names -/

/-- Every property of the slice is one the mapper has named. -/
def Named (K : Setting) (slice : SliceProps) : Prop :=
  ∀ n, slice.other n ≠ none → n = "DevicePolicy" ∨ ∃ R P, K.maps R P ∧ n ∈ P.names

theorem Named.assignAll {slice : SliceProps} (h : Named K slice) {R : String} {P : Properties}
    (hP : K.maps R P) : Named K (slice.assignAll (assignments P)) := by
  intro n hn
  by_cases hpol : n = "DevicePolicy"
  · exact .inl hpol
  by_cases hmem : n ∈ P.names
  · exact .inr ⟨R, P, hP, hmem⟩
  · rw [assignAll_unassigned _ hpol hmem] at hn
    exact h n hn

theorem Named.fresh : Named K .fresh := fun _ hn => absurd rfl hn

theorem Named.move (h : Named K s.ctl.slice) (hm : Move K C u s s') : Named K s'.ctl.slice := by
  cases hm with
  | @update n t φ args took ok hp hu hok =>
    obtain ⟨-, others, props, -, -, -, ⟨-, union, -, hmaps⟩, rfl⟩ := hu
    cases took with
    | false => exact h
    | true => exact h.assignAll hmaps
  | @revert n t φ took hp hh hcl =>
    cases took with
    | false => exact h
    | true => exact .fresh
  | _ => exact h

theorem Reached.named (h : Reached K C c₀ c) (hfresh : c₀.world.slices (sliceName u) = .fresh) :
    Named K (c.world.slices (sliceName u)) := by
  obtain ⟨m, hf, hn⟩ := h.invariant (u := u) (I := fun s => Named K s.ctl.slice)
    (by change Named K (c₀.world.slices (sliceName u)); rw [hfresh]; exact .fresh)
    fun s s' hi hm => hi.move hm
  rw [hf.1]
  exact hn

/-- The mapper names the same properties in every answer. -/
def Setting.uniform (K : Setting) : Prop :=
  ∀ R P R' P', K.maps R P → K.maps R' P' → P.names ⊆ P'.names

/-- With such a mapper the slice is as its last update alone makes it. -/
theorem Named.eq_fresh {slice earlier : SliceProps} {R : String} {P : Properties} (h : Named K slice)
    (huni : K.uniform) (hP : K.maps R P) (hslice : slice = earlier.assignAll (assignments P)) :
    slice = SliceProps.fresh.assignAll (assignments P) := by
  rw [hslice, assignAll_assignments]
  intro n hpol hmem
  by_contra hn
  rw [hslice] at h
  have hold : (earlier.assignAll (assignments P)).other n ≠ none := by
    rw [assignAll_unassigned _ hpol hmem]
    exact hn
  rcases h n hold with rfl | ⟨R', P', hP', hmem'⟩
  · exact hpol rfl
  · exact hmem (huni R' P' R P hP' hP hmem')

/-- **The running jobs' resources.** Once every running job is set up and every
job that ended is cleaned up, as long as a job runs the slice carries what the
mapper answered for a resource set that means exactly the running jobs'
resources, and each running job's `R` was decoded. If the mapper always names the
same properties, a slice that was fresh carries nothing else. -/
theorem running_resources {α : Type} {den : K.X.RSet → Set α}
    (hden : ∀ a b, den (K.X.union a b) = den a ∪ den b)
    (h : Reached K C c₀ c) (hr : C.reported) (hS : C.steady) (ho : C.afterwards)
    (hq : C.sequential) (hK : K.managed u) (hk : K.constrain.truthy = true)
    (hm : c₀.world.files (markerPath K.lockDir u) = .absent) (hset : SetUp u c.world)
    (hrun : ∃ j, c.world.running u j = true) :
    ∃ union props, K.maps (K.X.encode union) props ∧
      (c.world.slices (sliceName u)).Carries props ∧
      (K.uniform → c₀.world.slices (sliceName u) = .fresh →
        c.world.slices (sliceName u) = SliceProps.fresh.assignAll (assignments props)) ∧
      den union = ⋃ j ∈ {j | c.world.running u j = true}, resources K.X den {K.R j} ∧
      ∀ j, c.world.running u j = true → ∃ rset, K.X.resourceSet (K.R j) = .ok rset := by
  have hnamed := fun hfresh => h.named (u := u) hfresh
  obtain ⟨m, hw, hkept⟩ := h.kept hr hS ho hq hK hk hm
  rw [hw] at hset hrun hnamed ⊢
  obtain ⟨d, hd, hids⟩ := hkept.grants_iff hk hset.prologs hset.housekeepings hrun
  obtain ⟨-, -, props, earlier, ⟨-, union, hunion, hmaps⟩, hslice⟩ := hkept.sane.control.carries hd
  obtain ⟨hu, hok⟩ := unionLoop_resources hden hunion
  refine ⟨union, props, hmaps, hslice ▸ carries_assignAll earlier props,
    fun huni hfresh => (hnamed hfresh).eq_fresh huni hmaps hslice, ?_, fun j hj => ?_⟩
  · have hRs : {R | R ∈ d.ids.map K.R} = K.R '' {j | m.world.running u j = true} := by
      ext R
      simp only [List.mem_map, Set.mem_ofPred_eq, Set.mem_image]
      exact exists_congr fun j => and_congr_left fun _ => hids j
    rw [hu, hRs]
    ext a
    simp [resources]
  · exact hok _ (List.mem_map.mpr ⟨j, (hids j).mpr hj, rfl⟩)

/-- The cores of a resource set. -/
def cores : Externals.single.RSet → Set ℕ := fun (R : List ℕ) => {n | n ∈ R}

theorem cores_union (a b : List ℕ) : cores (Externals.single.union a b) = cores a ∪ cores b := by
  ext n
  change n ∈ a ++ b.filter (· ∉ a) ↔ n ∈ a ∨ n ∈ b
  by_cases hn : n ∈ a <;> simp [hn]

theorem resources_cores (j : ℕ) : resources .single cores {numeral j} = {j} := by
  ext n
  simp only [resources, Set.mem_singleton_iff, exists_eq_left, Set.mem_ofPred_eq]
  simp only [Externals.single, decimal_numeral]
  constructor
  · rintro ⟨rset, h, hn⟩
    cases h
    exact List.mem_singleton.mp hn
  · rintro rfl
    exact ⟨_, rfl, List.mem_singleton.mpr rfl⟩

theorem small_uniform : Setting.small.uniform := by
  intro R P R' P' hP hP'
  change P.entries = _ at hP
  change P'.entries = _ at hP'
  simp [Properties.names, Properties.keys, hP, hP']

/-- Core 2 and nothing else, for job 2. -/
theorem running_resources_small : ∃ (w : World) (union : List ℕ) (props : Properties),
    cores union = {2} ∧ props.entries = [("AllowedCPUs", Externals.single.encode union)] ∧
      w.slices (sliceName (1000 : ℕ)) = SliceProps.fresh.assignAll (assignments props) := by
  obtain ⟨ls, w, hr, hjobs, hset⟩ := small_setUp
  have hrun : ∃ j, w.running 1000 j = true := ⟨2, hjobs.ge rfl⟩
  obtain ⟨union, props, hmaps, -, huni, hu, -⟩ := running_resources cores_union
    (Server.idle_reached hr) trivial trivial trivial trivial (by decide) rfl rfl hset hrun
  refine ⟨w, union, props, ?_, hmaps, huni small_uniform rfl⟩
  rw [hu]
  simp only [hjobs, Set.mem_singleton_iff, Set.iUnion_iUnion_eq_left]
  exact resources_cores 2

end FluxPam
