/-
# What the orphan check finds in a cgroup tree

`check_orphan_processes` walks the user's slice and tells the service's
directories by comparing path strings. Here the slice is a tree of directories,
and the kernel answers for it component by component (`Cgroup.answer`). The
strings compare as the components do (`below_service_iff`), so the check reports
the nodes with processes that are neither the service's directory nor below it,
each once (`check_orphan_processes_agrees`).
-/
import FluxPam.Forest
import FluxPam.Helper

namespace FluxPam

open Interaction Prog PAMHelper

/-! ### Directory paths -/

/-- What a directory may be called. -/
def IsDirName (name : String) : Prop :=
  name ≠ "" ∧ name ≠ "." ∧ name ≠ ".." ∧ '/' ∉ name.toList

instance : DecidablePred IsDirName := fun _ => inferInstanceAs (Decidable (_ ∧ _))

/-- The path of the directory with the components `p`, as `os.walk` joins it. -/
def joinPath : String → List String → String
  | top, [] => top
  | top, name :: p => joinPath (top ++ "/" ++ name) p

/-- The path's components below `top`, where it is at or below `top`. -/
def components (top path : String) : Option (List String) :=
  if path = top then some []
  else if (top ++ "/").toList.isPrefixOf path.toList then
    some (((path.toList.drop (top.toList.length + 1)).splitOn '/').map String.ofList)
  else none

theorem joinPath_toList : ∀ (p : List String) (top : String),
    (joinPath top p).toList = top.toList ++ p.flatMap fun name => '/' :: name.toList
  | [], top => by simp [joinPath]
  | name :: p, top => by simp [joinPath, joinPath_toList p, String.toList_append]

theorem joinPath_append (p : List String) (top name : String) :
    joinPath top (p ++ [name]) = joinPath top p ++ "/" ++ name := by
  induction p generalizing top with
  | nil => rfl
  | cons m p ih => exact ih _

/-- The components of a path, joined with slashes. -/
theorem flatMap_slash (name : String) (p : List String) :
    (name :: p).flatMap (fun n => '/' :: n.toList) =
      '/' :: ['/'].intercalate ((name :: p).map String.toList) := by
  induction p generalizing name with
  | nil => simp [List.intercalate]
  | cons m p ih =>
    rw [List.flatMap_cons, ih]
    simp [List.intercalate]

theorem splitOn_slash {p : List String} (hp : ∀ n ∈ p, IsDirName n) (hne : p ≠ []) :
    ((['/'].intercalate (p.map String.toList)).splitOn '/').map String.ofList = p := by
  have hslash : ∀ cs ∈ p.map String.toList, '/' ∉ cs := by
    intro cs hcs
    obtain ⟨n, hn, rfl⟩ := List.mem_map.mp hcs
    exact (hp n hn).2.2.2
  rw [List.splitOn_intercalate '/' hslash (by simpa using hne), List.map_map]
  simp [Function.comp_def]

theorem joinPath_cons_toList (top name : String) (p : List String) :
    (joinPath top (name :: p)).toList =
      (top.toList ++ ['/']) ++ ['/'].intercalate ((name :: p).map String.toList) := by
  rw [joinPath_toList, flatMap_slash]
  simp

theorem joinPath_ne (top name : String) (p : List String) : joinPath top (name :: p) ≠ top := by
  intro h
  have hlength := congrArg (fun s : String => s.toList.length) h
  simp only [joinPath_cons_toList, List.length_append, List.length_cons] at hlength
  omega

/-- The kernel finds the components the walk has joined. -/
theorem components_joinPath {p : List String} (hp : ∀ n ∈ p, IsDirName n) (top : String) :
    components top (joinPath top p) = some p := by
  cases p with
  | nil => exact if_pos rfl
  | cons name p =>
    have hprefix : (top ++ "/").toList.isPrefixOf (joinPath top (name :: p)).toList = true := by
      rw [List.isPrefixOf_iff_prefix, joinPath_cons_toList, String.toList_append]
      exact List.prefix_append ..
    rw [components, if_neg (joinPath_ne top name p), if_pos hprefix, joinPath_cons_toList,
      List.drop_left' (by simp), splitOn_slash hp (by simp)]

/-- The text is at the end of a component. -/
def Slashed (cs : List Char) : Prop := cs.head?.all (· = '/') = true

theorem slashed_flatMap (p : List String) : Slashed (p.flatMap fun name => '/' :: name.toList) := by
  cases p <;> simp [Slashed]

/-- The first components of two equal paths are equal. -/
theorem append_slashed_inj : ∀ {a b as bs : List Char}, '/' ∉ a → '/' ∉ b → Slashed as → Slashed bs →
    a ++ as = b ++ bs → a = b ∧ as = bs
  | [], [], _, _, _, _, _, _, h => ⟨rfl, h⟩
  | [], c :: b, as, bs, _, hb, has, _, h => by
    rw [List.nil_append, List.cons_append] at h
    subst h
    simp [Slashed] at has
    simp [has] at hb
  | c :: a, [], as, bs, ha, _, _, hbs, h => by
    rw [List.nil_append, List.cons_append] at h
    subst h
    simp [Slashed] at hbs
    simp [hbs] at ha
  | c :: a, d :: b, as, bs, ha, hb, has, hbs, h => by
    obtain ⟨rfl, htail⟩ := List.cons.inj h
    obtain ⟨rfl, rfl⟩ := append_slashed_inj (fun h => ha (.tail _ h)) (fun h => hb (.tail _ h))
      has hbs htail
    exact ⟨rfl, rfl⟩

theorem prefix_of_flatMap : ∀ {p q : List String} {cs : List Char}, (∀ n ∈ p, IsDirName n) →
    (∀ n ∈ q, IsDirName n) → Slashed cs →
    (q.flatMap fun n => '/' :: n.toList) = (p.flatMap fun n => '/' :: n.toList) ++ cs → p <+: q
  | [], q, _, _, _, _, _ => List.nil_prefix
  | n :: p, [], _, _, _, _, h => by simp at h
  | n :: p, m :: q, cs, hp, hq, hcs, h => by
    rw [List.flatMap_cons, List.flatMap_cons, List.cons_append, List.cons_append, List.cons_append,
      List.append_assoc] at h
    have hrest : Slashed ((p.flatMap fun n => '/' :: n.toList) ++ cs) := by
      cases p with
      | nil => exact hcs
      | cons _ _ => simp [Slashed]
    obtain ⟨hname, htail⟩ := append_slashed_inj (hq m List.mem_cons_self).2.2.2
      (hp n List.mem_cons_self).2.2.2 (slashed_flatMap q) hrest (List.cons.inj h).2
    rw [String.toList_inj.mp hname, List.cons_prefix_cons]
    exact ⟨rfl, prefix_of_flatMap (fun k hk => hp k (.tail _ hk)) (fun k hk => hq k (.tail _ hk)) hcs htail⟩

/-- A directory is at or below another, as strings compare, if it is as its
components are. -/
theorem below_joinPath {p q : List String} (hp : ∀ n ∈ p, IsDirName n) (hq : ∀ n ∈ q, IsDirName n)
    (top : String) : below (joinPath top p) (joinPath top q) = true ↔ p <+: q := by
  rw [below_iff, joinPath_toList, joinPath_toList]
  constructor
  · rintro (h | ⟨cs, h⟩)
    · have hcomponents := components_joinPath hq top
      rw [h, components_joinPath hp top] at hcomponents
      have hsame : p = q := Option.some.inj hcomponents
      exact hsame ▸ List.prefix_rfl
    · rw [List.append_assoc] at h
      exact prefix_of_flatMap hp hq (by simp [Slashed]) (List.append_cancel_left h)
  · rintro ⟨rest, rfl⟩
    cases rest with
    | nil => exact .inl (by rw [List.append_nil])
    | cons n rest => exact .inr ⟨n.toList ++ rest.flatMap fun n => '/' :: n.toList, by simp⟩

/-! ### The names the check uses -/

theorem slash_notMem_toString (uid : ℤ) : '/' ∉ (toString uid).toList := by
  have hdigits : ∀ n : ℕ, '/' ∉ (numeral n).toList := fun n h =>
    absurd (isDigit_of_mem_numeral h) (by decide)
  cases uid with
  | ofNat n => exact hdigits n
  | negSucc n =>
    rw [show toString (Int.negSucc n) = "-" ++ numeral (n + 1) from rfl, String.toList_append]
    simpa using hdigits (n + 1)

theorem isDirName_serviceName (uid : ℤ) : IsDirName (serviceName uid) := by
  have hhead : (serviceName uid).toList.head? = some 'u' := by simp [serviceName, String.toList_append]
  refine ⟨fun h => ?_, fun h => ?_, fun h => ?_, ?_⟩
  · simp [h] at hhead
  · simp [h] at hhead
  · simp [h] at hhead
  · simp only [serviceName, String.toList_append, List.mem_append, not_or]
    exact ⟨⟨by decide, slash_notMem_toString uid⟩, by decide⟩

theorem servicePath_eq (uid : ℤ) : servicePath uid = joinPath (slicePath uid) [serviceName uid] := by
  apply String.toList_inj.mp
  simp [joinPath, servicePath, serviceName, String.toList_append]

theorem procsPath_eq (top : String) (p : List String) :
    joinPath top p ++ "/cgroup.procs" = joinPath top (p ++ ["cgroup.procs"]) := by
  rw [joinPath_append]
  apply String.toList_inj.mp
  simp [String.toList_append]

/-- What the check names a directory below the slice. -/
def relName : List String → String
  | [] => "."
  | name :: p => "/".intercalate (name :: p)

theorem relpath_joinPath {p : List String} (top : String) : relpath (joinPath top p) top = relName p := by
  cases p with
  | nil => exact if_pos rfl
  | cons name p =>
    rw [relpath, if_neg (joinPath_ne top name p), joinPath_cons_toList, relName,
      List.drop_left' (by simp)]
    apply String.toList_inj.mp
    rw [String.toList_ofList, String.toList_intercalate]
    rfl

/-! ### The tree -/

/-- The `cgroup.procs` of a directory. -/
inductive Procs where
  | absent
  | unreadable (e : Errno)
  | lines (text : List String)

/-- What reading it comes to. -/
def Procs.read : Procs → Except Errno (List String)
  | .lines text => .ok text
  | .unreadable e => .error e
  | .absent => .error .ENOENT

/-- Its lines that are not blank, if it can be read. -/
def Procs.pids : Procs → List String
  | .lines text => text.filter fun line => strip line.toList ≠ []
  | _ => []

/-- A cgroup directory and what is below it. -/
structure Cgroup where
  procs : Procs
  below : Forest String Procs
  distinct : below.Distinct
  named : below.Named IsDirName

namespace Cgroup

variable (c : Cgroup)

/-- The `cgroup.procs` of the directory at a path, if there is one. -/
def find? : List String → Option Procs
  | [] => some c.procs
  | path => c.below.find? path

/-- The directories in preorder. -/
def walk : List (List String × Procs) := ([], c.procs) :: c.below.walk

theorem mem_walk {p : List String} {procs : Procs} : (p, procs) ∈ c.walk ↔ c.find? p = some procs := by
  rw [walk, List.mem_cons, Prod.mk.injEq]
  cases p with
  | nil => simp [find?, Forest.nil_notMem_walk, eq_comm]
  | cons n p => simp [find?, Forest.mem_walk c.distinct]

theorem nodup_walk : (c.walk.map Prod.fst).Nodup := by
  rw [walk, List.map_cons, List.nodup_cons]
  refine ⟨fun h => ?_, Forest.nodup_walk c.distinct⟩
  obtain ⟨⟨p, procs⟩, hmem, rfl⟩ := List.mem_map.mp h
  exact Forest.nil_notMem_walk hmem

theorem named_of_mem {p : List String} {procs : Procs} (h : (p, procs) ∈ c.walk) :
    ∀ n ∈ p, IsDirName n := by
  rcases List.mem_cons.mp h with h | h
  · cases h
    simp
  · exact Forest.named_of_mem_walk c.named h

/-- The `cgroup.procs` a path names. -/
def procsAt (p : List String) : Option Procs :=
  if p.getLast? = some "cgroup.procs" then c.find? p.dropLast else none

/-- There is a directory at the path, or a `cgroup.procs`. -/
def pathExists (p : List String) : Bool :=
  (c.find? p).isSome || match c.procsAt p with
    | none => false
    | some .absent => false
    | some _ => true

def readLines (p : List String) : Except Errno (List String) := ((c.procsAt p).getD .absent).read

/-- How the kernel answers what the check asks, where the slice at `top` is the
tree, or is not there. -/
def answer (top : String) (slice : Option Cgroup) : (o : Op) → Res o
  | .pathExists path =>
    match slice, components top path with
    | some c, some p => c.pathExists p
    | _, _ => false
  | .walk path =>
    match slice with
    | some c => if path = top then c.walk.map fun x => joinPath top x.1 else []
    | none => []
  | .readLines path =>
    match slice, components top path with
    | some c, some p => c.readLines p
    | _, _ => .error .ENOENT
  | _ => default

variable {c} {p : List String} {procs : Procs}

theorem procsAt_append : c.procsAt (p ++ ["cgroup.procs"]) = c.find? p := by
  simp [procsAt]

/-- What the kernel answers about the `cgroup.procs` of a directory. -/
theorem answer_procs (top : String) (h : (p, procs) ∈ c.walk) :
    (procs ≠ .absent → answer top (some c) (.pathExists (joinPath top p ++ "/cgroup.procs")) = true) ∧
      answer top (some c) (.readLines (joinPath top p ++ "/cgroup.procs")) = procs.read := by
  have hfound : c.find? p = some procs := c.mem_walk.mp h
  have hnamed : ∀ n ∈ p ++ ["cgroup.procs"], IsDirName n := by
    intro n hn
    rcases List.mem_append.mp hn with hn | hn
    · exact c.named_of_mem h n hn
    · rw [List.mem_singleton.mp hn]
      decide
  rw [procsPath_eq]
  simp only [answer, components_joinPath hnamed, pathExists, readLines, procsAt_append, hfound]
  refine ⟨fun hne => ?_, rfl⟩
  cases procs with
  | absent => exact absurd rfl hne
  | _ => simp

end Cgroup

/-! ### The check -/

/-- The directory, with the number of its processes, if it has some and is not
the service's. -/
def orphanAt (uid : ℤ) (x : List String × Procs) : Option (List String × ℕ) :=
  if [serviceName uid] <+: x.1 ∨ x.2.pids = [] then none else some (x.1, x.2.pids.length)

/-- What is reported of a directory. -/
def report (x : List String × ℕ) : String := relName x.1 ++ ": " ++ toString x.2 ++ " process(es)"

theorem eval_callBind {α : Type} (h : (o : Op) → Res o) (o : Op) (f : Res o → Py α) :
    eval h (call o >>= f).run = eval h (f (h o)).run := rfl

theorem eval_orphanLoop (self : PAMHelper) (c : Cgroup) : ∀ nodes : List (List String × Procs),
    (∀ x ∈ nodes, x ∈ c.walk) →
      eval (Cgroup.answer (slicePath self.userid) (some c))
        (orphanLoop self (nodes.map fun x => joinPath (slicePath self.userid) x.1)).run =
          .ok ((nodes.filterMap (orphanAt self.userid)).map report)
  | [], _ => rfl
  | (p, procs) :: nodes, hnodes => by
    have ih := eval_orphanLoop self c nodes fun x hx => hnodes x (.tail _ hx)
    have hmem : (p, procs) ∈ c.walk := hnodes _ List.mem_cons_self
    obtain ⟨hexists, hreads⟩ := c.answer_procs (slicePath self.userid) hmem
    have hbelow : below (servicePath self.userid) (joinPath (slicePath self.userid) p) = true ↔
        [serviceName self.userid] <+: p := by
      rw [servicePath_eq]
      exact below_joinPath (by simpa using isDirName_serviceName _) (c.named_of_mem hmem) _
    rw [List.map_cons, orphanLoop]
    by_cases hservice : [serviceName self.userid] <+: p
    · rw [if_pos (hbelow.mpr hservice), ih, List.filterMap_cons_none (by simp [orphanAt, hservice])]
    · rw [if_neg (fun h => hservice (hbelow.mp h)), eval_callBind]
      have hskip : procs.pids = [] → orphanAt self.userid (p, procs) = none := fun h => by
        simp [orphanAt, h]
      cases procs with
      | absent =>
        rw [List.filterMap_cons_none (hskip rfl)]
        split
        · rw [eval_callBind, hreads]
          exact ih
        · exact ih
      | unreadable e =>
        rw [List.filterMap_cons_none (hskip rfl), if_pos (hexists (by simp)), eval_callBind, hreads]
        exact ih
      | lines text =>
        rw [if_pos (hexists (by simp)), eval_callBind, hreads]
        change eval _ (if (Procs.lines text).pids = [] then _ else _ : Py (List String)).run = _
        by_cases hblank : (Procs.lines text).pids = []
        · rw [if_pos hblank, List.filterMap_cons_none (hskip hblank)]
          exact ih
        · rw [if_neg hblank, eval_exceptBind, ih, relpath_joinPath,
            List.filterMap_cons_some (by rw [orphanAt, if_neg (by simp [hservice, hblank])])]
          rfl

/-! ### The reference -/

/-- The directory at a path is neither the service's nor below it, and its
`cgroup.procs` can be read and has that many lines that are not blank, at least
one. -/
def IsOrphan (uid : ℤ) (slice : Option Cgroup) (x : List String × ℕ) : Prop :=
  ∃ c text, slice = some c ∧ c.find? x.1 = some (.lines text) ∧ ¬ [serviceName uid] <+: x.1 ∧
    x.2 = (text.filter fun line => strip line.toList ≠ []).length ∧ x.2 ≠ 0

/-- What is reported agrees with the tree: one entry for each orphan. -/
structure Agrees (uid : ℤ) (slice : Option Cgroup) (result : List String) : Prop where
  entries : ∃ nodes : List (List String × ℕ), (nodes.map Prod.fst).Nodup ∧
    (∀ x, x ∈ nodes ↔ IsOrphan uid slice x) ∧ result = nodes.map report
  nodup : result.Nodup
  empty : result = [] ↔ ∀ x, ¬ IsOrphan uid slice x
  missing : slice = none → result = []

theorem mem_orphans {uid : ℤ} {c : Cgroup} {x : List String × ℕ} :
    x ∈ c.walk.filterMap (orphanAt uid) ↔ IsOrphan uid (some c) x := by
  rw [List.mem_filterMap]
  constructor
  · rintro ⟨⟨p, procs⟩, hmem, hx⟩
    rw [orphanAt] at hx
    split at hx
    · cases hx
    · rename_i hkept
      rw [not_or] at hkept
      cases hx
      cases procs with
      | lines text =>
        refine ⟨c, text, rfl, c.mem_walk.mp hmem, hkept.1, rfl, ?_⟩
        simpa using hkept.2
      | _ => exact absurd rfl hkept.2
  · rintro ⟨c', text, hc, hfound, hservice, hn, hpos⟩
    cases hc
    refine ⟨(x.1, .lines text), c.mem_walk.mpr hfound, ?_⟩
    have hpids : (Procs.lines text).pids ≠ [] := fun h => hpos (by rw [hn]; exact congrArg List.length h)
    rw [orphanAt, if_neg (not_or.mpr ⟨hservice, hpids⟩)]
    exact congrArg some (Prod.ext rfl hn.symm)

theorem orphans_sublist (uid : ℤ) : ∀ nodes : List (List String × Procs),
    ((nodes.filterMap (orphanAt uid)).map Prod.fst).Sublist (nodes.map Prod.fst)
  | [] => .slnil
  | x :: nodes => by
    have ih := orphans_sublist uid nodes
    by_cases hx : [serviceName uid] <+: x.1 ∨ x.2.pids = []
    · rw [List.filterMap_cons_none (by rw [orphanAt, if_pos hx])]
      exact ih.cons _
    · rw [List.filterMap_cons_some (by rw [orphanAt, if_neg hx])]
      exact ih.cons_cons _

theorem relName_components {p : List String} (hp : ∀ n ∈ p, IsDirName n) :
    ((relName p).toList.splitOn '/').map String.ofList = if p = [] then ["."] else p := by
  cases p with
  | nil => decide
  | cons name p =>
    rw [relName, String.toList_intercalate, if_neg (by simp)]
    exact splitOn_slash hp (by simp)

theorem relName_inj {p q : List String} (hp : ∀ n ∈ p, IsDirName n) (hq : ∀ n ∈ q, IsDirName n)
    (h : relName p = relName q) : p = q := by
  have hcomponents := relName_components hp
  rw [h, relName_components hq] at hcomponents
  have hdot : ∀ {p : List String}, (∀ n ∈ p, IsDirName n) → p ≠ ["."] := by
    rintro _ hp rfl
    exact (hp "." List.mem_cons_self).2.1 rfl
  split at hcomponents <;> split at hcomponents
  · simp [*]
  · exact absurd hcomponents.symm (hdot hp)
  · exact absurd hcomponents (hdot hq)
  · exact hcomponents.symm

/-- An entry tells which directory it is about. -/
theorem report_inj {x y : List String × ℕ} (hx : ∀ n ∈ x.1, IsDirName n) (hy : ∀ n ∈ y.1, IsDirName n)
    (h : report x = report y) : x = y := by
  have hlist : ∀ z : List String × ℕ, (report z).toList.reverse =
      " process(es)".toList.reverse ++
        ((numeral z.2).toList.reverse ++ ' ' :: ':' :: (relName z.1).toList.reverse) := by
    intro z
    simp [report, String.toList_append, numeral]
  have hcancel := List.append_cancel_left
    ((hlist x).symm.trans ((congrArg _ (congrArg _ h)).trans (hlist y)))
  have hdigits : ∀ n : ℕ, ∀ d ∈ (numeral n).toList.reverse, d.isDigit = true := fun n d hd =>
    isDigit_of_mem_numeral (List.mem_reverse.mp hd)
  have hcount := digits_prefix_inj (hdigits x.2) (hdigits y.2) (by decide) (by decide) hcancel
  rw [hcount] at hcancel
  have hname := List.append_cancel_left hcancel
  refine Prod.ext (relName_inj hx hy (String.toList_inj.mp ?_)) (numeral_inj (String.toList_inj.mp ?_))
  · simpa using hname
  · simpa using hcount

/-- **The orphan check agrees with the tree.** Where the user's slice is a tree
of cgroup directories, or is not there, the check reports each directory that is
not the service's and has processes, once, and nothing else. -/
theorem check_orphan_processes_agrees (self : PAMHelper) (slice : Option Cgroup) : ∃ result,
    eval (Cgroup.answer (slicePath self.userid) slice) (checkOrphanProcesses self).run = .ok result ∧
      Agrees self.userid slice result := by
  cases slice with
  | none =>
    have hnone : ∀ x, ¬ IsOrphan self.userid none x := by
      rintro x ⟨c, text, hc, -⟩
      cases hc
    exact ⟨[], rfl, ⟨[], List.nodup_nil, fun x => by simp [hnone], rfl⟩, List.nodup_nil, by simp [hnone],
      fun _ => rfl⟩
  | some c =>
    have hnodup : ((c.walk.filterMap (orphanAt self.userid)).map Prod.fst).Nodup :=
      (orphans_sublist self.userid c.walk).nodup c.nodup_walk
    have hnamed : ∀ x ∈ c.walk.filterMap (orphanAt self.userid), ∀ n ∈ x.1, IsDirName n := by
      intro x hx
      obtain ⟨c', text, hc, hfound, -⟩ := mem_orphans.mp hx
      cases hc
      exact c.named_of_mem (c.mem_walk.mpr hfound)
    refine ⟨(c.walk.filterMap (orphanAt self.userid)).map report, ?_,
      ⟨_, hnodup, fun x => mem_orphans, rfl⟩, ?_, ?_, fun h => by cases h⟩
    · have hloop := eval_orphanLoop self c c.walk fun _ hx => hx
      have hexists : Cgroup.answer (slicePath self.userid) (some c)
          (.pathExists (slicePath self.userid)) = true := by
        simp [Cgroup.answer, components, Cgroup.pathExists, Cgroup.find?]
      have hwalk : Cgroup.answer (slicePath self.userid) (some c) (.walk (slicePath self.userid)) =
          c.walk.map fun x => joinPath (slicePath self.userid) x.1 := if_pos rfl
      rw [checkOrphanProcesses, eval_callBind, if_pos hexists, eval_callBind, hwalk]
      exact hloop
    · exact hnodup.of_map.map_on fun x hx y hy h => report_inj (hnamed x hx) (hnamed y hy) h
    · rw [List.map_eq_nil_iff, List.eq_nil_iff_forall_not_mem]
      exact forall_congr' fun x => not_congr mem_orphans

-- the service is excluded, a nested directory of its name is not
example : ([(["user@1000.service"], .lines ["2\n"]),
    (["user@1000.service.bak", "user@1000.service"], .lines ["3\n", " \n"])].filterMap
      (orphanAt 1000)).map report = ["user@1000.service.bak/user@1000.service: 1 process(es)"] := by
  decide

end FluxPam
