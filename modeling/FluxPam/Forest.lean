/-
# Finite trees of named nodes

A forest lists its trees in order; each has a name, a label and the forest below
it. A node is found by its path, the names on the way down to it (`find?`), and a
preorder walk lists the nodes with their paths (`walk`). If no two siblings have
one name, the walk lists the nodes that are found, each once (`mem_walk`,
`nodup_walk`).
-/
import Mathlib.Data.List.Nodup

inductive Forest (α β : Type) where
  | nil
  | cons (name : α) (label : β) (below beside : Forest α β)

namespace Forest

variable {α β : Type}

/-- The names at the top. -/
def names : Forest α β → List α
  | nil => []
  | cons n _ _ beside => n :: beside.names

/-- The label of the node at a path. -/
def find? [DecidableEq α] : Forest α β → List α → Option β
  | nil, _ => none
  | cons _ _ _ _, [] => none
  | cons n b below beside, m :: path =>
    if m = n then if path = [] then some b else below.find? path else beside.find? (m :: path)

/-- The nodes in preorder. -/
def walk : Forest α β → List (List α × β)
  | nil => []
  | cons n b below beside => ([n], b) :: (below.walk.map fun x => (n :: x.1, x.2)) ++ beside.walk

/-- No two siblings have one name. -/
def Distinct : Forest α β → Prop
  | nil => True
  | cons n _ below beside => n ∉ beside.names ∧ below.Distinct ∧ beside.Distinct

/-- All names satisfy `P`. -/
def Named (P : α → Prop) : Forest α β → Prop
  | nil => True
  | cons n _ below beside => P n ∧ below.Named P ∧ beside.Named P

variable {f : Forest α β} {p : List α} {b : β}

theorem mem_walk_cons {n : α} {c : β} {below beside : Forest α β} :
    (p, b) ∈ (cons n c below beside).walk ↔
      (p = [n] ∧ b = c) ∨ (∃ path, p = n :: path ∧ (path, b) ∈ below.walk) ∨ (p, b) ∈ beside.walk := by
  rw [walk, List.cons_append, List.mem_cons, List.mem_append, List.mem_map, Prod.mk.injEq]
  refine or_congr_right (or_congr_left ⟨?_, ?_⟩)
  · rintro ⟨⟨path, b'⟩, hmem, heq⟩
    cases heq
    exact ⟨path, rfl, hmem⟩
  · rintro ⟨path, rfl, hmem⟩
    exact ⟨(path, b), hmem, rfl⟩

/-- A path starts with a name at the top. -/
theorem exists_of_mem_walk (h : (p, b) ∈ f.walk) : ∃ n path, p = n :: path ∧ n ∈ f.names := by
  induction f with
  | nil => exact absurd h List.not_mem_nil
  | cons n c below beside _ ih =>
    rcases mem_walk_cons.mp h with ⟨rfl, -⟩ | ⟨path, rfl, -⟩ | hmem
    · exact ⟨n, [], rfl, List.mem_cons_self⟩
    · exact ⟨n, path, rfl, List.mem_cons_self⟩
    · obtain ⟨m, path, rfl, hm⟩ := ih hmem
      exact ⟨m, path, rfl, List.mem_cons_of_mem _ hm⟩

theorem nil_notMem_walk : ([], b) ∉ f.walk := by
  intro h
  obtain ⟨n, path, hp, -⟩ := exists_of_mem_walk h
  cases hp

theorem named_of_mem_walk {P : α → Prop} (hf : f.Named P) (h : (p, b) ∈ f.walk) : ∀ n ∈ p, P n := by
  induction f generalizing p with
  | nil => exact absurd h List.not_mem_nil
  | cons n c below beside ihbelow ihbeside =>
    obtain ⟨hn, hbelow, hbeside⟩ := hf
    rcases mem_walk_cons.mp h with ⟨rfl, -⟩ | ⟨path, rfl, hmem⟩ | hmem
    · simpa using hn
    · exact List.forall_mem_cons.mpr ⟨hn, ihbelow hbelow hmem⟩
    · exact ihbeside hbeside hmem

/-- The walk lists the nodes that are found. -/
theorem mem_walk [DecidableEq α] (hf : f.Distinct) : (p, b) ∈ f.walk ↔ f.find? p = some b := by
  induction f generalizing p with
  | nil => simp [walk, find?]
  | cons n c below beside ihbelow ihbeside =>
    obtain ⟨hn, hbelow, hbeside⟩ := hf
    cases p with
    | nil => simp [nil_notMem_walk, find?]
    | cons m path =>
      rw [mem_walk_cons, find?]
      by_cases hm : m = n
      · subst hm
        have hbeside' : (m :: path, b) ∉ beside.walk := fun h => by
          obtain ⟨m', path', heq, hm'⟩ := exists_of_mem_walk h
          cases heq
          exact hn hm'
        rw [if_pos rfl]
        by_cases hpath : path = []
        · subst hpath
          simp [hbeside', nil_notMem_walk, eq_comm]
        · rw [if_neg hpath, ← ihbelow hbelow]
          simp [hbeside', hpath]
      · rw [if_neg hm, ← ihbeside hbeside]
        simp [hm]

/-- The walk lists no node twice. -/
theorem nodup_walk (hf : f.Distinct) : (f.walk.map Prod.fst).Nodup := by
  induction f with
  | nil => exact List.nodup_nil
  | cons n c below beside ihbelow ihbeside =>
    obtain ⟨hn, hbelow, hbeside⟩ := hf
    have hbeside' : ∀ path, n :: path ∉ beside.walk.map Prod.fst := by
      intro path h
      obtain ⟨⟨p, b⟩, hmem, rfl⟩ := List.mem_map.mp h
      obtain ⟨m, path', heq, hm⟩ := exists_of_mem_walk hmem
      cases heq
      exact hn hm
    have hpaths : (walk (cons n c below beside)).map Prod.fst =
        [n] :: ((below.walk.map Prod.fst).map (n :: ·) ++ beside.walk.map Prod.fst) := by
      simp [walk, Function.comp_def]
    rw [hpaths, List.nodup_cons, List.nodup_append]
    refine ⟨fun h => ?_, ?_, ihbeside hbeside, ?_⟩
    · rcases List.mem_append.mp h with h | h
      · obtain ⟨path, hpath, heq⟩ := List.mem_map.mp h
        cases heq
        obtain ⟨⟨p, b⟩, hmem, rfl⟩ := List.mem_map.mp hpath
        exact nil_notMem_walk hmem
      · exact hbeside' [] h
    · exact (ihbelow hbelow).map fun _ _ h => (List.cons.inj h).2
    · rintro _ h q hq rfl
      obtain ⟨path, -, rfl⟩ := List.mem_map.mp h
      exact hbeside' path hq

end Forest
