/-
# The properties of a slice

What `systemctl set-property --runtime` does to a slice's properties, as the
scripts rely on it: the assignments apply left to right, a bare `DeviceAllow=`
clears that list and `DeviceAllow=x` appends to it, any other assignment
replaces the value of its name, and a name that is not assigned is left alone.
`assignments` is the list `modify_slice` passes. It resets the two device
properties first, so of an earlier update only what it assigned to other
names is left (`assignAll_assignments`).
-/
import FluxPam.Text
import Mathlib.Logic.Function.Basic
import Mathlib.Data.List.Basic
import Mathlib.Tactic.SplitIfs

namespace FluxPam

/-- A dictionary of systemd properties in insertion order. A value is read
through `str ()` only, so it is kept as that text. -/
structure Properties where
  entries : List (String × String)
  nodup : (entries.map Prod.fst).Nodup

namespace Properties

instance : EmptyCollection Properties := ⟨⟨[], List.nodup_nil⟩⟩

def keys (P : Properties) : List String := P.entries.map Prod.fst

end Properties

/-- The runtime properties of a slice unit: the `DeviceAllow` list, and the
last value assigned to every other name. -/
@[ext] structure SliceProps where
  deviceAllow : List String
  other : String → Option String

namespace SliceProps

/-- A slice no runtime property was ever set on. -/
def fresh : SliceProps := ⟨[], fun _ => none⟩

/-- An assignment's name and value: the text before and after the first
`=`. -/
def splitAssignment (arg : String) : Option (String × String) :=
  match arg.toList.dropWhile (· ≠ '=') with
  | _ :: value => some (String.ofList (arg.toList.takeWhile (· ≠ '=')), String.ofList value)
  | [] => none

/-- The effect of assigning `value` to `name`. -/
def set (s : SliceProps) (name value : String) : SliceProps :=
  if name = "DeviceAllow" then
    if value = "" then { s with deviceAllow := [] }
    else { s with deviceAllow := s.deviceAllow ++ [value] }
  else { s with other := Function.update s.other name (some value) }

/-- One argument of `set-property`; one that is no assignment changes
nothing. -/
def assign (s : SliceProps) (arg : String) : SliceProps :=
  match splitAssignment arg with
  | some (name, value) => s.set name value
  | none => s

def assignAll (s : SliceProps) (args : List String) : SliceProps := args.foldl assign s

theorem assignAll_append (s : SliceProps) (a b : List String) :
    s.assignAll (a ++ b) = (s.assignAll a).assignAll b := List.foldl_append ..

end SliceProps

open SliceProps

/-- The entries of a `DeviceAllow` value: its comma-separated fields, stripped,
without the empty ones. -/
def deviceEntries (value : String) : List String :=
  ((value.toList.splitOn ',').map strip).filter (· ≠ []) |>.map String.ofList

/-- The arguments `modify_slice` appends for one item of the dictionary. -/
def itemArgs (item : String × String) : List String :=
  if item.1 = "DeviceAllow" then (deviceEntries item.2).map fun entry => item.1 ++ "=" ++ entry
  else [item.1 ++ "=" ++ item.2]

/-- The assignments `modify_slice` passes for a dictionary: the two resets,
then its items in order. -/
def assignments (properties : Properties) : List String :=
  "DeviceAllow=" :: "DevicePolicy=auto" :: properties.entries.flatMap itemArgs

/-- The property name an item's arguments assign to: its key up to the first
`=`. -/
def assignedName (key : String) : String := String.ofList (key.toList.takeWhile (· ≠ '='))

/-! ### One argument -/

theorem splitAssignment_append (key value : String) : splitAssignment (key ++ "=" ++ value) =
    some (assignedName key, String.ofList
      (((key.toList.dropWhile (· ≠ '=')) ++ '=' :: value.toList).tail)) := by
  have h : ∀ ks vs : List Char,
      ((ks ++ '=' :: vs).takeWhile (· ≠ '=')) = ks.takeWhile (· ≠ '=') ∧
      ((ks ++ '=' :: vs).dropWhile (· ≠ '=')) = ks.dropWhile (· ≠ '=') ++ '=' :: vs := by
    intro ks vs
    induction ks with
    | nil => simp
    | cons k ks ih =>
      by_cases hk : k = '='
      · subst hk; simp
      · simpa [hk] using ih
  have ht : (key ++ "=" ++ value).toList = key.toList ++ '=' :: value.toList := by
    simp [String.toList_append]
  unfold splitAssignment assignedName
  rw [ht, (h _ _).1, (h _ _).2]
  cases key.toList.dropWhile (· ≠ '=') <;> rfl

theorem assignedName_of_notMem {key : String} (h : '=' ∉ key.toList) : assignedName key = key := by
  unfold assignedName
  rw [List.takeWhile_eq_self_iff.mpr, String.ofList_toList]
  intro c hc
  simpa using fun he : c = '=' => h (he ▸ hc)

/-- What an argument assigns to a name other than `DeviceAllow`. -/
def written (n : String) (arg : String) : Option String :=
  match splitAssignment arg with
  | some (m, value) => if m = n ∧ n ≠ "DeviceAllow" then some value else none
  | none => none

theorem assign_other (s : SliceProps) (arg n : String) :
    (s.assign arg).other n = (written n arg).or (s.other n) := by
  unfold assign written
  cases splitAssignment arg with
  | none => rfl
  | some mv =>
    obtain ⟨m, v⟩ := mv
    simp only [SliceProps.set]
    by_cases hm : m = "DeviceAllow"
    · subst hm
      by_cases hn : "DeviceAllow" = n
      · subst hn; split_ifs <;> simp_all
      · split_ifs <;> simp_all
    · by_cases hn : m = n
      · subst hn; simp [hm]
      · simp [hm, hn, Function.update_of_ne (Ne.symm hn)]

theorem assign_deviceAllow {s t : SliceProps} (h : s.deviceAllow = t.deviceAllow) (arg : String) :
    (s.assign arg).deviceAllow = (t.assign arg).deviceAllow := by
  unfold assign
  cases splitAssignment arg with
  | none => exact h
  | some mv => simp only [SliceProps.set]; split_ifs <;> simp [h]

/-! ### A list of arguments -/

/-- The last value the arguments assign to a name. -/
def lastWritten (n : String) (args : List String) : Option String :=
  args.foldl (fun acc arg => (written n arg).or acc) none

theorem foldl_or (n : String) : ∀ (args : List String) (x : Option String),
    args.foldl (fun acc arg => (written n arg).or acc) x = (lastWritten n args).or x
  | [], x => by simp [lastWritten]
  | arg :: args, x => by
    simp only [lastWritten, List.foldl_cons]
    rw [foldl_or n args, foldl_or n args ((written n arg).or none), Option.or_assoc, Option.or_none]

theorem lastWritten_cons (n arg : String) (args : List String) :
    lastWritten n (arg :: args) = (lastWritten n args).or (written n arg) := by
  rw [lastWritten, List.foldl_cons, foldl_or, Option.or_none]

theorem assignAll_other (n : String) : ∀ (args : List String) (s : SliceProps),
    (s.assignAll args).other n = (lastWritten n args).or (s.other n)
  | [], s => by simp [assignAll, lastWritten]
  | arg :: args, s => by
    rw [show s.assignAll (arg :: args) = (s.assign arg).assignAll args from rfl,
      assignAll_other n args, assign_other, lastWritten_cons, Option.or_assoc]

theorem assignAll_deviceAllow {s t : SliceProps} (h : s.deviceAllow = t.deviceAllow) :
    ∀ args : List String, (s.assignAll args).deviceAllow = (t.assignAll args).deviceAllow := by
  intro args
  induction args generalizing s t with
  | nil => exact h
  | cons arg args ih => exact ih (assign_deviceAllow h arg)

theorem lastWritten_isSome {n : String} {args : List String} :
    (lastWritten n args).isSome ↔ ∃ arg ∈ args, (written n arg).isSome := by
  induction args with
  | nil => simp [lastWritten]
  | cons arg args ih => simp [lastWritten_cons, ih, or_comm]

/-! ### One update -/

/-- The names, other than the two it resets, that an update assigns to. -/
def Properties.names (P : Properties) : List String :=
  (P.keys.map assignedName).filter fun n => n ≠ "DeviceAllow" ∧ n ≠ "DevicePolicy"

theorem written_itemArgs {n : String} {item : String × String} :
    (∃ arg ∈ itemArgs item, (written n arg).isSome) ↔
      n ≠ "DeviceAllow" ∧ assignedName item.1 = n := by
  obtain ⟨key, value⟩ := item
  have hda : assignedName "DeviceAllow" = "DeviceAllow" := assignedName_of_notMem (by decide)
  by_cases hk : key = "DeviceAllow"
  · subst hk
    constructor
    · rintro ⟨arg, harg, hw⟩
      simp only [itemArgs, if_true, List.mem_map] at harg
      obtain ⟨entry, -, rfl⟩ := harg
      rw [written, splitAssignment_append] at hw
      simp only [hda] at hw
      split_ifs at hw with h
      · exact absurd h.1.symm h.2
      · simp at hw
    · rintro ⟨hn, h⟩
      simp only [hda] at h
      exact absurd h.symm hn
  · simp only [itemArgs, hk, if_false, List.mem_singleton, exists_eq_left]
    rw [written, splitAssignment_append]
    by_cases h : assignedName key = n ∧ n ≠ "DeviceAllow"
    · simp [h]
    · simp only [if_neg h, Option.isSome_none, Bool.false_eq_true, false_iff]
      exact fun h' => h ⟨h'.2, h'.1⟩

/-- An update assigns `DevicePolicy` and the names of its dictionary. -/
theorem lastWritten_assignments {n : String} (P : Properties) :
    (lastWritten n (assignments P)).isSome ↔ n = "DevicePolicy" ∨ n ∈ P.names := by
  have h₀ : written n "DeviceAllow=" = none := by
    have : splitAssignment "DeviceAllow=" = some ("DeviceAllow", "") := by decide
    rw [written, this]
    exact if_neg fun h => h.2 h.1.symm
  have h₁ : (written n "DevicePolicy=auto").isSome ↔ n = "DevicePolicy" := by
    have : splitAssignment "DevicePolicy=auto" = some ("DevicePolicy", "auto") := by decide
    rw [written, this]
    by_cases h : n = "DevicePolicy"
    · subst h; simp
    · simp [h, Ne.symm h]
  rw [assignments, lastWritten_cons, lastWritten_cons, h₀, Option.or_none, Option.isSome_or,
    Bool.or_eq_true, lastWritten_isSome, h₁]
  simp only [List.mem_flatMap, Properties.names, Properties.keys, List.mem_filter, List.mem_map,
    decide_eq_true_eq]
  constructor
  · rintro (⟨arg, ⟨item, hi, ha⟩, hw⟩ | h)
    · obtain ⟨hn, rfl⟩ := written_itemArgs.mp ⟨arg, ha, hw⟩
      by_cases hp : assignedName item.1 = "DevicePolicy"
      · exact .inl hp
      · exact .inr ⟨⟨_, ⟨item, hi, rfl⟩, rfl⟩, hn, hp⟩
    · exact .inl h
  · rintro (h | ⟨⟨_, ⟨item, hi, rfl⟩, rfl⟩, hn, -⟩)
    · exact .inr h
    · obtain ⟨arg, ha, hw⟩ := written_itemArgs.mpr ⟨hn, rfl⟩
      exact .inl ⟨arg, ⟨item, hi, ha⟩, hw⟩

/-- Two slices that an update was applied to agree on the device list. -/
theorem deviceAllow_assignments (s t : SliceProps) (P : Properties) :
    (s.assignAll (assignments P)).deviceAllow = (t.assignAll (assignments P)).deviceAllow := by
  have h : ∀ s : SliceProps, (s.assign "DeviceAllow=").deviceAllow = [] := by
    intro s
    have : splitAssignment "DeviceAllow=" = some ("DeviceAllow", "") := by decide
    simp [assign, this, SliceProps.set]
  exact assignAll_deviceAllow ((h s).trans (h t).symm) _

/-- A name that an update assigns has the value the update alone gives it. -/
theorem assignAll_assigned (s t : SliceProps) {P : Properties} {n : String}
    (h : n = "DevicePolicy" ∨ n ∈ P.names) :
    (s.assignAll (assignments P)).other n = (t.assignAll (assignments P)).other n := by
  obtain ⟨v, hv⟩ := Option.isSome_iff_exists.mp ((lastWritten_assignments P).mpr h)
  rw [assignAll_other, assignAll_other, hv, Option.some_or, Option.some_or]

/-- Any other name keeps its value. -/
theorem assignAll_unassigned (s : SliceProps) {P : Properties} {n : String}
    (hn : n ≠ "DevicePolicy") (hP : n ∉ P.names) :
    (s.assignAll (assignments P)).other n = s.other n := by
  have hnone : lastWritten n (assignments P) = none := Option.not_isSome_iff_eq_none.mp fun h =>
    ((lastWritten_assignments P).mp h).elim hn hP
  rw [assignAll_other, hnone, Option.none_or]

/-- **What one update leaves of the slice before it**: the values of the names
it does not assign. -/
theorem assignAll_assignments (s t : SliceProps) (P : Properties) :
    s.assignAll (assignments P) = t.assignAll (assignments P) ↔
      ∀ n, n ≠ "DevicePolicy" → n ∉ P.names → s.other n = t.other n := by
  constructor
  · intro h n hn hP
    have h' := congrArg (·.other n) h
    simpa only [assignAll_unassigned _ hn hP] using h'
  · intro h
    ext1
    · exact deviceAllow_assignments s t P
    · funext n
      by_cases hn : n = "DevicePolicy" ∨ n ∈ P.names
      · exact assignAll_assigned s t hn
      · obtain ⟨hn, hP⟩ := not_or.mp hn
        rw [assignAll_unassigned s hn hP, assignAll_unassigned t hn hP, h n hn hP]

/-- The slice is as the update alone makes it, but for the names the update does
not assign. -/
structure SliceProps.Carries (s : SliceProps) (P : Properties) : Prop where
  deviceAllow : s.deviceAllow = (fresh.assignAll (assignments P)).deviceAllow
  assigned : ∀ n, n = "DevicePolicy" ∨ n ∈ P.names →
    s.other n = (fresh.assignAll (assignments P)).other n

theorem carries_assignAll (s : SliceProps) (P : Properties) :
    (s.assignAll (assignments P)).Carries P where
  deviceAllow := deviceAllow_assignments s fresh P
  assigned _ hn := assignAll_assigned s fresh hn

/-! ### A sequence of updates -/

/-- The arguments of a sequence of updates. -/
def history (Ps : List Properties) : List String := Ps.flatMap assignments

theorem lastWritten_history {n : String} (hn : n ≠ "DevicePolicy") (Ps : List Properties) :
    (lastWritten n (history Ps)).isSome ↔ ∃ Q ∈ Ps, n ∈ Q.names := by
  rw [lastWritten_isSome]
  simp only [history, List.mem_flatMap]
  constructor
  · rintro ⟨arg, ⟨Q, hQ, ha⟩, hw⟩
    rcases (lastWritten_assignments Q).mp (lastWritten_isSome.mpr ⟨arg, ha, hw⟩) with h | h
    · exact absurd h hn
    · exact ⟨Q, hQ, h⟩
  · rintro ⟨Q, hQ, h⟩
    obtain ⟨arg, ha, hw⟩ := lastWritten_isSome.mp ((lastWritten_assignments Q).mpr (.inr h))
    exact ⟨arg, ⟨Q, hQ, ha⟩, hw⟩

/-- After a sequence of updates of a fresh slice nothing is left of the
earlier ones exactly when the last one assigns every name they assigned. -/
theorem history_eq_last (Ps : List Properties) (P : Properties) :
    fresh.assignAll (history (Ps ++ [P])) = fresh.assignAll (assignments P) ↔
      ∀ Q ∈ Ps, ∀ n ∈ Q.names, n ∈ P.names := by
  have happ : history (Ps ++ [P]) = history Ps ++ assignments P := by simp [history]
  rw [happ, assignAll_append, assignAll_assignments]
  constructor
  · intro h Q hQ n hn
    by_contra hP
    have hpol : n ≠ "DevicePolicy" := by
      simp only [Properties.names, List.mem_filter, decide_eq_true_eq] at hn
      exact hn.2.2
    have hs := (lastWritten_history hpol Ps).mpr ⟨Q, hQ, hn⟩
    have h' := h n hpol hP
    rw [assignAll_other] at h'
    obtain ⟨v, hv⟩ := Option.isSome_iff_exists.mp hs
    simp [hv, fresh] at h'
  · intro h n hpol hP
    rw [assignAll_other]
    have hs : ¬ (lastWritten n (history Ps)).isSome := by
      rw [lastWritten_history hpol]
      rintro ⟨Q, hQ, hn⟩
      exact hP (h Q hQ n hn)
    simp [Option.not_isSome_iff_eq_none.mp hs]

end FluxPam
