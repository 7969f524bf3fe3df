/-
# What an update leaves a slice with

`modify_slice` has one command to say what the mapper answered: it resets the
two device properties, then assigns item by item. An item's arguments do what
the item says, whatever the slice was (`assignAll_itemArgs`), so after the
command the device list is the mapper's, the policy is its own or the default,
and every other property is as answered (`modify_slice_faithful`). The mapper
joins a device list with commas, and the list comes back
(`deviceEntries_intercalate`).
-/
import FluxPam.Interaction.Expand
import FluxPam.Update
import Mathlib.Data.List.DropRight

namespace FluxPam

open Interaction Prog SliceProps

/-! ### Entries -/

/-- No blank at either end. -/
def Trimmed (cs : List Char) : Prop :=
  (∀ c ∈ cs.head?, isPySpace c = false) ∧ ∀ c ∈ cs.getLast?, isPySpace c = false

/-- What an entry of a device list looks like. -/
def IsEntry (entry : String) : Prop :=
  entry ≠ "" ∧ ',' ∉ entry.toList ∧ Trimmed entry.toList

theorem strip_eq (cs : List Char) : strip cs = (cs.dropWhile isPySpace).rdropWhile isPySpace := rfl

theorem trimmed_strip (cs : List Char) : Trimmed (strip cs) := by
  rw [strip_eq]
  constructor
  · intro c hc
    obtain ⟨rest, hrest⟩ := List.rdropWhile_prefix isPySpace (cs.dropWhile isPySpace)
    have hhead : (cs.dropWhile isPySpace).head? = some c := by
      rw [← hrest, List.head?_append, Option.mem_def.mp hc]
      rfl
    have := List.head?_dropWhile_not isPySpace cs
    rwa [hhead] at this
  · intro c hc
    obtain ⟨hne, rfl⟩ := List.mem_getLast?_eq_getLast hc
    exact Bool.eq_false_of_not_eq_true (List.rdropWhile_last_not _ _ hne)

theorem strip_of_trimmed {cs : List Char} (h : Trimmed cs) : strip cs = cs := by
  have hleft : cs.dropWhile isPySpace = cs := by
    cases cs with
    | nil => rfl
    | cons c cs => exact List.dropWhile_cons_of_neg (by simp [h.1 c rfl])
  rw [strip_eq, hleft, List.rdropWhile_eq_self_iff]
  intro hne
  simp [h.2 _ (List.getLast_mem_getLast? hne)]

theorem mem_of_mem_strip {cs : List Char} {c : Char} (h : c ∈ strip cs) : c ∈ cs := by
  rw [strip_eq] at h
  exact List.dropWhile_subset _ ((List.rdropWhile_prefix isPySpace _).subset h)

theorem notMem_of_mem_splitOn {a : Char} : ∀ {cs field : List Char}, field ∈ cs.splitOn a → a ∉ field
  | [], field, h => by
    rw [List.splitOn_nil, List.mem_singleton] at h
    simp [h]
  | c :: cs, field, h => by
    have ih : ∀ {field}, field ∈ cs.splitOn a → a ∉ field := notMem_of_mem_splitOn
    rw [List.splitOn_cons_eq_if_modifyHead] at h
    by_cases hc : c = a
    · rw [if_pos (by simpa using hc), List.mem_cons] at h
      rcases h with rfl | h
      · exact List.not_mem_nil
      · exact ih h
    · rw [if_neg (by simpa using hc)] at h
      obtain ⟨first, others, hsplit⟩ := List.exists_cons_of_ne_nil (List.splitOn_ne_nil a cs)
      rw [hsplit, List.modifyHead_cons, List.mem_cons] at h
      rcases h with rfl | h
      · rw [List.mem_cons, not_or]
        exact ⟨Ne.symm hc, ih (hsplit ▸ List.mem_cons_self)⟩
      · exact ih (hsplit ▸ List.mem_cons_of_mem _ h)

theorem isEntry_of_mem {value entry : String} (h : entry ∈ deviceEntries value) : IsEntry entry := by
  simp only [deviceEntries, List.mem_map, List.mem_filter, decide_eq_true_eq] at h
  obtain ⟨cs, ⟨⟨field, hfield, rfl⟩, hne⟩, rfl⟩ := h
  refine ⟨?_, ?_, ?_⟩
  · rw [ne_eq, ← String.toList_eq_nil_iff, String.toList_ofList]
    exact hne
  · rw [String.toList_ofList]
    exact fun hc => notMem_of_mem_splitOn hfield (mem_of_mem_strip hc)
  · rw [String.toList_ofList]
    exact trimmed_strip field

/-- A list of entries that is joined with commas comes back. -/
theorem deviceEntries_intercalate {entries : List String} (h : ∀ e ∈ entries, IsEntry e) :
    deviceEntries (",".intercalate entries) = entries := by
  cases entries with
  | nil => decide
  | cons e es =>
    have hjoin : (",".intercalate (e :: es)).toList = [','].intercalate ((e :: es).map String.toList) :=
      String.toList_intercalate
    have hcomma : ∀ cs ∈ (e :: es).map String.toList, ',' ∉ cs := by
      intro cs hcs
      obtain ⟨entry, hentry, rfl⟩ := List.mem_map.mp hcs
      exact (h entry hentry).2.1
    have hstrip : ((e :: es).map String.toList).map strip = (e :: es).map String.toList := by
      rw [List.map_map]
      exact List.map_congr_left fun entry hentry => strip_of_trimmed (h entry hentry).2.2
    have hfilter : ((e :: es).map String.toList).filter (· ≠ []) = (e :: es).map String.toList := by
      rw [List.filter_eq_self]
      intro cs hcs
      obtain ⟨entry, hentry, rfl⟩ := List.mem_map.mp hcs
      simpa using (h entry hentry).1
    rw [deviceEntries, hjoin, List.splitOn_intercalate ',' hcomma (by simp), hstrip, hfilter,
      List.map_map]
    simp [Function.comp_def]

/-! ### One item -/

theorem splitAssignment_of_notMem {key : String} (h : '=' ∉ key.toList) (value : String) :
    splitAssignment (key ++ "=" ++ value) = some (key, value) := by
  have hdrop : key.toList.dropWhile (· ≠ '=') = [] := by
    rw [List.dropWhile_eq_nil_iff]
    intro c hc
    simpa using fun he : c = '=' => h (he ▸ hc)
  rw [splitAssignment_append, assignedName_of_notMem h, hdrop]
  simp

theorem assign_of_notMem {key : String} (h : '=' ∉ key.toList) (value : String) (s : SliceProps) :
    s.assign (key ++ "=" ++ value) = s.set key value := by
  rw [assign, splitAssignment_of_notMem h]

theorem deviceAllow_noEquals : '=' ∉ "DeviceAllow".toList := by decide

/-- Entries are appended in order. -/
theorem assignAll_entries : ∀ {entries : List String} (s : SliceProps), (∀ e ∈ entries, e ≠ "") →
    s.assignAll (entries.map fun e => "DeviceAllow" ++ "=" ++ e) =
      { s with deviceAllow := s.deviceAllow ++ entries }
  | [], s, _ => by simp [assignAll]
  | e :: entries, s, h => by
    have hset : s.set "DeviceAllow" e = { s with deviceAllow := s.deviceAllow ++ [e] } := by
      simp [SliceProps.set, h e List.mem_cons_self]
    have ih := assignAll_entries { s with deviceAllow := s.deviceAllow ++ [e] } fun x hx =>
      h x (List.mem_cons_of_mem _ hx)
    rw [List.map_cons, assignAll, List.foldl_cons, assign_of_notMem deviceAllow_noEquals, hset]
    rw [assignAll] at ih
    rw [ih, List.append_assoc, List.singleton_append]

/-- The arguments of an item do to the slice what the item says. -/
theorem assignAll_itemArgs {key : String} (h : '=' ∉ key.toList) (value : String) (s : SliceProps) :
    s.assignAll (itemArgs (key, value)) =
      if key = "DeviceAllow" then { s with deviceAllow := s.deviceAllow ++ deviceEntries value }
      else { s with other := Function.update s.other key (some value) } := by
  by_cases hkey : key = "DeviceAllow"
  · subst hkey
    rw [itemArgs, if_pos rfl, if_pos rfl]
    exact assignAll_entries s fun e he => (isEntry_of_mem he).1
  · rw [itemArgs, if_neg hkey, if_neg hkey, assignAll, List.foldl_cons, List.foldl_nil,
      assign_of_notMem h, SliceProps.set, if_neg hkey]

/-! ### A dictionary -/

/-- `properties.get (key)`. -/
def Properties.get? (P : Properties) (key : String) : Option String := P.entries.lookup key

theorem lookup_of_notMem {key : String} {items : List (String × String)}
    (h : key ∉ items.map Prod.fst) : items.lookup key = none := by
  rw [List.lookup_eq_none_iff]
  rintro ⟨k, value⟩ hmem
  exact bne_iff_ne.mpr fun he => h (he ▸ List.mem_map_of_mem hmem)

/-- The items assign one after the other, and each key once. -/
theorem assignAll_items : ∀ (items : List (String × String)) (s : SliceProps),
    (items.map Prod.fst).Nodup → (∀ key ∈ items.map Prod.fst, '=' ∉ key.toList) →
      (s.assignAll (items.flatMap itemArgs)).deviceAllow =
          s.deviceAllow ++ ((items.lookup "DeviceAllow").map deviceEntries).getD [] ∧
        ∀ n, n ≠ "DeviceAllow" →
          (s.assignAll (items.flatMap itemArgs)).other n = (items.lookup n).or (s.other n)
  | [], s, _, _ => by simp [assignAll]
  | (key, value) :: items, s, hnodup, hkeys => by
    rw [List.map_cons, List.nodup_cons] at hnodup
    obtain ⟨hfresh, hnodup⟩ := hnodup
    have ih := fun s => assignAll_items items s hnodup fun k hk => hkeys k (List.mem_cons_of_mem _ hk)
    have hkey := assignAll_itemArgs (hkeys key List.mem_cons_self) value s
    rw [List.flatMap_cons, assignAll_append, hkey]
    by_cases hda : key = "DeviceAllow"
    · subst hda
      rw [if_pos rfl]
      obtain ⟨hdev, hother⟩ := ih { s with deviceAllow := s.deviceAllow ++ deviceEntries value }
      refine ⟨?_, fun n hn => ?_⟩
      · rw [hdev, lookup_of_notMem hfresh]
        simp
      · rw [hother n hn, List.lookup_cons, beq_false_of_ne hn]
    · rw [if_neg hda]
      obtain ⟨hdev, hother⟩ := ih { s with other := Function.update s.other key (some value) }
      refine ⟨?_, fun n hn => ?_⟩
      · rw [hdev, List.lookup_cons, beq_false_of_ne (Ne.symm hda)]
      · rw [hother n hn, List.lookup_cons]
        by_cases hkn : n = key
        · subst hkn
          simp [lookup_of_notMem hfresh]
        · simp [beq_false_of_ne hkn, Function.update_of_ne hkn]

/-- The slice after the two resets. -/
def SliceProps.reset (s : SliceProps) : SliceProps :=
  ⟨[], Function.update s.other "DevicePolicy" (some "auto")⟩

theorem assignAll_resets (s : SliceProps) (args : List String) :
    s.assignAll ("DeviceAllow=" :: "DevicePolicy=auto" :: args) = s.reset.assignAll args := by
  have hallow : splitAssignment "DeviceAllow=" = some ("DeviceAllow", "") := by decide
  have hpolicy : splitAssignment "DevicePolicy=auto" = some ("DevicePolicy", "auto") := by decide
  simp [assignAll, assign, hallow, hpolicy, SliceProps.set, SliceProps.reset]

/-! ### The command -/

/-- What the arguments of an update are to do to a slice, whatever its state:
the device list is that of the dictionary, the policy the dictionary's or
`auto`, and every other property as the dictionary has it. The reset comes
first, and every entry after it is one entry. -/
structure Encodes (P : Properties) (args : List String) : Prop where
  deviceAllow : ∀ s : SliceProps, (s.assignAll args).deviceAllow =
    ((P.get? "DeviceAllow").map deviceEntries).getD []
  devicePolicy : ∀ s : SliceProps, (s.assignAll args).other "DevicePolicy" =
    some ((P.get? "DevicePolicy").getD "auto")
  other : ∀ (s : SliceProps) (key value : String), key ≠ "DeviceAllow" → P.get? key = some value →
    (s.assignAll args).other key = some value
  reset : ∃ rest, args = "DeviceAllow=" :: rest ∧ "DeviceAllow=" ∉ rest ∧ ∀ arg ∈ rest, ∀ entry,
    splitAssignment arg = some ("DeviceAllow", entry) → IsEntry entry
  roundTrip : ∀ entries : List String, (∀ e ∈ entries, IsEntry e) →
    P.get? "DeviceAllow" = some (",".intercalate entries) →
      ∀ s : SliceProps, (s.assignAll args).deviceAllow = entries

section Keys

variable {P : Properties} (hkeys : ∀ key ∈ P.keys, '=' ∉ key.toList)
include hkeys

/-- An argument for a device is one entry. -/
theorem isEntry_of_itemArgs {item : String × String} (hitem : item ∈ P.entries) {arg entry : String}
    (harg : arg ∈ itemArgs item) (hsplit : splitAssignment arg = some ("DeviceAllow", entry)) :
    IsEntry entry := by
  obtain ⟨key, value⟩ := item
  rw [itemArgs] at harg
  by_cases hkey : key = "DeviceAllow"
  · subst hkey
    rw [if_pos rfl, List.mem_map] at harg
    obtain ⟨e, he, rfl⟩ := harg
    rw [splitAssignment_of_notMem deviceAllow_noEquals] at hsplit
    obtain rfl : e = entry := by simpa using hsplit
    exact isEntry_of_mem he
  · rw [if_neg hkey, List.mem_singleton] at harg
    subst harg
    rw [splitAssignment_of_notMem (hkeys key (List.mem_map_of_mem hitem))] at hsplit
    exact absurd (Prod.mk.inj (Option.some.inj hsplit)).1 hkey

theorem encodes_assignments : Encodes P (assignments P) := by
  have hitems := fun s => assignAll_items P.entries (SliceProps.reset s) P.nodup hkeys
  have hassign : ∀ s : SliceProps,
      s.assignAll (assignments P) = s.reset.assignAll (P.entries.flatMap itemArgs) :=
    fun s => assignAll_resets s _
  have hallow : ∀ s : SliceProps, (s.assignAll (assignments P)).deviceAllow =
      ((P.get? "DeviceAllow").map deviceEntries).getD [] := fun s => by
    rw [hassign, (hitems s).1]
    rfl
  refine ⟨hallow, fun s => ?_, fun s key value hkey hvalue => ?_, ?_, fun entries h hjoin s => ?_⟩
  · rw [hassign, (hitems s).2 _ (by decide), Properties.get?]
    cases P.entries.lookup "DevicePolicy" <;> simp [SliceProps.reset]
  · rw [hassign, (hitems s).2 _ hkey, ← Properties.get?, hvalue]
    rfl
  · have hentry : ∀ arg ∈ "DevicePolicy=auto" :: P.entries.flatMap itemArgs, ∀ entry,
        splitAssignment arg = some ("DeviceAllow", entry) → IsEntry entry := by
      intro arg harg entry hsplit
      rcases List.mem_cons.mp harg with rfl | harg
      · have : splitAssignment "DevicePolicy=auto" = some ("DevicePolicy", "auto") := by decide
        simp [this] at hsplit
      · obtain ⟨item, hitem, harg⟩ := List.mem_flatMap.mp harg
        exact isEntry_of_itemArgs hkeys hitem harg hsplit
    have hbare : splitAssignment "DeviceAllow=" = some ("DeviceAllow", "") := by decide
    exact ⟨_, rfl, fun h => (hentry _ h _ hbare).1 rfl, hentry⟩
  · rw [hallow, hjoin, Option.map_some, Option.getD_some, deviceEntries_intercalate h]

end Keys

section Command

variable {σ : Type} {exec : σ → (o : Op) → Res o → σ → Prop} {w w' : σ} {t : List Event}

/-- A command is performed, if its program is an absolute path. -/
theorem runs_command {arg : String} {args : List String} {timeout : ℚ} {r : Except Exn String}
    (h : Runs exec (runSubprocess (arg :: args) timeout).run w t r w') :
    (isabs arg = true ∧ ∃ answer, t = [⟨.run (arg :: args) timeout, answer⟩] ∧
        r = answer.mapError RunError.toExn) ∨
      (isabs arg = false ∧ t = [] ∧ ∃ msg, r = .error (.valueError msg)) := by
  rw [runSubprocess] at h
  by_cases habs : isabs arg = true
  · rw [if_pos habs, runs_raised] at h
    obtain ⟨answer, hrun, rfl⟩ := h
    exact .inl ⟨habs, answer, (runs_perform.mp hrun).2, rfl⟩
  · rw [if_neg habs, runs_throw] at h
    exact .inr ⟨Bool.eq_false_of_not_eq_true habs, h.1, _, h.2.1⟩

/-- The command of an update, and what its outcome says. -/
theorem runs_modifySlice {helper : PAMHelper} {P : Properties} {r : Except Exn Unit}
    (h : Runs exec (helper.modifySlice (some P)).run w t r w') :
    (isabs helper.systemctl = true ∧ ∃ answer : Except RunError String, t = [⟨.run
        ([helper.systemctl, "set-property", "--runtime", sliceName helper.userid] ++ assignments P) 30,
          answer⟩] ∧ r = (answer.mapError RunError.toExn).map fun _ => ()) ∨
      (isabs helper.systemctl = false ∧ t = [] ∧ ∃ msg, r = .error (.valueError msg)) := by
  rcases runs_exceptBind.mp h with ⟨t₁, out, w₁, t₂, hrun, ⟨rfl, rfl, -⟩, rfl⟩ | ⟨e, hrun, rfl⟩
  · rcases runs_command hrun with ⟨habs, answer, rfl, hr⟩ | ⟨-, -, msg, hr⟩
    · exact .inl ⟨habs, answer, rfl, by rw [← hr]; rfl⟩
    · cases hr
  · rcases runs_command hrun with ⟨habs, answer, rfl, hr⟩ | ⟨habs, rfl, msg, hr⟩
    · exact .inl ⟨habs, answer, rfl, by rw [← hr]; rfl⟩
    · exact .inr ⟨habs, rfl, msg, by cases hr; rfl⟩

end Command

/-- **What an update leaves a slice with.** `modify_slice` runs one command, if
`systemctl` is an absolute path, and its arguments encode the dictionary. -/
theorem modify_slice_faithful (helper : PAMHelper) {P : Properties}
    (hkeys : ∀ key ∈ P.keys, '=' ∉ key.toList) {t : List Event} {r : Except Exn Unit}
    (h : Traces (helper.modifySlice (some P)).run t r) :
    ∃ args, Encodes P args ∧
      ((isabs helper.systemctl = true ∧ ∃ answer, t = [⟨.run
          ([helper.systemctl, "set-property", "--runtime", sliceName helper.userid] ++ args) 30, answer⟩]) ∨
        (isabs helper.systemctl = false ∧ t = [])) := by
  refine ⟨assignments P, encodes_assignments hkeys, ?_⟩
  rcases runs_modifySlice h with ⟨habs, answer, ht, -⟩ | ⟨habs, ht, -⟩
  · exact .inl ⟨habs, answer, ht⟩
  · exact .inr ⟨habs, ht⟩

/-- A dictionary with padded entries, a policy and a value with commas. -/
def Properties.padded : Properties :=
  ⟨[("AllowedCPUs", "0,2"), ("DeviceAllow", " /dev/a rw, ,/dev/b r"), ("DevicePolicy", "closed")], by decide⟩

theorem modify_slice_faithful_padded : ∃ (t : List Event) (args : List String),
    Traces (PAMHelper.small.modifySlice (some .padded)).run t (.ok ()) ∧ Encodes .padded args ∧
      ((isabs PAMHelper.small.systemctl = true ∧ ∃ answer, t = [⟨.run
          ([PAMHelper.small.systemctl, "set-property", "--runtime", sliceName PAMHelper.small.userid] ++ args)
            30, answer⟩]) ∨
        (isabs PAMHelper.small.systemctl = false ∧ t = [])) := by
  have h : Traces (PAMHelper.small.modifySlice (some .padded)).run
      [⟨.run ([PAMHelper.small.systemctl, "set-property", "--runtime", sliceName PAMHelper.small.userid] ++
        assignments .padded) 30, .ok ""⟩] (.ok ()) :=
    traces_of_script (n := 5) (by with_unfolding_all rfl)
  obtain ⟨args, hargs⟩ := modify_slice_faithful .small (by decide) h
  exact ⟨_, args, h, hargs⟩

end FluxPam
