/-
# The names one user's state is kept under

Lock file, active marker, slice, service and cgroup directories are all found
by strings made of the uid, in Python by f-strings and in C by `snprintf`. Two
uids never share a name of one kind, nor does the lock file of one user alias
the marker of another, whatever the lock directory is; and a directory below
one user's slice is never below another's, although one uid's numeral may be a
prefix of the other's (`below_slicePath_inj`).
-/
import FluxPam.Text

namespace FluxPam

/-- `f"{lock_dir}/uid.{uid}.lock"` (`acquire_lock`). -/
def lockPath (lockDir : String) (uid : ℤ) : String :=
  lockDir ++ "/uid." ++ toString uid ++ ".lock"

/-- `f"{self._lock_dir}/uid.{userid}.active"` (`PAMHelper.__init__`). -/
def markerPath (lockDir : String) (userid : ℤ) : String :=
  lockDir ++ "/uid." ++ toString userid ++ ".active"

/-- `f"user-{self.userid}.slice"`. -/
def sliceName (userid : ℤ) : String := "user-" ++ toString userid ++ ".slice"

/-- `f"user@{self.userid}.service"`. -/
def serviceName (userid : ℤ) : String := "user@" ++ toString userid ++ ".service"

/-- The slice's directory, as `check_orphan_processes` names it. -/
def slicePath (userid : ℤ) : String :=
  "/sys/fs/cgroup/user.slice/user-" ++ toString userid ++ ".slice"

/-- The user manager's directory, as `check_orphan_processes` names it. -/
def servicePath (userid : ℤ) : String :=
  slicePath userid ++ "/user@" ++ toString userid ++ ".service"

/-- `path == top or path.startswith (top + "/")`. -/
def below (top path : String) : Bool :=
  path = top || (top ++ "/").toList.isPrefixOf path.toList

/-! ### The names of a uid -/

theorem toString_natCast (n : ℕ) : toString (n : ℤ) = numeral n := rfl

theorem framed_toList (pre post : String) (n : ℕ) :
    (pre ++ toString (n : ℤ) ++ post).toList = pre.toList ++ ((numeral n).toList ++ post.toList) := by
  rw [String.toList_append, String.toList_append, List.append_assoc, toString_natCast]

/-- A numeral between two fixed texts determines its number. -/
theorem framed_inj (pre post : String) {a b : ℕ}
    (h : pre ++ toString (a : ℤ) ++ post = pre ++ toString (b : ℤ) ++ post) : a = b := by
  have h' := congrArg String.toList h
  rw [framed_toList, framed_toList, List.append_cancel_left_eq, List.append_cancel_right_eq] at h'
  exact numeral_inj (String.toList_inj.mp h')

theorem lockPath_inj {d : String} {a b : ℕ} (h : lockPath d a = lockPath d b) : a = b :=
  framed_inj (d ++ "/uid.") ".lock" h

theorem markerPath_inj {d : String} {a b : ℕ} (h : markerPath d a = markerPath d b) : a = b :=
  framed_inj (d ++ "/uid.") ".active" h

theorem sliceName_inj {a b : ℕ} (h : sliceName a = sliceName b) : a = b :=
  framed_inj "user-" ".slice" h

theorem serviceName_inj {a b : ℕ} (h : serviceName a = serviceName b) : a = b :=
  framed_inj "user@" ".service" h

/-- No lock file is a marker: the names end in different letters. -/
theorem lockPath_ne_markerPath (d d' : String) (a b : ℤ) : lockPath d a ≠ markerPath d' b := by
  intro h
  have h' := congrArg (fun s : String => s.toList.reverse.head?) h
  simp [lockPath, markerPath, String.toList_append] at h'

theorem sliceName_ne_serviceName (a b : ℤ) : sliceName a ≠ serviceName b := by
  intro h
  have h' := congrArg (fun s : String => s.toList[4]?) h
  simp [sliceName, serviceName, String.toList_append] at h'

/-! ### Directories -/

theorem below_iff {top path : String} :
    below top path = true ↔ path = top ∨ ∃ cs, path.toList = top.toList ++ '/' :: cs := by
  simp only [below, Bool.or_eq_true, decide_eq_true_eq, List.isPrefixOf_iff_prefix,
    String.toList_append]
  refine or_congr_right ⟨fun ⟨cs, h⟩ => ⟨cs, ?_⟩, fun ⟨cs, h⟩ => ⟨cs, ?_⟩⟩
  · rw [← h]; simp
  · rw [h]; simp

theorem below_self (top : String) : below top top = true := below_iff.mpr (.inl rfl)

theorem below_trans {a b c : String} (h : below a b = true) (h' : below b c = true) :
    below a c = true := by
  rw [below_iff] at h h' ⊢
  rcases h' with rfl | ⟨cs', h'⟩
  · exact h
  · rcases h with rfl | ⟨cs, h⟩
    · exact .inr ⟨cs', h'⟩
    · exact .inr ⟨cs ++ '/' :: cs', by rw [h', h]; simp⟩

theorem below_append {top path : String} (h : below top path = true) (cs : List Char) :
    below top (path ++ String.ofList ('/' :: cs)) = true := by
  refine below_trans h (below_iff.mpr (.inr ⟨cs, ?_⟩))
  rw [String.toList_append, String.toList_ofList]

/-- Two digit strings, each followed by a character that is no digit, agree
when the texts they head do. -/
theorem digits_prefix_inj : ∀ {ds es : List Char} {c d : Char} {cs es' : List Char},
    (∀ x ∈ ds, x.isDigit = true) → (∀ x ∈ es, x.isDigit = true) → c.isDigit = false →
    d.isDigit = false → ds ++ c :: cs = es ++ d :: es' → ds = es
  | [], [], _, _, _, _, _, _, _, _, _ => rfl
  | [], e :: es, _, _, _, _, _, he, hc, _, h => by
    simp only [List.nil_append, List.cons_append, List.cons.injEq] at h
    have := he e (by simp)
    rw [← h.1, hc] at this
    cases this
  | x :: ds, [], _, _, _, _, hds, _, _, hd, h => by
    simp only [List.nil_append, List.cons_append, List.cons.injEq] at h
    have := hds x (by simp)
    rw [h.1, hd] at this
    cases this
  | x :: ds, e :: es, _, _, _, _, hds, hes, hc, hd, h => by
    simp only [List.cons_append, List.cons.injEq] at h
    rw [h.1, digits_prefix_inj (fun y hy => hds y (by simp [hy])) (fun y hy => hes y (by simp [hy]))
      hc hd h.2]

theorem slicePath_toList (u : ℕ) : (slicePath u).toList =
    "/sys/fs/cgroup/user.slice/user-".toList ++ ((numeral u).toList ++ ".slice".toList) :=
  framed_toList _ _ u

/-- A directory is at or below the slice of at most one user. -/
theorem below_slicePath_inj {a b : ℕ} {path : String} (ha : below (slicePath a) path = true)
    (hb : below (slicePath b) path = true) : a = b := by
  have hdot : ".slice".toList = '.' :: "slice".toList := by decide
  have key : ∀ u : ℕ, below (slicePath u) path = true → ∃ cs, path.toList =
      "/sys/fs/cgroup/user.slice/user-".toList ++ ((numeral u).toList ++ '.' :: cs) := by
    intro u h
    rcases below_iff.mp h with h | ⟨cs, h⟩
    · exact ⟨"slice".toList, by rw [h, slicePath_toList, hdot]⟩
    · exact ⟨"slice".toList ++ '/' :: cs, by
        rw [h, slicePath_toList, hdot]; simp only [List.append_assoc, List.cons_append]⟩
  obtain ⟨cs, h₁⟩ := key a ha
  obtain ⟨cs', h₂⟩ := key b hb
  rw [h₁] at h₂
  have hd := List.append_cancel_left h₂
  have := digits_prefix_inj (fun _ => isDigit_of_mem_numeral) (fun _ => isDigit_of_mem_numeral)
    (by decide) (by decide) hd
  exact numeral_inj (String.toList_inj.mp this)

end FluxPam
