/-
# The owner attribute

`attr_get_uid` reads `security.owner` with `strtol` and narrows the `long` to a
`uid_t`. `strtol` reads a text that denotes an integer to its end
(`strtol_denotes`), and reads nothing else to its end but the empty text
(`strtol_read`). So the attribute is read as it should be, if it is not empty
and no integer outside the uids is narrowed to one (`attr_get_uid_iff`).
-/
import FluxPam.Interaction.Expand
import FluxPam.Managed

namespace FluxPam

open Interaction Prog

/-- The text denotes the integer `n`: blanks, a sign or none, and digits. -/
def Denotes (s : String) (n : ℤ) : Prop :=
  ∃ blanks sign digits : List Char, s.toList = blanks ++ (sign ++ digits) ∧
    (∀ c ∈ blanks, isCSpace c = true) ∧ (∀ c ∈ digits, c.isDigit = true) ∧ digits ≠ [] ∧
    ((sign = [] ∨ sign = ['+']) ∧ n = Nat.ofDigitChars 10 digits 0 ∨
      sign = ['-'] ∧ n = -(Nat.ofDigitChars 10 digits 0 : ℤ))

/-- A decimal numeral denotes its number. -/
theorem denotes_numeral (n : ℕ) : Denotes (numeral n) n := by
  have hvalue : (n : ℤ) = Nat.ofDigitChars 10 (numeral n).toList 0 := by
    rw [numeral_toList, Nat.ofDigitChars_ten_toDigits]
  exact ⟨[], [], (numeral n).toList, rfl, by simp, fun c hc => isDigit_of_mem_numeral hc,
    numeral_ne_nil n, .inl ⟨.inl rfl, hvalue⟩⟩

/-! ### `strtol` -/

/-- What `takeSign` takes is a sign or nothing. -/
theorem takeSign_eq {cs ds : List Char} {neg : Bool} (h : takeSign cs = (neg, ds)) :
    ∃ sign, cs = sign ++ ds ∧ (if neg then sign = ['-'] else sign = [] ∨ sign = ['+']) := by
  unfold takeSign at h
  split at h <;> obtain ⟨rfl, rfl⟩ := Prod.mk.inj h
  · exact ⟨['-'], rfl, rfl⟩
  · exact ⟨['+'], rfl, .inr rfl⟩
  · exact ⟨[], rfl, .inl rfl⟩

/-- A text that denotes an integer is read to its end, and the value is clamped
to a `long`. -/
theorem strtol_denotes {s : String} {n : ℤ} (h : Denotes s n) :
    strtol s.toList =
      if LONG_MAX < n then (LONG_MAX, true, [])
      else if n < LONG_MIN then (LONG_MIN, true, [])
      else (n, false, []) := by
  obtain ⟨blanks, sign, digits, hs, hblank, hdigit, hne, hsign⟩ := h
  have htake : digits.takeWhile Char.isDigit = digits := List.takeWhile_eq_self_iff.mpr hdigit
  have hdrop : digits.dropWhile Char.isDigit = [] := List.dropWhile_eq_nil_iff.mpr hdigit
  have hspace : (sign ++ digits).dropWhile isCSpace = sign ++ digits := by
    rcases hsign with ⟨rfl | rfl, -⟩ | ⟨rfl, -⟩
    · exact dropWhile_digits (fun _ => isDigit_not_cspace) hdigit
    · rfl
    · rfl
  have htakeSign : takeSign (sign ++ digits) = (decide (sign = ['-']), digits) := by
    rcases hsign with ⟨rfl | rfl, -⟩ | ⟨rfl, -⟩
    · exact takeSign_digits hdigit
    · rfl
    · rfl
  have hvalue : (if sign = ['-'] then -(Nat.ofDigitChars 10 digits 0 : ℤ)
      else (Nat.ofDigitChars 10 digits 0 : ℤ)) = n := by
    rcases hsign with ⟨rfl | rfl, rfl⟩ | ⟨rfl, rfl⟩ <;> simp
  unfold strtol
  rw [hs, List.dropWhile_append_of_pos hblank, hspace, htakeSign]
  simp only [htake, hdrop, hne, if_false, decide_eq_true_eq, hvalue]

theorem strtol_of_fits {s : String} {n : ℤ} (h : Denotes s n) (hmin : LONG_MIN ≤ n)
    (hmax : n ≤ LONG_MAX) : strtol s.toList = (n, false, []) := by
  rw [strtol_denotes h, if_neg (by omega), if_neg (by omega)]

/-- A text read to its end without an error is empty or denotes the value. -/
theorem strtol_read {s : String} {i : ℤ} (h : strtol s.toList = (i, false, [])) :
    s = "" ∧ i = 0 ∨ Denotes s i ∧ LONG_MIN ≤ i ∧ i ≤ LONG_MAX := by
  unfold strtol at h
  obtain ⟨neg, cs, hsign⟩ : ∃ neg cs, takeSign (s.toList.dropWhile isCSpace) = (neg, cs) := ⟨_, _, rfl⟩
  obtain ⟨sign, hcs, hneg⟩ := takeSign_eq hsign
  simp only [hsign] at h
  by_cases hne : cs.takeWhile Char.isDigit = []
  · rw [if_pos hne] at h
    simp only [Prod.mk.injEq, String.toList_eq_nil_iff, true_and] at h
    exact .inl ⟨h.2, h.1.symm⟩
  · rw [if_neg hne] at h
    refine .inr ?_
    generalize hvalue : (if neg = true then -(Nat.ofDigitChars 10 (cs.takeWhile Char.isDigit) 0 : ℤ)
      else (Nat.ofDigitChars 10 (cs.takeWhile Char.isDigit) 0 : ℤ)) = n at h
    by_cases hmax : LONG_MAX < n
    · simp [hmax] at h
    by_cases hmin : n < LONG_MIN
    · simp [hmax, hmin] at h
    simp only [hmax, hmin, if_false, Prod.mk.injEq, true_and] at h
    obtain ⟨rfl, hrest⟩ := h
    have hall : ∀ c ∈ cs, c.isDigit = true := List.dropWhile_eq_nil_iff.mp hrest
    rw [List.takeWhile_eq_self_iff.mpr hall] at hne hvalue
    have hblank : s.toList = s.toList.takeWhile isCSpace ++ (sign ++ cs) := by
      rw [← hcs, List.takeWhile_append_dropWhile]
    refine ⟨⟨_, sign, cs, hblank, fun c => List.mem_takeWhile_imp, hall, hne, ?_⟩, ?_, ?_⟩
    · cases neg with
      | true => exact .inr ⟨hneg, hvalue.symm⟩
      | false => exact .inl ⟨by simpa using hneg, hvalue.symm⟩
    · omega
    · omega

/-! ### `attr_get_uid` -/

theorem traces_attrGetUid {name s : String} {u : Uid} :
    Traces (attrGetUid name) [⟨.attrGet name, .ok s⟩] u ↔ u = attrUid s := by
  have hread : Traces (attrGetUid name) [⟨.attrGet name, .ok s⟩] (attrUid s) :=
    ⟨.ok s, (), [], trivial, rfl, rfl, rfl, rfl⟩
  constructor
  · intro h
    exact h.det hread
  · rintro rfl
    exact hread

/-- The value returned is another than `(uid_t) -1` only if the attribute
denotes the uid, and it is the uid if the attribute is its numeral. -/
def ReadsUid (name s : String) : Prop :=
  ∀ u, Traces (attrGetUid name) [⟨.attrGet name, .ok s⟩] u →
    (u ≠ noUid → ∃ n : ℤ, Denotes s n ∧ 0 ≤ n ∧ n ≤ 2 ^ 32 - 2 ∧ (u.toNat : ℤ) = n) ∧
    ∀ n : ℕ, n ≤ 2 ^ 32 - 2 → s = numeral n → u.toNat = n

theorem attrUid_of_fits {s : String} {n : ℤ} (h : Denotes s n) (hmin : LONG_MIN ≤ n)
    (hmax : n ≤ LONG_MAX) : attrUid s = BitVec.ofInt 32 n := by
  unfold attrUid
  rw [strtol_of_fits h hmin hmax]
  simp

/-- What is read as a uid is empty, or denotes a `long` that is narrowed to it. -/
theorem denotes_of_attrUid {s : String} (h : attrUid s ≠ noUid) :
    s = "" ∨ ∃ n, Denotes s n ∧ LONG_MIN ≤ n ∧ n ≤ LONG_MAX ∧ attrUid s = BitVec.ofInt 32 n := by
  obtain ⟨i, errno, rest, hs⟩ : ∃ i errno rest, strtol s.toList = (i, errno, rest) := ⟨_, _, _, rfl⟩
  have hread : errno = false ∧ rest = [] := by
    by_contra hread
    refine h ?_
    unfold attrUid
    rw [hs]
    simp only [ite_eq_left_iff]
    intro hok
    exact absurd (by simpa using hok) hread
  obtain ⟨rfl, rfl⟩ := hread
  rcases strtol_read hs with ⟨hempty, -⟩ | ⟨hden, hmin, hmax⟩
  · exact .inl hempty
  · exact .inr ⟨i, hden, hmin, hmax, attrUid_of_fits hden hmin hmax⟩

/-- Which integers are narrowed to `(uid_t) -1`. -/
theorem ofInt_eq_noUid {n : ℤ} : BitVec.ofInt 32 n = noUid ↔ n % 2 ^ 32 = 2 ^ 32 - 1 := by
  rw [← BitVec.toNat_inj, BitVec.toNat_ofInt]
  have : noUid.toNat = 2 ^ 32 - 1 := by decide
  omega

theorem ofInt_toNat_of_uid {n : ℤ} (h0 : 0 ≤ n) (h : n ≤ 2 ^ 32 - 2) :
    ((BitVec.ofInt 32 n).toNat : ℤ) = n := by
  rw [BitVec.toNat_ofInt]
  omega

theorem ReadsUid.read {name s : String} (h : ReadsUid name s) (hu : attrUid s ≠ noUid) :
    ∃ n : ℤ, Denotes s n ∧ 0 ≤ n ∧ n ≤ 2 ^ 32 - 2 ∧ ((attrUid s).toNat : ℤ) = n :=
  (h _ (traces_attrGetUid.mpr rfl)).1 hu

/-- The empty attribute is read as uid 0. -/
theorem ReadsUid.ne_empty {name s : String} (h : ReadsUid name s) : s ≠ "" := by
  rintro rfl
  obtain ⟨n, ⟨blanks, sign, digits, hs, -, -, hne, -⟩, -⟩ := h.read (by decide)
  have hnil : [] = blanks ++ (sign ++ digits) := hs
  exact hne (List.append_eq_nil_iff.mp (List.append_eq_nil_iff.mp hnil.symm).2).2

/-- A `long` that is no uid is narrowed, to a uid or to `(uid_t) -1`. -/
theorem ReadsUid.fits {name s : String} {n : ℤ} (h : ReadsUid name s) (hn : Denotes s n)
    (hmin : LONG_MIN ≤ n) (hmax : n ≤ LONG_MAX) :
    (0 ≤ n ∧ n ≤ 2 ^ 32 - 2) ∨ n % 2 ^ 32 = 2 ^ 32 - 1 := by
  by_cases hu : attrUid s = noUid
  · rw [attrUid_of_fits hn hmin hmax, ofInt_eq_noUid] at hu
    exact .inr hu
  · obtain ⟨m, hm, h0, hle, -⟩ := h.read hu
    have hsame : (n, false, ([] : List Char)) = (m, false, []) := by
      rw [← strtol_of_fits hn hmin hmax, strtol_of_fits hm (by unfold LONG_MIN; omega)
        (by unfold LONG_MAX; omega)]
    obtain rfl : n = m := (Prod.mk.inj hsame).1
    exact .inl ⟨h0, hle⟩

/-- **When the owner attribute is read as it should be**: it is not empty, and
each integer it denotes that fits a `long` is a uid, or is narrowed to
`(uid_t) -1`. -/
theorem attr_get_uid_iff (name s : String) : ReadsUid name s ↔
    s ≠ "" ∧ ∀ n : ℤ, Denotes s n → LONG_MIN ≤ n → n ≤ LONG_MAX →
      (0 ≤ n ∧ n ≤ 2 ^ 32 - 2) ∨ n % 2 ^ 32 = 2 ^ 32 - 1 := by
  constructor
  · intro h
    exact ⟨h.ne_empty, fun n hn hmin hmax => h.fits hn hmin hmax⟩
  · rintro ⟨hne, hfits⟩ u hu
    obtain rfl := traces_attrGetUid.mp hu
    refine ⟨fun hno => ?_, ?_⟩
    · obtain ⟨n, hn, hmin, hmax, heq⟩ := (denotes_of_attrUid hno).resolve_left hne
      rw [heq] at hno ⊢
      rcases hfits n hn hmin hmax with ⟨h0, hle⟩ | hmod
      · exact ⟨n, hn, h0, hle, ofInt_toNat_of_uid h0 hle⟩
      · exact absurd (ofInt_eq_noUid.mpr hmod) hno
    · rintro n hn rfl
      rw [attrUid_numeral (by omega), BitVec.toNat_ofNat]
      omega

/-- The empty attribute is read as root's uid, and one just past the uids as
another user's. -/
theorem attr_get_uid_wraps : attrUid "" = 0#32 ∧ attrUid "4294968296" = 1000#32 ∧
    ¬ ReadsUid "security.owner" "" ∧ ¬ ReadsUid "security.owner" "4294968296" := by
  refine ⟨by decide, by decide, fun h => h.ne_empty rfl, fun h => ?_⟩
  have hnum : "4294968296" = numeral 4294968296 := by decide
  have hfits := h.fits (hnum ▸ denotes_numeral 4294968296) (by decide) (by decide)
  omega

end FluxPam
