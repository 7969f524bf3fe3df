/-
# Numerals and strings, as the two languages read and write them

Python and C format the same uids and parse the same attribute, each by its
own rules: `int ()` and `strtol (s, &endptr, 10)` differ on blanks, signs,
underscores, Unicode's digits, long and empty input, but both read a decimal
numeral back as its number, if it is not too long (`pyInt_numeral`,
`strtol_numeral`), and a numeral determines its number (`numeral_inj`). `snprintf`
writes what fits a buffer and says how long the whole text is, so a caller can
tell a truncated name from a complete one.
-/
import Mathlib.Algebra.Group.Int.Defs
import Mathlib.Algebra.Group.Nat.Defs
import Mathlib.Data.Int.Log
import Mathlib.Data.List.DropRight
import Mathlib.Data.List.TakeWhile
import Mathlib.Data.Rat.Floor
import Mathlib.Tactic.Common

namespace FluxPam

/-- The decimal numeral of a number: `f"{n}"` in Python, `"%u"` in C. -/
def numeral (n : ℕ) : String := toString n

theorem numeral_toList (n : ℕ) : (numeral n).toList = Nat.toDigits 10 n := by simp [numeral]

theorem numeral_inj {m n : ℕ} (h : numeral m = numeral n) : m = n := by
  have hd : Nat.toDigits 10 m = Nat.toDigits 10 n := by rw [← numeral_toList, h, numeral_toList]
  simpa using congrArg (Nat.ofDigitChars 10 · 0) hd

theorem isDigit_of_mem_numeral {n : ℕ} {c : Char} (h : c ∈ (numeral n).toList) :
    c.isDigit = true := by
  rw [numeral_toList] at h
  exact Nat.isDigit_of_mem_toDigits (by decide) (by decide) h

theorem numeral_ne_nil (n : ℕ) : (numeral n).toList ≠ [] := by
  rw [numeral_toList]; exact Nat.toDigits_ne_nil

theorem digitChar_utf8Size {d : ℕ} (h : d < 10) : d.digitChar.utf8Size = 1 := by
  have : ∀ d : Fin 10, d.val.digitChar.utf8Size = 1 := by decide
  exact this ⟨d, h⟩

/-- A number of at most `k` digits takes at most `k` bytes. -/
theorem numeral_size : ∀ {k n : ℕ}, 0 < k → n < 10 ^ k → (numeral n).utf8ByteSize ≤ k
  | k + 1, n, _, h => by
    rw [numeral, Nat.toString_eq_repr]
    by_cases hn : n < 10
    · rw [Nat.repr_of_lt hn, String.utf8ByteSize_singleton, digitChar_utf8Size hn]
      omega
    · have hk : 0 < k := by
        by_contra hk
        obtain rfl : k = 0 := by omega
        simp at h
        omega
      have hd : n / 10 < 10 ^ k := by
        rw [Nat.pow_succ] at h
        omega
      have ih := numeral_size hk hd
      rw [numeral, Nat.toString_eq_repr] at ih
      rw [Nat.repr_of_ge (by omega), String.utf8ByteSize_append, String.utf8ByteSize_singleton,
        digitChar_utf8Size (Nat.mod_lt _ (by decide))]
      omega

/-- The sign at the head of a numeral, if any: whether it is a minus, and what
follows. -/
def takeSign : List Char → Bool × List Char
  | '-' :: cs => (true, cs)
  | '+' :: cs => (false, cs)
  | cs => (false, cs)

/-- `isspace` in the C locale. -/
def isCSpace (c : Char) : Bool := c = ' ' || (9 ≤ c.toNat && c.toNat ≤ 13)

/-! ### Python -/

/-- The characters `str.strip` removes. -/
def isPySpace (c : Char) : Bool :=
  let n := c.toNat
  (9 ≤ n && n ≤ 13) || (28 ≤ n && n ≤ 32) || n = 0x85 || n = 0xa0 || n = 0x1680 ||
    (0x2000 ≤ n && n ≤ 0x200a) || n = 0x2028 || n = 0x2029 || n = 0x202f || n = 0x205f || n = 0x3000

/-- `s.strip ()`. -/
def strip (s : List Char) : List Char :=
  ((s.dropWhile isPySpace).reverse.dropWhile isPySpace).reverse

/-- The zeros of the decimal digits, ten each in a row (Unicode 14, as in Python
3.11). -/
def decimalZeros : List ℕ :=
  [0x30, 0x660, 0x6f0, 0x7c0, 0x966, 0x9e6, 0xa66, 0xae6, 0xb66, 0xbe6, 0xc66, 0xce6, 0xd66, 0xde6,
    0xe50, 0xed0, 0xf20, 0x1040, 0x1090, 0x17e0, 0x1810, 0x1946, 0x19d0, 0x1a80, 0x1a90, 0x1b50, 0x1bb0,
    0x1c40, 0x1c50, 0xa620, 0xa8d0, 0xa900, 0xa9d0, 0xa9f0, 0xaa50, 0xabf0, 0xff10, 0x104a0, 0x10d30,
    0x11066, 0x110f0, 0x11136, 0x111d0, 0x112f0, 0x11450, 0x114d0, 0x11650, 0x116c0, 0x11730, 0x118e0,
    0x11950, 0x11c50, 0x11d50, 0x11da0, 0x16a60, 0x16ac0, 0x16b50, 0x1d7ce, 0x1d7d8, 0x1d7e2, 0x1d7ec,
    0x1d7f6, 0x1e140, 0x1e2f0, 0x1e950, 0x1fbf0]

/-- What `int ()` reads a character as. Of ASCII it takes only `isspace` for
blank; beyond, what `str.isspace` does, and any decimal digit for its value. -/
def toAscii (c : Char) : Char :=
  if c.toNat < 127 then c
  else if isPySpace c then ' '
  else match decimalZeros.find? fun z => z ≤ c.toNat && c.toNat < z + 10 with
    | some z => (c.toNat - z).digitChar
    | none => '?'

/-- The digits of an `int ()` literal: an underscore may stand between two of
them, and blanks after the last. `prev` says whether the last character was a
digit. -/
def pyDigits : Bool → List Char → Option (List Char)
  | prev, [] => if prev then some [] else none
  | prev, c :: cs =>
    if c = '_' then if prev then pyDigits false cs else none
    else if c.isDigit then (pyDigits true cs).map (c :: ·)
    else if prev && (c :: cs).all isCSpace then some []
    else none

/-- `sys.get_int_max_str_digits ()`, by default. -/
def maxStrDigits : ℕ := 4300

/-- The number of an `int ()` literal without its sign; leading zeros count as
digits. -/
def pyNat (cs : List Char) : Option ℕ :=
  match pyDigits false cs with
  | some ds => if ds.length ≤ maxStrDigits then some (Nat.ofDigitChars 10 ds 0) else none
  | none => none

/-- `int (s)`; `none` is its `ValueError`. -/
def pyInt (s : String) : Option ℤ :=
  let (neg, cs) := takeSign ((s.toList.map toAscii).dropWhile isCSpace)
  (pyNat cs).map fun n : ℕ => if neg then -(n : ℤ) else (n : ℤ)

/-- The decimal digits of a number of order `10 ^ e`, 17 at most and no zeros at
the end. -/
def significant (q : ℚ) (e : ℤ) : List Char :=
  (numeral (round (q * (10 : ℚ) ^ (16 - e))).toNat).toList.rdropWhile (· = '0')

/-- `whole.fraction` -/
def pointed (whole fraction : List Char) : String :=
  String.ofList whole ++ "." ++ if fraction = [] then "0" else String.ofList fraction

/-- `d.ddde+XX` -/
def scientific (digits : List Char) (e : ℤ) : String :=
  String.ofList (digits.take 1) ++ (if digits.length ≤ 1 then "" else "." ++ String.ofList (digits.drop 1)) ++
    (if e < 0 then "e-" else "e+") ++ (if e.natAbs < 10 then "0" else "") ++ numeral e.natAbs

/-- `repr (q)` of a `float`, for a number with a decimal numeral of at most 17
digits. -/
def reprFloat (q : ℚ) : String :=
  if q = 0 then "0.0"
  else
    let e := Int.log 10 |q|
    let digits := significant |q| e
    let n := (e + 1).toNat
    (if q < 0 then "-" else "") ++
      if e < -4 ∨ 16 ≤ e then scientific digits e
      else if e < 0 then pointed ['0'] (List.replicate (-e - 1).toNat '0' ++ digits)
      else pointed (digits.take n ++ List.replicate (n - digits.length) '0') (digits.drop n)

/-- `f"{q}"` of a number that is an `int` where it can be. -/
def pyNumber (q : ℚ) : String := if q.den = 1 then toString q.num else reprFloat q

/-- The number of a decimal numeral. -/
def decimal (s : String) : Option ℕ :=
  if s.toList ≠ [] ∧ s.toList.all Char.isDigit then some (Nat.ofDigitChars 10 s.toList 0) else none

/-- `os.path.isabs (s)`. -/
def isabs (s : String) : Bool := s.toList.head? = some '/'

/-- `needle in s`. -/
def contains (needle s : String) : Bool := s.toList.tails.any fun t => needle.toList.isPrefixOf t

theorem isDigit_toNat {c : Char} (h : c.isDigit = true) : 48 ≤ c.toNat ∧ c.toNat ≤ 57 := by
  simp only [Char.isDigit, Bool.and_eq_true, decide_eq_true_eq, UInt32.le_iff_toNat_le] at h
  exact h

theorem isDigit_ne {c d : Char} (h : c.isDigit = true) (hd : d.isDigit = false) : c ≠ d :=
  fun he => by rw [he, hd] at h; cases h

theorem isDigit_not_cspace {c : Char} (h : c.isDigit = true) : isCSpace c = false := by
  have h' := isDigit_toNat h
  have hne : c ≠ ' ' := isDigit_ne h (by decide)
  unfold isCSpace
  simp only [hne, decide_false, Bool.false_or, Bool.and_eq_false_iff, decide_eq_false_iff_not]
  omega

theorem dropWhile_digits {p : Char → Bool} {cs : List Char} (hp : ∀ c, c.isDigit = true → p c = false)
    (hc : ∀ c ∈ cs, c.isDigit = true) : cs.dropWhile p = cs := by
  cases cs with
  | nil => rfl
  | cons c cs => simp [hp c (hc c (by simp))]

theorem takeSign_digits {cs : List Char} (hc : ∀ c ∈ cs, c.isDigit = true) :
    takeSign cs = (false, cs) := by
  unfold takeSign
  split
  · exact absurd (hc '-' (by simp)) (by decide)
  · exact absurd (hc '+' (by simp)) (by decide)
  · rfl

theorem pyDigits_digits : ∀ (cs : List Char) (prev : Bool), (∀ c ∈ cs, c.isDigit = true) →
    (cs ≠ [] ∨ prev = true) → pyDigits prev cs = some cs
  | [], prev, _, h => by
    rcases h with h | rfl
    · exact absurd rfl h
    · rfl
  | c :: cs, prev, hc, _ => by
    have h : c.isDigit = true := hc c (by simp)
    have ih := pyDigits_digits cs true (fun d hd => hc d (by simp [hd])) (.inr rfl)
    simp [pyDigits, h, ih, isDigit_ne h (by decide : ('_' : Char).isDigit = false)]

theorem toAscii_of_lt {c : Char} (h : c.toNat < 127) : toAscii c = c := if_pos h

theorem isCSpace_toNat {c : Char} (h : isCSpace c = true) : c.toNat ≤ 32 := by
  simp only [isCSpace, Bool.or_eq_true, Bool.and_eq_true, decide_eq_true_eq] at h
  rcases h with rfl | h
  · decide
  · omega

/-- `int ()` reads blanks, a sign or none, and digits, if these are not too
many. -/
theorem pyInt_eq {s : String} {blanks sign digits : List Char} (hs : s.toList = blanks ++ (sign ++ digits))
    (hblank : ∀ c ∈ blanks, isCSpace c = true) (hsign : sign = [] ∨ sign = ['+'] ∨ sign = ['-'])
    (hdigit : ∀ c ∈ digits, c.isDigit = true) (hne : digits ≠ []) :
    pyInt s = if digits.length ≤ maxStrDigits then
      some (if sign = ['-'] then -(Nat.ofDigitChars 10 digits 0 : ℤ) else Nat.ofDigitChars 10 digits 0)
    else none := by
  have hmark : ∀ c ∈ sign, c.toNat < 127 := by
    rcases hsign with rfl | rfl | rfl
    · exact fun c hc => absurd hc List.not_mem_nil
    · exact List.forall_mem_singleton.mpr (by decide)
    · exact List.forall_mem_singleton.mpr (by decide)
  have hascii : s.toList.map toAscii = s.toList := by
    have hlow : ∀ c ∈ s.toList, toAscii c = c := by
      intro c hc
      rw [hs, List.mem_append, List.mem_append] at hc
      refine toAscii_of_lt ?_
      rcases hc with hc | hc | hc
      · have := isCSpace_toNat (hblank c hc)
        omega
      · exact hmark c hc
      · have := isDigit_toNat (hdigit c hc)
        omega
    rw [List.map_congr_left hlow, List.map_id']
  have hdrop : s.toList.dropWhile isCSpace = sign ++ digits := by
    rw [hs, List.dropWhile_append_of_pos hblank]
    rcases hsign with rfl | rfl | rfl
    · exact dropWhile_digits (fun _ => isDigit_not_cspace) hdigit
    · rfl
    · rfl
  have hsplit : takeSign (sign ++ digits) = (decide (sign = ['-']), digits) := by
    rcases hsign with rfl | rfl | rfl
    · exact takeSign_digits hdigit
    · rfl
    · rfl
  have hread : pyDigits false digits = some digits := pyDigits_digits digits false hdigit (.inl hne)
  unfold pyInt
  rw [hascii, hdrop, hsplit]
  simp only [pyNat, hread, decide_eq_true_eq]
  by_cases hlen : digits.length ≤ maxStrDigits
  · rw [if_pos hlen, if_pos hlen, Option.map_some]
  · rw [if_neg hlen, if_neg hlen, Option.map_none]

/-- `int ()` reads a decimal numeral back that is not too long. -/
theorem pyInt_numeral_eq (n : ℕ) :
    pyInt (numeral n) = if (numeral n).toList.length ≤ maxStrDigits then some (n : ℤ) else none := by
  have h : pyInt (numeral n) = if (numeral n).toList.length ≤ maxStrDigits then
      some (if ([] : List Char) = ['-'] then -(Nat.ofDigitChars 10 (numeral n).toList 0 : ℤ)
        else Nat.ofDigitChars 10 (numeral n).toList 0) else none :=
    pyInt_eq rfl (fun c hc => absurd hc List.not_mem_nil) (.inl rfl)
      (fun c hc => isDigit_of_mem_numeral hc) (numeral_ne_nil n)
  rw [h, if_neg (List.cons_ne_nil _ _).symm, numeral_toList, Nat.ofDigitChars_ten_toDigits]

theorem pyInt_numeral {n : ℕ} (h : n < 10 ^ maxStrDigits) : pyInt (numeral n) = some (n : ℤ) := by
  rw [pyInt_numeral_eq, if_pos]
  rw [numeral_toList]
  exact (Nat.length_toDigits_le_iff (by decide) (by decide)).mpr h

/-- What `int ()` reads of a numeral is its number. -/
theorem eq_of_pyInt_numeral {n : ℕ} {i : ℤ} (h : pyInt (numeral n) = some i) : i = n := by
  rw [pyInt_numeral_eq] at h
  split at h
  · exact (Option.some.inj h).symm
  · cases h

/-- A machine word is not too long. -/
theorem lt_maxStrDigits {n : ℕ} (h : n < 2 ^ 64) : n < 10 ^ maxStrDigits :=
  calc n < 2 ^ 64 := h
    _ ≤ 10 ^ 20 := by decide
    _ ≤ 10 ^ maxStrDigits := Nat.pow_le_pow_right (by decide) (by decide)

theorem decimal_numeral (n : ℕ) : decimal (numeral n) = some n := by
  have hdigit : ∀ c ∈ (numeral n).toList, c.isDigit = true := fun c hc => isDigit_of_mem_numeral hc
  rw [decimal, if_pos ⟨numeral_ne_nil n, List.all_eq_true.mpr hdigit⟩, numeral_toList,
    Nat.ofDigitChars_ten_toDigits]

/-! ### C -/

def LONG_MAX : ℤ := 2 ^ 63 - 1
def LONG_MIN : ℤ := -2 ^ 63

/-- `strtol (s, &endptr, 10)` for a 64-bit `long`: the value, whether it set
`errno`, and the text at `endptr`. With no digits nothing is read: the value
is 0, `endptr` is `s` and `errno` is left alone. -/
def strtol (s : List Char) : ℤ × Bool × List Char :=
  let (neg, cs) := takeSign (s.dropWhile isCSpace)
  let ds := cs.takeWhile Char.isDigit
  if ds = [] then (0, false, s)
  else
    let n : ℤ := Nat.ofDigitChars 10 ds 0
    let i := if neg then -n else n
    let rest := cs.dropWhile Char.isDigit
    if LONG_MAX < i then (LONG_MAX, true, rest)
    else if i < LONG_MIN then (LONG_MIN, true, rest)
    else (i, false, rest)

/-- `strtol` reads a decimal numeral that fits a `long` back, to its end. -/
theorem strtol_numeral {n : ℕ} (h : (n : ℤ) ≤ LONG_MAX) :
    strtol (numeral n).toList = ((n : ℤ), false, []) := by
  have hc : ∀ c ∈ (numeral n).toList, c.isDigit = true := fun c h => isDigit_of_mem_numeral h
  have hmin : ¬ (n : ℤ) < LONG_MIN := by unfold LONG_MIN; omega
  unfold strtol
  rw [dropWhile_digits (fun _ => isDigit_not_cspace) hc, takeSign_digits hc]
  have ht : (numeral n).toList.takeWhile Char.isDigit = (numeral n).toList :=
    List.takeWhile_eq_self_iff.mpr hc
  have hd : (numeral n).toList.dropWhile Char.isDigit = [] := List.dropWhile_eq_nil_iff.mpr hc
  simp only [ht, hd, numeral_ne_nil, if_false, Bool.false_eq_true]
  rw [numeral_toList, Nat.ofDigitChars_ten_toDigits, if_neg (by omega), if_neg hmin]

/-- The longest prefix of a text that takes at most `n` bytes. -/
def takeBytes : ℕ → List Char → List Char
  | _, [] => []
  | n, c :: cs => if c.utf8Size ≤ n then c :: takeBytes (n - c.utf8Size) cs else []

/-- `snprintf (buf, size, ...)` of a text: its length in bytes, and what `buf`
holds of it. -/
def snprintf (size : ℕ) (s : String) : ℕ × String :=
  (s.utf8ByteSize, if s.utf8ByteSize < size then s else String.ofList (takeBytes (size - 1) s.toList))

theorem snprintf_of_lt {size : ℕ} {s : String} (h : s.utf8ByteSize < size) :
    snprintf size s = (s.utf8ByteSize, s) := by
  simp [snprintf, h]

end FluxPam
