/-
# The installed scripts

The scripts in the build tree look up `_FLUX_PAM_TEST_*` in the environment, so
that the testsuite can redirect `systemctl` and `loginctl`. The build installs
copies of them without the lookups: a rule of `sed` puts the path that
`configure` found in the place of each, and the build fails if the text of one
is still there (`install`). An installed script does in any environment what the
script does in one without such variables (`install_preserves`), and what it
executes is the configured paths (`installed_paths`).

Of a script's text this reads the assignments of strings that stand for
themselves, without quotes and backslashes, and of lookups of such strings; the
last to a name counts. In the scripts considered (`Source`) every other line is
one that does not mention the two paths' names, or uses them for the helper: what
other Python might do to a name is not read.
-/
import FluxPam.Scripts
import FluxPam.Rewriting.Template
import Mathlib.Data.List.Infix

namespace FluxPam

open Interaction Rewriting

abbrev Line := List Char

abbrev Script := List Line

/-! ### The rule -/

/-- `^([A-Z]+) = os\.environ\.get\("_FLUX_PAM_TEST_[A-Z]+", ("[^"]*")\)$`; the
quotes of the second group are text of their own. -/
def hookLine : Template Char :=
  [.span Char.isUpper 1, .lit " = os.environ.get(\"_FLUX_PAM_TEST_".toList, .span Char.isUpper 1,
    .lit "\", \"".toList, .span (fun c => c ≠ '\"') 0, .lit "\")".toList]

/-- `\1 = \2` -/
def constLine : List (Piece Char) := [.group 0, .text " = \"".toList, .group 2, .text "\"".toList]

/-- `STRIP_TEST_HOOKS`, for a line. -/
def stripTestHooks (line : Line) : Line := rewrite hookLine constLine line

/-- What `grep -q` looks for. -/
def testPrefix : String := "_FLUX_PAM_TEST_"

/-- The rule for `inst/%`: the installed script, if the build does not fail. -/
def install (script : Script) : Option Script :=
  let target := script.map stripTestHooks
  if target.any fun line => contains testPrefix (String.ofList line) then none else some target

/-! ### The assignments of a script -/

/-- What is assigned: a string, or `os.environ.get` of one. -/
inductive Value where
  | text (s : List Char)
  | lookup (var default : List Char)

def Value.eval (environ : Environ) : Value → String
  | .text s => String.ofList s
  | .lookup var default => (environ (String.ofList var)).getD (String.ofList default)

/-- The characters of a string that stand for themselves. -/
def isPlain (c : Char) : Bool := c ≠ '\"' && c ≠ '\\' && 32 ≤ c.toNat

def lookupLine : Template Char :=
  [.span Char.isUpper 1, .lit " = os.environ.get(\"".toList, .span isPlain 0, .lit "\", \"".toList,
    .span isPlain 0, .lit "\")".toList]

def textLine : Template Char :=
  [.span Char.isUpper 1, .lit " = \"".toList, .span isPlain 0, .lit "\"".toList]

/-- The variable a line assigns, and what. -/
def assignment (line : Line) : Option (List Char × Value) :=
  match scan lookupLine line with
  | some [name, var, default] => some (name, .lookup var default)
  | _ => match scan textLine line with
    | some [name, s] => some (name, .text s)
    | _ => none

/-- The same with its value. -/
def bound (environ : Environ) (line : Line) : Option (List Char × String) :=
  (assignment line).map fun a => (a.1, a.2.eval environ)

/-- The value of a variable: the last assignment counts. -/
def assigned (environ : Environ) (name : String) : Script → Option String
  | [] => none
  | line :: lines => assigned environ name lines <|>
    ((bound environ line).filter fun b => b.1 = name.toList).map (·.2)

theorem contains_iff {needle s : String} : contains needle s = true ↔ needle.toList <:+: s.toList := by
  simp [contains, List.infix_iff_prefix_suffix, List.isPrefixOf_iff_prefix, List.mem_tails, and_comm]

theorem contains_eq_false {needle : String} {line : Line} :
    contains needle (String.ofList line) = false ↔ ¬ needle.toList <:+: line := by
  rw [← Bool.not_eq_true, contains_iff, String.toList_ofList]

/-- Where the scripts use the paths: the calls of `PAMHelper`. -/
def calls : Script :=
  ["            userid, jobid, systemctl=SYSTEMCTL, loginctl=LOGINCTL".toList,
    "        with flux.pam.PAMHelper(userid, jobid, systemctl=SYSTEMCTL) as helper:".toList]

/-- The line does not mention the paths' names, or is such a call. -/
def Inert (line : Line) : Prop :=
  line ∈ calls ∨ ¬ "SYSTEMCTL".toList <:+: line ∧ ¬ "LOGINCTL".toList <:+: line

instance : DecidablePred Inert := fun line =>
  decidable_of_iff (line ∈ calls ∨ contains "SYSTEMCTL" (String.ofList line) = false ∧
    contains "LOGINCTL" (String.ofList line) = false) (by simp [Inert, contains_eq_false])

/-- A script whose assignments of the paths can be read off its lines. -/
structure Source where
  lines : Script
  readable : ∀ line ∈ lines, (assignment line).isSome = true ∨ Inert line

/-- The prolog with the paths its text assigns; `none` if it assigns none. -/
def Prolog.script (X : Externals) (fuel : ℕ) (source : Source) (environ : Environ) : Option (Cmd ℤ) := do
  let systemctl ← assigned environ "SYSTEMCTL" source.lines
  let loginctl ← assigned environ "LOGINCTL" source.lines
  return Prolog.main X fuel ⟨systemctl, loginctl⟩ environ

def Housekeeping.script (X : Externals) (fuel : ℕ) (source : Source) (environ : Environ) :
    Option (Cmd ℤ) := do
  let systemctl ← assigned environ "SYSTEMCTL" source.lines
  return Housekeeping.main X fuel ⟨systemctl, "/usr/bin/loginctl"⟩ environ

/-! ### Lines with a hook -/

theorem hookLine_delimited : Delimited hookLine := ⟨rfl, rfl, rfl, trivial⟩

theorem lookupLine_delimited : Delimited lookupLine := ⟨rfl, rfl, rfl, trivial⟩

theorem textLine_delimited : Delimited textLine := ⟨rfl, rfl, trivial⟩

/-- A line the rule matches. -/
structure Hook where
  name : List Char
  var : List Char
  path : List Char
  name_pos : 1 ≤ name.length
  name_upper : ∀ c ∈ name, c.isUpper = true
  var_pos : 1 ≤ var.length
  var_upper : ∀ c ∈ var, c.isUpper = true
  path_quote : ∀ c ∈ path, c ≠ '\"'

namespace Hook

variable (h : Hook)

def line : Line :=
  h.name ++ (" = os.environ.get(\"_FLUX_PAM_TEST_".toList ++ (h.var ++ ("\", \"".toList ++
    (h.path ++ ("\")".toList ++ [])))))

/-- What it becomes. -/
def const : Line := h.name ++ (" = \"".toList ++ (h.path ++ ("\"".toList ++ [])))

theorem matches_line : Matches hookLine h.line [h.name, h.var, h.path] := by
  refine .span h.name_upper h.name_pos (.lit (.span h.var_upper h.var_pos (.lit (.span ?_ ?_ (.lit .nil)))))
  · simpa using h.path_quote
  · exact Nat.zero_le _

theorem strip_line : stripTestHooks h.line = h.const := by
  rw [stripTestHooks, rewrite_of_matches hookLine_delimited h.matches_line]
  simp [fill, constLine, const]

/-- The rule changes no other line. -/
theorem of_matches {line : Line} {caps : List (List Char)} (hm : Matches hookLine line caps) :
    ∃ h : Hook, line = h.line := by
  obtain _ | _ | ⟨hname, hnamelen, hm⟩ := hm
  obtain _ | hm | _ := hm
  obtain _ | _ | ⟨hvar, hvarlen, hm⟩ := hm
  obtain _ | hm | _ := hm
  obtain _ | _ | ⟨hpath, -, hm⟩ := hm
  obtain _ | hm | _ := hm
  obtain _ | _ | _ := hm
  exact ⟨⟨_, _, _, hnamelen, hname, hvarlen, hvar, fun c hc => by simpa using hpath c hc⟩, rfl⟩

theorem isPlain_of_isUpper {c : Char} (hc : c.isUpper = true) : isPlain c = true := by
  have hquote : c ≠ '\"' := fun h => absurd hc (by rw [h]; decide)
  have hslash : c ≠ '\\' := fun h => absurd hc (by rw [h]; decide)
  have hprint : 32 ≤ c.toNat := by
    have hletter : 'A'.val ≤ c.val ∧ c.val ≤ 'Z'.val := of_decide_eq_true hc
    exact le_trans (by decide) (UInt32.le_iff_toNat_le.mp hletter.1)
  simp [isPlain, hquote, hslash, hprint]

/-- Before the build, a hook is a lookup of its variable. -/
theorem assignment_line (hpath : ∀ c ∈ h.path, isPlain c = true) :
    assignment h.line = some (h.name, .lookup (testPrefix.toList ++ h.var) h.path) := by
  have hvar : ∀ c ∈ testPrefix.toList ++ h.var, isPlain c = true := by
    exact List.forall_mem_append.mpr ⟨List.all_eq_true.mp (by decide),
      fun c hc => isPlain_of_isUpper (h.var_upper c hc)⟩
  have hm : Matches lookupLine h.line [h.name, testPrefix.toList ++ h.var, h.path] := by
    have hline : h.line = h.name ++ (" = os.environ.get(\"".toList ++ ((testPrefix.toList ++ h.var) ++
        ("\", \"".toList ++ (h.path ++ ("\")".toList ++ []))))) := by
      simp [line, testPrefix]
    rw [hline]
    exact .span h.name_upper h.name_pos
      (.lit (.span hvar (Nat.zero_le _) (.lit (.span hpath (Nat.zero_le _) (.lit .nil)))))
  rw [assignment, (scan_eq_some lookupLine_delimited).mpr hm]

/-- After it, it is its path. -/
theorem assignment_const (hpath : ∀ c ∈ h.path, isPlain c = true) :
    assignment h.const = some (h.name, .text h.path) := by
  have hlookup : scan lookupLine h.const = none := by
    rw [lookupLine, const, scan_span_append h.name_upper (by simp) h.name_pos, scan_lit_none (by rfl)]
    rfl
  have hm : Matches textLine h.const [h.name, h.path] :=
    .span h.name_upper h.name_pos (.lit (.span hpath (Nat.zero_le _) (.lit .nil)))
  rw [assignment, hlookup]
  simp only [(scan_eq_some textLine_delimited).mpr hm]

end Hook

/-- The characters of a line that is read. -/
def isText (c : Char) : Prop := c = '\"' ∨ isPlain c = true

theorem within_lit {s : List Char} (h : (s.all fun c => c = '\"' || isPlain c) = true) :
    (Segment.lit s).Within isText := fun c hc => by
  simpa [isText] using List.all_eq_true.mp h c hc

/-- A line with another character in it is not read. -/
theorem assignment_of_not_plain {line : Line} {c : Char} (hc : c ∈ line) (hquote : c ≠ '\"')
    (hplain : isPlain c = false) : assignment line = none := by
  have hnone : ∀ ts : Template Char, (∀ seg ∈ ts, seg.Within isText) →
      scan ts line = none := by
    intro ts hts
    by_contra hsome
    obtain ⟨caps, hcaps⟩ := Option.ne_none_iff_exists'.mp hsome
    rcases (matches_of_scan hcaps).within hts c hc with h | h
    · exact hquote h
    · rw [hplain] at h
      cases h
  have hupper : ∀ c : Char, c.isUpper = true → isText c := fun c hc => .inr (Hook.isPlain_of_isUpper hc)
  have hrun : ∀ c : Char, isPlain c = true → isText c := fun _ => .inr
  have hlookup : scan lookupLine line = none := by
    apply hnone
    simp only [lookupLine, List.forall_mem_cons]
    exact ⟨hupper, within_lit (by decide), hrun, within_lit (by decide), hrun, within_lit (by decide), by simp⟩
  have htext : scan textLine line = none := by
    apply hnone
    simp only [textLine, List.forall_mem_cons]
    exact ⟨hupper, within_lit (by decide), hrun, within_lit (by decide), by simp⟩
  rw [assignment, hlookup]
  simp only [htext]

/-- Nor is a hook whose path has such a character, before the build or after. -/
theorem Hook.assignment_eq_none (h : Hook) (hpath : ¬ ∀ c ∈ h.path, isPlain c = true) :
    assignment h.line = none ∧ assignment h.const = none := by
  push Not at hpath
  obtain ⟨c, hc, hplain⟩ := hpath
  rw [ne_eq, Bool.not_eq_true] at hplain
  have hline : c ∈ h.line := by simp [Hook.line, hc]
  have hconst : c ∈ h.const := by simp [Hook.const, hc]
  exact ⟨assignment_of_not_plain hline (h.path_quote c hc) hplain,
    assignment_of_not_plain hconst (h.path_quote c hc) hplain⟩

/-- What a line looks up is part of it. -/
theorem lookup_mem {line : Line} {name var default : List Char}
    (h : assignment line = some (name, .lookup var default)) : var <:+: line := by
  unfold assignment at h
  split at h
  · rename_i hscan
    have hparts := (matches_of_scan hscan).part_of
    cases h
    exact hparts var (by simp)
  · split at h
    · cases h
    · cases h

/-! ### The build -/

variable {environ E E' : Environ} {script target : Script}

/-- What a hook's variable is called. -/
theorem contains_var (var : List Char) :
    contains testPrefix (String.ofList (testPrefix.toList ++ var)) = true :=
  contains_iff.mpr (by simpa using (List.prefix_append testPrefix.toList var).isInfix)

/-- A line of the installed script does in any environment what it did in one
without the variables of the testsuite. -/
theorem bound_strip {line : Line} (hsame : ∀ v, contains testPrefix v = false → E v = E' v)
    (hbare : ∀ v, contains testPrefix v = true → E' v = none)
    (hgrep : contains testPrefix (String.ofList (stripTestHooks line)) = false) :
    bound E (stripTestHooks line) = bound E' line := by
  rcases rewrite_cases hookLine constLine line with ⟨caps, hm⟩ | hkeep
  · obtain ⟨h, rfl⟩ := Hook.of_matches hm
    rw [h.strip_line]
    by_cases hpath : ∀ c ∈ h.path, isPlain c = true
    · have hvar : E' (String.ofList (testPrefix.toList ++ h.var)) = none := hbare _ (contains_var h.var)
      rw [bound, h.assignment_const hpath, bound, h.assignment_line hpath]
      simp only [Option.map_some, Value.eval, hvar, Option.getD_none]
    · -- such a path is not read before, and not after
      obtain ⟨hline, hconst⟩ := h.assignment_eq_none hpath
      rw [bound, bound, hline, hconst]
      rfl
  · have hline : stripTestHooks line = line := hkeep
    rw [hline] at hgrep ⊢
    unfold bound
    cases ha : assignment line with
    | none => rfl
    | some a =>
      obtain ⟨name, s | ⟨var, default⟩⟩ := a
      · rfl
      · have hno : contains testPrefix (String.ofList var) = false := by
          by_contra hyes
          rw [Bool.not_eq_false, contains_iff, String.toList_ofList] at hyes
          have hyes' : contains testPrefix (String.ofList line) = true :=
            contains_iff.mpr (by simpa using hyes.trans (lookup_mem ha))
          rw [hgrep] at hyes'
          cases hyes'
        simp [Value.eval, hsame _ hno]

/-- So do its assignments. -/
theorem assigned_strip (hsame : ∀ v, contains testPrefix v = false → E v = E' v)
    (hbare : ∀ v, contains testPrefix v = true → E' v = none) (name : String) : ∀ script : Script,
    (∀ line ∈ script, contains testPrefix (String.ofList (stripTestHooks line)) = false) →
      assigned E name (script.map stripTestHooks) = assigned E' name script
  | [], _ => rfl
  | line :: lines, hgrep => by
    have hline := bound_strip hsame hbare (hgrep line List.mem_cons_self)
    have hlines := assigned_strip hsame hbare name lines fun l hl => hgrep l (List.mem_cons_of_mem _ hl)
    rw [List.map_cons, assigned, assigned, hline, hlines]

theorem install_eq_some : install script = some target ↔ target = script.map stripTestHooks ∧
    ∀ line ∈ script, contains testPrefix (String.ofList (stripTestHooks line)) = false := by
  rw [install]
  split
  · rename_i hany
    obtain ⟨line, hline, hgrep⟩ := List.any_eq_true.mp hany
    obtain ⟨line, hmem, rfl⟩ := List.mem_map.mp hline
    refine iff_of_false (by simp) fun h => ?_
    rw [h.2 line hmem] at hgrep
    cases hgrep
  · rename_i hany
    have hall : ∀ line ∈ script, contains testPrefix (String.ofList (stripTestHooks line)) = false :=
      fun line hline => by
        simpa using fun hgrep => hany (List.any_eq_true.mpr ⟨_, List.mem_map_of_mem hline, hgrep⟩)
    exact ⟨fun h => ⟨(Option.some.inj h).symm, hall⟩, fun h => congrArg some h.1.symm⟩

/-! ### The programs -/

variable {X : Externals} {fuel : ℕ} {paths : Paths}

/-- The environment of a job. -/
def agree (E E' : Environ) : Prop :=
  E "FLUX_JOB_USERID" = E' "FLUX_JOB_USERID" ∧ E "FLUX_JOB_ID" = E' "FLUX_JOB_ID" ∧
    E "FLUX_PAM_LOCK_DIR" = E' "FLUX_PAM_LOCK_DIR"

theorem agree_of_same (hsame : ∀ v, contains testPrefix v = false → E v = E' v) : agree E E' :=
  ⟨hsame _ (by decide), hsame _ (by decide), hsame _ (by decide)⟩

theorem withHelper_congr {α : Type} (h : agree E E') {userid : ℤ} {jobid : ℕ} {systemctl loginctl : String}
    {body : PAMHelper → Py α} : withHelper X fuel E userid jobid systemctl loginctl body =
      withHelper X fuel E' userid jobid systemctl loginctl body := by
  have hinit : PAMHelper.init X fuel E userid jobid systemctl loginctl =
      PAMHelper.init X fuel E' userid jobid systemctl loginctl := by
    unfold PAMHelper.init
    rw [h.2.2]
  rw [withHelper, withHelper, hinit]

theorem jobInfo_congr (h : agree E E') : jobInfo X E = jobInfo X E' := by
  rw [jobInfo, jobInfo, h.1, h.2.1]

theorem Prolog.main_congr (h : agree E E') : Prolog.main X fuel paths E = Prolog.main X fuel paths E' := by
  unfold Prolog.main
  rw [jobInfo_congr h]
  simp only [withHelper_congr h]

theorem Housekeeping.main_congr (h : agree E E') :
    Housekeeping.main X fuel paths E = Housekeeping.main X fuel paths E' := by
  unfold Housekeeping.main
  rw [jobInfo_congr h]
  simp only [withHelper_congr h]

/-- The same environment without the variables of the testsuite. -/
def Environ.untested (E : Environ) : Environ := fun v => if contains testPrefix v then none else E v

theorem Environ.untested_same (v : String) (hv : contains testPrefix v = false) : E v = E.untested v := by
  simp [untested, hv]

theorem Environ.untested_bare (v : String) (hv : contains testPrefix v = true) : E.untested v = none := by
  simp [untested, hv]

/-- A text without the character `q` does not reach across one. -/
theorem part_of_append_cons {α : Type} {needle a b : List α} {q : α} (hq : q ∉ needle)
    (h : needle <:+: a ++ q :: b) : needle <:+: a ∨ needle <:+: b := by
  obtain ⟨front, back, heq⟩ := h
  rw [List.append_assoc] at heq
  rcases List.append_eq_append_iff.mp heq with ⟨mid, ha, hmid⟩ | ⟨mid, hfront, hmid⟩
  · -- the text starts in `a`, and ends there
    left
    rcases List.append_eq_append_iff.mp hmid with ⟨rest, hrest, hb⟩ | ⟨rest, hneedle, hb⟩
    · exact ⟨front, rest, by rw [ha, hrest, List.append_assoc]⟩
    · cases rest with
      | nil => exact ⟨front, [], by rw [ha, hneedle]; simp⟩
      | cons c rest =>
        have hc : q = c := (List.cons.inj hb).1
        exact absurd (by simp [hneedle, hc]) hq
  · right
    cases mid with
    | nil =>
      cases needle with
      | nil => exact List.nil_infix
      | cons c needle =>
        have hc : q = c := (List.cons.inj hmid).1
        exact absurd (by simp [hc]) hq
    | cons c mid =>
      have hb : b = mid ++ (needle ++ back) := (List.cons.inj hmid).2
      exact ⟨mid, back, by rw [hb, List.append_assoc]⟩

/-- What a stripped hook mentions is in its name or its path. -/
theorem Hook.part_of_const (h : Hook) {needle : List Char} (hne : needle ≠ []) (hspace : ' ' ∉ needle)
    (hequals : '=' ∉ needle) (hquote : '\"' ∉ needle) (hin : needle <:+: h.const) :
    needle <:+: h.name ∨ needle <:+: h.path := by
  have hconst : h.const = h.name ++ ' ' :: ([] ++ '=' :: ([' '] ++ '\"' :: (h.path ++ '\"' :: []))) := by
    simp [const]
  have hnil : ¬ needle <:+: [] := fun hin => hne (List.eq_nil_of_infix_nil hin)
  rw [hconst] at hin
  rcases part_of_append_cons hspace hin with hin | hin
  · exact .inl hin
  have hin := (part_of_append_cons hequals hin).resolve_left hnil
  have hblank : ¬ needle <:+: [' '] := fun hin => by
    obtain ⟨c, cs, rfl⟩ := List.exists_cons_of_ne_nil hne
    have hc : c = ' ' := List.mem_singleton.mp (hin.subset List.mem_cons_self)
    exact hspace (hc ▸ List.mem_cons_self)
  have hin := (part_of_append_cons hquote hin).resolve_left hblank
  exact .inr ((part_of_append_cons hquote hin).resolve_right hnil)

theorem Hook.part_of_line (h : Hook) {needle : List Char} (hin : needle <:+: h.name ∨ needle <:+: h.path) :
    needle <:+: h.line := by
  rcases hin with hin | hin
  · exact hin.trans (List.prefix_append h.name _).isInfix
  · refine hin.trans ⟨h.name ++ " = os.environ.get(\"_FLUX_PAM_TEST_".toList ++ h.var ++
      "\", \"".toList, "\")".toList, ?_⟩
    simp [line]

/-- A line that can be read still can after the build. -/
theorem readable_strip {line : Line} (h : (assignment line).isSome = true ∨ Inert line) :
    (assignment (stripTestHooks line)).isSome = true ∨ Inert (stripTestHooks line) := by
  rcases rewrite_cases hookLine constLine line with ⟨caps, hm⟩ | hkeep
  · obtain ⟨hook, rfl⟩ := Hook.of_matches hm
    rw [hook.strip_line]
    by_cases hpath : ∀ c ∈ hook.path, isPlain c = true
    · rw [hook.assignment_const hpath]
      exact .inl rfl
    · rw [(hook.assignment_eq_none hpath).1] at h
      rcases h.resolve_left (by simp) with hcall | ⟨hs, hl⟩
      · -- the calls are no hooks
        have hline : stripTestHooks hook.line = hook.line :=
          (show ∀ line ∈ calls, stripTestHooks line = line by decide) _ hcall
        rw [hook.strip_line] at hline
        exact .inr (hline ▸ .inl hcall)
      · refine .inr (.inr ⟨fun hin => hs ?_, fun hin => hl ?_⟩)
        · exact hook.part_of_line (hook.part_of_const (by decide) (by decide) (by decide) (by decide) hin)
        · exact hook.part_of_line (hook.part_of_const (by decide) (by decide) (by decide) (by decide) hin)
  · have hline : stripTestHooks line = line := hkeep
    rwa [hline]

/-- The script the build makes, whether it then fails or not. -/
def Source.strip (source : Source) : Source where
  lines := source.lines.map stripTestHooks
  readable line hline := by
    obtain ⟨line, hmem, rfl⟩ := List.mem_map.mp hline
    exact readable_strip (source.readable line hmem)

variable {src : Source}

theorem Prolog.script_install (h : install src.lines = some target)
    (hsame : ∀ v, contains testPrefix v = false → E v = E' v)
    (hbare : ∀ v, contains testPrefix v = true → E' v = none) :
    Prolog.script X fuel src.strip E = Prolog.script X fuel src E' := by
  have hassigned : ∀ name, assigned E name src.strip.lines = assigned E' name src.lines :=
    fun name => assigned_strip hsame hbare name src.lines (install_eq_some.mp h).2
  unfold Prolog.script
  simp only [hassigned, Prolog.main_congr (agree_of_same hsame)]

theorem Housekeeping.script_install (h : install src.lines = some target)
    (hsame : ∀ v, contains testPrefix v = false → E v = E' v)
    (hbare : ∀ v, contains testPrefix v = true → E' v = none) :
    Housekeeping.script X fuel src.strip E = Housekeeping.script X fuel src E' := by
  have hassigned : ∀ name, assigned E name src.strip.lines = assigned E' name src.lines :=
    fun name => assigned_strip hsame hbare name src.lines (install_eq_some.mp h).2
  unfold Housekeeping.script
  simp only [hassigned, Housekeeping.main_congr (agree_of_same hsame)]

/-- A line of the installed script is the line of the source, or what a hook
becomes. -/
theorem strip_line (line : Line) :
    stripTestHooks line = line ∨ ∃ hook : Hook, line = hook.line ∧ stripTestHooks line = hook.const := by
  rcases rewrite_cases hookLine constLine line with ⟨caps, hm⟩ | hkeep
  · obtain ⟨hook, rfl⟩ := Hook.of_matches hm
    exact .inr ⟨hook, rfl, hook.strip_line⟩
  · exact .inl hkeep

/-- **The installed scripts cannot be redirected.** If the build does not fail, it
changes no line but the hooks, and the installed script is in any environment the
program that the script of the build tree is in the same environment without the
variables of the testsuite. -/
theorem install_preserves (h : install src.lines = some target)
    (hsame : ∀ v, contains testPrefix v = false → E v = E' v)
    (hbare : ∀ v, contains testPrefix v = true → E' v = none) :
    ∃ installed : Source, installed.lines = target ∧
      List.Forall₂ (fun line line' => line' = line ∨
        ∃ hook : Hook, line = hook.line ∧ line' = hook.const) src.lines target ∧
      Prolog.script X fuel installed E = Prolog.script X fuel src E' ∧
      Housekeeping.script X fuel installed E = Housekeeping.script X fuel src E' := by
  refine ⟨src.strip, (install_eq_some.mp h).1.symm, ?_, Prolog.script_install h hsame hbare,
    Housekeeping.script_install h hsame hbare⟩
  rw [(install_eq_some.mp h).1, List.forall₂_map_right_iff, List.forall₂_same]
  exact fun line _ => strip_line line

/-- A script with both lookups. -/
def mockable : Source where
  lines := ["SYSTEMCTL = os.environ.get(\"_FLUX_PAM_TEST_SYSTEMCTL\", \"/usr/bin/systemctl\")".toList,
    "LOGINCTL = os.environ.get(\"_FLUX_PAM_TEST_LOGINCTL\", \"/usr/bin/loginctl\")".toList]
  readable := by decide

/-- The environment of a test. -/
def mocked : Environ := fun v =>
  if v = "_FLUX_PAM_TEST_SYSTEMCTL" then some "/tmp/mock"
  else if v = "_FLUX_PAM_TEST_LOGINCTL" then some "/tmp/mocklogin" else none

/-- The paths of most distributions. -/
def usrBin : Paths := ⟨"/usr/bin/systemctl", "/usr/bin/loginctl"⟩

/-- In a test, but not installed, the scripts run the mocks. -/
theorem install_preserves_mocked : ∃ installed : Source,
    install mockable.lines = some installed.lines ∧
    Prolog.script .single 1 installed mocked = some (Prolog.main .single 1 usrBin mocked.untested) ∧
    Prolog.script .single 1 mockable mocked =
      some (Prolog.main .single 1 ⟨"/tmp/mock", "/tmp/mocklogin"⟩ mocked) := by
  obtain ⟨installed, hlines, -, hprolog, -⟩ := @install_preserves mocked mocked.untested _ .single 1
    mockable rfl Environ.untested_same Environ.untested_bare
  exact ⟨installed, hlines ▸ rfl, hprolog, rfl⟩

/-! ### The two scripts -/

/-- The assignment of a path, as configured. -/
def hookText (name path : String) : Line :=
  (name ++ " = os.environ.get(\"_FLUX_PAM_TEST_" ++ name ++ "\", \"" ++ path ++ "\")").toList

def Prolog.hooks (paths : Paths) : Script :=
  [hookText "SYSTEMCTL" paths.systemctl, hookText "LOGINCTL" paths.loginctl]

def Housekeeping.hooks (paths : Paths) : Script := [hookText "SYSTEMCTL" paths.systemctl]

/-- A path as `configure` finds it, or the empty one. -/
structure Configured (path : String) : Prop where
  plain : ∀ c ∈ path.toList, isPlain c = true
  untested : contains testPrefix path = false

/-- The rest of a script: lines that name no variable of the testsuite, and do not
mention the paths' names but to use them. -/
structure Rest where
  lines : Script
  untested : ∀ line ∈ lines, contains testPrefix (String.ofList line) = false
  inert : ∀ line ∈ lines, Inert line

def Hook.ofPath (name path : String) (hpos : 1 ≤ name.toList.length)
    (hname : ∀ c ∈ name.toList, c.isUpper = true) (hpath : Configured path) : Hook where
  name := name.toList
  var := name.toList
  path := path.toList
  name_pos := hpos
  name_upper := hname
  var_pos := hpos
  var_upper := hname
  path_quote c hc h := absurd (hpath.plain c hc) (by rw [h]; decide)

theorem Hook.ofPath_line {name path : String} (hpos : 1 ≤ name.toList.length)
    (hname : ∀ c ∈ name.toList, c.isUpper = true) (hpath : Configured path) :
    (Hook.ofPath name path hpos hname hpath).line = hookText name path := by
  simp [Hook.ofPath, Hook.line, hookText]

theorem assigned_append {name : String} {script' : Script} :
    assigned E name (script ++ script') = (assigned E name script' <|> assigned E name script) := by
  induction script with
  | nil => simp [assigned]
  | cons line lines ih => simp [assigned, ih, Option.or_assoc]

/-- A line that assigns a name mentions it. -/
theorem name_mem {line : Line} {name : List Char} {value : Value}
    (h : assignment line = some (name, value)) : name <:+: line := by
  unfold assignment at h
  split at h
  · rename_i hscan
    have hparts := (matches_of_scan hscan).part_of
    cases h
    exact hparts name (by simp)
  · split at h
    · rename_i hscan
      have hparts := (matches_of_scan hscan).part_of
      cases h
      exact hparts name (by simp)
    · cases h

theorem Inert.assignment_ne {line : Line} (h : Inert line) {name : List Char} {value : Value}
    (ha : assignment line = some (name, value)) : name ≠ "SYSTEMCTL".toList ∧ name ≠ "LOGINCTL".toList := by
  rcases h with hcall | ⟨hs, hl⟩
  · have hnone : assignment line = none :=
      (show ∀ line ∈ calls, assignment line = none by decide) line hcall
    rw [hnone] at ha
    cases ha
  · exact ⟨fun hn => hs (hn ▸ name_mem ha), fun hn => hl (hn ▸ name_mem ha)⟩

theorem assigned_inert {name : String} (hn : name = "SYSTEMCTL" ∨ name = "LOGINCTL") :
    ∀ {script : Script}, (∀ line ∈ script, Inert line) → assigned E name script = none
  | [], _ => rfl
  | line :: lines, h => by
    have hlines := assigned_inert hn fun l hl => h l (List.mem_cons_of_mem _ hl)
    rw [assigned, hlines, bound]
    cases ha : assignment line with
    | none => rfl
    | some a =>
      have hne : a.1 ≠ name.toList := by
        have hother := (h line List.mem_cons_self).assignment_ne ha
        rcases hn with rfl | rfl
        · exact hother.1
        · exact hother.2
      simp [hne]

/-- What the assignment of a path comes to. -/
theorem bound_hookText {name path : String} (hpos : 1 ≤ name.toList.length)
    (hname : ∀ c ∈ name.toList, c.isUpper = true) (hpath : Configured path) :
    bound E (hookText name path) = some (name.toList, (E (testPrefix ++ name)).getD path) := by
  rw [← Hook.ofPath_line hpos hname hpath, bound, Hook.assignment_line _ hpath.plain]
  simp [Hook.ofPath, Value.eval]

theorem systemctl_upper : ∀ c ∈ "SYSTEMCTL".toList, c.isUpper = true := List.all_eq_true.mp (by decide)

theorem loginctl_upper : ∀ c ∈ "LOGINCTL".toList, c.isUpper = true := List.all_eq_true.mp (by decide)

theorem bound_systemctl {path : String} (hpath : Configured path) :
    bound E (hookText "SYSTEMCTL" path) =
      some ("SYSTEMCTL".toList, (E "_FLUX_PAM_TEST_SYSTEMCTL").getD path) :=
  bound_hookText (by decide) systemctl_upper hpath

theorem bound_loginctl {path : String} (hpath : Configured path) :
    bound E (hookText "LOGINCTL" path) =
      some ("LOGINCTL".toList, (E "_FLUX_PAM_TEST_LOGINCTL").getD path) :=
  bound_hookText (by decide) loginctl_upper hpath

theorem systemctl_ne_loginctl : "SYSTEMCTL".toList ≠ "LOGINCTL".toList := by decide

theorem assigned_cons_self {name value : String} {line : Line}
    (hline : bound E line = some (name.toList, value)) (hrest : assigned E name script = none) :
    assigned E name (line :: script) = some value := by
  rw [assigned, hrest, hline]
  simp

theorem assigned_cons_of_ne {name value : String} {line other : Line}
    (hline : bound E line = some (other, value)) (hne : other ≠ name.toList) :
    assigned E name (line :: script) = assigned E name script := by
  rw [assigned, hline]
  simp [Option.filter, hne]

theorem assigned_hooks (hs : Configured paths.systemctl) (hl : Configured paths.loginctl) :
    assigned E "SYSTEMCTL" (Prolog.hooks paths) =
        some ((E "_FLUX_PAM_TEST_SYSTEMCTL").getD paths.systemctl) ∧
      assigned E "LOGINCTL" (Prolog.hooks paths) =
        some ((E "_FLUX_PAM_TEST_LOGINCTL").getD paths.loginctl) := by
  constructor
  · apply assigned_cons_self (bound_systemctl hs)
    rw [assigned_cons_of_ne (bound_loginctl hl) systemctl_ne_loginctl.symm]
    rfl
  · rw [Prolog.hooks, assigned_cons_of_ne (bound_systemctl hs) systemctl_ne_loginctl]
    exact assigned_cons_self (bound_loginctl hl) rfl

theorem isSome_hookText {name path : String} (hpos : 1 ≤ name.toList.length)
    (hname : ∀ c ∈ name.toList, c.isUpper = true) (hpath : Configured path) :
    (assignment (hookText name path)).isSome = true := by
  rw [← Hook.ofPath_line hpos hname hpath, Hook.assignment_line _ hpath.plain]
  rfl

/-- A script whose paths are assigned somewhere in it. -/
def Rest.around (front back : Rest) (hooks : Script)
    (h : ∀ line ∈ hooks, (assignment line).isSome = true) : Source where
  lines := front.lines ++ (hooks ++ back.lines)
  readable := List.forall_mem_append.mpr ⟨fun line hline => .inr (front.inert line hline),
    List.forall_mem_append.mpr ⟨fun line hline => .inl (h line hline),
      fun line hline => .inr (back.inert line hline)⟩⟩

section Configured

variable {front back : Rest} (hs : Configured paths.systemctl) (hl : Configured paths.loginctl)

/-- The prolog, as configured. -/
def Prolog.source (front back : Rest) (hs : Configured paths.systemctl)
    (hl : Configured paths.loginctl) : Source :=
  front.around back (Prolog.hooks paths) (List.forall_mem_cons.mpr
    ⟨isSome_hookText (by decide) systemctl_upper hs,
      List.forall_mem_singleton.mpr (isSome_hookText (by decide) loginctl_upper hl)⟩)

def Housekeeping.source (front back : Rest) (hs : Configured paths.systemctl) : Source :=
  front.around back (Housekeeping.hooks paths)
    (List.forall_mem_singleton.mpr (isSome_hookText (by decide) systemctl_upper hs))

/-- What a prolog in the build tree executes. -/
theorem Prolog.script_source : Prolog.script X fuel (Prolog.source front back hs hl) E =
    some (Prolog.main X fuel ⟨(E "_FLUX_PAM_TEST_SYSTEMCTL").getD paths.systemctl,
      (E "_FLUX_PAM_TEST_LOGINCTL").getD paths.loginctl⟩ E) := by
  obtain ⟨hsystemctl, hloginctl⟩ := assigned_hooks (E := E) hs hl
  change (do
    let systemctl ← assigned E "SYSTEMCTL" (front.lines ++ (Prolog.hooks paths ++ back.lines))
    let loginctl ← assigned E "LOGINCTL" (front.lines ++ (Prolog.hooks paths ++ back.lines))
    return Prolog.main X fuel ⟨systemctl, loginctl⟩ E : Option (Cmd ℤ)) = _
  rw [assigned_append, assigned_append, assigned_inert (.inl rfl) back.inert, hsystemctl,
    assigned_append, assigned_append, assigned_inert (.inr rfl) back.inert, hloginctl]
  rfl

theorem Housekeeping.script_source :
    Housekeeping.script X fuel (Housekeeping.source front back hs) E = some (Housekeeping.main X fuel
      ⟨(E "_FLUX_PAM_TEST_SYSTEMCTL").getD paths.systemctl, "/usr/bin/loginctl"⟩ E) := by
  have hsystemctl : assigned E "SYSTEMCTL" (Housekeeping.hooks paths) =
      some ((E "_FLUX_PAM_TEST_SYSTEMCTL").getD paths.systemctl) :=
    assigned_cons_self (bound_systemctl hs) rfl
  change (do
    let systemctl ← assigned E "SYSTEMCTL" (front.lines ++ (Housekeeping.hooks paths ++ back.lines))
    return Housekeeping.main X fuel ⟨systemctl, "/usr/bin/loginctl"⟩ E : Option (Cmd ℤ)) = _
  rw [assigned_append, assigned_append, assigned_inert (.inl rfl) back.inert, hsystemctl]
  rfl

end Configured

/-! ### The build does not fail -/

theorem strip_untested {line : Line} (h : contains testPrefix (String.ofList line) = false) :
    stripTestHooks line = line := by
  refine (rewrite_cases hookLine constLine line).resolve_left ?_
  rintro ⟨caps, hm⟩
  obtain ⟨hook, rfl⟩ := Hook.of_matches hm
  have hmem : contains testPrefix (String.ofList hook.line) = true := by
    rw [contains_iff, String.toList_ofList]
    refine ⟨hook.name ++ " = os.environ.get(\"".toList, hook.var ++ ("\", \"".toList ++
      (hook.path ++ "\")".toList)), ?_⟩
    simp [Hook.line, testPrefix]
  rw [h] at hmem
  cases hmem

/-- No lookup is left of a hook. -/
theorem untested_hookText {name path : String} (hpos : 1 ≤ name.toList.length)
    (hname : ∀ c ∈ name.toList, c.isUpper = true) (hpath : Configured path) :
    contains testPrefix (String.ofList (stripTestHooks (hookText name path))) = false := by
  rw [← Hook.ofPath_line hpos hname hpath, Hook.strip_line, contains_eq_false]
  intro hin
  rcases Hook.part_of_const _ (by decide) (by decide) (by decide) (by decide) hin with hin | hin
  · -- the name has no underscore
    have hmem : '_' ∈ name.toList := hin.subset (by decide)
    exact absurd (hname _ hmem) (by decide)
  · have hyes : contains testPrefix path = true := contains_iff.mpr hin
    rw [hpath.untested] at hyes
    cases hyes

variable {front back : Rest}

theorem install_around {hooks : Script} {h : ∀ line ∈ hooks, (assignment line).isSome = true}
    (hhooks : ∀ line ∈ hooks, contains testPrefix (String.ofList (stripTestHooks line)) = false) :
    install (front.around back hooks h).lines = some (front.around back hooks h).strip.lines := by
  have hrest : ∀ rest : Rest, ∀ line ∈ rest.lines,
      contains testPrefix (String.ofList (stripTestHooks line)) = false := fun rest line hline => by
    rw [strip_untested (rest.untested line hline)]
    exact rest.untested line hline
  exact install_eq_some.mpr ⟨rfl, List.forall_mem_append.mpr ⟨hrest front,
    List.forall_mem_append.mpr ⟨hhooks, hrest back⟩⟩⟩

theorem Environ.untested_agree (E : Environ) : agree E.untested E :=
  agree_of_same fun v hv => (Environ.untested_same v hv).symm

/-- **The scripts are installed with the configured paths.** Whatever `configure`
found, the build does not fail; the installed prolog and housekeeping execute the
configured paths in every environment. -/
theorem installed_paths (hs : Configured paths.systemctl) (hl : Configured paths.loginctl) :
    (∃ installed : Source, install (Prolog.source front back hs hl).lines = some installed.lines ∧
      ∀ E, Prolog.script X fuel installed E = some (Prolog.main X fuel paths E)) ∧
    ∃ installed : Source, install (Housekeeping.source front back hs).lines = some installed.lines ∧
      ∀ E, Housekeeping.script X fuel installed E = some (Housekeeping.main X fuel paths E) := by
  have hsystemctl := untested_hookText (by decide) systemctl_upper hs
  have hloginctl := untested_hookText (by decide) loginctl_upper hl
  have hbare : ∀ E : Environ, E.untested "_FLUX_PAM_TEST_SYSTEMCTL" = none ∧
      E.untested "_FLUX_PAM_TEST_LOGINCTL" = none := fun E =>
    ⟨Environ.untested_bare _ (by decide), Environ.untested_bare _ (by decide)⟩
  have hprolog : ∀ line ∈ Prolog.hooks paths,
      contains testPrefix (String.ofList (stripTestHooks line)) = false :=
    List.forall_mem_cons.mpr ⟨hsystemctl, List.forall_mem_singleton.mpr hloginctl⟩
  have hhousekeeping : ∀ line ∈ Housekeeping.hooks paths,
      contains testPrefix (String.ofList (stripTestHooks line)) = false :=
    List.forall_mem_singleton.mpr hsystemctl
  constructor
  · have htarget : install (Prolog.source front back hs hl).lines =
        some (Prolog.source front back hs hl).strip.lines := install_around hprolog
    refine ⟨_, htarget, fun E => ?_⟩
    rw [Prolog.script_install htarget Environ.untested_same Environ.untested_bare,
      Prolog.script_source hs hl, (hbare E).1, (hbare E).2, Prolog.main_congr E.untested_agree]
    rfl
  · have htarget : install (Housekeeping.source front back hs).lines =
        some (Housekeeping.source front back hs).strip.lines := install_around hhousekeeping
    refine ⟨_, htarget, fun E => ?_⟩
    rw [Housekeeping.script_install htarget Environ.untested_same Environ.untested_bare,
      Housekeeping.script_source hs, (hbare E).1, Housekeeping.main_congr E.untested_agree]
    rfl

theorem usrBin_systemctl : Configured usrBin.systemctl :=
  ⟨List.all_eq_true.mp (by decide), by decide⟩

theorem usrBin_loginctl : Configured usrBin.loginctl :=
  ⟨List.all_eq_true.mp (by decide), by decide⟩

def importLines : Rest where
  lines := ["import flux.job".toList, "import flux.pam".toList, []]
  untested := by decide
  inert := by decide

/-- The start of the scripts' `with` statements. -/
def mainLines : Rest where
  lines := [[], "def main():".toList, "        with flux.pam.PAMHelper(".toList,
    "            userid, jobid, systemctl=SYSTEMCTL, loginctl=LOGINCTL".toList,
    "        ) as helper:".toList]
  untested := by decide
  inert := by decide

theorem installed_paths_usrBin : ∃ installed : Source,
    install (Prolog.source importLines mainLines usrBin_systemctl usrBin_loginctl).lines =
      some installed.lines ∧
    ∀ E, Prolog.script .single 1 installed E = some (Prolog.main .single 1 usrBin E) :=
  (installed_paths usrBin_systemctl usrBin_loginctl).1

end FluxPam
