/-
# Configuration and job values

The broker's configuration and `job-list` answers are JSON. Python reads them
with `conf_get` and truthiness; the C module with `json_unpack` formats, whose
`s:` keys are required, whose `s?` keys may be missing, and which fail on a
value of the wrong type. A format is a combinator here (`reqField`,
`optField`, `asBool`, ...), so that each of the source's formats is one term.
-/
import FluxPam.Text
import Mathlib.Data.Rat.Defs

namespace FluxPam

inductive Json where
  | null
  | bool (b : Bool)
  | int (n : ℤ)
  | real (q : ℚ)
  | str (s : String)
  | arr (vs : List Json)
  | obj (kvs : List (String × Json))
  deriving Inhabited

namespace Json

/-- The value of a key, if the value is an object that has it. -/
def get? (key : String) : Json → Option Json
  | .obj kvs => (kvs.find? (·.1 = key)).map (·.2)
  | _ => none

def isObj : Json → Bool
  | .obj _ => true
  | _ => false

/-! ### Python -/

/-- Python's truth value of a decoded JSON value. -/
def truthy : Json → Bool
  | .null => false
  | .bool b => b
  | .int n => n ≠ 0
  | .real q => q ≠ 0
  | .str s => s ≠ ""
  | .arr vs => !vs.isEmpty
  | .obj kvs => !kvs.isEmpty

/-- The value a dotted configuration key names: `conf_get ("a.b")` looks up
`b` in the table `a`. -/
def dotted (key : String) (conf : Json) : Option Json :=
  (key.toList.splitOn '.').foldl (fun v k => v.bind (get? (String.ofList k))) (some conf)

/-! ### `json_unpack` formats -/

/-- `s:` -/
def reqField {α : Type} (key : String) (fmt : Json → Option α) (v : Json) : Option α :=
  if v.isObj then (v.get? key).bind fmt else none

/-- `s?`: a missing key leaves the targets alone. -/
def optField {α : Type} (key : String) (fmt : Json → Option α) (v : Json) : Option (Option α) :=
  if v.isObj then
    match v.get? key with
    | none => some none
    | some x => (fmt x).map some
  else none

/-- `b` -/
def asBool : Json → Option Bool
  | .bool b => some b
  | _ => none

/-- `i` into a 32-bit `int`. -/
def asInt : Json → Option (BitVec 32)
  | .int n => some (BitVec.ofInt 32 n)
  | _ => none

/-- `s` -/
def asStr : Json → Option String
  | .str s => some s
  | _ => none

theorem optField_eq {α : Type} {key : String} {fmt : Json → Option α} {v : Json} (h : v.isObj = true) :
    optField key fmt v = match v.get? key with
      | none => some none
      | some x => (fmt x).map some := by
  simp [optField, h]

end Json

end FluxPam
