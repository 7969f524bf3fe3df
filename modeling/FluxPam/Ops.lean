/-
# What the programs ask of the node

Every system call, subprocess, Flux request, PAM call and bus call the scripts
and the session module make is an operation; everything else they do is
computed. Logging is left out: it changes nothing and is assumed not to fail.
A Python function is a `Py` program, which may raise; a C function is a `Cmd`
program, which sees errors as values.
-/
import FluxPam.Interaction.Prog
import FluxPam.Slice
import FluxPam.Json

namespace FluxPam

open Interaction

inductive Errno where
  | ENOENT
  | ELOOP
  | EWOULDBLOCK
  | EPERM
  | EIO
  | ETIMEDOUT
  | other (n : ℕ)
  deriving DecidableEq, Inhabited

/-- The exceptions the helper and the scripts raise or handle. An `OSError`
raised by the system and the `ValueError` of `int ()` have no message of the
scripts' own. -/
inductive Exn where
  | osError (errno : Errno) (msg : String)
  | valueError (msg : String)
  | typeError (msg : String)
  | keyError (key : String)
  | runtimeError (msg : String)
  | calledProcessError (code : ℤ) (stderr : String)
  | timeoutExpired

/-- What a path names. -/
inductive FileKind where
  | absent
  | regular
  | symlink
  | directory
  | other
  deriving DecidableEq, Inhabited

/-- A descriptor, named by the path it was opened at: no program here opens
one path twice. -/
structure Fd where
  path : String
  deriving DecidableEq, Inhabited

inductive OpenFlag where
  | O_CREAT
  | O_RDWR
  | O_WRONLY
  | O_NOFOLLOW
  deriving DecidableEq

/-- The `flock` operations used: the scripts poll with `LOCK_NB`, the session
module waits. -/
inductive FlockOp where
  | LOCK_EX_NB
  | LOCK_EX
  | LOCK_UN
  deriving DecidableEq

/-- How `subprocess.run (..., check=True)` fails. -/
inductive RunError where
  | calledProcess (code : ℤ) (stderr : String)
  | timeout
  | os (e : Errno)
  deriving Inhabited

/-- The values appended to a bus message. -/
inductive BusVal where
  | str (s : String)
  | u32 (n : ℕ)
  deriving DecidableEq

/-- One call that adds to a bus message. -/
inductive BusArg where
  | openContainer (type : Char) (contents : String)
  | append (types : String) (values : List BusVal)
  | closeContainer
  deriving DecidableEq

inductive Op where
  -- the operating system
  | time
  | sleep (seconds : ℚ)
  | getpid
  | makedirs (path : String) (mode : ℕ)
  | stat (path : String)
  | lstat (path : String)
  | openFile (path : String) (flags : List OpenFlag) (mode : ℕ)
  | close (fd : Fd)
  | flock (fd : Fd) (operation : FlockOp)
  | unlink (path : String)
  | pathExists (path : String)
  | walk (top : String)
  | readLines (path : String)
  | run (argv : List String) (timeout : ℚ)
  -- Flux
  | fluxOpen (uri : Option String)
  | getRank
  | attrGet (name : String)
  | confGet (key : String)
  | jobList (user rank : String)
  | kvsLookupR (ids : List ℕ)
  | mapperLookup (R : String)
  | configGet (uri : Option String)
  | jobListRpc (uid allowIfUser : BitVec 32) (rank : String)
  -- PAM and the user database
  | pamGetUser
  | pamGetService
  | pamGetConv
  | pamConverse (msg : String)
  | pamSetData (name : String)
  | pamGetData (name : String)
  | pamPutenv (setting : String)
  | getpwnam (user : String)
  -- the system bus
  | busOpenSystem
  | busNewMethodCall (member : String)
  | busAppend (arg : BusArg)
  | busCall (member : String) (args : List BusArg)
  -- where the model stops following a loop of the source
  | stuck
  deriving DecidableEq

/-- The answers to an operation. A `time` reading is a rational number of
seconds; `lookup.data ()` is the `R` of each job found, with the lookup's
`errors`; no world answers `stuck`. -/
@[reducible] def Res : Op → Type
  | .time => ℚ
  | .sleep _ => Unit
  | .getpid => ℕ
  | .makedirs _ _ => Except Errno Unit
  | .stat _ => Except Errno ℕ
  | .lstat _ => Except Errno FileKind
  | .openFile _ _ _ => Except Errno Fd
  | .close _ => Except Errno Unit
  | .flock _ _ => Except Errno Unit
  | .unlink _ => Except Errno Unit
  | .pathExists _ => Bool
  | .walk _ => List String
  | .readLines _ => Except Errno (List String)
  | .run _ _ => Except RunError String
  | .fluxOpen _ => Except Errno Unit
  | .getRank => Except Errno ℕ
  | .attrGet _ => Except Errno String
  | .confGet _ => Except Errno (Option Json)
  | .jobList _ _ => Except Errno (List ℕ)
  | .kvsLookupR _ => Except Errno (List (ℕ × String) × List String)
  | .mapperLookup _ => Except Errno (Option Properties)
  | .configGet _ => Except Errno Json
  | .jobListRpc _ _ _ => Except Errno Json
  | .pamGetUser => Except Unit (Option String)
  | .pamGetService => Option String
  | .pamGetConv => Bool
  | .pamConverse _ => Unit
  | .pamSetData _ => Bool
  | .pamGetData _ => Bool
  | .pamPutenv _ => Bool
  | .getpwnam _ => Option (BitVec 32)
  | .busOpenSystem => Bool
  | .busNewMethodCall _ => Bool
  | .busAppend _ => Bool
  | .busCall _ _ => Bool
  | .stuck => Unit

instance : (o : Op) → Inhabited (Res o) := by
  intro o
  cases o <;> infer_instance

/-- An operation with its answer. -/
abbrev Event := Sigma Res

/-- A C function. -/
abbrev Cmd (α : Type) := Prog Op Res α

/-- A Python function. -/
abbrev Py (α : Type) := ExceptT Exn (Prog Op Res) α

/-- The `OSError` of a failed system call or Flux request. -/
def Errno.toExn (e : Errno) : Exn := .osError e ""

def RunError.toExn : RunError → Exn
  | .calledProcess code stderr => .calledProcessError code stderr
  | .timeout => .timeoutExpired
  | .os e => e.toExn

/-- A call of Python's that does not fail. -/
def call (o : Op) : Py (Res o) := ExceptT.lift (Prog.perform o)

/-- A call that raises `OSError`. -/
def callOS {α : Type} (x : Cmd (Except Errno α)) : Py α := raising Errno.toExn x

def perform (o : Op) : Cmd (Res o) := Prog.perform o

/-- Functions of other packages the programs call: their documented behaviour
is a hypothesis where a result needs it. -/
structure Externals where
  /-- `flux.job.JobID`; `none` is its `ValueError` -/
  jobID : String → Option ℕ
  /-- `flux.util.parse_fsd` -/
  parseFsd : Json → Except Exn ℚ
  /-- `flux.resource.ResourceSet`, its constructor, `union` and `encode` -/
  RSet : Type
  resourceSet : String → Except Exn RSet
  union : RSet → RSet → RSet
  encode : RSet → String
  /-- `idset_decode`: the ids of the set, if the text decodes -/
  idsetDecode : String → Option (List ℕ)
  /-- what `idset_first` returns for an empty set -/
  IDSET_INVALID_ID : ℕ

/-- Externals that are as documented on resource sets of single cores and their
unions, on idsets of a single id and on durations in seconds. -/
def Externals.single : Externals where
  jobID := decimal
  parseFsd
    | .str s => match decimal (String.ofList (s.toList.takeWhile Char.isDigit)) with
      | some n => .ok n
      | none => .error (.valueError "invalid Flux standard duration")
    | _ => .error (.typeError "invalid Flux standard duration")
  RSet := List ℕ
  resourceSet s := match decimal s with
    | some n => .ok [n]
    | none => .error (.valueError "invalid R")
  union R S := R ++ S.filter (· ∉ R)
  encode R := ",".intercalate (R.map numeral)
  idsetDecode s := (decimal s).map fun n => [n]
  IDSET_INVALID_ID := 2 ^ 32 - 2

end FluxPam
