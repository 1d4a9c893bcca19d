import Optima.Decimal.Notation

/-!
Why a solve ends without an answer. A failure has one of six kinds (`ErrorKind`), and the kind alone
determines the status of the solution that reports it. Limits, faults of arithmetic and foreign
exceptions that have a text are causes of their own and report themselves under one of the kinds.
What else may be raised is the matter of `Optima.Exception`.
-/

namespace Optima

/-- The kinds of failure. -/
inductive ErrorKind where
  | invalidInput
  | infeasible
  | unbounded
  | timedOut
  | unsupportedCapability
  | internalSolverError
  deriving DecidableEq, Repr

namespace ErrorKind

/-- The kinds in the order in which they are listed. -/
def all : List ErrorKind :=
  [invalidInput, infeasible, unbounded, timedOut, unsupportedCapability, internalSolverError]

/-- The name of a kind. -/
def name : ErrorKind → String
  | invalidInput => "invalid_input"
  | infeasible => "infeasible"
  | unbounded => "unbounded"
  | timedOut => "timed_out"
  | unsupportedCapability => "unsupported_capability"
  | internalSolverError => "internal_solver_error"

/-- The kind of a name. -/
def ofName? (name : String) : Option ErrorKind := all.find? (·.name = name)

instance : Inhabited ErrorKind := ⟨internalSolverError⟩

end ErrorKind

/-- Why a solve was cut off. -/
inductive Timeout where
  | iterationLimit (limit : Number)
  | cancelled
  | elapsed (limit : Number)
  /-- An external solver gave up after some seconds. -/
  | external (message : String) (seconds : Binary64)
  deriving DecidableEq

namespace Timeout

/-- The wording of a cut-off. -/
def message : Timeout → String
  | iterationLimit limit => "iteration limit of " ++ limit.text ++ " reached"
  | cancelled => "solve cancelled"
  | elapsed limit => "deadline of " ++ limit.text ++ "s elapsed"
  | external text _ => text

end Timeout

/-- Why a solve ends without an answer. -/
inductive Failure where
  /-- A failure of a kind with its wording. -/
  | known (kind : ErrorKind) (message : String)
  | timeout (cause : Timeout)
  | fault (fault : Fault)
  /-- A foreign exception that has a text. -/
  | raised (label text : String)
  /-- The computation goes on for ever. -/
  | endless
  deriving DecidableEq

/-- The wording for a record that lacks a field. -/
def lackingMessage (record field : String) : String :=
  "'" ++ record ++ "' object has no attribute '" ++ field ++ "'"

/-- The wording for data that has parts and was used as a key. -/
def unhashableMessage (typeName : String) : String := "unhashable type: '" ++ typeName ++ "'"

/-- The wording for two parts of a problem that should be of one size. -/
def mismatchMessage (what : String) (expected got : Int) : String :=
  "dimension mismatch in " ++ what ++ ": expected " ++ toString expected ++ ", got " ++ toString got

namespace Failure

/-- The kind under which a failure is reported. -/
def kind : Failure → ErrorKind
  | known kind _ => kind
  | timeout _ => .timedOut
  | fault _ | raised .. | endless => .internalSolverError

/-- The wording under which a failure is reported. -/
def message : Failure → String
  | known _ text => text
  | timeout cause => cause.message
  | fault f => f.label ++ ": " ++ f.message
  | raised label text => label ++ ": " ++ text
  | endless => "the computation does not end"

/-- The result of arithmetic, its faults taken as failures. -/
def arith {α : Type} (x : Except Fault α) : Except Failure α := x.mapError fault

def invalidInput (message : String) : Failure := known .invalidInput message
def infeasible (message : String) : Failure := known .infeasible message
def unbounded (message : String) : Failure := known .unbounded message
def unsupported (message : String) : Failure := known .unsupportedCapability message
def internal (message : String) : Failure := known .internalSolverError message

/-- A failure of a kind, whose wording names integers that may be too long to be written. -/
def worded (kind : ErrorKind) (message : Except Fault String) : Failure :=
  match message with
  | .ok text => known kind text
  | .error f => fault f

/-! ### What a solver that is handed something unfit for it ends with -/

/-- An index beyond the end of a list. -/
def outOfRange : Failure := raised "IndexError" "list index out of range"

/-- An index beyond the end of a list that is written to. -/
def writtenOutOfRange : Failure := raised "IndexError" "list assignment index out of range"

/-- The greatest or least of nothing. -/
def nothingToCompare : Failure := raised "ValueError" "max() arg is an empty sequence"

/-- A record that lacks a field. -/
def lacking (record field : String) : Failure :=
  raised "AttributeError" (lackingMessage record field)

/-- A node that is not given at all. -/
def noNode : Failure := raised "KeyError" "None"

/-- A node number that is not given at all. -/
def noIndex : Failure :=
  raised "TypeError" "list indices must be integers or slices, not NoneType"

/-- An operation on values of kinds that it is not made for. -/
def unsupportedOperands (operator left right : String) : Failure :=
  raised "TypeError" ("unsupported operand type(s) for " ++ operator ++ ": '" ++ left ++
    "' and '" ++ right ++ "'")

/-- The parts of something that has none were asked for. -/
def notIterable (typeName : String) : Failure :=
  raised "TypeError" ("'" ++ typeName ++ "' object is not iterable")

/-- Data that has parts was used as a key. -/
def unhashable (typeName : String) : Failure :=
  raised "TypeError" (unhashableMessage typeName)

/-- Something that is no problem was handed over to be solved. -/
def unrecognised (typeName : String) : Failure :=
  invalidInput ("unrecognised problem type " ++ typeName)

/-- Two parts of a problem that should be of one size. -/
def dimensionMismatch (what : String) (expected got : Int) : Failure :=
  invalidInput (mismatchMessage what expected got)

end Failure

end Optima
