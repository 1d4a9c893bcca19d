import Optima.Linear.Matrix

/-!
External solvers of linear models, and what any external solver found: the value of the objective,
and either a value for each variable or a route for each vehicle.

One solver takes models in matrix form (`Matrix`). It is asked one question that holds the whole
model, and a matrix or a list of right-hand sides without entries is left out of it. Its reply tells
by a number how the solve ended.

The other takes models step by step (`Stepwise`): an engine is chosen, and then variables,
constraints and the objective are stated one after the other. Terms are passed on as they are, so a
variable that occurs twice in an expression is stated twice. The objective is stated without its
constant, which is added to what the solver replies.
-/

namespace Optima.External

/-- What an external solver found. -/
structure Outcome where
  objective : Binary64
  values : List (String × Number)
  routes : Option (List (List Int))
  iterations : Int
  message : String

/-- A time limit in whole milliseconds. Only a finite limit has some. -/
def milliseconds (limit : Number) : Except Fault Int := do
  Number.truncate (← Number.mul limit (.int 1000))

/-! ### Models in matrix form -/

namespace Matrix

open Linear (Model Row)

/-- What the solver is asked. -/
structure Question (R : Type) where
  costs : List R
  upper : Option (List (List R))
  upperSides : Option (List R)
  equal : Option (List (List R))
  equalSides : Option (List R)
  bounds : List (Option R × Option R)
  /-- Which variables take whole values only; left out where none does. -/
  integrality : Option (List Bool)
  timeLimit : Option Binary64

variable {R : Type}

/-- The matrix of some rows, unless it has no entries. -/
def matrix? (columns : Nat) (rows : List (Row R)) : Option (List (List R)) :=
  if rows.isEmpty ∨ columns = 0 then none else some (rows.map (·.coefficients))

/-- The right-hand sides of some rows, unless there are none. -/
def sides? (rows : List (Row R)) : Option (List R) :=
  if rows.isEmpty then none else some (rows.map (·.side))

/-- The question that a model amounts to, without a limit of time. -/
def question [Zero R] [One R] [Add R] [Sub R] [Mul R] [Neg R] (m : Model R) :
    Except Failure (Question R) := do
  let costs ← m.costs
  let rows ← m.rows
  return {
    costs := costs
    upper := matrix? m.unknowns.length rows.upper
    upperSides := sides? rows.upper
    equal := matrix? m.unknowns.length rows.equal
    equalSides := sides? rows.equal
    bounds := m.unknowns.map fun v => (v.lower, v.upper)
    integrality := if m.hasIntegers then some (m.unknowns.map (·.isInteger)) else none
    timeLimit := none }

/-- What the solver replies. -/
structure Reply where
  status : Int
  success : Bool
  message : Option String
  /-- The least value of the objective that was asked for, if there is one. -/
  objective : Option Number
  /-- A value for each column, if a point was found. -/
  point : Option (List Number)
  iterations : Option Number

/-- The message of a reply, as other messages quote it. -/
def Reply.quotedMessage (reply : Reply) : String := reply.message.getD "None"

/-- The value of the model's own objective. -/
def objective (m : Model Binary64) (least : Number) : Except Fault Binary64 := do
  let turned ← Number.mul least (.real m.senseFactor)
  (← Number.add turned (.real m.objective.constant)).toReal

/-- The value of each variable. -/
def values (m : Model Binary64) (point : List Number) : Except Fault (List (String × Number)) :=
  (m.names.zip point).mapM fun (name, value) => do return (name, .real (← value.toReal))

/-- What a reply says about a model. -/
def outcome (m : Model Binary64) (reply : Reply) : Except Failure Outcome :=
  match reply.status with
  | 1 => .error (.timeout (.external
      ("HiGHS hit its iteration or time limit: " ++ reply.quotedMessage) Binary64.zero))
  | 2 => .error (.infeasible ("model '" ++ m.name ++ "' is infeasible"))
  | 3 => .error (.unbounded ("model '" ++ m.name ++ "' is unbounded"))
  | _ =>
      if !reply.success then .error (.internal ("HiGHS failed: " ++ reply.quotedMessage))
      else do
        let some least := reply.objective
          | throw (.unsupportedOperands "*" "NoneType" "float")
        let objective ← Failure.arith (objective m least)
        let some point := reply.point | throw (.notIterable "NoneType")
        let values ← Failure.arith (values m point)
        let iterations ← Failure.arith (reply.iterations.getD (.int 0)).truncate
        return ⟨objective, values, none, iterations, reply.message.getD ""⟩

end Matrix

/-! ### Models stated step by step -/

namespace Stepwise

open Linear (Comparison Expr Model Term)

/-- A step towards a model. A missing bound is the solver's own infinity. -/
inductive Request (R : Type) where
  | engine (name : String)
  | timeLimit (milliseconds : Int)
  | variable (isInteger : Bool) (lower upper : Option R) (name : String)
  | constraint (left : Expr R) (comparison : Comparison) (right : R) (name : String)
  | objective (sense : Linear.Sense) (terms : List (Term R))

variable {R : Type}

/-- The engines that can solve a model, the preferred one first. -/
def engines (m : Model R) : List String := if m.hasIntegers then ["SCIP", "CBC"] else ["GLOP"]

/-- The engines that are tried, up to the first that is there; and whether one is there. -/
def tried (hasEngine : String → Bool) : List String → List String × Bool
  | [] => ([], false)
  | name :: rest =>
      if hasEngine name then ([name], true)
      else
        let (names, found) := tried hasEngine rest
        (name :: names, found)

/-- A term of a variable that was declared. -/
def stated (names : List String) (t : Term R) : Except Failure (Term R) := do
  let _ ← Linear.column names t.name
  return t

/-- A sum as it is stated: the constant is added to the terms, whose sum starts from zero. -/
def sum [Zero R] [Add R] (names : List String) (e : Expr R) : Except Failure (Expr R) := do
  return ⟨← e.terms.mapM (stated names), 0 + e.constant⟩

/-- The steps that state a model. A step that refers to a variable that was not declared is
none. -/
def statement [Zero R] [Add R] (m : Model R) : List (Except Failure (Request R)) :=
  (m.unknowns.map fun v => .ok (.variable v.isInteger v.lower v.upper v.name)) ++
  (m.constraints.map fun c => do
    return .constraint (← sum m.names c.left) c.comparison c.right c.name) ++
  [do return .objective m.sense (← m.objective.terms.mapM (stated m.names))]

/-- The steps up to the first that is none, and why it is none. -/
def taken : List (Except Failure (Request R)) → List (Request R) × Option Failure
  | [] => ([], none)
  | .error failure :: _ => ([], some failure)
  | .ok request :: rest =>
      let (requests, failure) := taken rest
      (request :: requests, failure)

/-- What the solver replies. -/
structure Reply where
  status : Int
  objective : Option Number
  value : String → Number
  /-- The time that the solve took, in milliseconds. -/
  wallTime : Option Number
  iterations : Int

/-- What a reply says about a model. -/
def outcome (m : Model Binary64) (reply : Reply) : Except Failure Outcome :=
  match reply.status with
  | 0 => do
      let some found := reply.objective | throw (.unsupportedOperands "+" "NoneType" "float")
      let objective ← Failure.arith do
        (← Number.add found (.real m.objective.constant)).toReal
      return ⟨objective, m.names.map fun name => (name, reply.value name), none,
        reply.iterations, "Solved via OR-Tools"⟩
  | 2 => .error (.infeasible ("model '" ++ m.name ++ "' is infeasible"))
  | 3 => .error (.unbounded ("model '" ++ m.name ++ "' is unbounded"))
  | 1 | 6 => do
      let some elapsed := reply.wallTime | throw (.unsupportedOperands "/" "NoneType" "float")
      let time ← Failure.arith elapsed.toReal
      .error (.timeout (.external
        ("OR-Tools stopped before proving optimality for '" ++ m.name ++ "'")
        (time / Binary64.ofNat 1000)))
  | status => .error (.internal ("OR-Tools returned abnormal status " ++ toString status))

end Stepwise

end Optima.External
