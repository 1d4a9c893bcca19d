import Optima.Failure
import Optima.Linear.Basic
import Optima.Table
import Optima.Text.Quoted

/-!
Linear models in matrix form. Every variable has a column, in the order of declaration; a constraint
is a row of coefficients with a right-hand side, to which the constant of its left-hand side was
moved. There are rows that say "at most" and rows that say "equal"; "at least" is "at most" with all
signs turned. The objective is always minimised, so that of a maximum has its signs turned too.

A term is added to the column of its variable, and a variable that was not declared has none.
Nothing here depends on the kind of scalar, so what the rows mean can be stated over exact ones.
-/

namespace Optima.Linear

variable {R : Type}

/-- A variable that was not declared. -/
def noVariable (name : String) : Failure := .raised "KeyError" (Text.quoted name)

/-- The column of a variable. Of several variables with one name, the last has it. -/
def column (names : List String) (name : String) : Except Failure (Fin names.length) :=
  match (List.finRange names.length).reverse.find? fun j => names[j] = name with
  | some j => .ok j
  | none => .error (noVariable name)

/-- A row of coefficients with its right-hand side. -/
structure Row (R : Type) where
  coefficients : List R
  side : R

/-- The coefficients of an expression by column: terms of one variable add up. -/
def Expr.coefficients [Zero R] [Add R] (e : Expr R) (names : List String) :
    Except Failure (Table names.length R) :=
  e.terms.foldlM (fun t term => do
    let j ← column names term.name
    return t.update j (t.get j + term.coefficient)) (Table.fill _ 0)

/-- A constraint as a row. -/
def Constraint.row [Zero R] [Add R] [Sub R] (c : Constraint R) (names : List String) :
    Except Failure (Row R) := do
  return ⟨(← c.left.coefficients names).values, c.right - c.left.constant⟩

/-- A row with all signs turned. -/
def Row.negated [Neg R] (row : Row R) : Row R := ⟨row.coefficients.map (- ·), -row.side⟩

/-- The rows of a model: those that say "at most", and those that say "equal". -/
structure Rows (R : Type) where
  upper : List (Row R)
  equal : List (Row R)

/-- The rows with the row of one more constraint before them. -/
def Rows.add [Neg R] (rows : Rows R) (comparison : Comparison) (row : Row R) : Rows R :=
  match comparison with
  | .atMost => { rows with upper := row :: rows.upper }
  | .atLeast => { rows with upper := row.negated :: rows.upper }
  | .equal => { rows with equal := row :: rows.equal }

/-- The rows of constraints. -/
def rowsOf [Zero R] [Add R] [Sub R] [Neg R] (names : List String) :
    List (Constraint R) → Except Failure (Rows R)
  | [] => .ok ⟨[], []⟩
  | c :: rest => do
      let row ← c.row names
      return (← rowsOf names rest).add c.comparison row

namespace Model

/-- The rows of a model. -/
def rows [Zero R] [Add R] [Sub R] [Neg R] (m : Model R) : Except Failure (Rows R) :=
  rowsOf m.names m.constraints

/-- The factor that turns a maximum into a minimum. -/
def senseFactor [One R] [Neg R] (m : Model R) : R :=
  match m.sense with
  | .min => 1
  | .max => -1

/-- The coefficients of the objective that is minimised. -/
def costs [Zero R] [One R] [Add R] [Mul R] [Neg R] (m : Model R) : Except Failure (List R) := do
  return (← m.objective.coefficients m.names).values.map (· * m.senseFactor)

end Model

end Optima.Linear
