import Optima.Linear.Basic
import Optima.Lists
import Optima.Record.Reader

/-!
How linear models are read and written. A model as a whole has to declare every variable once, give
it bounds in order, and use no variable that is not declared (`Model.defect?`).
-/

namespace Optima.Linear

open Reader

def Sense.reader : Reader Sense := among (Sense.all.map fun s => (s.name, s))

def Comparison.reader : Reader Comparison := among (Comparison.all.map fun c => (c.name, c))

def Variable.reader : Reader (Variable Binary64) := record "Variable" fun fs =>
  Variable.mk <$> fs.required "name" text
    <*> fs.maybe "lb" real
    <*> fs.maybe "ub" real
    <*> fs.withDefault "is_integer" false bool

def Variable.write (v : Variable Binary64) : Datum := .object [
  ("name", .text v.name), ("lb", .optional .real v.lower), ("ub", .optional .real v.upper),
  ("is_integer", .bool v.isInteger)]

def Term.reader : Reader (Term Binary64) := record "LinearTerm" fun fs =>
  Term.mk <$> fs.required "var" text <*> fs.required "coef" real

def Term.write (t : Term Binary64) : Datum := .object [
  ("var", .text t.name), ("coef", .real t.coefficient)]

def Expr.reader : Reader (Expr Binary64) := record "LinearExpr" fun fs =>
  Expr.mk <$> fs.withDefault "terms" [] (listOf Term.reader)
    <*> fs.withDefault "constant" Binary64.zero real

def Expr.write (e : Expr Binary64) : Datum := .object [
  ("terms", .listOf Term.write e.terms), ("constant", .real e.constant)]

def Constraint.reader : Reader (Constraint Binary64) := record "LinearConstraint" fun fs =>
  Constraint.mk <$> fs.required "name" text
    <*> fs.required "lhs" Expr.reader
    <*> fs.required "cmp" Comparison.reader
    <*> fs.required "rhs" real

def Constraint.write (c : Constraint Binary64) : Datum := .object [
  ("name", .text c.name), ("lhs", c.left.write), ("cmp", .text c.comparison.name),
  ("rhs", .real c.right)]

/-! ### Models -/

/-- What is wrong with a model as a whole. -/
inductive Defect where
  | repeatedName
  | inconsistentBounds (name : String) (lower upper : Binary64)
  | unknownInObjective (name : String)
  | unknownInConstraint (constraint name : String)

/-- The wording of a defect. -/
def Defect.message : Defect → String
  | repeatedName => "variable names must be unique"
  | inconsistentBounds name lower upper =>
      "variable " ++ name ++ " has inconsistent bounds " ++ lower.text ++ ">" ++ upper.text
  | unknownInObjective v => "objective references unknown variable '" ++ v ++ "'"
  | unknownInConstraint c v => "constraint '" ++ c ++ "' references unknown variable '" ++ v ++ "'"

/-- The first term whose variable is not declared. -/
def Expr.undeclared? (declared : List String) (e : Expr Binary64) : Option String :=
  (e.terms.find? fun t => !declared.contains t.name).map (·.name)

/-- A variable whose lower bound is above its upper one. -/
def Variable.boundsDefect? (v : Variable Binary64) : Option Defect := do
  let lower ← v.lower
  let upper ← v.upper
  guard (upper.less lower)
  return .inconsistentBounds v.name lower upper

/-- The first thing wrong with a model as a whole. -/
def Model.defect? (m : Model Binary64) : Option Defect :=
  if (repeated? m.names).isSome then some .repeatedName
  else m.unknowns.findSome? Variable.boundsDefect?
    <|> (m.objective.undeclared? m.names).map .unknownInObjective
    <|> m.constraints.findSome? fun c =>
      (c.left.undeclared? m.names).map (.unknownInConstraint c.name)

def Model.reader : Reader (Model Binary64) := fun form d =>
  (record "LinearModel" (fun fs =>
    Model.mk <$> fs.withDefault "name" "problem" text
      <*> fs.required "sense" Sense.reader
      <*> fs.required "objective" Expr.reader
      <*> fs.required "variables" (listOf Variable.reader)
      <*> fs.withDefault "constraints" [] (listOf Constraint.reader)) form d).andThen fun m =>
    match m.defect? with
    | some defect => .fail (.rule defect.message)
    | none => .ok m

def Model.write (m : Model Binary64) : Datum := .object [
  ("name", .text m.name), ("sense", .text m.sense.name), ("objective", m.objective.write),
  ("variables", .listOf Variable.write m.unknowns),
  ("constraints", .listOf Constraint.write m.constraints)]

end Optima.Linear
