import Optima.Linear.Record
import Optima.Settings
import Optima.Solution.Record

/-!
Every record by its name. The catalogue reads a record and writes it back, with every field and its
value; `Subject` is what can be handed over to be solved: a problem, or something that is none.
-/

namespace Optima

namespace Catalogue

/-- Reads a record and writes it back. -/
def rewriting {α : Type} (r : Reader α) (write : α → Datum) : Reader Datum := fun form d =>
  write <$> r form d

/-- The records that state problems. -/
def problems : List (String × Reader Problem) := [
  ("AssignmentProblem", fun form d => .assignment <$> Problem.Assignment.reader form d),
  ("KnapsackProblem", fun form d => .knapsack <$> Problem.Knapsack.reader form d),
  ("ShortestPathProblem", fun form d => .shortestPath <$> Problem.ShortestPath.reader form d),
  ("MaxFlowProblem", fun form d => .maxFlow <$> Problem.MaxFlow.reader form d),
  ("MinCostFlowProblem", fun form d => .minCostFlow <$> Problem.MinCostFlow.reader form d),
  ("ConstraintProblem", fun form d => .constraint <$> Problem.Constraint.reader form d)]

/-- All other records. -/
def parts : List (String × Reader Datum) := [
  ("WeightedEdge", rewriting Problem.WeightedEdge.reader Problem.WeightedEdge.write),
  ("CapacityEdge", rewriting Problem.CapacityEdge.reader Problem.CapacityEdge.write),
  ("CostEdge", rewriting Problem.CostEdge.reader Problem.CostEdge.write),
  ("NodeSupply", rewriting Problem.NodeSupply.reader Problem.NodeSupply.write),
  ("AssignedPair", rewriting Result.AssignedPair.reader Result.AssignedPair.write),
  ("AssignmentResult", rewriting Result.Assignment.reader Result.Assignment.write),
  ("KnapsackResult", rewriting Result.Knapsack.reader Result.Knapsack.write),
  ("ShortestPathResult", rewriting Result.ShortestPath.reader Result.ShortestPath.write),
  ("EdgeFlow", rewriting Result.EdgeFlow.reader Result.EdgeFlow.write),
  ("MaxFlowResult", rewriting Result.MaxFlow.reader Result.MaxFlow.write),
  ("MinCostFlowResult", rewriting Result.MinCostFlow.reader Result.MinCostFlow.write),
  ("ConstraintResult", rewriting Result.Constraint.reader Result.Constraint.write),
  ("SolveError", rewriting SolveError.reader SolveError.write),
  ("SolveStats", rewriting SolveStats.reader SolveStats.write),
  ("Solution", rewriting Solution.reader Solution.write),
  ("ProviderConfig", rewriting Settings.reader Settings.write),
  ("SolveOptions", rewriting Options.reader Options.write),
  ("Variable", rewriting Linear.Variable.reader Linear.Variable.write),
  ("LinearTerm", rewriting Linear.Term.reader Linear.Term.write),
  ("LinearExpr", rewriting Linear.Expr.reader Linear.Expr.write),
  ("LinearConstraint", rewriting Linear.Constraint.reader Linear.Constraint.write),
  ("LinearModel", rewriting Linear.Model.reader Linear.Model.write)]

end Catalogue

/-- What is handed over to be solved. -/
inductive Subject where
  | problem (problem : Problem)
  /-- Something else: the name of what it is, and the kind that it claims to be of, which may be
  anything; null if it claims none. -/
  | other (typeName : String) (kind : Datum)

namespace Subject

/-- The kind that a subject claims to be of: for a problem the name of its family. -/
def kind : Subject → Datum
  | problem p => .text p.family.name
  | other _ kind => kind

/-- The name of what a subject is. -/
def typeName : Subject → String
  | problem p => p.recordName
  | other name _ => name

/-- Plain data: it claims no kind. -/
def ofDatum (d : Datum) : Subject := other d.typeName .null

/-- A record as a subject: it claims the kind that its field `kind` holds. -/
def ofRecord (name : String) (d : Datum) : Subject :=
  other name <| match d with
    | .object fields => (Datum.lookup fields "kind").getD .null
    | _ => .null

end Subject

namespace Catalogue

/-- The record of a name, as a subject. -/
def subject? (name : String) : Option (Reader Subject) :=
  match problems.find? (·.1 = name) with
  | some (_, r) => some fun form d => .problem <$> r form d
  | none => (parts.find? (·.1 = name)).map fun (_, r) => fun form d =>
      Subject.ofRecord name <$> r form d

/-- The record of a name, read and written back in a form. -/
def record? (written : Form) (name : String) : Option (Reader (Except Fault Datum)) :=
  match problems.find? (·.1 = name) with
  | some (_, r) => some fun form d => (match written with
    | .values => fun p => .ok (Problem.write p)
    | .json => Problem.inJson) <$> r form d
  | none => (parts.find? (·.1 = name)).map fun (_, r) => fun form d => (match written with
    | .values => .ok
    | .json => Datum.withTextKeys) <$> r form d

end Catalogue

end Optima
