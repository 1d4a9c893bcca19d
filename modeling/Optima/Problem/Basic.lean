import Optima.Exception

/-!
The problems that can be stated: six families, each with a type of its own, and `Problem` for a
problem of any of them. A problem as stated may still be unsound (a row too short, an edge to an
undeclared node); soundness is the matter of `Optima.Problem.Defect`.
-/

namespace Optima

/-- The families of problems. -/
inductive Family where
  | assignment
  | knapsack
  | shortestPath
  | maxFlow
  | minCostFlow
  | constraint
  deriving DecidableEq, Repr

namespace Family

/-- The families in the order in which they are listed. -/
def all : List Family := [assignment, knapsack, shortestPath, maxFlow, minCostFlow, constraint]

/-- The name of a family. -/
def name : Family → String
  | assignment => "assignment"
  | knapsack => "knapsack"
  | shortestPath => "shortest_path"
  | maxFlow => "max_flow"
  | minCostFlow => "min_cost_flow"
  | constraint => "constraint"

/-- The identifier of the capability that solves a family by default. -/
def capability (family : Family) : String := "optimize." ++ family.name

/-- The family of a name. -/
def ofName? (name : String) : Option Family := all.find? (·.name = name)

/-- The wording for a name that is no family's. -/
def unknownMessage (name : String) : String := "unknown problem family '" ++ name ++ "'"

/-- The identifier of the capability for the family that data names. -/
def capabilityOf (d : Datum) : Except Escape String := do
  match (← d.word?).bind ofName? with
  | some family => return family.capability
  | none =>
      let name ← d.shown.mapError .ofFault
      throw (.noKey (some (unknownMessage name)))

theorem ofName?_name (family : Family) : ofName? family.name = some family := by
  cases family <;> decide

theorem capabilityOf_name (family : Family) :
    capabilityOf (.text family.name) = .ok family.capability := by
  cases family <;> rfl

end Family

namespace Problem

/-- Pair agents (rows) with tasks (columns), each at most once, at least cost. -/
structure Assignment where
  costs : List (List Number)
  agentLabels : Option (List String)
  taskLabels : Option (List String)

/-- Choose items of greatest value within a capacity. -/
structure Knapsack where
  weights : List Int
  values : List Int
  capacity : Int

/-- An edge with a length. -/
structure WeightedEdge where
  tail : NodeId
  head : NodeId
  weight : Number

/-- Find shortest paths from a source. -/
structure ShortestPath where
  nodes : List NodeId
  edges : List WeightedEdge
  source : NodeId
  target : Option NodeId
  directed : Bool

/-- An edge with a capacity. -/
structure CapacityEdge where
  tail : NodeId
  head : NodeId
  capacity : Int

/-- Send as much as possible from a source to a sink. -/
structure MaxFlow where
  nodes : List NodeId
  edges : List CapacityEdge
  source : NodeId
  sink : NodeId

/-- An edge with a cost for each unit, and possibly a capacity. -/
structure CostEdge where
  tail : NodeId
  head : NodeId
  capacity : Option Int
  cost : Int

/-- What a node supplies, or demands if negative. -/
structure NodeSupply where
  node : NodeId
  supply : Int

/-- Route a flow at least cost: between a source and a sink, possibly of a given value, or from
supplies to demands. -/
structure MinCostFlow where
  nodes : List NodeId
  edges : List CostEdge
  source : Option NodeId
  sink : Option NodeId
  flowValue : Option Int
  supplies : Option (List NodeSupply)

/-- A model for an external solver, passed on as it is. -/
structure Constraint where
  payload : List (String × Datum)

end Problem

/-- A problem of any family. -/
inductive Problem where
  | assignment (problem : Problem.Assignment)
  | knapsack (problem : Problem.Knapsack)
  | shortestPath (problem : Problem.ShortestPath)
  | maxFlow (problem : Problem.MaxFlow)
  | minCostFlow (problem : Problem.MinCostFlow)
  | constraint (problem : Problem.Constraint)

/-- The family of a problem. -/
def Problem.family : Problem → Family
  | assignment _ => .assignment
  | knapsack _ => .knapsack
  | shortestPath _ => .shortestPath
  | maxFlow _ => .maxFlow
  | minCostFlow _ => .minCostFlow
  | constraint _ => .constraint

end Optima
