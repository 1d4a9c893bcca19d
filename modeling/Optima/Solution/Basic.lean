import Optima.Failure
import Optima.Problem.Basic

/-!
Answers. A solution names the capability that was asked and the family of the problem, and either
holds a result, or reports an error. `Solution.optimal` and `Solution.ofError` are the two ways in
which solving builds one.
-/

namespace Optima

/-- How a solve ended. -/
inductive Status where
  | optimal
  | infeasible
  | unbounded
  | timedOut
  | error
  deriving DecidableEq, Repr

namespace Status

/-- The statuses in the order in which they are listed. -/
def all : List Status := [optimal, infeasible, unbounded, timedOut, error]

/-- The name of a status. -/
def name : Status → String
  | optimal => "optimal"
  | infeasible => "infeasible"
  | unbounded => "unbounded"
  | timedOut => "timed_out"
  | error => "error"

instance : Inhabited Status := ⟨error⟩

end Status

/-- The status that reports a kind of failure. -/
def ErrorKind.status : ErrorKind → Status
  | infeasible => .infeasible
  | unbounded => .unbounded
  | timedOut => .timedOut
  | invalidInput | unsupportedCapability | internalSolverError => .error

/-! ### Results -/

namespace Result

/-- An agent with its task. -/
structure AssignedPair where
  agent : Int
  task : Int
  cost : Number
  agentLabel : Option String
  taskLabel : Option String

structure Assignment where
  pairs : List AssignedPair

structure Knapsack where
  selected : List Int
  totalWeight : Int
  totalValue : Int

/-- Distances and predecessors by node, in the order of the nodes. -/
structure ShortestPath where
  distances : List (NodeId × Number)
  predecessors : List (NodeId × NodeId)
  path : Option (List NodeId)
  targetDistance : Option Number

/-- The flow on an edge of the problem. -/
structure EdgeFlow where
  index : Int
  tail : NodeId
  head : NodeId
  flow : Int

structure MaxFlow where
  flowValue : Int
  edgeFlows : List EdgeFlow
  cutSourceSide : List NodeId
  cutCapacity : Int

structure MinCostFlow where
  flowValue : Int
  totalCost : Int
  edgeFlows : List EdgeFlow

/-- What an external solver found: values by variable, or routes. -/
structure Constraint where
  backend : String
  modelType : String
  values : List (String × Binary64)
  routes : Option (List (List Int))

end Result

/-- The result of a problem of any family. -/
inductive Result where
  | assignment (result : Result.Assignment)
  | knapsack (result : Result.Knapsack)
  | shortestPath (result : Result.ShortestPath)
  | maxFlow (result : Result.MaxFlow)
  | minCostFlow (result : Result.MinCostFlow)
  | constraint (result : Result.Constraint)

/-! ### Solutions -/

/-- A failure as a solution reports it. -/
structure SolveError where
  kind : ErrorKind
  capability : String
  family : Option String
  message : String

/-- How a result was found. -/
structure SolveStats where
  algorithm : String
  iterations : Int

/-- Nothing to report about the way. -/
def SolveStats.empty : SolveStats := ⟨"", 0⟩

/-- An answer. -/
structure Solution where
  capability : String
  family : Option String
  status : Status
  objective : Option Binary64
  result : Option Result
  error : Option SolveError
  stats : SolveStats
  message : String

namespace Solution

/-- The answer that holds a result. -/
def optimal (capability family : String) (result : Result) (objective : Binary64)
    (stats : SolveStats) (message : String) : Solution where
  capability := capability
  family := some family
  status := .optimal
  objective := some objective
  result := some result
  error := none
  stats := stats
  message := message

/-- The answer that reports an error. -/
def ofError (e : SolveError) (stats : SolveStats) : Solution where
  capability := e.capability
  family := e.family
  status := e.kind.status
  objective := none
  result := none
  error := some e
  stats := stats
  message := e.message

/-- The answer that reports a failure. -/
def ofFailure (capability : String) (family : Option String) (failure : Failure)
    (stats : SolveStats) : Solution :=
  ofError ⟨failure.kind, capability, family, failure.message⟩ stats

end Solution

end Optima
