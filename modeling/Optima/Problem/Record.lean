import Optima.Problem.Basic
import Optima.Record.Reader

/-!
How problems are read and written. Every record names its fields once for reading and once for
writing, in the same order; the tag `kind` tells the family.
-/

namespace Optima.Problem

open Reader

/-- The text of a family's tag. -/
def kindField (family : Family) : String × Datum := ("kind", .text family.name)

/-! ### Assignment -/

def Assignment.reader : Reader Assignment := record "AssignmentProblem" fun fs =>
  (fun _ => Assignment.mk) <$> fs.word "kind" Family.assignment.name
    <*> fs.required "costs" (listOf (listOf number))
    <*> fs.maybe "agent_labels" (listOf text)
    <*> fs.maybe "task_labels" (listOf text)

def Assignment.write (p : Assignment) : Datum := .object [
  kindField .assignment,
  ("costs", .listOf (.listOf .number) p.costs),
  ("agent_labels", .optional (.listOf .text) p.agentLabels),
  ("task_labels", .optional (.listOf .text) p.taskLabels)]

/-! ### Knapsack -/

def Knapsack.reader : Reader Knapsack := record "KnapsackProblem" fun fs =>
  (fun _ => Knapsack.mk) <$> fs.word "kind" Family.knapsack.name
    <*> fs.required "weights" (listOf int)
    <*> fs.required "values" (listOf int)
    <*> fs.required "capacity" int

def Knapsack.write (p : Knapsack) : Datum := .object [
  kindField .knapsack,
  ("weights", .listOf .int p.weights),
  ("values", .listOf .int p.values),
  ("capacity", .int p.capacity)]

/-! ### Shortest path -/

def WeightedEdge.reader : Reader WeightedEdge := record "WeightedEdge" fun fs =>
  WeightedEdge.mk <$> fs.required "tail" nodeId
    <*> fs.required "head" nodeId
    <*> fs.required "weight" number

def WeightedEdge.write (e : WeightedEdge) : Datum := .object [
  ("tail", .ofNodeId e.tail), ("head", .ofNodeId e.head), ("weight", .number e.weight)]

def ShortestPath.reader : Reader ShortestPath := record "ShortestPathProblem" fun fs =>
  (fun _ => ShortestPath.mk) <$> fs.word "kind" Family.shortestPath.name
    <*> fs.required "nodes" (listOf nodeId)
    <*> fs.required "edges" (listOf WeightedEdge.reader)
    <*> fs.required "source" nodeId
    <*> fs.maybe "target" nodeId
    <*> fs.withDefault "directed" true bool

def ShortestPath.write (p : ShortestPath) : Datum := .object [
  kindField .shortestPath,
  ("nodes", .listOf .ofNodeId p.nodes),
  ("edges", .listOf WeightedEdge.write p.edges),
  ("source", .ofNodeId p.source),
  ("target", .optional .ofNodeId p.target),
  ("directed", .bool p.directed)]

/-! ### Maximum flow -/

def CapacityEdge.reader : Reader CapacityEdge := record "CapacityEdge" fun fs =>
  CapacityEdge.mk <$> fs.required "tail" nodeId
    <*> fs.required "head" nodeId
    <*> fs.required "capacity" int

def CapacityEdge.write (e : CapacityEdge) : Datum := .object [
  ("tail", .ofNodeId e.tail), ("head", .ofNodeId e.head), ("capacity", .int e.capacity)]

def MaxFlow.reader : Reader MaxFlow := record "MaxFlowProblem" fun fs =>
  (fun _ => MaxFlow.mk) <$> fs.word "kind" Family.maxFlow.name
    <*> fs.required "nodes" (listOf nodeId)
    <*> fs.required "edges" (listOf CapacityEdge.reader)
    <*> fs.required "source" nodeId
    <*> fs.required "sink" nodeId

def MaxFlow.write (p : MaxFlow) : Datum := .object [
  kindField .maxFlow,
  ("nodes", .listOf .ofNodeId p.nodes),
  ("edges", .listOf CapacityEdge.write p.edges),
  ("source", .ofNodeId p.source),
  ("sink", .ofNodeId p.sink)]

/-! ### Flow of least cost -/

/-- The capacity has to be stated, be it as null. -/
def CostEdge.reader : Reader CostEdge := record "CostEdge" fun fs =>
  CostEdge.mk <$> fs.required "tail" nodeId
    <*> fs.required "head" nodeId
    <*> fs.required "capacity" (optional int)
    <*> fs.withDefault "cost" 0 int

def CostEdge.write (e : CostEdge) : Datum := .object [
  ("tail", .ofNodeId e.tail), ("head", .ofNodeId e.head),
  ("capacity", .optional .int e.capacity), ("cost", .int e.cost)]

def NodeSupply.reader : Reader NodeSupply := record "NodeSupply" fun fs =>
  NodeSupply.mk <$> fs.required "node" nodeId <*> fs.required "supply" int

def NodeSupply.write (s : NodeSupply) : Datum := .object [
  ("node", .ofNodeId s.node), ("supply", .int s.supply)]

def MinCostFlow.reader : Reader MinCostFlow := record "MinCostFlowProblem" fun fs =>
  (fun _ => MinCostFlow.mk) <$> fs.word "kind" Family.minCostFlow.name
    <*> fs.required "nodes" (listOf nodeId)
    <*> fs.required "edges" (listOf CostEdge.reader)
    <*> fs.maybe "source" nodeId
    <*> fs.maybe "sink" nodeId
    <*> fs.maybe "flow_value" int
    <*> fs.maybe "supplies" (listOf NodeSupply.reader)

def MinCostFlow.write (p : MinCostFlow) : Datum := .object [
  kindField .minCostFlow,
  ("nodes", .listOf .ofNodeId p.nodes),
  ("edges", .listOf CostEdge.write p.edges),
  ("source", .optional .ofNodeId p.source),
  ("sink", .optional .ofNodeId p.sink),
  ("flow_value", .optional .int p.flowValue),
  ("supplies", .optional (.listOf NodeSupply.write) p.supplies)]

/-! ### Models for external solvers -/

def Constraint.reader : Reader Constraint := record "ConstraintProblem" fun fs =>
  (fun _ => Constraint.mk) <$> fs.word "kind" Family.constraint.name
    <*> fs.required "payload" (tableOf any)

def Constraint.write (p : Constraint) : Datum := .object [
  kindField .constraint, ("payload", .object p.payload)]

/-! ### Any problem -/

/-- A problem of the family that its tag names. -/
def reader : Reader Problem := tagged "kind" [
  (Family.assignment.name, fun form d => .assignment <$> Assignment.reader form d),
  (Family.knapsack.name, fun form d => .knapsack <$> Knapsack.reader form d),
  (Family.shortestPath.name, fun form d => .shortestPath <$> ShortestPath.reader form d),
  (Family.maxFlow.name, fun form d => .maxFlow <$> MaxFlow.reader form d),
  (Family.minCostFlow.name, fun form d => .minCostFlow <$> MinCostFlow.reader form d),
  (Family.constraint.name, fun form d => .constraint <$> Constraint.reader form d)]

/-- A problem as data. -/
def write : Problem → Datum
  | assignment p => p.write
  | knapsack p => p.write
  | shortestPath p => p.write
  | maxFlow p => p.write
  | minCostFlow p => p.write
  | constraint p => p.write

/-- A problem as JSON has it. What a model for an external solver holds is data of any shape. -/
def inJson : Problem → Except Fault Datum
  | constraint p => do
      let payload ← p.payload.mapM fun (key, d) => do return (key, ← d.inJson)
      return Constraint.write ⟨payload⟩
  | p => p.write.withTextKeys

/-- The name of the record that holds a problem. -/
def recordName : Problem → String
  | assignment _ => "AssignmentProblem"
  | knapsack _ => "KnapsackProblem"
  | shortestPath _ => "ShortestPathProblem"
  | maxFlow _ => "MaxFlowProblem"
  | minCostFlow _ => "MinCostFlowProblem"
  | constraint _ => "ConstraintProblem"

end Optima.Problem
