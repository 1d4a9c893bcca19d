import Optima.Problem.Record
import Optima.Record.Reader
import Optima.Solution.Basic

/-!
How answers are read and written. What is indexed by nodes is written as a table, which keeps
integers and texts apart. The report on an exception is read like any other record
(`Raised.report`).
-/

namespace Optima

open Reader

namespace Result

open Problem (kindField)

/-! ### Assignment -/

def AssignedPair.reader : Reader AssignedPair := record "AssignedPair" fun fs =>
  AssignedPair.mk <$> fs.required "agent" int
    <*> fs.required "task" int
    <*> fs.required "cost" number
    <*> fs.maybe "agent_label" text
    <*> fs.maybe "task_label" text

def AssignedPair.write (p : AssignedPair) : Datum := .object [
  ("agent", .int p.agent), ("task", .int p.task), ("cost", .number p.cost),
  ("agent_label", .optional .text p.agentLabel), ("task_label", .optional .text p.taskLabel)]

def Assignment.reader : Reader Assignment := record "AssignmentResult" fun fs =>
  (fun _ => Assignment.mk) <$> fs.word "kind" Family.assignment.name
    <*> fs.required "pairs" (listOf AssignedPair.reader)

def Assignment.write (r : Assignment) : Datum := .object [
  kindField .assignment, ("pairs", .listOf AssignedPair.write r.pairs)]

/-! ### Knapsack -/

def Knapsack.reader : Reader Knapsack := record "KnapsackResult" fun fs =>
  (fun _ => Knapsack.mk) <$> fs.word "kind" Family.knapsack.name
    <*> fs.required "selected" (listOf int)
    <*> fs.required "total_weight" int
    <*> fs.required "total_value" int

def Knapsack.write (r : Knapsack) : Datum := .object [
  kindField .knapsack, ("selected", .listOf .int r.selected),
  ("total_weight", .int r.totalWeight), ("total_value", .int r.totalValue)]

/-! ### Shortest path -/

/-- A table by node; keys that arrive as texts name nodes by text. -/
def nodeTable {α : Type} (r : Reader α) : Reader (List (NodeId × α)) := fun form d =>
  (fun entries => entries.map fun (key, a) => (NodeId.text key, a)) <$> tableOf r form d

def ShortestPath.reader : Reader ShortestPath := record "ShortestPathResult" fun fs =>
  (fun _ => ShortestPath.mk) <$> fs.word "kind" Family.shortestPath.name
    <*> fs.required "distances" (nodeTable number)
    <*> fs.required "predecessors" (nodeTable nodeId)
    <*> fs.maybe "path" (listOf nodeId)
    <*> fs.maybe "target_distance" number

def ShortestPath.write (r : ShortestPath) : Datum := .object [
  kindField .shortestPath,
  ("distances", .table (r.distances.map fun (node, d) => (node, .number d))),
  ("predecessors", .table (r.predecessors.map fun (node, p) => (node, .ofNodeId p))),
  ("path", .optional (.listOf .ofNodeId) r.path),
  ("target_distance", .optional .number r.targetDistance)]

/-! ### Flows -/

def EdgeFlow.reader : Reader EdgeFlow := record "EdgeFlow" fun fs =>
  EdgeFlow.mk <$> fs.required "index" int
    <*> fs.required "tail" nodeId
    <*> fs.required "head" nodeId
    <*> fs.required "flow" int

def EdgeFlow.write (f : EdgeFlow) : Datum := .object [
  ("index", .int f.index), ("tail", .ofNodeId f.tail), ("head", .ofNodeId f.head),
  ("flow", .int f.flow)]

def MaxFlow.reader : Reader MaxFlow := record "MaxFlowResult" fun fs =>
  (fun _ => MaxFlow.mk) <$> fs.word "kind" Family.maxFlow.name
    <*> fs.required "flow_value" int
    <*> fs.required "edge_flows" (listOf EdgeFlow.reader)
    <*> fs.required "cut_source_side" (listOf nodeId)
    <*> fs.required "cut_capacity" int

def MaxFlow.write (r : MaxFlow) : Datum := .object [
  kindField .maxFlow, ("flow_value", .int r.flowValue),
  ("edge_flows", .listOf EdgeFlow.write r.edgeFlows),
  ("cut_source_side", .listOf .ofNodeId r.cutSourceSide),
  ("cut_capacity", .int r.cutCapacity)]

def MinCostFlow.reader : Reader MinCostFlow := record "MinCostFlowResult" fun fs =>
  (fun _ => MinCostFlow.mk) <$> fs.word "kind" Family.minCostFlow.name
    <*> fs.required "flow_value" int
    <*> fs.required "total_cost" int
    <*> fs.required "edge_flows" (listOf EdgeFlow.reader)

def MinCostFlow.write (r : MinCostFlow) : Datum := .object [
  kindField .minCostFlow, ("flow_value", .int r.flowValue), ("total_cost", .int r.totalCost),
  ("edge_flows", .listOf EdgeFlow.write r.edgeFlows)]

/-! ### External solvers -/

def Constraint.reader : Reader Constraint := record "ConstraintResult" fun fs =>
  (fun _ => Constraint.mk) <$> fs.word "kind" Family.constraint.name
    <*> fs.required "backend" text
    <*> fs.required "model_type" text
    <*> fs.withDefault "values" [] (tableOf real)
    <*> fs.maybe "routes" (listOf (listOf int))

def Constraint.write (r : Constraint) : Datum := .object [
  kindField .constraint, ("backend", .text r.backend), ("model_type", .text r.modelType),
  ("values", .object (r.values.map fun (name, x) => (name, .real x))),
  ("routes", .optional (.listOf (.listOf .int)) r.routes)]

/-! ### Any result -/

/-- A result of the family that its tag names. -/
def reader : Reader Result := tagged "kind" [
  (Family.assignment.name, fun form d => .assignment <$> Assignment.reader form d),
  (Family.knapsack.name, fun form d => .knapsack <$> Knapsack.reader form d),
  (Family.shortestPath.name, fun form d => .shortestPath <$> ShortestPath.reader form d),
  (Family.maxFlow.name, fun form d => .maxFlow <$> MaxFlow.reader form d),
  (Family.minCostFlow.name, fun form d => .minCostFlow <$> MinCostFlow.reader form d),
  (Family.constraint.name, fun form d => .constraint <$> Constraint.reader form d)]

/-- A result as data. -/
def write : Result → Datum
  | assignment r => r.write
  | knapsack r => r.write
  | shortestPath r => r.write
  | maxFlow r => r.write
  | minCostFlow r => r.write
  | constraint r => r.write

end Result

/-! ### Solutions -/

/-- A kind of failure by its name. -/
def ErrorKind.reader : Reader ErrorKind := among (ErrorKind.all.map fun kind => (kind.name, kind))

/-- A status by its name. -/
def Status.reader : Reader Status := among (Status.all.map fun status => (status.name, status))

def SolveError.reader : Reader SolveError := record "SolveError" fun fs =>
  SolveError.mk <$> fs.required "kind" ErrorKind.reader
    <*> fs.required "capability" text
    <*> fs.maybe "family" text
    <*> fs.required "message" text

def SolveError.write (e : SolveError) : Datum := .object [
  ("kind", .text e.kind.name), ("capability", .text e.capability),
  ("family", .optional .text e.family), ("message", .text e.message)]

/-- What a solver raised as an error, or what comes up when that is attempted. An exception with a
kind and a message of its own is asked for them in this order, and then they have to make up a
record. -/
def Raised.report (capability : String) (family : Option String) :
    Raised → Except Escape SolveError
  | .failure f => .ok ⟨f.kind, capability, family, f.message⟩
  | .wordless instead => .error instead
  | .interrupt escape => .error escape
  | .own label kind message => do
      match (← kind.word?).bind ErrorKind.ofName?, message with
      | none, _ => throw (.noKey kind.shown.toOption)
      | some _, none => throw (.lacking label "message")
      | some _, some message =>
          match SolveError.reader .values (.object [("kind", kind),
            ("capability", .text capability), ("family", .optional .text family),
            ("message", message)]) with
          | .ok e => return e
          | .failed issue rest => throw (.refused issue rest)

def SolveStats.reader : Reader SolveStats := record "SolveStats" fun fs =>
  SolveStats.mk <$> fs.withDefault "algorithm" "" text <*> fs.withDefault "iterations" 0 int

def SolveStats.write (s : SolveStats) : Datum := .object [
  ("algorithm", .text s.algorithm), ("iterations", .int s.iterations)]

def Solution.reader : Reader Solution := record "Solution" fun fs =>
  Solution.mk <$> fs.required "capability" text
    <*> fs.maybe "family" text
    <*> fs.required "status" Status.reader
    <*> fs.maybe "objective_value" real
    <*> fs.maybe "result" Result.reader
    <*> fs.maybe "error" SolveError.reader
    <*> fs.withDefault "stats" SolveStats.empty SolveStats.reader
    <*> fs.withDefault "message" "" text

def Solution.write (s : Solution) : Datum := .object [
  ("capability", .text s.capability),
  ("family", .optional .text s.family),
  ("status", .text s.status.name),
  ("objective_value", .optional .real s.objective),
  ("result", .optional Result.write s.result),
  ("error", .optional SolveError.write s.error),
  ("stats", s.stats.write),
  ("message", .text s.message)]

end Optima
