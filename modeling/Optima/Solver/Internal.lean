import Optima.Assignment.Basic
import Optima.Flow.LeastCost
import Optima.Flow.Unchecked.Maximum
import Optima.Graph.ShortestPath
import Optima.Knapsack
import Optima.Problem.Nodes
import Optima.Solver.Basic

/-!
The families that are solved here. Each problem is put into the terms of its algorithm, nodes by
their positions, and the outcome is put back into the terms of the problem. The objective is the
total cost, value, flow or distance as a double.
-/

namespace Optima.Solver

/-! ### Assignment -/

/-- A label, where there are labels. -/
def label? (labels : Option (List String)) (i : Nat) : Option String := labels.bind (·[i]?)

/-- A cost of a problem. -/
def costAt (p : Problem.Assignment) (i j : Nat) : Number :=
  (p.costs[i]?.bind (·[j]?)).getD (.int 0)

def solveAssignment (auctionThreshold : Number) (tolerance : Number) (p : Problem.Assignment) :
    Run Failure Finding := do
  let outcome ← Assignment.solve p.costs auctionThreshold tolerance
  let pairs := outcome.pairs.map fun (i, j) =>
    Result.AssignedPair.mk i j (costAt p i j) (label? p.agentLabels i) (label? p.taskLabels j)
  let objective ← Run.arith outcome.totalCost.toReal
  return ⟨.assignment ⟨pairs⟩, objective, ⟨outcome.algorithm.name, outcome.iterations⟩, ""⟩

/-! ### Knapsack -/

def solveKnapsack (p : Problem.Knapsack) : Run Failure Finding := do
  let outcome ← Knapsack.solve p.weights p.values p.capacity
  let objective ← Run.arith (Number.int outcome.totalValue).toReal
  return ⟨.knapsack ⟨outcome.selected.map Int.ofNat, outcome.totalWeight, outcome.totalValue⟩,
    objective, ⟨"dynamic_programming", outcome.cells⟩, ""⟩

/-! ### Nodes by their positions -/

/-- The position of a node that a problem refers to. -/
def position (nodes : List NodeId) (node : NodeId) : Run Failure (Fin nodes.length) :=
  match Nodes.position? nodes node with
  | some i => pure i
  | none => Run.fail (.worded .internalSolverError do
      return "undeclared node " ++ (← node.shown))

/-- The name of the node at a position. -/
def nameOf (nodes : List NodeId) (i : Fin nodes.length) : NodeId := nodes[i]

/-- A table by node, without the nodes that have no value, in the order of the nodes. -/
def byNode {α β : Type} (nodes : List NodeId) (t : Table nodes.length (Option α))
    (write : α → β) : List (NodeId × β) :=
  (List.finRange nodes.length).filterMap fun i =>
    (t.get i).map fun a => (nameOf nodes i, write a)

/-- The flows on the edges of a problem, given by their ends. -/
def edgeFlows (ends : List (NodeId × NodeId)) (flows : List Int) : List Result.EdgeFlow :=
  (ends.zip flows).zipIdx.map fun (((tail, head), flow), k) => ⟨k, tail, head, flow⟩

/-! ### Shortest path -/

/-- An edge between positions. -/
structure PlacedEdge (n : Nat) where
  tail : Fin n
  head : Fin n
  weight : Number

/-- The edges that leave each node, in their order; those of an undirected graph leave both ends. -/
def adjacency {n : Nat} (edges : List (PlacedEdge n)) (directed : Bool) :
    Graph.ShortestPath.Adjacency n Number :=
  Table.tabulate fun x => edges.flatMap fun e =>
    (if e.tail = x then [(e.head, e.weight)] else []) ++
    (if !directed ∧ e.head = x then [(e.tail, e.weight)] else [])

/-- A target that was not reached. -/
def unreachable (target source : NodeId) : Failure :=
  .worded .infeasible do
    return "target " ++ (← target.shown) ++ " is unreachable from " ++ (← source.shown)

/-- The path to a target with its length. A target that was not reached is a failure. -/
def route (p : Problem.ShortestPath) (tree : Graph.ShortestPath.Tree p.nodes.length)
    (target : NodeId) : Run Failure (List NodeId × Number) := do
  let t ← position p.nodes target
  match ← Run.ofExcept (tree.pathTo t), tree.distance.get t with
  | some path, some distance => return (path.map (nameOf p.nodes), distance)
  | _, _ => Run.fail (unreachable target p.source)

/-- Without a target the objective is the greatest distance. -/
def solveShortestPath (p : Problem.ShortestPath) : Run Failure Finding := do
  let edges ← p.edges.mapM fun e => do
    return PlacedEdge.mk (← position p.nodes e.tail) (← position p.nodes e.head) e.weight
  let source ← position p.nodes p.source
  let tree ← Graph.ShortestPath.tree (adjacency edges p.directed) source
  let distances := byNode p.nodes tree.distance id
  let predecessors := byNode p.nodes tree.predecessor (nameOf p.nodes)
  let found ← match p.target with
    | some target => some <$> route p tree target
    | none => pure none
  let longest := (Number.greatest? (distances.map (·.2))).getD (.int 0)
  let objective ← Run.arith ((found.map (·.2)).getD longest).toReal
  return ⟨.shortestPath ⟨distances, predecessors, found.map (·.1), found.map (·.2)⟩, objective,
    ⟨"dijkstra", tree.settled⟩, ""⟩

/-! ### Flows -/

def solveMaxFlow (relabelFrequency : Number) (p : Problem.MaxFlow) : Run Failure Finding := do
  let edges ← p.edges.mapM fun e => do
    return (Flow.Edge.mk (← position p.nodes e.tail) (← position p.nodes e.head) e.capacity 0, 0)
  let source ← position p.nodes p.source
  let sink ← position p.nodes p.sink
  let (_, outcome) ← (Flow.Maximum.solve (Flow.Network.ofList edges) source sink
    relabelFrequency).mapError (·.failure)
  let flows := edgeFlows (p.edges.map fun e => (e.tail, e.head)) outcome.edgeFlows
  let side := ((List.finRange p.nodes.length).filter outcome.sourceSide.get).map (nameOf p.nodes)
  let objective ← Run.arith (Number.int outcome.flowValue).toReal
  return ⟨.maxFlow ⟨outcome.flowValue, flows, side, outcome.cutCapacity⟩, objective,
    ⟨"push_relabel", outcome.discharges⟩, ""⟩

/-- What a problem asks to be routed. -/
def demand (p : Problem.MinCostFlow) : Run Failure (Flow.LeastCost.Demand p.nodes.length) :=
  match p.supplies, p.source, p.sink with
  | some supplies, _, _ => do
      let table ← supplies.foldlM (fun (t : Table p.nodes.length Int) s => do
        return t.update (← position p.nodes s.node) s.supply) (Table.fill _ 0)
      return .supplies table
  | none, some source, some sink => do
      let source ← position p.nodes source
      let sink ← position p.nodes sink
      return match p.flowValue with
        | some value => .amount source sink value
        | none => .maximum source sink
  | none, _, _ => Run.fail (.internal "nothing is asked to be routed")

def solveMinCostFlow (p : Problem.MinCostFlow) : Run Failure Finding := do
  let links ← p.edges.mapM fun e => do
    return Flow.LeastCost.Link.mk (← position p.nodes e.tail) (← position p.nodes e.head)
      e.capacity e.cost
  let outcome ← Flow.LeastCost.solve links (← demand p)
  let flows := edgeFlows (p.edges.map fun e => (e.tail, e.head)) outcome.edgeFlows
  let objective ← Run.arith (Number.int outcome.totalCost).toReal
  return ⟨.minCostFlow ⟨outcome.flowValue, outcome.totalCost, flows⟩, objective,
    ⟨"successive_shortest_paths", outcome.augmentations⟩, ""⟩

/-! ### Problems of other families -/

/-- A search for shortest paths on a problem that has neither lengths nor a target. It ends at the
first edge, if there is one, and otherwise when the target is looked up. -/
def searchWithoutLengths (record edge : String) (nodes : List NodeId) (edges : Nat)
    (source : Option NodeId) : Run Failure Finding :=
  if 0 < edges then Run.fail (.lacking edge "weight")
  else match source with
    | none => Run.fail .noNode
    | some source => do
        let _ ← Graph.ShortestPath.tree (adjacency [] true) (← position nodes source)
        Run.fail (.lacking record "target")

/-- The capacities of a problem that has costs too. Where an edge has none, the maximum flow cannot
be found. -/
def maxFlowOfCostly (relabelFrequency : Number) (p : Problem.MinCostFlow) :
    Run Failure Finding :=
  match p.source, p.sink with
  | some source, some sink =>
      match p.edges.mapM fun e => e.capacity.map (Problem.CapacityEdge.mk e.tail e.head) with
      | some edges => solveMaxFlow relabelFrequency ⟨p.nodes, edges, source, sink⟩
      | none => do
          let net ← p.edges.foldlM (fun (net : Flow.Unchecked.Network) e => do
            let tail ← position p.nodes e.tail
            let head ← position p.nodes e.head
            Run.ofExcept (net.addEdge tail.val head.val (e.capacity.map .int) (.int 0)))
            (Flow.Unchecked.Network.empty p.nodes.length)
          let source ← position p.nodes source
          let sink ← position p.nodes sink
          let _ ← (Flow.Unchecked.maximum net source.val sink.val relabelFrequency).mapError
            (·.failure)
          Run.fail Flow.Unchecked.unsubtractable
  | _, _ => Run.fail .noNode

/-! ### The solvers -/

def assignment (auctionThreshold : Number) (tolerance : Number) : Solver :=
  internal "AssignmentProvider" .assignment fun
    | .assignment p => solveAssignment auctionThreshold tolerance p
    | p => Run.fail (.lacking p.recordName "costs")

def knapsack : Solver :=
  internal "KnapsackProvider" .knapsack fun
    | .knapsack p => solveKnapsack p
    | p => Run.fail (.lacking p.recordName "weights")

def shortestPath : Solver :=
  internal "ShortestPathProvider" .shortestPath fun
    | .shortestPath p => solveShortestPath p
    | .maxFlow p =>
        searchWithoutLengths "MaxFlowProblem" "CapacityEdge" p.nodes p.edges.length p.source
    | .minCostFlow p =>
        searchWithoutLengths "MinCostFlowProblem" "CostEdge" p.nodes p.edges.length p.source
    | p => Run.fail (.lacking p.recordName "nodes")

def maxFlow (relabelFrequency : Number) : Solver :=
  internal "MaxFlowProvider" .maxFlow fun
    | .maxFlow p => solveMaxFlow relabelFrequency p
    | .shortestPath p => Run.fail <|
        if p.edges.isEmpty then .lacking "ShortestPathProblem" "sink"
        else .lacking "WeightedEdge" "capacity"
    | .minCostFlow p => maxFlowOfCostly relabelFrequency p
    | p => Run.fail (.lacking p.recordName "nodes")

def minCostFlow : Solver :=
  internal "MinCostFlowProvider" .minCostFlow fun
    | .minCostFlow p => solveMinCostFlow p
    | .shortestPath p => Run.fail <|
        if p.edges.isEmpty then .lacking "ShortestPathProblem" "supplies"
        else .lacking "WeightedEdge" "capacity"
    | .maxFlow p => Run.fail <|
        if p.edges.isEmpty then .lacking "MaxFlowProblem" "supplies"
        else .lacking "CapacityEdge" "cost"
    | p => Run.fail (.lacking p.recordName "nodes")

end Optima.Solver
