import Optima.Failure
import Optima.Knapsack
import Optima.Lists
import Optima.Problem.Basic
import Optima.Problem.Nodes

/-!
Soundness of problems. A problem is looked through in a fixed order, and the first thing wrong with
it is its defect (`Problem.defect?`); a problem without a defect is sound. The budget for the table
of a knapsack is the only bound that is not part of the problem.

Models for external solvers are not looked at here: they are read when they are passed on.
-/

namespace Optima

/-- What is wrong with a number that should be a cost or a length. -/
inductive Flaw where
  /-- An integer beyond the range of doubles. -/
  | outOfRange
  | notFinite
  | negative
  deriving DecidableEq, Repr

/-- The flaw of a number, if it has one. -/
def Number.flaw? (c : Number) : Option Flaw :=
  match c.toReal with
  | .error _ => some .outOfRange
  | .ok x =>
      if !x.isFinite then some .notFinite
      else if c.isNegative then some .negative
      else none

/-- What is wrong with a problem. -/
inductive Defect where
  | sizeMismatch (what : String) (expected got : Nat)
  | badCost (row column : Nat) (cost : Number) (flaw : Flaw)
  | negativeCapacity (capacity : Int)
  | negativeItem (index : Nat)
  /-- The values of all items add up to more than a cell of the table can hold. -/
  | valueOverflow
  | overBudget (capacity needed budget : Int)
  | repeatedNode (node : NodeId)
  | undeclaredNode (role : String) (node : NodeId)
  | undeclaredEnd (edge : Nat) (tail head : NodeId)
  | badLength (edge : Nat) (tail head : NodeId) (length : Number) (flaw : Flaw)
  | negativeEdge (edge : Nat) (capacity : Int)
  | sourceIsSink
  /-- Both supplies and a source, a sink or a flow value are given. -/
  | twoRequests
  /-- Neither supplies nor both a source and a sink are given. -/
  | noRequest
  | repeatedSupply (node : NodeId)
  | unbalanced (total : Int)
  | negativeFlow (value : Int)

namespace Defect

/-- An edge by its ends, as messages show it. -/
def between (tail head : NodeId) : Except Fault String := do
  return "(" ++ (← tail.shown) ++ " -> " ++ (← head.shown) ++ ")"

/-- The wording of a flaw of a number. -/
def flawMessage (cost : Number) : Flaw → Except Fault String
  | .outOfRange => .ok "out of range"
  | .notFinite => .ok "not finite"
  | .negative => do return "negative (" ++ (← cost.written) ++ ")"

/-- The wording of a flaw of an edge's length. -/
def lengthMessage (tail head : NodeId) (length : Number) : Flaw → Except Fault String
  | .outOfRange => .ok " weight is out of range"
  | .notFinite => .ok " has a non-finite weight"
  | .negative => do
      return " " ++ (← between tail head) ++ " has negative weight " ++ (← length.written)

/-- The wording of a defect. It cannot be worded where it names an integer that is too long, be that
a node. -/
def message : Defect → Except Fault String
  | sizeMismatch what expected got => .ok (mismatchMessage what expected got)
  | badCost i j cost flaw => do
      return "cost[" ++ toString i ++ "][" ++ toString j ++ "] is " ++ (← flawMessage cost flaw)
  | negativeCapacity capacity => do
      return "capacity must be non-negative (got " ++ (← written capacity) ++ ")"
  | negativeItem i => .ok ("item " ++ toString i ++ " has a negative weight or value")
  | valueOverflow => .ok "total item value overflows a 64-bit accumulator"
  | overBudget capacity needed budget => do
      return "capacity " ++ (← written capacity) ++ " needs a " ++ (← written needed) ++
        "-byte DP table, over the " ++ (← written budget) ++ "-byte budget"
  | repeatedNode node => do return Nodes.repeatedMessage (← node.shown)
  | undeclaredNode role node => do
      return role ++ " " ++ (← node.shown) ++ " is not a declared node"
  | undeclaredEnd k tail head => do
      return "edge " ++ toString k ++ " " ++ (← between tail head) ++
        " references an undeclared node"
  | badLength k tail head length flaw => do
      return "edge " ++ toString k ++ (← lengthMessage tail head length flaw)
  | negativeEdge k capacity => do
      return "edge " ++ toString k ++ " has negative capacity " ++ (← written capacity)
  | sourceIsSink => .ok "source and sink must differ"
  | twoRequests => .ok "give either supplies or source/sink, not both"
  | noRequest => .ok "min-cost flow needs source and sink, or supplies"
  | repeatedSupply node => do
      return "node " ++ (← node.shown) ++ " has more than one supply entry"
  | unbalanced total => do
      return "supplies must sum to zero (got " ++ (← written total) ++ ")"
  | negativeFlow value => do
      return "flow_value must be non-negative (got " ++ (← written value) ++ ")"

/-- A defect as a failure. -/
def failure (defect : Defect) : Failure := .worded .invalidInput defect.message

/-- The defect, unless what is expected holds. -/
def expect (ok : Prop) [Decidable ok] (defect : Defect) : Option Defect :=
  if ok then none else some defect

@[simp] theorem unless_eq_none_iff (ok : Prop) [Decidable ok] (defect : Defect) :
    expect ok defect = none ↔ ok := by
  simp [expect]

end Defect

namespace Problem

open Defect (expect)

/-! ### Assignment -/

/-- The defect of a row of costs. -/
def costRowDefect? (width i : Nat) (row : List Number) : Option Defect :=
  expect (row.length = width) (.sizeMismatch ("cost matrix row " ++ toString i) width row.length)
    <|> row.zipIdx.findSome? fun (c, j) => c.flaw?.map (.badCost i j c)

/-- The defect of labels that may be left out. -/
def labelsDefect? (what : String) (count : Nat) (labels : Option (List String)) :
    Option Defect := do
  let labels ← labels
  expect (labels.length = count) (.sizeMismatch what count labels.length)

def Assignment.defect? (p : Assignment) : Option Defect :=
  let agents := p.costs.length
  let tasks := (p.costs.head?.map List.length).getD 0
  (p.costs.zipIdx.findSome? fun (row, i) => costRowDefect? tasks i row)
    <|> labelsDefect? "agent_labels" agents p.agentLabels
    <|> labelsDefect? "task_labels" tasks p.taskLabels

/-! ### Knapsack -/

/-- The greatest value that a cell of the table can hold. -/
def greatestValue : Int := 9223372036854775807

def Knapsack.defect? (budget : Int) (p : Knapsack) : Option Defect :=
  let needed := Optima.Knapsack.tableBytes p.weights p.capacity
  expect (p.weights.length = p.values.length)
      (.sizeMismatch "knapsack values" p.weights.length p.values.length)
    <|> expect (0 ≤ p.capacity) (.negativeCapacity p.capacity)
    <|> (p.weights.zip p.values).zipIdx.findSome? (fun ((w, v), i) =>
      expect (0 ≤ w ∧ 0 ≤ v) (.negativeItem i))
    <|> expect (total p.values ≤ greatestValue) .valueOverflow
    <|> expect (needed ≤ budget) (.overBudget p.capacity needed budget)

/-! ### Graphs -/

/-- The defect of a list of nodes. -/
def nodesDefect? (nodes : List NodeId) : Option Defect :=
  (repeated? nodes).map .repeatedNode

/-- The defect of a node in a role. -/
def roleDefect? (nodes : List NodeId) (role : String) (node : NodeId) : Option Defect :=
  expect (node ∈ nodes) (.undeclaredNode role node)

/-- The defect of edges given by their ends. -/
def endsDefect? (nodes : List NodeId) (ends : List (NodeId × NodeId)) : Option Defect :=
  ends.zipIdx.findSome? fun ((tail, head), k) =>
    expect (tail ∈ nodes ∧ head ∈ nodes) (.undeclaredEnd k tail head)

/-- The defect of capacities that may be left out. -/
def capacitiesDefect? (capacities : List (Option Int)) : Option Defect :=
  capacities.zipIdx.findSome? fun (capacity, k) => do
    let capacity ← capacity
    expect (0 ≤ capacity) (.negativeEdge k capacity)

/-- The defect of a source and a sink. -/
def terminalsDefect? (nodes : List NodeId) (source sink : NodeId) : Option Defect :=
  roleDefect? nodes "source" source
    <|> roleDefect? nodes "sink" sink
    <|> expect (source ≠ sink) .sourceIsSink

def ShortestPath.defect? (p : ShortestPath) : Option Defect :=
  nodesDefect? p.nodes
    <|> roleDefect? p.nodes "source" p.source
    <|> p.target.bind (roleDefect? p.nodes "target")
    <|> endsDefect? p.nodes (p.edges.map fun e => (e.tail, e.head))
    <|> p.edges.zipIdx.findSome? fun (e, k) =>
      e.weight.flaw?.map (.badLength k e.tail e.head e.weight)

def MaxFlow.defect? (p : MaxFlow) : Option Defect :=
  nodesDefect? p.nodes
    <|> terminalsDefect? p.nodes p.source p.sink
    <|> endsDefect? p.nodes (p.edges.map fun e => (e.tail, e.head))
    <|> capacitiesDefect? (p.edges.map fun e => some e.capacity)

/-- The defect of supplies, with the nodes that were supplied before. -/
def suppliesDefect? (nodes seen : List NodeId) : List NodeSupply → Option Defect
  | [] => none
  | s :: rest =>
      roleDefect? nodes "supply node" s.node
        <|> expect (s.node ∉ seen) (.repeatedSupply s.node)
        <|> suppliesDefect? nodes (s.node :: seen) rest

/-- The defect of what is requested: supplies that balance, or an amount from a source to a sink. -/
def MinCostFlow.requestDefect? (p : MinCostFlow) : Option Defect :=
  match p.supplies with
  | some supplies =>
      let surplus := total (supplies.map (·.supply))
      expect (p.source = none ∧ p.sink = none ∧ p.flowValue = none) .twoRequests
        <|> suppliesDefect? p.nodes [] supplies
        <|> expect (surplus = 0) (.unbalanced surplus)
  | none => match p.source, p.sink with
    | some source, some sink =>
        terminalsDefect? p.nodes source sink
          <|> p.flowValue.bind fun value => expect (0 ≤ value) (.negativeFlow value)
    | _, _ => some .noRequest

def MinCostFlow.defect? (p : MinCostFlow) : Option Defect :=
  nodesDefect? p.nodes
    <|> endsDefect? p.nodes (p.edges.map fun e => (e.tail, e.head))
    <|> capacitiesDefect? (p.edges.map (·.capacity))
    <|> p.requestDefect?

/-! ### Any problem -/

/-- The first thing wrong with a problem, where the table of a knapsack may take as many bytes as
the budget allows. -/
def defect? (budget : Int) : Problem → Option Defect
  | assignment p => p.defect?
  | knapsack p => p.defect? budget
  | shortestPath p => p.defect?
  | maxFlow p => p.defect?
  | minCostFlow p => p.defect?
  | constraint _ => none

end Problem

end Optima
