import Optima.Flow.LeastCost
import Optima.Flow.Unchecked.Network
import Optima.Graph.Heap

/-!
Flow of least cost between nodes that nobody has checked. Nodes are given by numbers, negative ones
counted from the end. What the end is changes: links and what is asked for are counted among the
nodes of the problem, but when paths are searched two more nodes have joined them, the further
source and sink. So a negative head leads elsewhere in a search than where the link was listed.
Amounts and costs may be doubles.

A problem in order is left to `Optima.Flow.LeastCost` (`leastCost`).
-/

namespace Optima.Flow.Unchecked

open Optima.Graph

/-- A link, possibly without a capacity. -/
structure Link where
  tail : Int
  head : Int
  capacity : Option Number
  cost : Number

/-- What is to be routed: supplies, or else a flow from a source to a sink, and as much as possible
if no value is given. -/
structure Order where
  source : Option Int
  sink : Option Int
  value : Option Number
  supplies : Option (List Number)

namespace Order

/-- As much as possible is asked for. -/
def isMaximum (order : Order) : Bool := order.supplies.isNone && order.value.isNone

/-- The units that are supplied. -/
def supplied (order : Order) : Except Failure Number :=
  sum ((order.supplies.getD []).filter Number.isPositive)

end Order

/-- A number that has to be given. -/
def required : Option Int → Except Failure Int
  | some k => .ok k
  | none => .error .noIndex

/-! ### Links without capacity -/

/-- The links without capacity. -/
def uncapacitated (links : List Link) : List Link := links.filter (·.capacity.isNone)

/-- The sink is found from a queue of nodes on. Each node enters the queue once. -/
def leadsTo (next : Array (List Int)) (sink : Option Int) :
    Nat → List Int → Array Bool → Except Failure Bool
  | 0, _, _ => .ok false
  | _, [], _ => .ok false
  | fuel + 1, u :: queue, seen => do
      if sink = some u then return true
      let (seen, fresh) ← (← Lookup.get next u).foldlM (fun (seen, fresh) v => do
        if ← Lookup.get seen v then return (seen, fresh)
        return (← Lookup.put seen v true, fresh ++ [v])) (seen, [])
      leadsTo next sink fuel (queue ++ fresh) seen

/-- Links without capacity lead from the source to the sink. -/
def unboundedPath (nodes : Nat) (links : List Link) (source sink : Option Int) :
    Except Failure Bool := do
  let next ← (uncapacitated links).foldlM (fun next link =>
    Lookup.change next link.tail (· ++ [link.head])) (Array.replicate nodes [])
  let source ← required source
  leadsTo next sink (nodes + 1) [source] (← Lookup.put (Array.replicate nodes false) source true)

/-- Some label still changes in each of a number of rounds. -/
def neverQuiet (links : List Link) : Nat → Array Number → Except Failure Bool
  | 0, _ => .ok true
  | rounds + 1, labels => do
      let (labels, changed) ← links.foldlM (fun (labels, changed) link => do
        let candidate ← plus (← Lookup.get labels link.tail) link.cost
        if candidate.less (← Lookup.get labels link.head) then
          return (← Lookup.put labels link.head candidate, true)
        return (labels, changed)) (labels, false)
      if changed then neverQuiet links rounds labels else return false

/-- The links without capacity contain a cycle of negative cost. -/
def negativeCycle (nodes : Nat) (links : List Link) : Except Failure Bool :=
  let free := uncapacitated links
  if free.isEmpty then .ok false else neverQuiet free nodes (Array.replicate nodes (.int 0))

/-! ### Augmenting -/

/-- The labels of a search for a path. -/
structure Labels where
  distance : Array (Option Number)
  /-- The arc by which a node was reached, and `-1` where there is none. -/
  parent : Array Int
  done : Array Bool
  frontier : Array Heap.Entry

/-- The state between augmentations. -/
structure Shipment where
  network : Network
  potential : Array Number
  shipped : Number
  augmentations : Nat

namespace Shipment

/-- Relaxes an arc from a node at a distance, if it can carry something. -/
def relax (st : Shipment) (u : Int) (d : Number) (labels : Labels) (arc : Int) :
    Except Failure Labels := do
  if !(← isPositive (← Lookup.get st.network.residual arc)) then return labels
  let v ← Lookup.get st.network.head arc
  let raised ← plus (← Lookup.get st.network.cost arc) (← Lookup.get st.potential u)
  let reduced ← minus raised (← Lookup.get st.potential v)
  if reduced.isNegative then throw (LeastCost.negativeReduced arc.toNat reduced)
  let candidate ← plus d reduced
  if (← Lookup.get labels.distance v).all candidate.less then
    return { labels with
      distance := ← Lookup.put labels.distance v (some candidate)
      parent := ← Lookup.put labels.parent v arc
      frontier := Heap.add labels.frontier (candidate, v) }
  return labels

/-- Empties the frontier. Each arc puts at most one node into it. -/
def explore (st : Shipment) : Nat → Labels → Except Failure Labels
  | fuel, labels => match Heap.take? labels.frontier, fuel with
    | none, _ => .ok labels
    | _, 0 => .error .endless
    | some ((d, u), others), fuel + 1 => do
        let labels := { labels with frontier := others }
        if ← Lookup.get labels.done u then st.explore fuel labels
        else
          let labels := { labels with done := ← Lookup.put labels.done u true }
          st.explore fuel (← (← Lookup.get st.network.leaving u).foldlM
            (st.relax u d) labels)

/-- Searches for shortest paths in reduced costs. -/
def search (st : Shipment) (s : Int) : Except Failure Labels := do
  let n := st.network.nodes
  st.explore (st.network.head.size + 1) {
    distance := ← Lookup.put (Array.replicate n none) s (some (.int 0))
    parent := Array.replicate n (-1)
    done := Array.replicate n false
    frontier := #[(.int 0, s)] }

/-- The arcs of the path that a search found to a node, the last one first. -/
def pathArcs (st : Shipment) (labels : Labels) (s : Int) :
    Nat → Int → Except Failure (List Int)
  | 0, _ => .error .endless
  | fuel + 1, v => do
      if v = s then return []
      let arc ← Lookup.get labels.parent v
      return arc :: (← st.pathArcs labels s fuel (← st.network.tail arc))

/-- Potentials after a search. -/
def movePotentials (st : Shipment) (labels : Labels) : Except Failure (Array Number) := do
  let furthest := (Number.greatest? (labels.distance.toList.filterMap id)).getD (.int 0)
  let moved ← (st.potential.toList.zip labels.distance.toList).mapM fun (p, d) =>
    plus p (d.getD furthest)
  return moved.toArray

/-- Augments along a path. -/
def augmentAlong (st : Shipment) (labels : Labels) (s t : Int) (wanted : Option Number) :
    Except Failure Shipment := do
  let potential ← st.movePotentials labels
  let path ← st.pathArcs labels s (st.network.nodes + st.network.head.size + 1) t
  let rooms ← path.mapM (Lookup.get st.network.residual)
  let amount := (Number.least? (wanted.toList ++ rooms.filterMap id)).getD (.int 0)
  let network ← path.foldlM (fun net arc => net.push arc amount) st.network
  return ⟨network, potential, ← plus st.shipped amount, st.augmentations + 1⟩

/-- Augments until nothing more is asked for or there is no path left; there is a checkpoint before
each search. -/
def augment (s : Int) (t : Option Int) (limit : Option Number) :
    Nat → Shipment → Run Failure Shipment
  | fuel, st =>
    if limit.any (!st.shipped.less ·) then pure st
    else match fuel with
      | 0 => Run.fail .endless
      | fuel + 1 => do
          Run.check
          let labels ← Run.ofExcept (st.search s)
          let t' ← Run.ofExcept (required t)
          match ← Run.ofExcept (Lookup.get labels.distance t') with
          | none => return st
          | some _ =>
              augment s t limit fuel (← Run.ofExcept do
                let wanted ← limit.mapM (minus · st.shipped)
                st.augmentAlong labels s t' wanted)

end Shipment

/-! ### Setting up -/

/-- The balances with one of them changed. -/
def shift (balance : Array Number) (v : Int) (amount : Number) : Except Failure (Array Number) := do
  Lookup.put balance v (← plus (← Lookup.get balance v) amount)

/-- Adds a link, saturated if that saves cost, and notes what this brings to its ends. -/
def addLink (big : Number) (found : Network × Array Number) (link : Link) :
    Except Failure (Network × Array Number) := do
  let arc : Int := found.1.head.size
  let room := link.capacity.getD big
  let net ← found.1.addEdge link.tail link.head (some room) link.cost
  if link.cost.isNegative ∧ room.isPositive then
    let net ← net.push arc room
    return (net, ← shift (← shift found.2 link.head room) link.tail room.neg)
  return (net, found.2)

/-- Adds what is asked for to the balances. -/
def addOrder (order : Order) (balance : Array Number) : Except Failure (Array Number) := do
  match order.supplies, order.value with
  | some supplies, _ => supplies.zipIdx.foldlM (fun balance (s, v) => shift balance v s) balance
  | none, some value =>
      let balance ← shift balance (← required order.source) value
      shift balance (← required order.sink) value.neg
  | none, none => return balance

/-- Adds the edges that supply the balances from the further source, and drain them to the further
sink. -/
def addBalances (nodes : Nat) (net : Network) (balance : Array Number) :
    Except Failure Network :=
  balance.toList.zipIdx.foldlM (fun net (b, v) =>
    if b.isPositive then net.addEdge nodes v (some b) (.int 0)
    else if b.isNegative then net.addEdge v (nodes + 1) (some b.neg) (.int 0)
    else .ok net) net.addNode.addNode

/-- The value of a flow on links: what leaves the source less what enters it. -/
def delivered (links : List Link) (flows : List Number) (source : Option Int) :
    Except Failure Number :=
  (links.zip flows).foldlM (fun value (link, f) => do
    let value ← if some link.tail = source then plus value f else pure value
    if some link.head = source then minus value f else return value) (.int 0)

/-- Everything that comes before the first search: the network, and what has to be shipped. -/
def prepare (nodes : Nat) (links : List Link) (order : Order) :
    Except Failure (Network × Number) := do
  if order.isMaximum then
    if ← unboundedPath nodes links order.source order.sink then throw LeastCost.unboundedFlow
  let finite ← sum (links.filterMap (·.capacity))
  let value := (order.value.filter (!·.same (.int 0))).getD (.int 0)
  let big ← plus (← plus finite (← plus value (← order.supplied))) (.int 1)
  let (net, balance) ← links.foldlM (addLink big)
    (Network.empty nodes, Array.replicate nodes (.int 0))
  let balance ← addOrder order balance
  return (← addBalances nodes net balance, ← sum (balance.toList.filter Number.isPositive))

/-- The flow on each link, its value and cost, and the number of augmentations. -/
structure LeastCostOutcome where
  flowValue : Number
  totalCost : Number
  edgeFlows : List Number
  augmentations : Nat

/-- The outcome that a final network has. -/
def conclude (nodes : Nat) (links : List Link) (order : Order) (net : Network)
    (augmentations : Nat) : Except Failure LeastCostOutcome := do
  if ← negativeCycle nodes links then throw LeastCost.unboundedCost
  let flows ← (List.range links.length).mapM fun (k : Nat) => net.flow (2 * k)
  let costs ← (links.zip flows).mapM fun (link, f) => Failure.arith (f.mul link.cost)
  let cost ← sum costs
  let value ← if order.supplies.isSome then order.supplied
    else delivered links flows order.source
  return ⟨value, cost, flows, augmentations⟩

/-- A search for a flow from its beginning to its end. Rounding can keep a path from taking anything
away from what is left to be shipped, so it is for the caller to say after how many augmentations
the search is given up as endless. -/
def run (patience nodes : Nat) (links : List Link) (order : Order) :
    Run Failure LeastCostOutcome := do
  let (net, needed) ← Run.ofExcept (prepare nodes links order)
  let first ← Shipment.augment nodes (some (nodes + 1)) (some needed) patience
    ⟨net, Array.replicate (nodes + 2) (.int 0), .int 0, 0⟩
  if first.shipped.less needed then
    Run.fail (if order.supplies.isSome then LeastCost.supplyNotRouted first.shipped needed
      else LeastCost.flowNotRouted order.value)
  else
    let last ← if order.isMaximum then do
        let source ← Run.ofExcept (required order.source)
        Shipment.augment source order.sink none patience { first with shipped := .int 0 }
      else pure first
    Run.ofExcept (conclude nodes links order last.network last.augmentations)

/-! ### Problems in order -/

/-- A link between nodes of the problem. -/
def Link.checked? (nodes : Nat) (link : Link) : Option (LeastCost.Link nodes) :=
  return ⟨← Lookup.plain? nodes link.tail, ← Lookup.plain? nodes link.head,
    ← link.capacity.mapM Number.int?, ← link.cost.int?⟩

/-- An order that names nodes of the problem, and nothing superfluous. -/
def Order.checked? (nodes : Nat) (order : Order) : Option (LeastCost.Demand nodes) :=
  match order.supplies with
  | some supplies => do
      let supplies ← supplies.mapM Number.int?
      if supplies.length ≤ nodes ∧ order.value.isNone then
        return .supplies (Table.tabulate fun v => supplies[v.val]?.getD 0)
      else none
  | none => do
      let source ← Lookup.plain? nodes (← order.source)
      let sink ← Lookup.plain? nodes (← order.sink)
      match order.value with
      | some value => return .amount source sink (← value.int?)
      | none => return .maximum source sink

/-- A flow of least cost. Only links or orders that are not in order may try the caller's
patience. -/
def leastCost (patience nodes : Nat) (links : List Link) (order : Order) :
    Run Failure LeastCostOutcome :=
  match links.mapM (Link.checked? nodes), order.checked? nodes with
  | some links, some demand => do
      let outcome ← LeastCost.solve links demand
      return ⟨.int outcome.flowValue, .int outcome.totalCost, outcome.edgeFlows.map .int,
        outcome.augmentations⟩
  | _, _ => run patience nodes links order

end Optima.Flow.Unchecked
