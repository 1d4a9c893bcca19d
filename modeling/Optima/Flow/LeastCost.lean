import Optima.Flow.Network
import Optima.Graph.Search
import Optima.Lists

/-!
Flow of least cost by successive shortest paths. A link without a capacity gets one that no flow of
interest reaches (`ceiling`). Links of negative cost start saturated, so that no arc that can carry
something has a negative cost left; what this and the request ask of each node is its balance, and
a further source and sink (`hub`) supply the balances. Potentials keep reduced costs from becoming
negative, and every augmentation follows a shortest path in reduced costs.

If the flow is to be as large as possible, a second phase augments from the source itself to the
sink. Whether costs are bounded at all is decided by the links without capacity alone: they must not
contain a cycle of negative cost.
-/

namespace Optima.Flow.LeastCost

open Optima.Graph

/-- A link of a problem, possibly without a capacity. -/
structure Link (n : Nat) where
  tail : Fin n
  head : Fin n
  capacity : Option Int
  cost : Int

/-- What is to be routed. -/
inductive Demand (n : Nat) where
  /-- A given amount from a source to a sink. -/
  | amount (source sink : Fin n) (value : Int)
  /-- As much as possible from a source to a sink. -/
  | maximum (source sink : Fin n)
  /-- What each node supplies, or demands if negative. -/
  | supplies (supply : Table n Int)

/-- The flow on each link, its value and cost, and the number of augmentations. -/
structure Outcome where
  flowValue : Int
  totalCost : Int
  edgeFlows : List Int
  augmentations : Nat

variable {n m : Nat}

/-! ### Links without capacity -/

/-- The links without capacity. -/
def uncapacitated (links : List (Link n)) : List (Link n) := links.filter (·.capacity.isNone)

/-- Links without capacity lead from the source to the sink. -/
def unboundedPath (links : List (Link n)) (source sink : Fin n) : Bool :=
  let free := uncapacitated links
  (reachable (fun v => (free.filter (·.tail = v)).map (·.head)) source).get sink

/-- One link relaxed; the second part says whether any label changed. -/
def relaxLink (state : Table n Int × Bool) (link : Link n) : Table n Int × Bool :=
  let candidate := state.1.get link.tail + link.cost
  if candidate < state.1.get link.head then (state.1.update link.head candidate, true) else state

/-- Some label still changes in each of a number of rounds. -/
def neverQuiet (links : List (Link n)) : Nat → Table n Int → Bool
  | 0, _ => true
  | rounds + 1, labels =>
      let (labels, changed) := links.foldl relaxLink (labels, false)
      changed && neverQuiet links rounds labels

/-- The links without capacity contain a cycle of negative cost. -/
def negativeCycle (links : List (Link n)) : Bool :=
  let free := uncapacitated links
  !free.isEmpty && neverQuiet free n (Table.fill n 0)

/-! ### Augmenting -/

/-- The steps of a shortest-path search: arcs that can carry something, at reduced cost. -/
def reducedSteps (net : Network n m) (leaving : Table n (List (Arc m))) (potential : Table n Int)
    (u : Fin n) : List (Graph.Step n (Arc m) Int) :=
  ((leaving.get u).filter fun a => 0 < net.residual a).map fun a =>
    let v := net.head a
    ⟨v, a, net.cost a + potential.get u - potential.get v⟩

/-- No arc that can carry something may have a negative reduced cost. -/
def negativeReduced (arc : Nat) (reduced : Number) : Failure :=
  .worded .internalSolverError do
    return "negative reduced cost " ++ (← reduced.written) ++ " on arc " ++ toString arc

/-- The arcs of the path that a search found to a node, the last one first. -/
def pathArcs (parent : Table n (Option (Fin n × Arc m))) : Nat → Fin n → List (Arc m)
  | 0, _ => []
  | fuel + 1, v => match parent.get v with
      | none => []
      | some (u, a) => a :: pathArcs parent fuel u

/-- The state between augmentations. -/
structure State (n m : Nat) where
  network : Network n m
  potential : Table n Int
  shipped : Int
  augmentations : Nat

/-- Potentials after a search: nodes move by their distance, and by the furthest one where they
were not reached. -/
def movePotentials (potential : Table n Int) (distance : Table n (Option Int)) : Table n Int :=
  let furthest := (distance.values.filterMap id).foldl max 0
  Table.tabulate fun v => potential.get v + (distance.get v).getD furthest

/-- The most that a path can carry, and not more than is still asked for. -/
def bottleneck (net : Network n m) (wanted : Option Int) (path : List (Arc m)) : Int :=
  (path.foldl (fun least a => match least with
    | some x => some (min x (net.residual a))
    | none => some (net.residual a)) wanted).getD 0

/-- Augments along shortest paths from `s` to `t` until nothing more is asked for or there is no
path left; there is a checkpoint before each search. -/
def augmentFrom (leaving : Table n (List (Arc m))) (s t : Fin n) (limit : Option Int) :
    Nat → State n m → Run Failure (State n m)
  | fuel, st =>
    if limit.any (· ≤ st.shipped) then pure st
    else match fuel with
      | 0 => Run.fail .endless
      | fuel + 1 => do
          Run.check
          let found ← Graph.Search.run (reducedSteps st.network leaving st.potential)
            (fun a reduced => negativeReduced a.number (.int reduced)) (pure ()) s
          match found.distance.get t with
          | none => return st
          | some _ =>
              let path := pathArcs found.parent n t
              let amount := bottleneck st.network (limit.map (· - st.shipped)) path
              augmentFrom leaving s t limit fuel {
                network := path.foldl (fun net a => net.push a amount) st.network
                potential := movePotentials st.potential found.distance
                shipped := st.shipped + amount
                augmentations := st.augmentations + 1 }

/-- What the arcs that leave a node can still carry together. Every augmentation uses up some of it,
so there cannot be more augmentations than this. -/
def supplyOf (net : Network n m) (leaving : Table n (List (Arc m))) (s : Fin n) : Nat :=
  (leaving.get s).foldr (fun a others => (net.residual a).toNat + others) 0

/-- Augments from `s` to `t`: gives the network and potentials it ends with, what was shipped and in
how many augmentations. -/
def augment (net : Network n m) (potential : Table n Int) (s t : Fin n) (limit : Option Int) :
    Run Failure (State n m) :=
  let leaving := net.leaving
  augmentFrom leaving s t limit (supplyOf net leaving s + 1) ⟨net, potential, 0, 0⟩

/-! ### Setting up -/

/-- A capacity for the links that have none: more than all finite capacities and all that is asked
for together. -/
def ceiling (links : List (Link n)) (demand : Demand n) : Int :=
  let asked := match demand with
    | .amount _ _ value => value
    | .maximum .. => 0
    | .supplies supply => total (supply.values.filter (0 < ·))
  total (links.filterMap (·.capacity)) + asked + 1

/-- The capacity of a link, or the ceiling. -/
def Link.room (big : Int) (link : Link n) : Int := link.capacity.getD big

/-- The flow that a link starts with: all it can carry if that saves cost. -/
def Link.initial (big : Int) (link : Link n) : Int :=
  if link.cost < 0 ∧ 0 < link.room big then link.room big else 0

/-- What a request adds to the balance of a node. -/
def Demand.balance (demand : Demand n) (v : Fin n) : Int :=
  match demand with
  | .amount source sink value =>
      (if v = source then value else 0) - (if v = sink then value else 0)
  | .maximum .. => 0
  | .supplies supply => supply.get v

/-- What each node has to send on: what the initial flow brings it, less what it takes away, and
what is requested of it. -/
def balances (links : List (Link n)) (big : Int) (demand : Demand n) : Table n Int :=
  let start := links.foldl (fun (balance : Table n Int) link =>
    let amount := link.initial big
    let balance := balance.update link.head (balance.get link.head + amount)
    balance.update link.tail (balance.get link.tail - amount)) (Table.fill n 0)
  Table.tabulate fun v => start.get v + demand.balance v

/-- The additional source, and the additional sink. -/
def hub (n : Nat) : Fin (n + 2) := ⟨n, by omega⟩
def drain (n : Nat) : Fin (n + 2) := ⟨n + 1, by omega⟩

/-- A node among two more nodes. -/
def inner (v : Fin n) : Fin (n + 2) := ⟨v.val, by omega⟩

/-- The edges of the links, each with its initial flow. -/
def linkEdges (links : List (Link n)) (big : Int) : List (Edge (n + 2) × Int) :=
  links.map fun link =>
    (⟨inner link.tail, inner link.head, link.room big, link.cost⟩, link.initial big)

/-- The edges that supply the balances. -/
def balanceEdges (balance : Table n Int) : List (Edge (n + 2) × Int) :=
  (List.finRange n).filterMap fun v =>
    let b := balance.get v
    if 0 < b then some (⟨hub n, inner v, b, 0⟩, 0)
    else if b < 0 then some (⟨inner v, drain n, -b, 0⟩, 0)
    else none

/-- What all nodes together have to send on. -/
def required (balance : Table n Int) : Int := total (balance.values.filter (0 < ·))

/-- The value of a flow: what leaves the source less what enters it, or what is supplied. -/
def delivered (links : List (Link n)) (flows : List Int) (demand : Demand n) : Int :=
  match demand with
  | .supplies supply => total (supply.values.filter (0 < ·))
  | .amount source _ _ | .maximum source _ =>
      total ((links.zip flows).map fun (link, f) =>
        (if link.tail = source then f else 0) - (if link.head = source then f else 0))

/-- The flow that was asked for cannot be routed. -/
def flowNotRouted (value : Option Number) : Failure :=
  .worded .infeasible do
    let asked ← match value with
      | some value => value.written
      | none => .ok "None"
    return "requested flow of " ++ asked ++ " cannot be routed from source to sink"

/-- Not all supplies can be routed. -/
def supplyNotRouted (shipped needed : Number) : Failure :=
  .worded .infeasible do
    return "only " ++ (← shipped.written) ++ " of " ++ (← needed.written) ++
      " units of supply could be routed"

/-- Not everything that was asked for can be routed. -/
def notRouted (demand : Demand n) (shipped needed : Int) : Failure :=
  match demand with
  | .amount _ _ value => flowNotRouted (some (.int value))
  | .maximum .. => flowNotRouted none
  | .supplies _ => supplyNotRouted (.int shipped) (.int needed)

/-- A flow can be as large as one likes. -/
def unboundedFlow : Failure :=
  .unbounded "maximum flow is unbounded: an uncapacitated source-sink path exists"

/-- A flow can be as cheap as one likes. -/
def unboundedCost : Failure :=
  .unbounded "an uncapacitated negative-cost cycle makes the cost unbounded"

/-- The demand asks for as much as possible along links without capacity. -/
def limitless (links : List (Link n)) : Demand n → Bool
  | .maximum source sink => unboundedPath links source sink
  | _ => false

/-- A flow of least cost that meets a demand. -/
def solve (links : List (Link n)) (demand : Demand n) : Run Failure Outcome := do
  if limitless links demand then
    Run.fail unboundedFlow
  else
    let big := ceiling links demand
    let balance := balances links big demand
    let needed := required balance
    let net := Network.ofList (linkEdges links big ++ balanceEdges balance)
    let first ← augment net (Table.fill (n + 2) 0) (hub n) (drain n) (some needed)
    if first.shipped < needed then Run.fail (notRouted demand first.shipped needed)
    else
      let last ← match demand with
        | .maximum source sink =>
            augment first.network first.potential (inner source) (inner sink) none
        | _ => pure { first with augmentations := 0 }
      if negativeCycle links then
        Run.fail unboundedCost
      else
        let flows := last.network.flow.values.take links.length
        let cost := total ((links.zip flows).map fun (link, f) => f * link.cost)
        return ⟨delivered links flows demand, cost, flows,
          first.augmentations + last.augmentations⟩

end Optima.Flow.LeastCost
