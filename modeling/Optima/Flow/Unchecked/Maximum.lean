import Optima.Flow.Maximum
import Optima.Flow.Unchecked.Network

/-!
Push-relabel on networks that nobody has checked. A node counts as source or sink only under the
number by which the run was asked for; under another number of the same node it is discharged like
any other. Where a capacity is missing the run ends when it is asked for.

A checked network is left to `Optima.Flow.Maximum` (`solve`).
-/

namespace Optima.Flow.Unchecked

/-- A maximum flow, the source's side of a cut, and how much work it was. -/
structure MaximumOutcome where
  flowValue : Number
  edgeFlows : List Number
  sourceSide : List Bool
  cutCapacity : Number
  discharges : Nat
  globalRelabels : Nat

/-- A run that was stopped, with the network it leaves behind. -/
structure Interrupted where
  network : Network
  failure : Failure

/-- What stays the same in a run. -/
structure Ends where
  source : Int
  sink : Int

/-- The state of a run. -/
structure MaximumState where
  network : Network
  height : Array Nat
  excess : Array Number
  /-- The arcs of each node that were not looked at since it was lifted. -/
  pending : Array (List Int)
  /-- How many nodes there are at each height. -/
  population : Array Int
  queued : Array Bool
  active : List Int
  /-- How many nodes were lifted since heights were last computed afresh. -/
  lifts : Nat

namespace MaximumState

/-- A run on a network that has not begun. -/
def start (net : Network) : MaximumState where
  network := net
  height := Array.replicate net.nodes 0
  excess := Array.replicate net.nodes (.int 0)
  pending := net.leaving
  population := Array.replicate (2 * net.nodes + 2) 0
  queued := Array.replicate net.nodes false
  active := []
  lifts := 0

/-- How many nodes there are. -/
def nodes (s : MaximumState) : Nat := s.network.nodes

/-- The numbers of all nodes. -/
def numbers (s : MaximumState) : List Int := (List.range s.nodes).map Int.ofNat

/-- The arcs that leave a node. -/
def leaving (s : MaximumState) (v : Int) : Except Failure (List Int) :=
  Lookup.get s.network.leaving v

/-- The head of an arc. -/
def head (s : MaximumState) (arc : Int) : Except Failure Int := Lookup.get s.network.head arc

/-- The arc can still carry something. -/
def carries (s : MaximumState) (arc : Int) : Except Failure Bool := do
  isPositive (← Lookup.get s.network.residual arc)

/-- A node other than the ends that has excess waits to be discharged. -/
def enqueue (ends : Ends) (s : MaximumState) (v : Int) : Except Failure MaximumState := do
  if v = ends.source ∨ v = ends.sink then return s
  if ← Lookup.get s.queued v then return s
  if !(← Lookup.get s.excess v).isPositive then return s
  return { s with queued := ← Lookup.put s.queued v true, active := s.active ++ [v] }

/-- Sends an amount along an arc, from a node to its head. -/
def transfer (u arc : Int) (amount : Number) (s : MaximumState) :
    Except Failure MaximumState := do
  let network ← s.network.push arc amount
  let v ← s.head arc
  let left ← minus (← Lookup.get s.excess u) amount
  let excess ← Lookup.put s.excess u left
  let brought ← plus (← Lookup.get excess v) amount
  return { s with network := network, excess := ← Lookup.put excess v brought }

/-! ### Heights -/

/-- Gives the head of an arc against which something can be sent a height, unless it has one. -/
def labelEnd (s : MaximumState) (height : Nat) (found : Array Nat × List Int) (arc : Int) :
    Except Failure (Array Nat × List Int) := do
  let u ← s.head arc
  if (← Lookup.get found.1 u) ≠ 2 * s.nodes then return found
  if ← s.carries (partner arc) then
    return (← Lookup.put found.1 u (height + 1), found.2 ++ [u])
  return found

/-- Gives heights to nodes from a queue of nodes on. -/
def spreadHeights (s : MaximumState) :
    Nat → List Int → Array Nat → Except Failure (Array Nat)
  | 0, _, labels => .ok labels
  | _, [], labels => .ok labels
  | fuel + 1, v :: queue, labels => do
      let height ← Lookup.get labels v
      let (labels, fresh) ← (← s.leaving v).foldlM (s.labelEnd height) (labels, [])
      s.spreadHeights fuel (queue ++ fresh) labels

/-- Computes all heights afresh: distances to the sink, beyond the number of nodes distances to the
source, and twice that number elsewhere. -/
def relabelAll (ends : Ends) (s : MaximumState) : Except Failure MaximumState := do
  let blank := Array.replicate s.nodes (2 * s.nodes)
  let rooted ← Lookup.put (← Lookup.put blank ends.sink 0) ends.source s.nodes
  let labels ← s.spreadHeights (s.nodes + 1) [ends.sink] rooted
  let labels ← s.spreadHeights (s.nodes + 1) [ends.source] labels
  let population ← labels.toList.foldlM (fun counts (h : Nat) => Lookup.change counts h (· + 1))
    (Array.replicate (2 * s.nodes + 2) 0)
  return { s with
    height := labels, population := population, pending := s.network.leaving, lifts := 0 }

/-- Moves a node to another height. -/
def move (s : MaximumState) (v : Int) (height : Nat) : Except Failure MaximumState := do
  let old ← Lookup.get s.height v
  let population ← Lookup.change s.population old (· - 1)
  return { s with
    population := ← Lookup.change population height (· + 1)
    height := ← Lookup.put s.height v height
    pending := ← Lookup.put s.pending v (← s.leaving v) }

/-- Lifts a node just over the lowest node to which it can send something. If that leaves a height
without nodes, everything between it and the source is lifted over the source. -/
def lift (u : Int) (s : MaximumState) : Except Failure MaximumState := do
  let old ← Lookup.get s.height u
  let lowest ← (← s.leaving u).foldlM (fun (lowest : Nat) arc => do
    if ← s.carries arc then
      return min lowest (← Lookup.get s.height (← s.head arc))
    return lowest) (2 * s.nodes)
  let s ← move { s with lifts := s.lifts + 1 } u (min (lowest + 1) (2 * s.nodes))
  if (← Lookup.get s.population old) = 0 ∧ 0 < old ∧ old < s.nodes then
    s.numbers.foldlM (fun s w => do
      let h ← Lookup.get s.height w
      if old < h ∧ h < s.nodes then s.move w (s.nodes + 1) else return s) s
  else return s

/-! ### Discharging -/

/-- One step with a node that has excess: it is lifted, sends something along an arc, or passes over
the arc. -/
def step (ends : Ends) (u : Int) (s : MaximumState) : Except Failure MaximumState := do
  match ← Lookup.get s.pending u with
  | [] => s.lift u
  | arc :: rest =>
      let v ← s.head arc
      let downhill := decide ((← Lookup.get s.height u) = (← Lookup.get s.height v) + 1)
      match ← Lookup.get s.network.residual arc with
      | none => throw uncomparable
      | some room =>
          if room.isPositive && downhill then
            let excess ← Lookup.get s.excess u
            let s ← s.transfer u arc (if excess.less room then excess else room)
            s.enqueue ends v
          else return { s with pending := ← Lookup.put s.pending u rest }

/-- A step, or the network as it was left. -/
def attempt (s : MaximumState) {α : Type} (x : Except Failure α) : Except Interrupted α :=
  x.mapError (Interrupted.mk s.network)

/-- Steps with a node until it has no excess left. -/
def discharge (ends : Ends) (u : Int) : Nat → MaximumState → Except Interrupted MaximumState
  | fuel, s => do
    if !(← s.attempt (Lookup.get s.excess u)).isPositive then return s
    match fuel with
    | 0 => throw ⟨s.network, .endless⟩
    | fuel + 1 => discharge ends u fuel (← s.attempt (s.step ends u))

/-- Enough steps to discharge a node, if it can be discharged. -/
def dischargeBound (s : MaximumState) : Nat :=
  (2 * s.network.head.size + 2) * (2 * s.nodes + 2) + 1

/-- Saturates the arcs that leave the source. -/
def saturate (ends : Ends) (s : MaximumState) : Except Interrupted MaximumState := do
  (← s.attempt (s.leaving ends.source)).foldlM (fun s arc => do
    match ← s.attempt (Lookup.get s.network.residual arc) with
    | none => throw ⟨s.network, uncomparable⟩
    | some room =>
        if room.isPositive then s.attempt (s.transfer ends.source arc room) else return s) s

/-- How many nodes are discharged at most. It is the bound for integers (`Maximum.bound`): it counts
lifts, arcs that are emptied and nodes that are emptied, and a node or an arc from which all is sent
is empty whatever the numbers are. -/
def workBound (s : MaximumState) : Nat := Maximum.bound s.nodes s.network.edges

/-- Discharges active nodes in turn; there is a checkpoint before each. -/
def work (ends : Ends) (threshold : Nat) :
    Nat → Nat → Nat → MaximumState → Run Interrupted (MaximumState × Nat × Nat)
  | fuel, discharges, relabels, s => match s.active, fuel with
    | [], _ => pure (s, discharges, relabels)
    | _, 0 => Run.fail ⟨s.network, .endless⟩
    | u :: rest, fuel + 1 =>
        .pause .tick (fun reason => ⟨s.network, .timeout reason⟩) fun _ => do
          let queued ← Run.ofExcept (s.attempt (Lookup.put s.queued u false))
          let s := { s with active := rest, queued := queued }
          let s ← Run.ofExcept (s.discharge ends u s.dischargeBound)
          if threshold ≤ s.lifts then
            let s ← Run.ofExcept (s.attempt (s.relabelAll ends))
            work ends threshold fuel (discharges + 1) (relabels + 1) s
          else work ends threshold fuel (discharges + 1) relabels s

/-! ### The outcome -/

/-- The capacity that an edge adds to the cut around a set of nodes. -/
def cutShare (s : MaximumState) (side : Array Bool) (k : Nat) : Except Failure Number := do
  let arc : Int := 2 * k
  if (← Lookup.get side (← s.network.tail arc)) && !(← Lookup.get side (← s.head arc)) then
    return (← Lookup.get s.network.capacity arc).getD (.int 0)
  return .int 0

/-- The outcome of a run that came to its end, with all that has to hold of it checked. -/
def conclude (ends : Ends) (s : MaximumState) (discharges relabels : Nat) :
    Except Failure MaximumOutcome := do
  for v in s.numbers do
    if v ≠ ends.source ∧ v ≠ ends.sink then
      let excess ← Lookup.get s.excess v
      if !excess.same (.int 0) then throw (Maximum.leftExcess excess v)
  let side ← s.network.reachableFrom ends.source
  if ← Lookup.get side ends.sink then throw Maximum.sinkReachable
  let flows ← (List.range s.network.edges).mapM fun (k : Nat) => s.network.flow (2 * k)
  let cut ← sum (← (List.range s.network.edges).mapM (s.cutShare side))
  let value ← Lookup.get s.excess ends.sink
  if !cut.same value then throw (Maximum.mismatch value cut)
  return ⟨value, flows, side.toList, cut, discharges, relabels⟩

/-- A run from its beginning to its end. -/
def run (ends : Ends) (frequency : Number) (s : MaximumState) :
    Run Interrupted (Network × MaximumOutcome) := do
  let s ← Run.ofExcept (s.saturate ends)
  let s ← Run.ofExcept (s.attempt (do s.numbers.foldlM (enqueue ends) (← s.relabelAll ends)))
  let threshold ← Run.ofExcept
    (s.attempt (Failure.arith (Maximum.relabelThreshold s.nodes frequency)))
  let (s, discharges, relabels) ← work ends threshold s.workBound 0 1 s
  let outcome ← Run.ofExcept (s.attempt (s.conclude ends discharges relabels))
  return (s.network, outcome)

end MaximumState

/-- A maximum flow between two nodes, on top of the flow that is there. -/
def maximum (net : Network) (source sink : Int) (frequency : Number) :
    Run Interrupted (Network × MaximumOutcome) :=
  match net.checked?, Lookup.plain? net.nodes source, Lookup.plain? net.nodes sink with
  | some edges, some source, some sink => do
      let (checked, outcome) ← (Maximum.solve (Flow.Network.ofList edges) source sink
        frequency).mapError fun cut => ⟨net.withFlow cut.network, cut.failure⟩
      return (net.withFlow checked, ⟨.int outcome.flowValue, outcome.edgeFlows.map .int,
        outcome.sourceSide.values, .int outcome.cutCapacity, outcome.discharges,
        outcome.globalRelabels⟩)
  | _, _, _ => (MaximumState.start net).run ⟨source, sink⟩ frequency

end Optima.Flow.Unchecked
