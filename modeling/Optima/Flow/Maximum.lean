import Optima.Flow.Network
import Optima.Lists
import Optima.Run

/-!
Maximum flow by push-relabel. The arcs that leave the source are saturated; then nodes with more
inflow than outflow are discharged first in, first out: their excess is pushed downhill by one level
of height, and a node that has no arc downhill is lifted. When a level between the sink and the
source runs empty, everything above it is lifted over the source (`closeGap`). From time to time all
heights are computed afresh from the residual network (`relabelAll`).

At the end the nodes that the source can still reach form one side of a cut, and the capacity of the
cut has to be the value of the flow. A run that is stopped leaves the network with all that was
pushed (`Interrupted`).
-/

namespace Optima.Flow.Maximum

open Optima.Graph

variable {n m : Nat}

/-- A maximum flow, the source's side of a cut, and how much work it was. -/
structure Outcome (n m : Nat) where
  flowValue : Int
  edgeFlows : List Int
  sourceSide : Table n Bool
  cutCapacity : Int
  discharges : Nat
  globalRelabels : Nat

/-- A run that was stopped, with the network it leaves behind. -/
structure Interrupted (n m : Nat) where
  network : Network n m
  failure : Failure

/-- The state of a run. -/
structure State (n m : Nat) where
  network : Network n m
  height : Table n Nat
  excess : Table n Int
  /-- The arcs of each node that were not looked at since it was lifted. -/
  pending : Table n (List (Arc m))
  /-- How many nodes there are at each height. -/
  population : Table (2 * n + 2) Nat
  queued : Table n Bool
  active : List (Fin n)
  /-- How many nodes were lifted since heights were last computed afresh. -/
  lifts : Nat

/-- What stays the same in a run: the ends, and the arcs that leave each node. -/
structure Setting (n m : Nat) where
  source : Fin n
  sink : Fin n
  leaving : Table n (List (Arc m))

/-! ### Heights -/

/-- Heights are below `2 * n + 2`. -/
def level (h : Nat) : Fin (2 * n + 2) := ⟨min h (2 * n + 1), by omega⟩

/-- Moves one node from a height to another in the count of nodes. -/
def migrate (population : Table (2 * n + 2) Nat) (old new : Nat) : Table (2 * n + 2) Nat :=
  let left := population.update (level old) (population.get (level old) - 1)
  left.update (level new) (left.get (level new) + 1)

/-- The heights that the residual network asks for: the distance to the sink; where there is none,
the distance to the source beyond `n`; and `2 * n` where there is no way at all. -/
def exactHeights (setting : Setting n m) (net : Network n m) : Table n Nat :=
  let behind (allowed : Fin n → Bool) (v : Fin n) : List (Fin n) :=
    ((setting.leaving.get v).filter fun a =>
      0 < net.residual a.reverse && allowed (net.head a)).map net.head
  let fromSink := if setting.source = setting.sink then Table.fill n none
    else levels (behind (· ≠ setting.source)) setting.sink
  let fromSource := levels (behind fun v => (fromSink.get v).isNone) setting.source
  Table.tabulate fun v => match fromSink.get v, fromSource.get v with
    | some d, _ => d
    | none, some d => n + d
    | none, none => 2 * n

/-- Computes all heights afresh. -/
def relabelAll (setting : Setting n m) (s : State n m) : State n m :=
  let height := exactHeights setting s.network
  { s with
    height := height
    pending := setting.leaving
    population := Table.tabulate fun h => height.values.count h.val
    lifts := 0 }

/-- Lifts every node that is above a height but below the source to just over the source. -/
def closeGap (setting : Setting n m) (gap : Nat) (s : State n m) : State n m :=
  (List.finRange n).foldl (fun s v =>
    let h := s.height.get v
    if gap < h ∧ h < n then
      { s with
        population := migrate s.population h (n + 1)
        height := s.height.update v (n + 1)
        pending := s.pending.update v (setting.leaving.get v) }
    else s) s

/-- The least height at the end of an arc that can still carry something. -/
def lowestNeighbour (setting : Setting n m) (s : State n m) (u : Fin n) : Nat :=
  ((setting.leaving.get u).filter fun a => 0 < s.network.residual a).foldl
    (fun lowest a => min lowest (s.height.get (s.network.head a))) (2 * n)

/-- Lifts a node to just above its lowest neighbour, and closes the gap that this may leave. -/
def lift (setting : Setting n m) (u : Fin n) (s : State n m) : State n m :=
  let old := s.height.get u
  let new := min (lowestNeighbour setting s u + 1) (2 * n)
  let s := { s with
    population := migrate s.population old new
    height := s.height.update u new
    pending := s.pending.update u (setting.leaving.get u)
    lifts := s.lifts + 1 }
  if s.population.get (level old) = 0 ∧ 0 < old ∧ old < n then closeGap setting old s else s

/-! ### Pushing -/

/-- Queues a node that has excess, unless it is an end or queued already. -/
def enqueue (setting : Setting n m) (v : Fin n) (s : State n m) : State n m :=
  if v ≠ setting.source ∧ v ≠ setting.sink ∧ !s.queued.get v ∧ 0 < s.excess.get v then
    { s with queued := s.queued.update v true, active := s.active ++ [v] }
  else s

/-- Sends an amount along an arc from one node's excess to another's. -/
def transfer (u : Fin n) (a : Arc m) (amount : Int) (s : State n m) : State n m :=
  let v := s.network.head a
  let excess := s.excess.update u (s.excess.get u - amount)
  { s with
    network := s.network.push a amount
    excess := excess.update v (excess.get v + amount) }

/-- One step with a node that has excess: its next arc is pushed along if it leads downhill by one
level and can carry something, and passed by if not; a node whose arcs were all passed by is
lifted. -/
def step (setting : Setting n m) (u : Fin n) (s : State n m) : State n m :=
  match s.pending.get u with
  | [] => lift setting u s
  | a :: rest =>
      let v := s.network.head a
      if 0 < s.network.residual a ∧ s.height.get u = s.height.get v + 1 then
        let amount := min (s.excess.get u) (s.network.residual a)
        enqueue setting v (transfer u a amount s)
      else { s with pending := s.pending.update u rest }

/-- Steps with a node until it has no excess left. Between two lifts every arc is pushed along and
passed by at most once, and no node is lifted above `2 * n`; this bounds the fuel. -/
def discharge (setting : Setting n m) (u : Fin n) : Nat → State n m → Except Failure (State n m)
  | fuel, s =>
    if s.excess.get u ≤ 0 then .ok s
    else match fuel with
      | 0 => .error .endless
      | fuel + 1 => discharge setting u fuel (step setting u s)

/-- Enough fuel to discharge a node. -/
def dischargeBound (setting : Setting n m) (u : Fin n) : Nat :=
  (2 * (setting.leaving.get u).length + 2) * (2 * n + 2) + 1

/-- Saturates the arcs that leave the source. -/
def saturate (setting : Setting n m) (s : State n m) : State n m :=
  (setting.leaving.get setting.source).foldl (fun s a =>
    let amount := s.network.residual a
    if 0 < amount then transfer setting.source a amount s else s) s

/-- The state in which the first node is discharged. -/
def start (setting : Setting n m) (net : Network n m) : State n m :=
  let blank : State n m := {
    network := net
    height := Table.fill n 0
    excess := Table.fill n 0
    pending := setting.leaving
    population := Table.fill _ 0
    queued := Table.fill n false
    active := []
    lifts := 0 }
  let s := relabelAll setting (saturate setting blank)
  (List.finRange n).foldl (fun s v => enqueue setting v s) s

/-! ### The run -/

/-- How many lifts make it worth computing all heights afresh. -/
def relabelThreshold (n : Nat) (frequency : Number) : Except Fault Nat := do
  let lifts ← Number.truncate (← Number.mul frequency (.int n))
  return max 1 lifts.toNat

/-- How many nodes are discharged at most. -/
def bound (n m : Nat) : Nat := 16 * ((n + 1) * (n + 1) * (n + 1)) * (m + 1)

/-- Discharges active nodes in turn; there is a checkpoint before each. -/
def work (setting : Setting n m) (threshold : Nat) :
    Nat → Nat → Nat → State n m → Run (Interrupted n m) (State n m × Nat × Nat)
  | fuel, discharges, relabels, s => match s.active, fuel with
    | [], _ => pure (s, discharges, relabels)
    | _, 0 => Run.fail ⟨s.network, .endless⟩
    | u :: rest, fuel + 1 =>
        .pause .tick (fun reason => ⟨s.network, .timeout reason⟩) fun _ =>
          let s' := { s with active := rest, queued := s.queued.update u false }
          match discharge setting u (dischargeBound setting u) s' with
          | .error failure => Run.fail ⟨s.network, failure⟩
          | .ok s' =>
              if threshold ≤ s'.lifts then
                work setting threshold fuel (discharges + 1) (relabels + 1)
                  (relabelAll setting s')
              else work setting threshold fuel (discharges + 1) relabels s'

/-- The total capacity of the edges that leave a set of nodes. -/
def cutCapacity (net : Network n m) (side : Table n Bool) : Int :=
  total ((net.edges.values.filter fun e => side.get e.tail && !side.get e.head).map (·.capacity))

/-- A node other than the ends that did not pass on all it got. -/
def leftover (setting : Setting n m) (s : State n m) : Option (Fin n) :=
  (List.finRange n).find? fun v =>
    v ≠ setting.source && v ≠ setting.sink && s.excess.get v ≠ 0

/-- A node did not pass on all it got. -/
def leftExcess (excess : Number) (node : Int) : Failure :=
  .worded .internalSolverError do
    return "push-relabel left excess " ++ (← excess.written) ++ " on node " ++ toString node

/-- The flow could still be raised. -/
def sinkReachable : Failure := .internal "sink still reachable in the residual graph"

/-- The cut does not prove the flow to be a greatest one. -/
def mismatch (value cut : Number) : Failure :=
  .worded .internalSolverError do
    return "max-flow/min-cut mismatch: flow " ++ (← value.written) ++ " vs cut " ++
      (← cut.written)

/-- The outcome of a run that came to its end, with all that has to hold of it checked. -/
def conclude (setting : Setting n m) (s : State n m) (discharges relabels : Nat) :
    Except Failure (Outcome n m) :=
  match leftover setting s with
  | some v => .error (leftExcess (.int (s.excess.get v)) v.val)
  | none =>
      let side := s.network.reachableFrom setting.source
      if side.get setting.sink then .error sinkReachable
      else
        let value := s.excess.get setting.sink
        let cut := cutCapacity s.network side
        if cut ≠ value then .error (mismatch (.int value) (.int cut))
        else .ok ⟨value, s.network.flow.values, side, cut, discharges, relabels⟩

/-- A maximum flow from the source to the sink, on top of the flow that is there. -/
def solve (net : Network n m) (source sink : Fin n) (frequency : Number) :
    Run (Interrupted n m) (Network n m × Outcome n m) := do
  let setting : Setting n m := ⟨source, sink, net.leaving⟩
  let s := start setting net
  let threshold ← Run.ofExcept
    ((relabelThreshold n frequency).mapError fun f => Interrupted.mk s.network (.fault f))
  let (s, discharges, relabels) ← work setting threshold (bound n m) 0 1 s
  let outcome ← Run.ofExcept
    ((conclude setting s discharges relabels).mapError (Interrupted.mk s.network))
  return (s.network, outcome)

end Optima.Flow.Maximum
