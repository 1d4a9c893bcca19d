import Optima.Flow.Network
import Optima.Lookup

/-!
Networks that nobody has checked. Nodes and arcs are given by numbers, negative ones counted from
the end; each arc is listed with the node that its tail's number stood for when it was added, and
keeps the numbers it was given. Amounts and costs may be doubles. A capacity may be missing, and
then nothing can be asked about what the arc still carries.

Arcs come in pairs, each edge's forward arc first, as in `Optima.Flow.Network`; a network in which
every node is given by its index and every amount is an integer is such a network
(`Network.checked?`).
-/

namespace Optima.Flow.Unchecked

/-- A network as lists of arcs. -/
structure Network where
  /-- The arcs that leave each node. -/
  leaving : Array (List Int)
  head : Array Int
  residual : Array (Option Number)
  capacity : Array (Option Number)
  cost : Array Number

/-- The other direction of an arc. -/
def partner (arc : Int) : Int := if arc % 2 = 0 then arc + 1 else arc - 1

/-- Something is compared with a capacity that is missing. -/
def uncomparable : Failure :=
  .raised "TypeError" "'>' not supported between instances of 'NoneType' and 'int'"

/-- A flow is asked for where the capacity is missing. -/
def unsubtractable : Failure := .unsupportedOperands "-" "NoneType" "NoneType"

/-- An amount is more than zero. -/
def isPositive : Option Number → Except Failure Bool
  | some amount => .ok amount.isPositive
  | none => .error uncomparable

/-- A sum of amounts. -/
def plus (a b : Number) : Except Failure Number := Failure.arith (a.add b)

/-- A difference of amounts. -/
def minus (a b : Number) : Except Failure Number := Failure.arith (a.sub b)

/-- The sum of a list of amounts. -/
def sum (amounts : List Number) : Except Failure Number := Failure.arith (Number.sum amounts)

namespace Network

/-- A network without edges. -/
def empty (nodes : Nat) : Network := ⟨Array.replicate nodes [], #[], #[], #[], #[]⟩

def nodes (net : Network) : Nat := net.leaving.size

def edges (net : Network) : Nat := net.head.size / 2

/-- One more node, without edges. -/
def addNode (net : Network) : Network := { net with leaving := net.leaving.push [] }

/-- One more edge, without flow. -/
def addEdge (net : Network) (tail head : Int) (capacity : Option Number)
    (cost : Number) :
    Except Failure Network := do
  let forward : Int := net.head.size
  let leaving ← Lookup.change net.leaving tail (· ++ [forward])
  let leaving ← Lookup.change leaving head (· ++ [forward + 1])
  return {
    leaving := leaving
    head := (net.head.push head).push tail
    residual := (net.residual.push capacity).push (some (.int 0))
    capacity := (net.capacity.push capacity).push (some (.int 0))
    cost := (net.cost.push cost).push cost.neg }

/-- Sends an amount along an arc. -/
def push (net : Network) (arc : Int) (amount : Number) : Except Failure Network := do
  match ← Lookup.get net.residual arc, ← Lookup.get net.residual (partner arc) with
  | some here, some there =>
      let residual ← Lookup.put net.residual arc (some (← minus here amount))
      return { net with
        residual := ← Lookup.put residual (partner arc) (some (← plus there amount)) }
  | none, _ => throw (.unsupportedOperands "-=" "NoneType" "int")
  | some _, none => throw (.unsupportedOperands "+=" "NoneType" "int")

/-- The flow along an arc. -/
def flow (net : Network) (arc : Int) : Except Failure Number := do
  match ← Lookup.get net.capacity arc, ← Lookup.get net.residual arc with
  | some capacity, some residual => minus capacity residual
  | _, _ => throw unsubtractable

/-- The tail of an arc. -/
def tail (net : Network) (arc : Int) : Except Failure Int := Lookup.get net.head (partner arc)

/-- Labels the ends of the arcs that leave a node and can still carry something. -/
def reachFrom (net : Network) (found : Array Bool × List Int) (arc : Int) :
    Except Failure (Array Bool × List Int) := do
  let v ← Lookup.get net.head arc
  if ← isPositive (← Lookup.get net.residual arc) then
    if !(← Lookup.get found.1 v) then return (← Lookup.put found.1 v true, found.2 ++ [v])
  return found

/-- Goes on from the nodes of a queue. Each node enters the queue once. -/
def spread (net : Network) : Nat → List Int → Array Bool → Except Failure (Array Bool)
  | 0, _, seen => .ok seen
  | _, [], seen => .ok seen
  | fuel + 1, u :: queue, seen => do
      let (seen, fresh) ← (← Lookup.get net.leaving u).foldlM net.reachFrom (seen, [])
      spread net fuel (queue ++ fresh) seen

/-- The nodes that can be reached from a source along arcs that can still carry something. -/
def reachableFrom (net : Network) (source : Int) : Except Failure (Array Bool) := do
  let seen ← Lookup.put (Array.replicate net.nodes false) source true
  net.spread (net.nodes + 1) [source] seen

/-! ### Checked networks -/

/-- An edge with its flow, if nothing is wrong with it. -/
def edge? (net : Network) (k : Nat) : Option (Edge net.nodes × Int) := do
  let tail ← Lookup.plain? net.nodes (← net.head[2 * k + 1]?)
  let head ← Lookup.plain? net.nodes (← net.head[2 * k]?)
  let capacity ← (← ← net.capacity[2 * k]?).int?
  let residual ← (← ← net.residual[2 * k]?).int?
  return (⟨tail, head, capacity, ← (← net.cost[2 * k]?).int?⟩, capacity - residual)

/-- The edges with their flows, if nothing is wrong with the network. -/
def checked? (net : Network) : Option (List (Edge net.nodes × Int)) :=
  (List.range net.edges).mapM net.edge?

/-- The network with the flow of a checked one. -/
def withFlow {n m : Nat} (net : Network) (checked : Flow.Network n m) : Network :=
  { net with residual := ((Arc.all m).map fun a => some (.int (checked.residual a))).toArray }

end Network

end Optima.Flow.Unchecked
