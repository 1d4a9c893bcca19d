import Optima.Graph.Levels

/-!
Flow networks. Every edge carries a flow, and can be travelled in two directions: along it while its
capacity is not used up, and against it while there is flow to take back. An edge with a direction
is an arc (`Arc`); what an arc can still carry is its residual capacity.
-/

namespace Optima.Flow

open Optima.Graph

/-- An edge of a network on `n` nodes. -/
structure Edge (n : Nat) where
  tail : Fin n
  head : Fin n
  capacity : Int
  cost : Int

/-- One of the two directions of one of `m` edges. -/
structure Arc (m : Nat) where
  edge : Fin m
  backward : Bool
  deriving DecidableEq

namespace Arc

variable {m : Nat}

/-- The other direction of the same edge. -/
def reverse (a : Arc m) : Arc m := { a with backward := !a.backward }

/-- Arcs are numbered by edge, each edge's forward arc first. -/
def number (a : Arc m) : Nat := 2 * a.edge.val + if a.backward then 1 else 0

@[simp] theorem reverse_reverse (a : Arc m) : a.reverse.reverse = a := by
  simp [reverse]

/-- All arcs, by number. -/
def all (m : Nat) : List (Arc m) := (List.finRange m).flatMap fun e => [⟨e, false⟩, ⟨e, true⟩]

end Arc

/-- A network on `n` nodes with `m` edges and a flow. -/
structure Network (n m : Nat) where
  edges : Table m (Edge n)
  flow : Table m Int

namespace Network

variable {n m : Nat}

/-- A network without edges. -/
def empty (n : Nat) : Network n 0 := ⟨#v[], #v[]⟩

/-- The network of a list of edges, each with its flow. -/
def ofList (edges : List (Edge n × Int)) : Network n edges.length :=
  ⟨Table.tabulate fun e => edges[e].1, Table.tabulate fun e => edges[e].2⟩

/-- One more edge, without flow. -/
def addEdge (net : Network n m) (edge : Edge n) : Network n (m + 1) :=
  ⟨net.edges.push edge, net.flow.push 0⟩

/-! ### Arcs -/

def tail (net : Network n m) (a : Arc m) : Fin n :=
  let edge := net.edges.get a.edge
  if a.backward then edge.head else edge.tail

def head (net : Network n m) (a : Arc m) : Fin n :=
  let edge := net.edges.get a.edge
  if a.backward then edge.tail else edge.head

/-- The capacity of an arc; a backward arc has none of its own. -/
def capacity (net : Network n m) (a : Arc m) : Int :=
  if a.backward then 0 else (net.edges.get a.edge).capacity

/-- The cost of a unit along an arc; taking it back saves what it cost. -/
def cost (net : Network n m) (a : Arc m) : Int :=
  let c := (net.edges.get a.edge).cost
  if a.backward then -c else c

/-- What an arc can still carry. -/
def residual (net : Network n m) (a : Arc m) : Int :=
  if a.backward then net.flow.get a.edge
  else (net.edges.get a.edge).capacity - net.flow.get a.edge

/-- Sends an amount along an arc. -/
def push (net : Network n m) (a : Arc m) (amount : Int) : Network n m :=
  let f := net.flow.get a.edge
  { net with flow := net.flow.update a.edge (if a.backward then f - amount else f + amount) }

/-- The two directions of an edge share its capacity. -/
theorem residual_add_residual_reverse (net : Network n m) (a : Arc m) :
    net.residual a + net.residual a.reverse = (net.edges.get a.edge).capacity := by
  obtain ⟨edge, backward⟩ := a
  cases backward with
  | false => exact Int.sub_add_cancel (net.edges.get edge).capacity (net.flow.get edge)
  | true => exact (Int.add_comm _ _).trans (Int.sub_add_cancel _ _)

/-- The arcs that leave each node, by number. -/
def leaving (net : Network n m) : Table n (List (Arc m)) :=
  Table.tabulate fun v => (Arc.all m).filter fun a => net.tail a = v

/-! ### Reachability -/

/-- The nodes that can be reached from a source along arcs that can still carry something. -/
def reachableFrom (net : Network n m) (source : Fin n) : Table n Bool :=
  let leaving := net.leaving
  reachable (fun v => ((leaving.get v).filter fun a => 0 < net.residual a).map net.head) source

end Network

end Optima.Flow
