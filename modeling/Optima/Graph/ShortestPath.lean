import Optima.Graph.Search

/-!
Shortest paths from a source. The tree of a search gives each reachable node its distance and its
predecessor, and following predecessors gives the path to a node (`Tree.pathTo`). In exact numbers
predecessors always lead back to the source; in mixed numbers rounding can close them to a cycle,
and then the path never ends.
-/

namespace Optima.Graph.ShortestPath

variable {n : Nat}

/-- The edges that leave each node, with their lengths. -/
abbrev Adjacency (n : Nat) (α : Type) := Table n (List (Fin n × α))

/-- Distances and predecessors of the nodes that were reached. -/
structure Tree (n : Nat) where
  distance : Table n (Option Number)
  predecessor : Table n (Option (Fin n))
  settled : Nat

/-- Lengths must not be negative. -/
def refusal : Failure := .invalidInput "Dijkstra requires non-negative edge weights"

/-- The tree of shortest paths; there is a checkpoint before each node that leaves the frontier. -/
def treeIn {α : Type} [Quantity α] (adjacency : Adjacency n α) (source : Fin n) :
    Run Failure (Tree n) := do
  let steps (u : Fin n) : List (Step n Unit α) :=
    (adjacency.get u).map fun (v, length) => ⟨v, (), length⟩
  let s ← Search.run steps (fun _ _ => refusal) Run.tick source
  return ⟨Table.tabulate fun v => (s.distance.get v).map Quantity.toNumber,
    Table.tabulate fun v => (s.parent.get v).map (·.1), s.settled⟩

/-- The lengths as integers, if there is nothing else. -/
def ints? (adjacency : Adjacency n Number) : Option (Adjacency n Int) :=
  if adjacency.values.all fun edges => edges.all fun e => e.2.int?.isSome then
    some (Table.tabulate fun u => (adjacency.get u).map fun (v, length) => (v, length.int?.getD 0))
  else none

/-- The tree of shortest paths, in integers where there is nothing else. -/
def tree (adjacency : Adjacency n Number) (source : Fin n) : Run Failure (Tree n) :=
  match ints? adjacency with
  | some adjacency => treeIn adjacency source
  | none => treeIn adjacency source

/-- The predecessors of a node from the last one on, before a path that is already known. A path
without repetition has at most `n` nodes. -/
def follow (predecessor : Table n (Option (Fin n))) :
    Nat → Fin n → List (Fin n) → Except Failure (List (Fin n))
  | 0, _, _ => .error .endless
  | fuel + 1, v, path => match predecessor.get v with
      | none => .ok (v :: path)
      | some u => follow predecessor fuel u (v :: path)

/-- The path to a node, if it was reached. -/
def Tree.pathTo (t : Tree n) (target : Fin n) : Except Failure (Option (List (Fin n))) :=
  match t.distance.get target with
  | none => .ok none
  | some _ => some <$> follow t.predecessor n target []

end Optima.Graph.ShortestPath
