import Optima.Graph.Heap
import Optima.Graph.ShortestPath
import Optima.Lookup

/-!
Shortest paths on adjacency lists that nobody has checked. Nodes are given by numbers, negative ones
counted from the end; a number beyond the nodes stops the search where it is looked up, and a length
may be no number at all. The frontier is then a heap, as labels need not be ordered (`search`).

Where all numbers are indices and all lengths are numbers this is the search of
`Optima.Graph.ShortestPath` (`tree`).
-/

namespace Optima.Graph.Unchecked

/-- The edges that leave each node. -/
abbrev Lists := List (List (Int × Number))

variable {n : Nat}

/-- Distances and predecessors. A predecessor is the number under which the node was reached, and
`-1` where there is none. -/
structure Tree (n : Nat) where
  distance : Table n (Option Number)
  predecessor : Table n Int
  settled : Nat

/-! ### Searching with a heap -/

/-- The state of a search. -/
structure State (n : Nat) where
  tree : Tree n
  done : Table n Bool
  frontier : Array Heap.Entry

/-- Only the source has a label. -/
def State.start (source : Int) (index : Fin n) : State n where
  tree := ⟨(Table.fill n none).update index (some (.int 0)), Table.fill n (-1), 0⟩
  done := Table.fill n false
  frontier := #[(.int 0, source)]

/-- Relaxes an edge from a node at a distance. -/
def relax (u : Int) (d : Number) (s : State n) (edge : Int × Number) :
    Except Failure (State n) := do
  let (v, length) := edge
  if length.isNegative then throw ShortestPath.refusal
  let candidate ← Failure.arith (d.add length)
  match Table.index? n v with
  | none => throw .outOfRange
  | some i =>
      if (s.tree.distance.get i).all candidate.less then
        return { s with
          tree.distance := s.tree.distance.update i (some candidate)
          tree.predecessor := s.tree.predecessor.update i u
          frontier := Heap.add s.frontier (candidate, v) }
      return s

/-- Settles a node that left the frontier, unless it was settled before. -/
def settle (lists : Table n (List (Int × Number))) (d : Number) (u : Int) (s : State n) :
    Except Failure (State n) :=
  match Table.index? n u with
  | none => .error .outOfRange
  | some i =>
      if s.done.get i then .ok s
      else (lists.get i).foldlM (relax u d)
        { s with done := s.done.update i true, tree.settled := s.tree.settled + 1 }

/-- Empties the frontier; there is a checkpoint before each node that leaves it. -/
def explore (lists : Table n (List (Int × Number))) : Nat → State n → Run Failure (State n)
  | fuel, s => match Heap.take? s.frontier, fuel with
    | none, _ => pure s
    | _, 0 => Run.fail .endless
    | some ((d, u), others), fuel + 1 => do
        Run.tick
        explore lists fuel (← Run.ofExcept (settle lists d u { s with frontier := others }))

/-- The tree of a search. Each edge puts at most one node into the frontier. -/
def search (lists : Lists) (source : Int) : Run Failure (Tree lists.length) :=
  match Table.index? lists.length source with
  | none => Run.fail .writtenOutOfRange
  | some index => do
      let s ← explore (Table.tabulate fun u => lists[u]) (lists.flatten.length + 1)
        (State.start source index)
      return s.tree

/-! ### Lists in order -/

/-- A length that can be compared. -/
def isComparable (length : Number) : Bool := length.same length

/-- The adjacency that lists describe, if nothing is wrong with them. -/
def adjacency? (lists : Lists) : Option (ShortestPath.Adjacency lists.length Number) :=
  let edges? (edges : List (Int × Number)) : Option (List (Fin lists.length × Number)) :=
    edges.mapM fun (v, length) =>
      if isComparable length then (Lookup.plain? lists.length v).map (·, length) else none
  if (lists.all fun edges => (edges? edges).isSome) then
    some (Table.tabulate fun u => (edges? lists[u]).getD [])
  else none

/-- A tree with its nodes by number. -/
def Tree.ofChecked (t : ShortestPath.Tree n) : Tree n where
  distance := t.distance
  predecessor := Table.tabulate fun v => match t.predecessor.get v with
    | some u => u.val
    | none => -1
  settled := t.settled

/-- The tree of shortest paths. -/
def tree (lists : Lists) (source : Int) : Run Failure (Tree lists.length) :=
  match adjacency? lists, Lookup.plain? lists.length source with
  | some adjacency, some source => Tree.ofChecked <$> ShortestPath.tree adjacency source
  | _, _ => search lists source

/-- The numbers from the last one back to a node without a predecessor, before a path that is
already known. -/
def follow (predecessor : Table n Int) : Nat → Int → List Int → Except Failure (List Int)
  | 0, _, _ => .error .endless
  | fuel + 1, v, path => match Table.index? n v with
      | none => .error .outOfRange
      | some i =>
          let u := predecessor.get i
          if u = -1 then .ok (v :: path) else follow predecessor fuel u (v :: path)

/-- The path to a node, if it was reached. -/
def Tree.pathTo (t : Tree n) (target : Int) : Except Failure (Option (List Int)) :=
  match Table.index? n target with
  | none => .error .outOfRange
  | some i => match t.distance.get i with
      | none => .ok none
      | some _ => some <$> follow t.predecessor (n + 1) target []

end Optima.Graph.Unchecked
