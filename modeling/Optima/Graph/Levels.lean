import Optima.Table

/-!
Breadth-first levels: the least number of steps from a root to every node, and hence which nodes can
be reached at all.
-/

namespace Optima.Graph

variable {n : Nat}

/-- Gives a neighbour its level unless it has one, and remembers it. -/
def labelNeighbour (level : Nat) (found : Table n (Option Nat) × List (Fin n)) (u : Fin n) :
    Table n (Option Nat) × List (Fin n) :=
  if (found.1.get u).isSome then found else (found.1.update u (some level), u :: found.2)

/-- Labels level after level. Each nonempty level labels a new node, so `n` levels are enough. -/
def spreadLevels (next : Fin n → List (Fin n)) :
    Nat → Nat → List (Fin n) → Table n (Option Nat) → Table n (Option Nat)
  | 0, _, _, labels => labels
  | fuel + 1, level, nodes, labels =>
      let (labels, fresh) := nodes.foldl
        (fun found v => (next v).foldl (labelNeighbour level) found) (labels, [])
      if fresh.isEmpty then labels else spreadLevels next fuel (level + 1) fresh labels

/-- The number of steps to each node from a root; none where it cannot be reached. -/
def levels (next : Fin n → List (Fin n)) (root : Fin n) : Table n (Option Nat) :=
  spreadLevels next n 1 [root] ((Table.fill n none).update root (some 0))

/-- The nodes that can be reached from a root. -/
def reachable (next : Fin n → List (Fin n)) (root : Fin n) : Table n Bool :=
  let found := levels next root
  Table.tabulate fun v => (found.get v).isSome

end Optima.Graph
