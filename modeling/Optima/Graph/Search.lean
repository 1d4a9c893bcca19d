import Optima.Run
import Optima.Table

/-!
Label-setting search for shortest paths. Nodes leave the frontier in the order of their distance and
of equal distances in the order of their indices; a node is settled when it leaves for the first
time. Settling relaxes the node's steps in their order, and a label changes only to a shorter one.

The steps of a node carry marks of any kind, and the search runs in any quantity. Negative lengths
are refused, in words that the caller supplies.
-/

namespace Optima.Graph

/-- A step to a neighbour. -/
structure Step (n : Nat) (μ α : Type) where
  head : Fin n
  mark : μ
  length : α

namespace Search

variable {μ α : Type} [Quantity α] {n : Nat}

/-- The state of a search. The frontier may hold a node several times, with labels it had. -/
structure State (n : Nat) (μ α : Type) where
  distance : Table n (Option α)
  /-- The node from which a node was reached, and the mark of the step. -/
  parent : Table n (Option (Fin n × μ))
  done : Table n Bool
  frontier : List (α × Fin n)
  settled : Nat

/-- Only the source has a label. -/
def State.start (source : Fin n) : State n μ α where
  distance := (Table.fill n none).update source (some Quantity.nought)
  parent := Table.fill n none
  done := Table.fill n false
  frontier := [(Quantity.nought, source)]
  settled := 0

/-- The order of the frontier. -/
def before (x y : α × Fin n) : Bool :=
  Quantity.less x.1 y.1 || (!Quantity.less y.1 x.1 && x.2 < y.2)

/-- The least element of a nonempty list, and the others. -/
def takeLeast : α × Fin n → List (α × Fin n) → (α × Fin n) × List (α × Fin n)
  | x, [] => (x, [])
  | x, y :: rest =>
      let (least, others) := takeLeast y rest
      if before least x then (least, x :: others) else (x, y :: rest)

/-- Relaxes one step from a node at a distance. -/
def relax (refuse : μ → α → Failure) (u : Fin n) (d : α) (s : State n μ α) (step : Step n μ α) :
    Except Failure (State n μ α) := do
  if Quantity.less step.length Quantity.nought then throw (refuse step.mark step.length)
  let candidate ← Failure.arith (Quantity.add d step.length)
  let v := step.head
  let shorter := match s.distance.get v with
    | none => true
    | some current => Quantity.less candidate current
  if shorter then
    return { s with
      distance := s.distance.update v (some candidate)
      parent := s.parent.update v (some (u, step.mark))
      frontier := (candidate, v) :: s.frontier }
  return s

/-- Settles a node that left the frontier, unless it was settled before. -/
def settle (steps : Fin n → List (Step n μ α)) (refuse : μ → α → Failure) (d : α) (u : Fin n)
    (s : State n μ α) : Except Failure (State n μ α) :=
  if s.done.get u then return s
  else (steps u).foldlM (relax refuse u d)
    { s with done := s.done.update u true, settled := s.settled + 1 }

/-- Empties the frontier; `point` is passed before each node leaves it. -/
def explore (steps : Fin n → List (Step n μ α)) (refuse : μ → α → Failure)
    (point : Run Failure Unit) : Nat → State n μ α → Run Failure (State n μ α)
  | fuel, s => match s.frontier, fuel with
    | [], _ => pure s
    | _, 0 => Run.fail .endless
    | x :: rest, fuel + 1 => do
        point
        let ((d, u), others) := takeLeast x rest
        let s ← Run.ofExcept (settle steps refuse d u { s with frontier := others })
        explore steps refuse point fuel s

/-- How often nodes leave the frontier at most: the source once, and each node once for every step
that leads to it. -/
def bound (steps : Fin n → List (Step n μ α)) : Nat :=
  (List.finRange n).foldr (fun u others => (steps u).length + others) 1

/-- The labels of all nodes that can be reached from the source. -/
def run (steps : Fin n → List (Step n μ α)) (refuse : μ → α → Failure) (point : Run Failure Unit)
    (source : Fin n) : Run Failure (State n μ α) :=
  explore steps refuse point (bound steps) (State.start source)

end Search

end Optima.Graph
