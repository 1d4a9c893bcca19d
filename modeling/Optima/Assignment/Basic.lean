import Optima.Assignment.Auction
import Optima.Assignment.Hungarian
import Optima.Assignment.Lexicographic

/-!
Pairing agents with tasks at least cost. A matrix that is not square is filled up with zeros, and
pairs outside the matrix are dropped, so the smaller side is paired completely. Large matrices of
whole numbers are solved by auction, all others by the Hungarian method, and of all pairings of
least cost the lexicographically smallest is given.
-/

namespace Optima.Assignment

variable {n : Nat}

/-- How an assignment was found. -/
inductive Algorithm where
  | hungarian
  | auction
  deriving DecidableEq, Repr

def Algorithm.name : Algorithm → String
  | hungarian => "hungarian"
  | auction => "auction"

/-- Pairs of agent and task, their total cost, and how they were found. -/
structure Outcome where
  pairs : List (Nat × Nat)
  totalCost : Number
  algorithm : Algorithm
  iterations : Nat

/-- The Hungarian method, in integers where the matrix holds nothing else. -/
def hungarian (cost : Square n Number) : Run Failure (Table n (Fin n) × Nat) :=
  match ints? cost with
  | some cost => Hungarian.solveIn cost
  | none => Hungarian.solveIn cost

/-- The lexicographically smallest assignment of least cost, in integers where the matrix holds
nothing else. -/
def canonical (cost : Square n Number) (columnOf : Table n (Fin n)) (tolerance : Number) :
    Run Failure (Table n (Fin n)) :=
  match ints? cost with
  | some cost => Lexicographic.solveIn cost columnOf tolerance
  | none => Lexicographic.solveIn cost columnOf tolerance

/-- The matrix in whole numbers. -/
def truncated (cost : Square n Number) : Except Fault (Square n Int) := do
  let rows ← cost.values.mapM fun row => row.values.mapM Number.truncate
  return pad 0 n rows

/-- The tolerance scaled to the largest of all entries, but to no less than one. -/
def scaledTolerance (tolerance : Number) (entries : List Number) : Except Fault Number :=
  let largest := (Number.greatest? (entries.map Number.abs)).getD (.real 1)
  Number.mul tolerance (if (Number.real 1).less largest then largest else .real 1)

/-- The sum of the costs of pairs. A pair may lie beyond the end of a row. -/
def totalOf (costs : List (List Number)) (pairs : List (Nat × Nat)) : Except Failure Number :=
  pairs.foldlM (fun total (i, j) => match costs[i]?.bind (·[j]?) with
    | some c => Failure.arith (total.add c)
    | none => .error .outOfRange) (.int 0)

/-- Pairs agents with tasks. Matrices of whole numbers whose larger side is not below the threshold
go to auction; the tolerance counts only for other ones. -/
def solve (costs : List (List Number)) (auctionThreshold : Number) (tolerance : Number) :
    Run Failure Outcome := do
  let agents := costs.length
  let tasks := (costs.head?.map List.length).getD 0
  if agents = 0 ∨ tasks = 0 then
    Run.fail (.infeasible ("assignment needs at least one agent and one task (got " ++
      toString agents ++ "x" ++ toString tasks ++ ")"))
  else
    let size := max agents tasks
    let whole := costs.all fun row => row.all Number.isInteger
    let square : Square size Number := pad (.int 0) size costs
    let (columnOf, algorithm, iterations) ←
      if whole && auctionThreshold.atMost (.int size) then do
        let cost ← Run.arith (truncated square)
        let outside ← Run.arith ((beyond size costs).mapM Number.truncate)
        let (columnOf, bids) ← Auction.solve cost outside
        let exact : Square size Number := Table.tabulate fun i => Table.tabulate fun j =>
          .int (entry cost i j)
        let best ← canonical exact columnOf (.real Binary64.zero)
        pure (best, Algorithm.auction, bids)
      else do
        let (columnOf, scans) ← hungarian square
        let scaled ← if whole then pure (.real Binary64.zero)
          else Run.arith (scaledTolerance tolerance (widen (.int 0) size costs).flatten)
        let best ← canonical square columnOf scaled
        pure (best, Algorithm.hungarian, scans)
    let pairs := (List.finRange size).filterMap fun i =>
      let j := columnOf.get i
      if i.val < agents ∧ j.val < tasks then some (i.val, j.val) else none
    let total ← Run.ofExcept (totalOf costs pairs)
    return ⟨pairs, total, algorithm, iterations⟩

end Optima.Assignment
