import Optima.Assignment.Matrix
import Optima.Run

/-!
One of many assignments of least cost: the lexicographically smallest, whichever was found first.

From an assignment of least cost potentials are recovered by label-correcting search over its
alternating graph (`settle`). Each assignment of least cost then consists of tight edges, whose
reduced cost is zero up to a slack, and rows are given in turn the lowest tight column that leaves a
perfect matching of tight edges (`settleRow`). If the assignment was not of least cost the labels
never settle; a label that was improved more than `n` times is taken as the sign of it.
-/

namespace Optima.Assignment.Lexicographic

variable {α : Type} [Quantity α] {n : Nat}

/-! ### Potentials -/

/-- A label is better than another by more than the tolerance. -/
def improves (tolerance : Number) (label old : α) : Except Fault Bool := do
  let bound ← Number.sub (Quantity.toNumber old) tolerance
  return (Quantity.toNumber label).less bound

/-- The state of a label-correcting search: potentials so far, how often the label of each column
was improved, and the columns that wait to be looked at again. -/
structure Search (n : Nat) (α : Type) where
  rowPotential : Table n α
  columnPotential : Table n α
  improvements : Table n Nat
  waiting : Table n Bool
  queue : List (Fin n)

/-- The assignment is not one of least cost. -/
def notOptimal : Failure :=
  .internal "assignment is not optimal: a cheaper alternating cycle exists"

/-- The first of the least entries of a column. -/
def leastOfColumn (cost : Square n α) (j : Fin n) : α :=
  match List.finRange n with
  | [] => entry cost j j
  | i :: rest => rest.foldl (fun best i =>
      if Quantity.less (entry cost i j) best then entry cost i j else best) (entry cost i j)

/-- Rows start at zero, columns at their least entries, and all columns wait. -/
def Search.start (cost : Square n α) : Search n α where
  rowPotential := Table.fill n Quantity.nought
  columnPotential := Table.tabulate (leastOfColumn cost)
  improvements := Table.fill n 0
  waiting := Table.fill n true
  queue := List.finRange n

/-- One column as seen from a row whose label is `reach`. -/
def relax (tolerance : Number) (costs : Table n α) (reach : α) (s : Search n α) (j : Fin n) :
    Except Failure (Search n α) := do
  let label ← Failure.arith (Quantity.add reach (costs.get j))
  if ← Failure.arith (improves tolerance label (s.columnPotential.get j)) then
    let count := s.improvements.get j + 1
    if n < count then throw notOptimal
    let s := { s with
      columnPotential := s.columnPotential.update j label
      improvements := s.improvements.update j count }
    if s.waiting.get j then return s
    return { s with waiting := s.waiting.update j true, queue := s.queue ++ [j] }
  return s

/-- Looks at a column: its row gets a better label, and passes it on to all columns. -/
def visit (tolerance : Number) (cost : Square n α) (rowOf : Table n (Fin n)) (k : Fin n)
    (s : Search n α) : Except Failure (Search n α) := do
  let s := { s with waiting := s.waiting.update k false }
  let i := rowOf.get k
  let reach ← Failure.arith (Quantity.sub (s.columnPotential.get k) (entry cost i k))
  if ← Failure.arith (improves tolerance reach (s.rowPotential.get i)) then
    let s := { s with rowPotential := s.rowPotential.update i reach }
    (List.finRange n).foldlM (relax tolerance (cost.get i) reach) s
  else return s

/-- Looks at waiting columns in turn until none is left. A column waits once at first and once for
each improvement, and improvements are bounded. -/
def settle (tolerance : Number) (cost : Square n α) (rowOf : Table n (Fin n)) :
    Nat → Search n α → Run Failure (Search n α)
  | fuel, s => match s.queue, fuel with
    | [], _ => pure s
    | _, 0 => Run.fail .endless
    | k :: rest, fuel + 1 => do
        Run.tick
        let s ← Run.ofExcept (visit tolerance cost rowOf k { s with queue := rest })
        settle tolerance cost rowOf fuel s

/-- The tight columns of a row, in order. -/
def tightColumns (cost : Square n α) (s : Search n α) (slack : Number) (i : Fin n) :
    Except Fault (List (Fin n)) :=
  (List.finRange n).filterM fun j => do
    let reduced ← Quantity.sub (← Quantity.add (entry cost i j) (s.rowPotential.get i))
      (s.columnPotential.get j)
    return (Quantity.toNumber reduced).atMost slack

/-! ### Rerouting -/

/-- A matching: the column of each row, and the row of each column. -/
structure Matching (n : Nat) where
  columnOf : Table n (Fin n)
  rowOf : Table n (Fin n)

/-- The matching of a list of columns. Columns that no row has belong to the first row. -/
def Matching.ofColumns (columnOf : Table n (Fin n)) : Matching n where
  columnOf := columnOf
  rowOf := (List.finRange n).foldl (fun rowOf i => rowOf.update (columnOf.get i) i)
    (Table.tabulate fun j => ⟨0, Nat.lt_of_le_of_lt (Nat.zero_le _) j.isLt⟩)

/-- Hands a column to a row. -/
def Matching.assign (m : Matching n) (i j : Fin n) : Matching n :=
  ⟨m.columnOf.update i j, m.rowOf.update j i⟩

/-- The rows from which columns were reached, once the column `target` is among them: breadth-first
search along tight columns that are neither fixed nor the column `taken`. A column is reached once,
whether or not a row lists it again. -/
def explore (tight : Table n (List (Fin n))) (fixed : Table n Bool) (rowOf : Table n (Fin n))
    (taken target : Fin n) :
    Nat → List (Fin n) → Table n (Option (Fin n)) → Option (Table n (Option (Fin n)))
  | 0, _, _ | _, [], _ => none
  | fuel + 1, row :: queue, parent =>
      let fresh := ((tight.get row).filter fun c =>
        !fixed.get c && c ≠ taken && (parent.get c).isNone).eraseDups
      let parent := fresh.foldl (fun parent c => parent.update c (some row)) parent
      if fresh.contains target then some parent
      else explore tight fixed rowOf taken target fuel (queue ++ fresh.map rowOf.get) parent

/-- Hands the columns of a path back along it, from a column to the row `start`. -/
def handBack (parent : Table n (Option (Fin n))) (start : Fin n) :
    Nat → Fin n → Matching n → Matching n
  | 0, _, m => m
  | fuel + 1, column, m => match parent.get column with
      | none => m
      | some row =>
          let previous := m.columnOf.get row
          let m := m.assign row column
          if row = start then m else handBack parent start fuel previous m

/-- Gives the column `j` to the row `i`, if the row that had it can be led along tight columns to
the column that `i` had. -/
def reroute? (tight : Table n (List (Fin n))) (fixed : Table n Bool) (m : Matching n)
    (i j : Fin n) : Option (Matching n) :=
  let start := m.rowOf.get j
  let target := m.columnOf.get i
  (explore tight fixed m.rowOf j target (n + 1) [start] (Table.fill n none)).map fun parent =>
    handBack parent start (n + 1) target (m.assign i j)

/-- Gives a row the first of its tight columns that it can have. -/
def settleRow (tight : Table n (List (Fin n))) (fixed : Table n Bool) (i : Fin n) :
    List (Fin n) → Matching n → Matching n
  | [], m => m
  | j :: rest, m =>
      if fixed.get j then settleRow tight fixed i rest m
      else if m.columnOf.get i = j then m
      else match reroute? tight fixed m i j with
        | some m => m
        | none => settleRow tight fixed i rest m

/-- Settles rows in turn; there is a checkpoint before each. -/
def settleRows (tight : Table n (List (Fin n))) (rows : List (Fin n)) (m : Matching n) :
    Run Failure (Matching n) := do
  let (m, _) ← rows.foldlM (fun (m, fixed) i => do
    Run.check
    let m := settleRow tight fixed i (tight.get i) m
    return (m, fixed.update (m.columnOf.get i) true)) (m, Table.fill n false)
  return m

/-- The tight columns of each row, by the potentials that a matching has. -/
def tightTable (cost : Square n α) (m : Matching n) (tolerance : Number) :
    Run Failure (Table n (List (Fin n))) := do
  let s ← settle tolerance cost m.rowOf (n + n * n) (Search.start cost)
  let slack ← Run.arith (Number.mul tolerance (.int (2 * n + 1)))
  let tight ← Run.arith ((List.finRange n).mapM (tightColumns cost s slack))
  return Table.tabulate fun i => tight[i.val]?.getD []

/-- The lexicographically smallest assignment that costs as little as the given one, which has to be
of least cost. -/
def solveIn (cost : Square n α) (columnOf : Table n (Fin n)) (tolerance : Number) :
    Run Failure (Table n (Fin n)) := do
  let m := Matching.ofColumns columnOf
  let tight ← tightTable cost m tolerance
  let m ← settleRows tight (List.finRange n) m
  return m.columnOf

/-- The same for a matching that gives columns to the first few rows only: it stops at the first row
that has none. -/
def settleSome (cost : Square n α) (m : Matching n) (tolerance : Number) (count : Nat) :
    Run Failure (Table n (Fin n)) := do
  let tight ← tightTable cost m tolerance
  let _ ← settleRows tight ((List.finRange n).take count) m
  Run.check
  Run.fail .outOfRange

end Optima.Assignment.Lexicographic
