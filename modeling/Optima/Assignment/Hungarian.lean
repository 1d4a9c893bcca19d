import Optima.Run
import Optima.Table

/-!
The Hungarian method. Rows enter one at a time in the order of their indices. Each is matched along
a shortest path of an alternating tree of columns, where lengths are costs less the potentials of
row and column; among equally near columns the first is taken. Potentials are raised so that the
tree's edges stay tight.

The tree hangs on a root, which stands for the entering row's lack of a column, and the root has a
potential of its own. Columns that were not yet reached carry the least length seen (`label`), and
none while it is unbounded.
-/

namespace Optima.Assignment.Hungarian

variable {α : Type} [Quantity α] {n : Nat}

/-- Potentials, and the row that holds each column. -/
structure State (n : Nat) (α : Type) where
  rowPotential : Table n α
  columnPotential : Table n α
  rootPotential : α
  rowOf : Table n (Option (Fin n))
  /-- How many columns were scanned from so far, roots included. -/
  iterations : Nat

/-- An alternating tree. -/
structure Tree (n : Nat) (α : Type) where
  reached : Table n Bool
  label : Table n (Option α)
  /-- The column before an unreached column on its shortest path; none stands for the root. -/
  parent : Table n (Option (Fin n))

/-- No row has entered. -/
def State.start : State n α where
  rowPotential := Table.fill n Quantity.nought
  columnPotential := Table.fill n Quantity.nought
  rootPotential := Quantity.nought
  rowOf := Table.fill n none
  iterations := 0

/-- The tree that consists of its root. -/
def Tree.root : Tree n α := ⟨Table.fill n false, Table.fill n none, Table.fill n none⟩

/-- The tree with a column reached; none stands for the root, which always is. -/
def Tree.reach (t : Tree n α) : Option (Fin n) → Tree n α
  | some j => { t with reached := t.reached.update j true }
  | none => t

/-- A length is shorter than a label. -/
def shorter (length : α) : Option α → Bool
  | some label => Quantity.less length label
  | none => Quantity.bounded length

/-- One column as seen from the row that holds the column `source`. -/
def look (costs : Table n α) (s : State n α) (row : Fin n) (source : Option (Fin n))
    (t : Tree n α) (j : Fin n) : Except Fault (Tree n α) := do
  if t.reached.get j then return t
  let length ← Quantity.sub (← Quantity.sub (costs.get j) (s.rowPotential.get row))
    (s.columnPotential.get j)
  if shorter length (t.label.get j) then
    return { t with label := t.label.update j (some length), parent := t.parent.update j source }
  return t

/-- The first of the nearest unreached columns, with its length. -/
def nearest (t : Tree n α) : Option (Fin n × α) :=
  (List.finRange n).foldl (fun best j =>
    if t.reached.get j then best
    else match t.label.get j with
      | none => best
      | some label => if shorter label (best.map (·.2)) then some (j, label) else best) none

/-- A label after the potentials of the tree were raised. -/
def lowerLabel (delta : α) : Option α → Except Fault (Option α)
  | some label => some <$> Quantity.sub label delta
  | none => Quantity.lowered delta

/-- One column when the potentials of the tree are raised. -/
def raiseColumn (delta : α) (st : State n α × Tree n α) (j : Fin n) :
    Except Fault (State n α × Tree n α) := do
  let (s, t) := st
  if t.reached.get j then
    let column ← Quantity.sub (s.columnPotential.get j) delta
    let s := { s with columnPotential := s.columnPotential.update j column }
    match s.rowOf.get j with
    | some row =>
        let raised ← Quantity.add (s.rowPotential.get row) delta
        return ({ s with rowPotential := s.rowPotential.update row raised }, t)
    | none => return (s, t)
  else
    return (s, { t with label := t.label.update j (← lowerLabel delta (t.label.get j)) })

/-- Raises the potentials of the tree of the row `i`. -/
def raise (i : Fin n) (delta : α) (s : State n α) (t : Tree n α) :
    Except Fault (State n α × Tree n α) := do
  let root ← Quantity.sub s.rootPotential delta
  let raised ← Quantity.add (s.rowPotential.get i) delta
  (List.finRange n).foldlM (raiseColumn delta)
    ({ s with rootPotential := root, rowPotential := s.rowPotential.update i raised }, t)

/-- The row that holds a column of the tree of the row `i`; the root stands for `i` itself. -/
def holder (i : Fin n) (s : State n α) : Option (Fin n) → Fin n
  | some j => (s.rowOf.get j).getD i
  | none => i

/-- Grows the tree of the row `i` from a column until a free column is reached. Every round reaches
a new column, so `n` rounds are enough as long as some label is bounded; without one the search goes
on for ever. -/
def grow (cost : Square n α) (i : Fin n) :
    Nat → Option (Fin n) → State n α → Tree n α → Except Failure (State n α × Tree n α × Fin n)
  | 0, _, _, _ => .error .endless
  | fuel + 1, source, s, t => do
      let row := holder i s source
      let t ← Failure.arith
        ((List.finRange n).foldlM (look (cost.get row) s row source) (t.reach source))
      match nearest t with
      | none => .error .endless
      | some (j, delta) =>
          let (s, t) ← Failure.arith (raise i delta { s with iterations := s.iterations + 1 } t)
          if (s.rowOf.get j).isNone then return (s, t, j)
          grow cost i fuel (some j) s t

/-- Hands every column of a path to the row that held the column before it, from its free end to
the root, whose row is `i`. -/
def shift (i : Fin n) (parent : Table n (Option (Fin n))) :
    Nat → Fin n → Table n (Option (Fin n)) → Except Failure (Table n (Option (Fin n)))
  | 0, _, _ => .error .endless
  | fuel + 1, j, rowOf => match parent.get j with
      | none => .ok (rowOf.update j (some i))
      | some k => shift i parent fuel k (rowOf.update j (rowOf.get k))

/-- Lets the row `i` enter. -/
def enter (cost : Square n α) (s : State n α) (i : Fin n) : Except Failure (State n α) := do
  let (s, t, j) ← grow cost i (n + 1) none s Tree.root
  return { s with rowOf := ← shift i t.parent (n + 1) j s.rowOf }

/-- The column of each row. -/
def columns (rowOf : Table n (Option (Fin n))) : Table n (Fin n) :=
  Table.tabulate fun i =>
    ((List.finRange n).filter fun j => rowOf.get j = some i).getLast?.getD i

/-- Lets all rows enter; there is a checkpoint before each. -/
def enterAll (cost : Square n α) : Run Failure (State n α) :=
  (List.finRange n).foldlM (fun s i => do
    Run.check
    Run.ofExcept (enter cost s i)) State.start

/-- An assignment of least cost, and the number of columns scanned from. -/
def solveIn (cost : Square n α) : Run Failure (Table n (Fin n) × Nat) := do
  let s ← enterAll cost
  return (columns s.rowOf, s.iterations)

end Optima.Assignment.Hungarian
