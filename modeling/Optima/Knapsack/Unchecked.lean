import Optima.Knapsack
import Optima.Number.Basic

/-!
The 0/1 knapsack for numbers that nobody has checked. Weights, values and the capacity may be
doubles. The table has a whole number of cells, and rows are shifted by whole weights; a value may
be any number, but what comes of it is cut to a whole number when it is put into a cell.

Integers alone are left to `Optima.Knapsack` (`solve`).
-/

namespace Optima.Knapsack.Unchecked

/-- The selected items in order, what they weigh and are worth, and the size of the table. -/
structure Outcome where
  selected : List Nat
  totalWeight : Number
  totalValue : Number
  cells : Nat

/-- The items that are not heavier than the capacity, by index. -/
def fitting (weights : List Number) (capacity : Number) : List (Nat × Number) :=
  weights.zipIdx.filterMap fun (w, i) => if w.atMost capacity then some (i, w) else none

/-- The bytes that the table takes. -/
def tableBytes (weights : List Number) (capacity : Number) : Except Fault Number :=
  match (fitting weights capacity).length with
  | 0 => .ok (.int 0)
  | k => do (← capacity.add (.int 1)).mul (.int (k + 8))

/-! ### The table -/

/-- A number as a cell holds it: without its fraction, and the least integer where it does not
fit. -/
def cell (x : Binary64) : Int :=
  match x.truncate? with
  | some i => if wrap i = i then i else -halfRange
  | none => -halfRange

/-- A cell as a double. -/
def ofCell (i : Int) : Binary64 := (Binary64.ofInt? i).getD .nan

/-- The row after an item whose value is a double, with its decisions. Cells that the item can reach
pass through doubles. -/
def mixedRow {n : Nat} (best : Table n Int) (shift : Nat) (value : Binary64) :
    Table n Int × Table n Bool :=
  let taken (c : Fin n) : Binary64 := ofCell (best.get ⟨c.val - shift, by omega⟩) + value
  let better : Table n Bool := Table.tabulate fun c =>
    shift ≤ c.val && (ofCell (best.get c)).less (taken c)
  (Table.tabulate fun c =>
    if c.val < shift then best.get c
    else cell (if better.get c then taken c else ofCell (best.get c)), better)

/-- An item with its decisions. -/
structure Stage (n : Nat) where
  index : Nat
  weight : Int
  value : Number
  take : Table n Bool

/-- A row cannot be shifted by a double. -/
def unshiftable : Failure :=
  .raised "TypeError" "slice indices must be integers or None or have an __index__ method"

/-- Takes an item into account, unless it has no value. -/
def addItem {n : Nat} (index : Nat) (weight value : Number)
    (found : Table n Int × List (Stage n)) : Except Failure (Table n Int × List (Stage n)) :=
  let (best, stages) := found
  if value.same (.int 0) then .ok (best, ⟨index, 0, value, Table.fill n false⟩ :: stages)
  else match weight, value with
    | .real _, _ => .error unshiftable
    | .int w, .int v =>
        let item := Item.mk index w v
        match item.obstacle? n with
        | some failure => .error failure
        | none =>
            let gains := Table.tabulate (gain? best item)
            .ok (next best gains,
              ⟨index, w, value, Table.tabulate fun c => (gains.get c).isSome⟩ :: stages)
    | .int w, .real x =>
        let item := Item.mk index w 1
        match misfit? n item with
        | some failure => .error failure
        | none =>
            let (row, take) := mixedRow best item.shift x
            .ok (row, ⟨index, w, value, take⟩ :: stages)

/-- Fills the table row by row; there is a checkpoint before each. -/
def fill {n : Nat} (values : List Number) (items : List (Nat × Number)) :
    Run Failure (Table n Int × List (Stage n)) :=
  items.foldlM (fun found (i, w) => do
    Run.check
    match values[i]? with
    | none => Run.fail .outOfRange
    | some v => Run.ofExcept (addItem i w v found)) (Table.fill n 0, [])

/-- The items taken with a capacity left, read from the last stage to the first. -/
def select {n : Nat} : List (Stage n) → Int → Except Failure (List (Stage n))
  | [], _ => .ok []
  | stage :: rest, left =>
      if h : 0 ≤ left ∧ left.toNat < n then
        if stage.take.get ⟨left.toNat, h.2⟩ then
          (stage :: ·) <$> select rest (left - stage.weight)
        else select rest left
      else .error (beyondTable left n)

/-- The selection that a table of whole capacity leads to. -/
def solveWhole (values : List Number) (candidates : List (Nat × Number)) (capacity : Int) :
    Run Failure Outcome := do
  let width := (capacity + 1).toNat
  let (best, stages) ← fill (n := width) values candidates
  let selected := (← Run.ofExcept (select stages capacity)).reverse
  let totalValue ← Run.arith (Number.sum (selected.map (·.value)))
  let tableValue := valueAt best capacity
  if !totalValue.same (.int tableValue) then
    Run.fail (unequalValues totalValue tableValue)
  else
    return ⟨selected.map (·.index), .int (total (selected.map (·.weight))), totalValue,
      candidates.length * width⟩

/-- A number of cells that is a double. -/
def notWhole : Failure :=
  .raised "TypeError" "'float' object cannot be interpreted as an integer"

/-- The selection of greatest value. -/
def solve (weights values : List Number) (capacity : Number) : Run Failure Outcome :=
  match weights.mapM Number.int?, values.mapM Number.int?, capacity.int? with
  | some weights, some values, some capacity => do
      let outcome ← Knapsack.solve weights values capacity
      return ⟨outcome.selected, .int outcome.totalWeight, .int outcome.totalValue, outcome.cells⟩
  | _, _, _ => match fitting weights capacity, capacity with
    | [], _ => pure ⟨[], .int 0, .int 0, 0⟩
    | _, .real _ => Run.fail notWhole
    | candidates, .int capacity => match tableObstacle? (capacity + 1) candidates.length with
      | some failure => Run.fail failure
      | none => solveWhole values candidates capacity

end Optima.Knapsack.Unchecked
