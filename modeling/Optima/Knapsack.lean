import Optima.Lists
import Optima.Run
import Optima.Table

/-!
The 0/1 knapsack by dynamic programming over the capacity. One row of the table holds, for every
capacity, the greatest value of the items seen so far; each item turns it into the next row and
leaves a row of decisions behind (`Stage`), and reading the decisions back from the last item to the
first gives the selection. Items heavier than the capacity are left out beforehand, and items
without value are never taken.

Cells hold 64 binary digits and wrap around. They cannot, where the values add up to less than
`2 ^ 63`.

Sound problems have no negative weights, but the table can be asked for them. A row shifted by a
weight has to be as long as the part of the table that it is compared with, and a weight that would
need more than the table's width to be made up for leaves the whole row where it is; all other
negative weights do not fit (`misfit?`). Such items may raise the capacity that is left beyond the
table when decisions are read back.
-/

namespace Optima.Knapsack

/-- An item that fits by itself. -/
structure Item where
  index : Nat
  weight : Int
  value : Int

/-- The selected items in order, what they weigh and are worth, and the size of the table. -/
structure Outcome where
  selected : List Nat
  totalWeight : Int
  totalValue : Int
  cells : Nat

/-- The items that are not heavier than the capacity, by index. -/
def fitting (weights : List Int) (capacity : Int) : List (Nat × Int) :=
  weights.zipIdx.filterMap fun (w, i) => if w ≤ capacity then some (i, w) else none

/-- The bytes that the table takes: eight for each cell of the current row, and one for each
decision. -/
def tableBytes (weights : List Int) (capacity : Int) : Int :=
  match (fitting weights capacity).length with
  | 0 => 0
  | k => (capacity + 1) * (k + 8)

/-- Half as many as there are values of a cell: two to the power of 63. -/
def halfRange : Nat := 9223372036854775808

/-- The value of a cell: wrapped to 64 binary digits with a sign. -/
def wrap (value : Int) : Int :=
  if -halfRange ≤ value ∧ value < halfRange then value else value.bmod (2 * halfRange)

/-- Wrapping is the balanced remainder, which leaves alone what fits. -/
theorem wrap_eq_bmod (value : Int) : wrap value = value.bmod (2 * halfRange) := by
  unfold wrap halfRange
  split
  · rw [Int.bmod_eq_of_le] <;> omega
  · rfl

/-- By how many cells taking an item shifts a row. -/
def Item.shift (item : Item) : Nat := item.weight.toNat

/-- The value that taking an item leads to at a capacity, where it fits and is worth more than
leaving it. -/
def gain? {n : Nat} (best : Table n Int) (item : Item) (c : Fin n) : Option Int :=
  if item.value ≠ 0 ∧ item.shift ≤ c.val then
    let value := wrap (best.get ⟨c.val - item.shift, by omega⟩ + item.value)
    if best.get c < value then some value else none
  else none

/-- The row after an item, from what taking it would lead to. -/
def next {n : Nat} (best : Table n Int) (gains : Table n (Option Int)) : Table n Int :=
  Table.tabulate fun c => (gains.get c).getD (best.get c)

/-- An item with its decisions: at which capacities it is taken. -/
structure Stage (n : Nat) where
  item : Item
  take : Table n Bool

/-! ### What cannot be computed -/

/-- A value that no cell holds. -/
def tooValuable : Failure := .raised "OverflowError" "Python int too large to convert to C long"

/-- The part of the table that an item of negative weight is compared with, if it is not as long as
the table. -/
def misfit? (width : Nat) (item : Item) : Option Failure :=
  let part := (-item.weight).toNat
  if item.weight < 0 ∧ part < width then
    some (.raised "ValueError" (if part = 1 then
      "could not broadcast input array from shape (" ++ toString width ++ ",) into shape (1,)"
    else
      "operands could not be broadcast together with shapes (" ++ toString width ++ ",) (" ++
        toString part ++ ",) "))
  else none

/-- Why an item cannot be taken into account: nothing needs to be computed for one without value. -/
def Item.obstacle? (width : Nat) (item : Item) : Option Failure :=
  if item.value = 0 then none
  else if wrap item.value ≠ item.value then some tooValuable
  else misfit? width item

/-- A capacity beyond the table. -/
def beyondTable (left : Int) (width : Nat) : Failure :=
  .raised "IndexError" ("index " ++ toString left ++ " is out of bounds for axis 1 with size " ++
    toString width)

/-- A table of more bytes than can be numbered. -/
def tooBig : Failure :=
  .raised "ValueError" ("array is too big; `arr.size * arr.dtype.itemsize` is larger " ++
    "than the maximum possible size.")

/-- Why there is no row of a number of cells, eight bytes each, with as many decisions of one byte
for each of some items: there are no negative numbers of cells, and bytes are numbered by 63 binary
digits. Whether a computer has that many bytes is no matter here. -/
def tableObstacle? (cells : Int) (items : Nat) : Option Failure :=
  if cells < 0 then some (.raised "ValueError" "negative dimensions are not allowed")
  else if Nat.pow 2 63 ≤ cells.toNat then
    some (.raised "ValueError" "Maximum allowed dimension exceeded")
  else if Nat.pow 2 63 ≤ 8 * cells.toNat ∨ Nat.pow 2 63 ≤ items * cells.toNat then some tooBig
  else none

/-! ### The table -/

/-- Fills the table row by row; there is a checkpoint before each. The stages come out with the last
item first. The items are given by index and weight. -/
def fill {n : Nat} (values : List Int) (items : List (Nat × Int)) :
    Run Failure (Table n Int × List (Stage n)) :=
  items.foldlM (fun (best, stages) (i, w) => do
    Run.check
    match values[i]? with
    | none => Run.fail .outOfRange
    | some v =>
        let item := Item.mk i w v
        match item.obstacle? n with
        | some failure => Run.fail failure
        | none =>
            let gains := Table.tabulate (gain? best item)
            let take := Table.tabulate fun c => (gains.get c).isSome
            return (next best gains, ⟨item, take⟩ :: stages)) (Table.fill n 0, [])

/-- The items taken with a capacity left, read from the last stage to the first. -/
def select {n : Nat} : List (Stage n) → Int → Except Failure (List Item)
  | [], _ => .ok []
  | stage :: rest, left =>
      if h : 0 ≤ left ∧ left.toNat < n then
        if stage.take.get ⟨left.toNat, h.2⟩ then
          (stage.item :: ·) <$> select rest (left - stage.item.weight)
        else select rest left
      else .error (beyondTable left n)

/-- The value that the table has for a capacity. -/
def valueAt {n : Nat} (best : Table n Int) (capacity : Int) : Int :=
  if h : 0 ≤ capacity ∧ capacity.toNat < n then best.get ⟨capacity.toNat, h.2⟩ else 0

/-- The selection is not worth what the table says. -/
def unequalValues (selected : Number) (table : Int) : Failure :=
  .worded .internalSolverError do
    return "knapsack backtrack value " ++ (← selected.written) ++ " differs from table value " ++
      (← written table)

/-- The selection of greatest value. -/
def solve (weights values : List Int) (capacity : Int) : Run Failure Outcome :=
  match fitting weights capacity with
  | [] => pure ⟨[], 0, 0, 0⟩
  | candidates => match tableObstacle? (capacity + 1) candidates.length with
    | some failure => Run.fail failure
    | none => do
        let width := (capacity + 1).toNat
        let (best, stages) ← fill (n := width) values candidates
        let selected := (← Run.ofExcept (select stages capacity)).reverse
        let totalValue := total (selected.map (·.value))
        let tableValue := valueAt best capacity
        if totalValue ≠ tableValue then
          Run.fail (unequalValues (.int totalValue) tableValue)
        else
          return ⟨selected.map (·.index), total (selected.map (·.weight)), totalValue,
            candidates.length * width⟩

end Optima.Knapsack
