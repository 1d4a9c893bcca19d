import Optima.Number.Basic
import Optima.Table

/-!
Cost matrices. A matrix whose entries are all integers is solved in integers; one that holds doubles
is solved in mixed numbers.
-/

namespace Optima.Assignment

variable {n : Nat}

/-- An entry of a square matrix. -/
abbrev entry {α : Type} (cost : Square n α) (i j : Fin n) : α := (cost.get i).get j

/-- The matrix of integers, if there is nothing else in a matrix. -/
def ints? (cost : Square n Number) : Option (Square n Int) :=
  if cost.values.all fun row => row.values.all fun c => c.int?.isSome then
    some (Table.tabulate fun i => Table.tabulate fun j => (entry cost i j).int?.getD 0)
  else none

/-- The square of the given size that holds the rows in its corner, and zeros elsewhere. -/
def pad {α : Type} (zero : α) (size : Nat) (rows : List (List α)) : Square size α :=
  Table.tabulate fun i => Table.tabulate fun j => ((rows[i.val]?.bind (·[j.val]?))).getD zero

/-- The rows filled up with zeros on the right and below. Rows that are longer stay as they are. -/
def widen {α : Type} (zero : α) (size : Nat) (rows : List (List α)) : List (List α) :=
  rows.map (fun row => row ++ List.replicate (size - row.length) zero) ++
    List.replicate (size - rows.length) (List.replicate size zero)

/-- The entries of rows that are longer than the size, as far as they lie beyond it. -/
def beyond {α : Type} (size : Nat) (rows : List (List α)) : List α :=
  rows.flatMap (·.drop size)

end Optima.Assignment
