import Optima.Assignment.Basic
import Optima.Assignment.MixedAuction

/-!
Cost matrices given by rows that need not be of one length, and matchings given by lists that need
not fit. The algorithms look at one entry after the other: what lies beyond the square is passed
over, except that it counts for the spread of an auction, and a missing entry stops the algorithm
where it is asked for. Before that, all that comes first is done, so every checkpoint up to there is
passed.
-/

namespace Optima.Assignment.Ragged

variable {α : Type} [Quantity α]

/-- The first row that lacks an entry. -/
def shortRow? (rows : List (List α)) : Option (Fin rows.length) :=
  (List.finRange rows.length).find? fun i => rows[i].length < rows.length

/-- The square that the rows begin with. -/
def square (rows : List (List Number)) : Square rows.length Number := pad (.int 0) _ rows

/-- How many entries a row has. -/
def widthOf (rows : List (List Number)) (i : Fin rows.length) : Nat := rows[i].length

/-! ### The Hungarian method -/

/-- Lets the rows before `k` enter, and looks at the entries that the row `k` has. -/
def enterUpTo {n : Nat} (cost : Square n Number) (k : Fin n) (width : Nat) :
    Run Failure (Table n (Fin n) × Nat) := do
  let s ← ((List.finRange n).take k.val).foldlM (fun s i => do
    Run.check
    Run.ofExcept (Hungarian.enter cost s i)) Hungarian.State.start
  Run.check
  let _ ← Run.arith (((List.finRange n).take width).foldlM
    (Hungarian.look (cost.get k) s k none) Hungarian.Tree.root)
  Run.fail .outOfRange

/-- The Hungarian method on rows. -/
def hungarian (rows : List (List Number)) :
    Run Failure (Table rows.length (Fin rows.length) × Nat) :=
  match shortRow? rows with
  | some k => enterUpTo (square rows) k (widthOf rows k)
  | none => Assignment.hungarian (square rows)

/-! ### The auction -/

/-- The rows as a square of integers and the integers beyond it, if there is nothing else. -/
def integral? (rows : List (List Number)) : Option (Square rows.length Int × List Int) := do
  if (shortRow? rows).isSome then none
  else return (← ints? (square rows), ← (beyond rows.length rows).mapM Number.int?)

/-- The auction on rows. A single row gets the single column whatever it holds. Where the entries are
not all integers, `patience` says when to give up. -/
def auction (patience : Nat) (rows : List (List Number)) :
    Run Failure (Table rows.length (Fin rows.length) × Nat) :=
  if rows.length = 1 then pure (Table.tabulate id, 1)
  else match integral? rows with
    | some (cost, outside) => Auction.solve cost outside
    | none => MixedAuction.solve patience rows

/-! ### The lexicographically smallest assignment -/

/-- The rows that have the columns of a matching: the last one that claims a column has it, and
unclaimed columns belong to the first row. A row number may lie beyond the matrix. -/
def claims {n : Nat} (columns : List (Fin n)) : Table n Nat :=
  columns.zipIdx.foldl (fun rowOf (j, i) => rowOf.update j i) (Table.fill n 0)

/-- Looks at the columns before `k` in turn, and then at a column whose row is missing. -/
def visitUpTo {n : Nat} (tolerance : Number) (cost : Square n Number) (rowOf : Table n (Fin n))
    (k : Fin n) : Run Failure (Table n (Fin n)) := do
  let _ ← ((List.finRange n).take k.val).foldlM (fun s j => do
    Run.tick
    Run.ofExcept (Lexicographic.visit tolerance cost rowOf j s)) (Lexicographic.Search.start cost)
  Run.tick
  Run.fail .outOfRange

/-- The columns that a list gives to rows, negative ones counted from the end. -/
def columnsOf? (n : Nat) (columns : List Int) : Option (List (Fin n)) :=
  columns.mapM (Table.index? n)

/-- The lexicographically smallest assignment that costs as little as the one in which each row has
the column of a list. -/
def canonical (rows : List (List Number)) (columns : List Int) (tolerance : Number) :
    Run Failure (Table rows.length (Fin rows.length)) :=
  let cost := square rows
  match columnsOf? rows.length columns with
  | none => Run.fail .writtenOutOfRange
  | some columns =>
      if (shortRow? rows).isSome then Run.fail .outOfRange
      else
        let rowOf := claims columns
        let row (j : Fin rows.length) : Fin rows.length :=
          ⟨if rowOf.get j < rows.length then rowOf.get j else 0, by
            have := j.isLt
            split <;> omega⟩
        match (List.finRange rows.length).find? fun j => rows.length ≤ rowOf.get j with
        | some k => visitUpTo tolerance cost (Table.tabulate row) k
        | none =>
            let columnOf : Table rows.length (Fin rows.length) :=
              Table.tabulate fun i => columns[i.val]?.getD i
            if columns.length < rows.length then
              Lexicographic.settleSome cost ⟨columnOf, Table.tabulate row⟩ tolerance columns.length
            else Assignment.canonical cost columnOf tolerance

end Optima.Assignment.Ragged
