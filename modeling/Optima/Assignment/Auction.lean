import Optima.Run
import Optima.Table

/-!
The auction. Rows bid for columns: a row without a column takes the one of greatest value to it, its
benefit less the price, and raises the price by the lead of the best value over the second best and
by `epsilon`. The row that held the column before has to bid again. Prices are kept from phase to
phase, while `epsilon` is divided by four until it is one. It starts at half the spread of the
benefits, which counts entries beyond the square too. Benefits are multiples of `n + 1`, so that an
assignment within `n` of the best is the best.

In a phase the price of a column cannot rise above the highest price at its beginning by more than
the spread of the benefits and `epsilon` before every column has been bid for, and then the phase is
over; this bounds the number of bids (`bidBound`).
-/

namespace Optima.Assignment.Auction

variable {n : Nat}

/-- The benefit of an entry. -/
def benefitOf (n : Nat) (cost : Int) : Int := -cost * (n + 1)

/-- The benefit of each column to each row. -/
def benefits (cost : Square n Int) : Square n Int :=
  Table.tabulate fun i => Table.tabulate fun j => benefitOf n ((cost.get i).get j)

/-- The difference between the greatest and the least of a list of values. -/
def spread : List Int → Nat
  | [] => 0
  | x :: rest => (rest.foldl max x - rest.foldl min x).toNat

/-- All values of a square table. -/
def allValues (t : Square n Int) : List Int := t.values.flatMap Table.values

/-- The state of a phase: prices, who holds what, and the rows that have to bid. -/
structure Market (n : Nat) where
  price : Table n Int
  rowOf : Table n (Option (Fin n))
  columnOf : Table n (Option (Fin n))
  queue : List (Fin n)
  bids : Nat

/-- The best offer so far: the column, its value, and the second best value. -/
structure Offer (n : Nat) where
  column : Fin n
  best : Int
  second : Option Int

/-- One more column taken into account. -/
def Offer.consider (value : Fin n → Int) (offer : Option (Offer n)) (j : Fin n) :
    Option (Offer n) :=
  match offer with
  | none => some ⟨j, value j, none⟩
  | some o =>
      if o.best < value j then some ⟨j, value j, some o.best⟩
      else match o.second with
        | none => some { o with second := some (value j) }
        | some second => if second < value j then some { o with second := some (value j) } else o

/-- The best offer among all columns; of equal values the first counts. -/
def bestOffer (value : Fin n → Int) : Option (Offer n) :=
  (List.finRange n).foldl (Offer.consider value) none

/-- The row `i` bids. -/
def bid (benefit : Square n Int) (epsilon : Nat) (i : Fin n) (m : Market n) : Market n :=
  match bestOffer fun j => (benefit.get i).get j - m.price.get j with
  | none => m
  | some offer =>
      let j := offer.column
      let lead := offer.best - offer.second.getD offer.best
      let price := m.price.update j (m.price.get j + (lead + epsilon))
      let before := m.rowOf.get j
      let columnOf := m.columnOf.update i (some j)
      { price := price
        rowOf := m.rowOf.update j (some i)
        columnOf := match before with
          | some k => columnOf.update k none
          | none => columnOf
        queue := m.queue ++ before.toList
        bids := m.bids + 1 }

/-- No more bids than this are made in a phase that starts at the given prices. -/
def bidBound (benefit : Square n Int) (epsilon : Nat) (price : Table n Int) : Nat :=
  n * ((price.values.foldl max 0).toNat + 2 * spread (allValues benefit) + 2 * epsilon) + n + 2

/-- Bids until every row has a column. -/
def trade (benefit : Square n Int) (epsilon : Nat) : Nat → Market n → Run Failure (Market n)
  | fuel, m => match m.queue, fuel with
    | [], _ => pure m
    | _, 0 => Run.fail .endless
    | i :: rest, fuel + 1 => do
        Run.tick
        trade benefit epsilon fuel (bid benefit epsilon i { m with queue := rest })

/-- A phase: nobody holds anything at its beginning. -/
def phase (benefit : Square n Int) (m : Market n) (epsilon : Nat) : Run Failure (Market n) :=
  trade benefit epsilon (bidBound benefit epsilon m.price)
    { m with rowOf := Table.fill n none, columnOf := Table.fill n none, queue := List.finRange n }

/-- The values of `epsilon` in turn: a quarter of the one before, down to one. -/
def schedule (epsilon : Nat) : List Nat :=
  if _h : epsilon ≤ 1 then [1] else epsilon :: schedule (max 1 (epsilon / 4))
termination_by epsilon

/-- The columns that rows hold, if each row has one of its own. -/
def perfect? (columnOf : Table n (Option (Fin n))) : Option (Table n (Fin n)) :=
  if columnOf.values.all (·.isSome) &&
      (List.finRange n).all (fun j => columnOf.values.contains (some j)) then
    some (Table.tabulate fun i => (columnOf.get i).getD i)
  else none

/-- Some row went without a column. -/
def imperfect : Failure := .internal "auction terminated without a perfect matching"

/-- The first value of `epsilon`. -/
def firstEpsilon (benefit : Square n Int) (outside : List Int) : Nat :=
  max 1 (spread (allValues benefit ++ outside.map (benefitOf n)) / 2)

/-- An assignment of least cost, and the number of bids. A single row gets the single column without
an auction, and without rows there is no greatest benefit to start from. Entries outside the square
count for the spread alone. -/
def solve (cost : Square n Int) (outside : List Int) : Run Failure (Table n (Fin n) × Nat) :=
  if n = 0 then Run.fail .nothingToCompare
  else if n = 1 then pure (Table.tabulate id, 1)
  else do
    let benefit := benefits cost
    let m ← (schedule (firstEpsilon benefit outside)).foldlM (phase benefit)
      ⟨Table.fill n 0, Table.fill n none, Table.fill n none, [], 0⟩
    match perfect? m.columnOf with
    | some columnOf => return (columnOf, m.bids)
    | none => Run.fail imperfect

end Optima.Assignment.Auction
