import Optima.Assignment.Auction
import Optima.Number.Basic

/-!
The auction in mixed numbers, on rows that need not be of one length. It goes by the rules of
`Optima.Assignment.Auction`, but doubles round and may fail to be comparable, so nothing is known of
how it ends. An entry that a row lacks stops the auction when it is asked for.
-/

namespace Optima.Assignment.MixedAuction

variable {n : Nat}

/-- The benefit of an entry. -/
def benefitOf (n : Nat) (cost : Number) : Except Fault Number := cost.neg.mul (.int (n + 1))

/-- The difference between the greatest and the least benefit. -/
def spread (benefit : List (List Number)) : Except Failure Number :=
  let most := (benefit.mapM Number.greatest?).bind Number.greatest?
  let least := (benefit.mapM Number.least?).bind Number.least?
  match most, least with
  | some most, some least => Failure.arith (most.sub least)
  | _, _ => .error .nothingToCompare

/-! ### Epsilon -/

/-- The whole part of a share; of what is not finite there is none. -/
def share (parts : Nat) : Number → Number
  | .int i => .int (i.fdiv parts)
  | .real x => match x.units? with
    | some units => .real ((Binary64.ofInt? (units.fdiv (parts * Binary64.unit))).getD .nan)
    | none => .real .nan

/-- One, unless a number is known to be more. -/
def atLeastOne (x : Number) : Number := if (Number.int 1).less x then x else .int 1

/-! ### Bidding -/

/-- The best offer so far: the column, its value, and the second best value. -/
structure Offer (n : Nat) where
  column : Fin n
  best : Number
  second : Option Number

/-- Prices, who holds what, and the rows that have to bid. -/
structure Market (n : Nat) where
  price : Table n Number
  rowOf : Table n (Option (Fin n))
  columnOf : Table n (Option (Fin n))
  queue : List (Fin n)
  bids : Nat

/-- One more column taken into account. -/
def consider (benefit : List Number) (price : Table n Number) (offer : Option (Offer n))
    (j : Fin n) : Except Failure (Option (Offer n)) := do
  let some gain := benefit[j.val]? | throw .outOfRange
  let value ← Failure.arith (gain.sub (price.get j))
  match offer with
  | none => return some ⟨j, value, none⟩
  | some o =>
      if o.best.less value then return some ⟨j, value, some o.best⟩
      if o.second.all (·.less value) then return some { o with second := some value }
      return some o

/-- The row `i` bids. -/
def bid (benefit : List Number) (epsilon : Number) (i : Fin n) (m : Market n) :
    Except Failure (Market n) := do
  match ← (List.finRange n).foldlM (consider benefit m.price) none with
  | none => return m
  | some offer =>
      let j := offer.column
      let lead ← Failure.arith (offer.best.sub (offer.second.getD offer.best))
      let price ← Failure.arith do (m.price.get j).add (← lead.add epsilon)
      let before := m.rowOf.get j
      let columnOf := m.columnOf.update i (some j)
      return {
        price := m.price.update j price
        rowOf := m.rowOf.update j (some i)
        columnOf := match before with
          | some k => columnOf.update k none
          | none => columnOf
        queue := m.queue ++ before.toList
        bids := m.bids + 1 }

/-- Bids until every row has a column; there is a checkpoint before each. -/
def trade (benefit : Table n (List Number)) (epsilon : Number) :
    Nat → Market n → Run Failure (Market n)
  | fuel, m => match m.queue, fuel with
    | [], _ => pure m
    | _, 0 => Run.fail .endless
    | i :: rest, fuel + 1 => do
        Run.tick
        trade benefit epsilon fuel
          (← Run.ofExcept (bid (benefit.get i) epsilon i { m with queue := rest }))

/-- Phase after phase, until epsilon is one. Where prices are doubles a bid may fail to raise one,
so it is for the caller to say after how many bids a phase is given up as endless. -/
def phases (patience : Nat) (benefit : Table n (List Number)) :
    Nat → Number → Market n → Run Failure (Market n)
  | 0, _, _ => Run.fail .endless
  | fuel + 1, epsilon, m => do
      let m ← trade benefit epsilon patience {
        m with rowOf := Table.fill n none, columnOf := Table.fill n none, queue := List.finRange n }
      if epsilon.same (.int 1) then return m
      phases patience benefit fuel (atLeastOne (share 4 epsilon)) m

/-- The columns of the rows, and the number of bids. No more phases are taken than bids are allowed
for each. -/
def solve (patience : Nat) (rows : List (List Number)) :
    Run Failure (Table rows.length (Fin rows.length) × Nat) := do
  let benefit ← Run.arith (rows.mapM (·.mapM (benefitOf rows.length)))
  let range ← Run.ofExcept (spread benefit)
  let m ← phases patience (Table.tabulate fun i => benefit[i.val]?.getD []) patience
    (atLeastOne (share 2 range))
    ⟨Table.fill _ (.int 0), Table.fill _ none, Table.fill _ none, [], 0⟩
  match Auction.perfect? m.columnOf with
  | some columnOf => return (columnOf, m.bids)
  | none => Run.fail Auction.imperfect

end Optima.Assignment.MixedAuction
