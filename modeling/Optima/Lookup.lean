import Optima.Failure
import Optima.Table

/-!
Arrays looked up by numbers of any size. Negative numbers count from the end, and what lies beyond
the array on either side is a failure.
-/

namespace Optima.Lookup

variable {α : Type}

/-- The value under a number. -/
def get (xs : Array α) (k : Int) : Except Failure α :=
  match Table.index? xs.size k with
  | some i => .ok xs[i]
  | none => .error .outOfRange

/-- The array with another value under a number. -/
def put (xs : Array α) (k : Int) (a : α) : Except Failure (Array α) :=
  match Table.index? xs.size k with
  | some i => .ok (xs.set i a)
  | none => .error .writtenOutOfRange

/-- The array with the value under a number changed. -/
def change (xs : Array α) (k : Int) (f : α → α) : Except Failure (Array α) := do
  put xs k (f (← get xs k))

/-- The index that a number is, not counted from the end. -/
def plain? (n : Nat) (k : Int) : Option (Fin n) := if 0 ≤ k then Table.index? n k else none

end Optima.Lookup
