import Optima.Number.Binary64

/-!
Numbers as problems state them: unbounded integers and doubles, kept apart. Arithmetic between
integers is exact; as soon as one operand is a double the other is rounded to a double first, which
fails when it is out of range. Comparison never rounds, whatever the operands.
-/

namespace Optima

/-- Why a computation on numbers, or the writing of data, stopped. -/
inductive Fault where
  /-- An integer beyond the range of doubles was needed as a double. -/
  | tooLarge
  /-- An infinite value was needed as an integer. -/
  | infinite
  /-- `nan` was needed as an integer. -/
  | notANumber
  /-- An integer of too many digits was to be written. -/
  | unwritable
  /-- Data in which too many values stand inside each other was to be written. -/
  | tooDeep
  deriving DecidableEq, Repr

namespace Fault

/-- The class of fault that a report names. -/
def label : Fault → String
  | tooLarge | infinite => "OverflowError"
  | notANumber | unwritable | tooDeep => "ValueError"

/-- The wording of a fault. -/
def message : Fault → String
  | tooLarge => "int too large to convert to float"
  | infinite => "cannot convert float infinity to integer"
  | notANumber => "cannot convert float NaN to integer"
  | unwritable => "Exceeds the limit (4300 digits) for integer string conversion; " ++
      "use sys.set_int_max_str_digits() to increase the limit"
  | tooDeep => "Circular reference detected (depth exceeded)"

end Fault

/-- A number of a problem or result. -/
inductive Number where
  | int (value : Int)
  | real (value : Binary64)
  deriving DecidableEq

namespace Number

instance : Inhabited Number := ⟨.int 0⟩

/-- The double nearest to a number. -/
def toReal : Number → Except Fault Binary64
  | .int i => match Binary64.ofInt? i with
    | some x => .ok x
    | none => .error .tooLarge
  | .real x => .ok x

/-- The integer part, toward zero. -/
def truncate : Number → Except Fault Int
  | .int i => .ok i
  | .real x => match x.truncate?, x with
    | some i, _ => .ok i
    | none, .nan => .error .notANumber
    | none, _ => .error .infinite

/-- The value as an integer, if it is written as one. -/
def int? : Number → Option Int
  | .int i => some i
  | .real _ => none

/-- Whole, whichever way it is written. -/
def isInteger : Number → Bool
  | .int _ => true
  | .real x => x.isInteger

/-! ### Arithmetic -/

/-- An operation that is exact on integers and rounds as soon as a double takes part. -/
def combine (exact : Int → Int → Int) (rounded : Binary64 → Binary64 → Binary64) :
    Number → Number → Except Fault Number
  | .int i, .int j => .ok (.int (exact i j))
  | a, b => do
      let x ← a.toReal
      let y ← b.toReal
      return .real (rounded x y)

/-- The sum of two numbers. -/
def add : Number → Number → Except Fault Number := combine (· + ·) (· + ·)

/-- The difference of two numbers. -/
def sub : Number → Number → Except Fault Number := combine (· - ·) (· - ·)

/-- The product of two numbers. -/
def mul : Number → Number → Except Fault Number := combine (· * ·) (· * ·)

/-- The number with the other sign. -/
def neg : Number → Number
  | .int i => .int (-i)
  | .real x => .real (-x)

/-- The magnitude of a number. -/
def abs : Number → Number
  | .int i => .int i.natAbs
  | .real x => .real x.abs

/-- The sum of a list, added from the left. -/
def sum (xs : List Number) : Except Fault Number := xs.foldlM add (.int 0)

/-! ### Order -/

/-- The exact value in units of the least double; none for infinities and `nan`. -/
def units? : Number → Option Int
  | .int i => some (i * Binary64.unit)
  | .real x => x.units?

/-- `a < b`. -/
def less : Number → Number → Bool
  | .int i, .int j => i < j
  | .real x, .real y => x.less y
  | .int i, .real y => match y with
    | .nan => false
    | .infinite negative => !negative
    | .finite .. => i * Binary64.unit < y.units?.getD 0
  | .real x, .int j => match x with
    | .nan => false
    | .infinite negative => negative
    | .finite .. => x.units?.getD 0 < j * Binary64.unit

/-- `a = b` as numbers. -/
def same : Number → Number → Bool
  | .real x, .real y => x.same y
  | a, b => match a.units?, b.units? with
    | some m, some k => m = k
    | _, _ => false

/-- `a ≤ b`. -/
def atMost (a b : Number) : Bool := a.less b || a.same b

/-- Below zero. -/
def isNegative (a : Number) : Bool := a.less (.int 0)

/-- Above zero. -/
def isPositive (a : Number) : Bool := (Number.int 0).less a

/-- The first of the greatest numbers of a list. -/
def greatest? : List Number → Option Number
  | [] => none
  | x :: xs => some (xs.foldl (fun best y => if best.less y then y else best) x)

/-- The first of the least numbers of a list. -/
def least? : List Number → Option Number
  | [] => none
  | x :: xs => some (xs.foldl (fun best y => if y.less best then y else best) x)

end Number

/-! ### Quantities -/

/-- What costs and distances may be measured in: the operations that the searches need. Results may
fail where mixed arithmetic does. -/
class Quantity (α : Type) where
  /-- The quantity that sums start from. -/
  nought : α
  add : α → α → Except Fault α
  sub : α → α → Except Fault α
  less : α → α → Bool
  /-- Below positive infinity. -/
  bounded : α → Bool
  /-- What a still unbounded label becomes when it is lowered by a quantity: it stays unbounded, or
  turns into a value that is not below anything. -/
  lowered : α → Except Fault (Option α)
  toNumber : α → Number

namespace Quantity

/-- Integers are exact and always bounded. -/
instance : Quantity Int where
  nought := 0
  add i j := .ok (i + j)
  sub i j := .ok (i - j)
  less i j := i < j
  bounded _ := true
  lowered _ := .ok none
  toNumber := .int

/-- Mixed numbers. -/
instance : Quantity Number where
  nought := .int 0
  add := Number.add
  sub := Number.sub
  less := Number.less
  bounded a := a.less (.real Binary64.infinity)
  lowered a := do
    let left ← Number.sub (.real Binary64.infinity) a
    return if left.same (.real Binary64.infinity) then none else some left
  toNumber a := a

end Quantity

end Optima
