import Optima.Number.Binary64

/-!
Decimals, and the two ways between them and doubles: the double nearest to a decimal
(`Decimal.toBinary64`), and the shortest decimal that is read back as a given double (`shortest`).
Of the decimals with the fewest digits, `shortest` takes the one nearest to the value. Both are
exact computations on `Nat`.
-/

namespace Optima

/-- A decimal `digits * 10 ^ exponent`. -/
structure Decimal where
  digits : Nat
  exponent : Int
  deriving DecidableEq, Repr

namespace Decimal

/-- How many decimal digits a number has; zero has one. -/
def digitCount (n : Nat) : Nat := (Nat.toDigits 10 n).length

/-- The power of ten above the fraction bar. -/
def above (exponent : Int) : Nat := Nat.pow 10 exponent.toNat

/-- The power of ten below the fraction bar. -/
def below (exponent : Int) : Nat := Nat.pow 10 (-exponent).toNat

/-! ### Reading -/

/-- The double nearest to a decimal. Decimals far outside the range of doubles are recognised by
their size alone, so that no huge power is formed. -/
def toBinary64 (negative : Bool) (d : Decimal) : Binary64 :=
  let size : Int := digitCount d.digits + d.exponent
  if d.digits = 0 ∨ size < -330 then Binary64.ofQuotient negative 0 1
  else if size > 330 then .infinite negative
  else Binary64.ofQuotient negative (d.digits * above d.exponent * Binary64.unit) (below d.exponent)

/-! ### Writing -/

/-- The exponent of the leading digit of a magnitude: the least positive one has exponent -324. -/
def leading (m : Nat) : Int := digitCount (m * Nat.pow 10 324 / Binary64.unit) - 325

/-- The decimal lies in the interval of values that are read as the magnitude `m`. Its ends are
half-way to the neighbours, and belong to it iff `m` is an even grid point. Ends are counted in
half units. -/
def readsBackAs (d : Decimal) (m : Nat) : Bool :=
  let step := Binary64.gridStep m
  let low := (2 * m - Binary64.gridStep (m - 1)) * below d.exponent
  let high := (2 * m + step) * below d.exponent
  let value := 2 * Binary64.unit * d.digits * above d.exponent
  if m / step % 2 = 0 then low ≤ value && value ≤ high else low < value && value < high

/-- The decimal with the given last digit's exponent that is read back as `m` and lies nearest to
it, if there is one; of two equally near the even one. -/
def onGrid? (m : Nat) (exponent : Int) : Option Decimal :=
  let scaled := m * below exponent
  let one := Binary64.unit * above exponent
  let down : Decimal := ⟨scaled / one, exponent⟩
  let up : Decimal := ⟨scaled / one + 1, exponent⟩
  let nearest : Decimal := ⟨roundEven scaled one, exponent⟩
  if nearest.readsBackAs m then some nearest
  else if down.readsBackAs m then some down
  else if up.readsBackAs m then some up
  else none

/-- Without trailing zeros. -/
def trim (d : Decimal) : Decimal :=
  let zeros := ((Nat.toDigits 10 d.digits).reverse.takeWhile (· = '0')).length
  if d.digits = 0 then ⟨0, 0⟩ else ⟨d.digits / Nat.pow 10 zeros, d.exponent + zeros⟩

/-- The shortest decimal that is read back as a positive magnitude: seventeen digits always
suffice. -/
def shortest (m : Nat) : Decimal :=
  let first := leading m
  let found := (List.range 17).findSome? fun (more : Nat) => onGrid? m (first - more)
  (found.getD ⟨m * below (first - 16) / (Binary64.unit * above (first - 16)), first - 16⟩).trim

end Decimal

end Optima
