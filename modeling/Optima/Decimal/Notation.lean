import Optima.Decimal.Basic
import Optima.Number.Basic

/-!
How numbers are written in messages and answers. The digits come from `Decimal.shortest`; what is
decided here is only the layout: from which exponents on the point is no longer placed
(`Layout`), and the names of the values that have no digits.
-/

namespace Optima

/-- The layout of a decimal. -/
structure Layout where
  /-- The least exponent of the leading digit that is written with a plain point. -/
  plainFrom : Int
  /-- The least exponent of the leading digit that is written with a power of ten again. -/
  plainBelow : Int
  /-- The least number of digits of a written exponent. -/
  exponentWidth : Nat

namespace Layout

/-- A plain point from `0.0001` up to sixteen digits before the point, and two digits of exponent
otherwise. -/
def standard : Layout := ⟨-4, 16, 2⟩

/-- Padded with zeros on the left. -/
def padLeft (width : Nat) (digits : List Char) : List Char :=
  List.replicate (width - digits.length) '0' ++ digits

/-- The digits with a point placed after the one of exponent 0; a whole number keeps one zero
behind its point. -/
def plain (digits : List Char) (leading : Int) : List Char :=
  if leading < 0 then '0' :: '.' :: List.replicate (-leading - 1).toNat '0' ++ digits
  else
    let whole := leading.toNat + 1
    if digits.length ≤ whole then
      digits ++ List.replicate (whole - digits.length) '0' ++ ['.', '0']
    else digits.take whole ++ '.' :: digits.drop whole

/-- The digits with a point after the first one, and a power of ten. -/
def scientific (layout : Layout) (digits : List Char) (leading : Int) : List Char :=
  let mantissa := match digits with
    | [] => []
    | [d] => [d]
    | d :: rest => d :: '.' :: rest
  let sign := if leading < 0 then '-' else '+'
  mantissa ++ 'e' :: sign :: padLeft layout.exponentWidth (Nat.toDigits 10 leading.natAbs)

/-- A decimal in this layout. -/
def write (layout : Layout) (d : Decimal) : String :=
  let digits := Nat.toDigits 10 d.digits
  let leading := d.exponent + digits.length - 1
  String.ofList (if layout.plainFrom ≤ leading ∧ leading < layout.plainBelow
    then plain digits leading else layout.scientific digits leading)

end Layout

/-- The text of a double: the shortest decimal that is read back as it. -/
def Binary64.text : Binary64 → String
  | .nan => "nan"
  | .infinite negative => if negative then "-inf" else "inf"
  | .finite negative magnitude _ _ =>
      let digits :=
        if magnitude = 0 then "0.0" else Layout.standard.write (Decimal.shortest magnitude)
      if negative then "-" ++ digits else digits

/-- Integers from here on have too many digits to be written into a message. -/
def writtenBound : Nat := Nat.pow 10 4300

/-- The text of an integer that a computation led to. -/
def written (i : Int) : Except Fault String :=
  if i.natAbs < writtenBound then .ok (toString i) else .error .unwritable

/-- The text of a number. -/
def Number.text : Number → String
  | .int i => toString i
  | .real x => x.text

/-- The text of a number that a computation led to. -/
def Number.written : Number → Except Fault String
  | .int i => Optima.written i
  | .real x => .ok x.text

end Optima
