import Optima.Decimal.Basic
import Optima.Number.Basic
import Optima.Text.Character

/-!
Numbers written as text. Three grammars are in use:

* `takeNumber` takes a number off the front of a structured text: no leading zeros or plus sign, and
  digits on both sides of a point;
* `readInt` reads a text that stands where an integer is wanted: white space, a plus sign, leading
  zeros, a fraction of zeros and underscores between characters are taken away first;
* `readReal?` reads a text that stands where a double is wanted: a point with digits on at least one
  side, a power of ten, or a name of an infinite value or `nan`; underscores between characters are
  taken away, but then white space is not.

Digits are the ten of ASCII. Integers of more than `longest` characters are refused.
-/

namespace Optima

namespace Numeral

/-- The number that a run of digits denotes. -/
def value (digits : List Char) : Nat :=
  digits.foldl (fun n c => 10 * n + (c.toNat - '0'.toNat)) 0

/-- The leading digits, and the rest. -/
def takeDigits (cs : List Char) : List Char × List Char :=
  (cs.takeWhile Char.isDigit, cs.dropWhile Char.isDigit)

/-- The sign in front of a number: whether it is a minus, and the rest. -/
def takeSign : List Char → Bool × List Char
  | '-' :: rest => (true, rest)
  | '+' :: rest => (false, rest)
  | rest => (false, rest)

/-- A number with a sign. -/
def signed (negative : Bool) (n : Nat) : Int := if negative then -n else n

/-- The decimal with the given digits before and behind the point, and power of ten. -/
def decimal (whole fraction : List Char) (exponent : Int) : Decimal :=
  ⟨value (whole ++ fraction), exponent - fraction.length⟩

/-- A power of ten, if one stands here: the mark, a sign and at least one digit. -/
def takeExponent : List Char → Option (Int × List Char)
  | [] => some (0, [])
  | c :: rest =>
      if c = 'e' ∨ c = 'E' then
        let (negative, body) := takeSign rest
        match takeDigits body with
        | ([], _) => none
        | (digits, after) => some (signed negative (value digits), after)
      else some (0, c :: rest)

/-! ### Numbers of a structured text -/

/-- The most characters that the whole part of a number may have, its minus sign included. -/
def longest : Nat := 4300

/-- A minus sign in front of a number, if one stands here, and the rest. -/
def takeMinus : List Char → Bool × List Char
  | '-' :: rest => (true, rest)
  | rest => (false, rest)

/-- The number of characters of a whole part. -/
def width (negative : Bool) (whole : List Char) : Nat :=
  whole.length + if negative then 1 else 0

/-- A number taken off the front of a text: an integer unless it has a point or a power of ten. -/
def takeNumber (cs : List Char) : Option (Number × List Char) :=
  let (negative, body) := takeMinus cs
  match takeDigits body with
  | ([], _) => none
  | ('0' :: _ :: _, _) => none
  | (whole, rest) => do
      guard (width negative whole ≤ longest)
      if let '.' :: rest := rest then
        let (fraction, after) := takeDigits rest
        guard (!fraction.isEmpty)
        let (exponent, left) ← takeExponent after
        return (.real ((decimal whole fraction exponent).toBinary64 negative), left)
      if rest.head? = some 'e' ∨ rest.head? = some 'E' then
        let (exponent, left) ← takeExponent rest
        return (.real ((decimal whole [] exponent).toBinary64 negative), left)
      return (.int (signed negative (value whole)), rest)

/-! ### Numbers given as text -/

/-- Why a text is not an integer. -/
inductive Refusal where
  | unreadable
  /-- It begins with more digits than are read. -/
  | tooLong
  deriving DecidableEq, Repr

/-- Every underscore stands alone between two other characters, and there is a character at all. The
first argument says whether a character that is no underscore stands before. -/
def grouped : Bool → List Char → Bool
  | before, [] => before
  | before, c :: rest => if c = '_' then before && grouped false rest else grouped true rest

/-- Without underscores, if they all stand alone between other characters. -/
def ungroup (cs : List Char) : List Char :=
  if grouped false cs then cs.filter (· ≠ '_') else cs

/-- What is left behind a leading zero, the last character of which was the given one: further zeros
and underscores are passed over up to another digit, a minus sign or a point. -/
def behindZeros (last : Char) : List Char → Option (List Char)
  | [] => some [last]
  | c :: rest =>
      if c = '0' ∨ c = '_' then behindZeros c rest
      else if c.isDigit ∨ c = '-' then some (c :: rest)
      else if c = '.' then some (last :: c :: rest)
      else none

/-- Without leading zeros, except for one in front of a point or at the end. -/
def withoutZeros? : List Char → Option (List Char)
  | [] => none
  | c :: rest =>
      if c = '0' then behindZeros c rest
      else if c.isDigit ∨ c = '-' then some (c :: rest)
      else none

/-- Without a fraction that consists of zeros. -/
def withoutFraction (cs : List Char) : List Char :=
  match cs.dropWhile (· ≠ '.') with
  | _ :: zero :: zeros => if (zero :: zeros).all (· = '0') then cs.takeWhile (· ≠ '.') else cs
  | _ => cs

/-- The text of an integer without what may be taken away. -/
def cleaned? (cs : List Char) : Option (List Char) := do
  let body ← match Text.trim Text.isBlank cs with
    | '+' :: '-' :: _ => none
    | '+' :: rest => some rest
    | rest => some rest
  return ungroup (withoutFraction (← withoutZeros? body))

/-- An integer with nothing to be taken away. -/
def plainInt (cs : List Char) : Except Refusal Int :=
  let (negative, body) := takeMinus cs
  match takeDigits body with
  | ([], _) => .error .unreadable
  | ('0' :: _ :: _, _) => .error .unreadable
  | (whole, rest) =>
      if longest < width negative whole then .error .tooLong
      else if !rest.isEmpty then .error .unreadable
      else .ok (signed negative (value whole))

/-- The integer that a text denotes. Only a text with nothing to be taken away is refused for its
length. -/
def readInt (text : String) : Except Refusal Int :=
  match plainInt text.toList with
  | .error .unreadable => match (cleaned? text.toList).map plainInt with
    | some (.ok i) => .ok i
    | _ => .error .unreadable
  | result => result

/-- The double that a text without white space and underscores denotes; past the largest double it
is infinite. -/
def plainReal? (cs : List Char) : Option Binary64 := do
  let (negative, body) := takeSign cs
  let word := String.ofList (body.map Char.toLower)
  if word = "inf" ∨ word = "infinity" then return .infinite negative
  if word = "nan" then return .nan
  let (whole, rest) := takeDigits body
  let (fraction, rest) := match rest with
    | '.' :: more => takeDigits more
    | more => ([], more)
  guard (!(whole ++ fraction).isEmpty)
  let (exponent, rest) ← takeExponent rest
  guard rest.isEmpty
  return (decimal whole fraction exponent).toBinary64 negative

/-- The double that a text denotes. -/
def readReal? (text : String) : Option Binary64 :=
  plainReal? (Text.trim Text.isBlank text.toList) <|> plainReal? (ungroup text.toList)

end Numeral

end Optima
