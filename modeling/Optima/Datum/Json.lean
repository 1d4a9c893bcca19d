import Optima.Datum.Basic
import Optima.Decimal.Numeral

/-!
Data from JSON text. Besides the standard grammar, `NaN`, `Infinity` and `-Infinity` are numbers.
A number is an integer unless it has a point or a power of ten. Of several fields with one key the
last value counts, in the place of the first. A text that is not JSON, or in which lists and objects
stand inside each other more than a given number of times, is refused without a reason (`ofJson?`),
and so are bytes that are not text (`ofJsonBytes?`).

Every reading function takes what it needs off the front of the text and returns the rest. Fuel
bounds the recursion, and twice the text's length is always enough; the depth that is left counts
only lists and objects that hold something.
-/

namespace Optima.Datum

namespace Json

/-- White space between tokens. -/
def isSpace (c : Char) : Bool := c = ' ' || c = '\t' || c = '\n' || c = '\r'

/-- The text behind leading white space. -/
def skip (cs : List Char) : List Char := cs.dropWhile isSpace

/-- The value of a digit in base sixteen. -/
def hexValue? (c : Char) : Option Nat :=
  if c.isDigit then some (c.toNat - '0'.toNat)
  else if 'a' ≤ c ∧ c ≤ 'f' then some (c.toNat - 'a'.toNat + 10)
  else if 'A' ≤ c ∧ c ≤ 'F' then some (c.toNat - 'A'.toNat + 10)
  else none

/-- Four digits in base sixteen. -/
def takeHex : List Char → Option (Nat × List Char)
  | a :: b :: c :: d :: rest => do
      let a ← hexValue? a
      let b ← hexValue? b
      let c ← hexValue? c
      let d ← hexValue? d
      return (((a * 16 + b) * 16 + c) * 16 + d, rest)
  | _ => none

/-- A character written by its code. Code points beyond the first plane take two codes, a high and
a low surrogate; a surrogate on its own is refused. -/
def takeCode (cs : List Char) : Option (Char × List Char) := do
  let (high, rest) ← takeHex cs
  if 0xD800 ≤ high ∧ high < 0xDC00 then
    match rest with
    | '\\' :: 'u' :: more =>
        let (low, rest) ← takeHex more
        guard (0xDC00 ≤ low ∧ low < 0xE000)
        return (Char.ofNat (0x10000 + (high - 0xD800) * 0x400 + (low - 0xDC00)), rest)
    | _ => none
  else
    guard (¬ (0xDC00 ≤ high ∧ high < 0xE000))
    return (Char.ofNat high, rest)

/-- The character behind a backslash. -/
def takeEscape : List Char → Option (Char × List Char)
  | '"' :: rest => some ('"', rest)
  | '\\' :: rest => some ('\\', rest)
  | '/' :: rest => some ('/', rest)
  | 'b' :: rest => some (Char.ofNat 8, rest)
  | 'f' :: rest => some (Char.ofNat 12, rest)
  | 'n' :: rest => some ('\n', rest)
  | 'r' :: rest => some ('\r', rest)
  | 't' :: rest => some ('\t', rest)
  | 'u' :: rest => takeCode rest
  | _ => none

/-- The characters of a text up to its closing quote. -/
def takeText : Nat → List Char → Option (List Char × List Char)
  | 0, _ | _, [] => none
  | fuel + 1, c :: rest =>
      if c = '"' then some ([], rest)
      else if c = '\\' then do
        let (escaped, rest) ← takeEscape rest
        let (more, rest) ← takeText fuel rest
        return (escaped :: more, rest)
      else if c.toNat < 0x20 then none
      else do
        let (more, rest) ← takeText fuel rest
        return (c :: more, rest)

/-- The fields with one more put behind them, or in place of the one with its key. -/
def putField (fields : List (String × Datum)) (key : String) (d : Datum) : List (String × Datum) :=
  if fields.any (·.1 = key) then
    fields.map fun field => if field.1 = key then (key, d) else field
  else fields ++ [(key, d)]

/-- The text behind an expected word. -/
def takeWord (word : String) (cs : List Char) : Option (List Char) :=
  if word.toList.isPrefixOf cs then some (cs.drop word.length) else none

/-- A word that stands for a value. -/
def takeConstant (cs : List Char) : Option (Datum × List Char) :=
  let constants : List (String × Datum) := [("null", .null), ("true", .bool true),
    ("false", .bool false), ("NaN", .real .nan), ("Infinity", .real (.infinite false)),
    ("-Infinity", .real (.infinite true))]
  constants.findSome? fun (word, d) => (takeWord word cs).map (d, ·)

mutual

/-- A value, with white space before and behind it. -/
def takeValue : Nat → Nat → List Char → Option (Datum × List Char)
  | 0, _, _ => none
  | fuel + 1, depth, cs => do
      let (d, rest) ← match skip cs with
        | '"' :: rest => do
            let (body, rest) ← takeText fuel rest
            pure (Datum.text (String.ofList body), rest)
        | '[' :: rest => match skip rest with
            | ']' :: after => pure (Datum.list [], after)
            | inner => do
                guard (0 < depth)
                let (items, after) ← takeItems fuel (depth - 1) inner
                pure (Datum.list items, after)
        | '\x7b' :: rest => match skip rest with
            | '\x7d' :: after => pure (Datum.object [], after)
            | inner => do
                guard (0 < depth)
                let (fields, after) ← takeFields fuel (depth - 1) [] inner
                pure (Datum.object fields, after)
        | inner => match takeConstant inner with
            | some found => pure found
            | none => do
                let (n, after) ← Numeral.takeNumber inner
                pure (Datum.number n, after)
      return (d, skip rest)

/-- The items of a list up to its closing bracket. -/
def takeItems : Nat → Nat → List Char → Option (List Datum × List Char)
  | 0, _, _ => none
  | fuel + 1, depth, cs => do
      let (d, rest) ← takeValue fuel depth cs
      match rest with
      | ']' :: after => return ([d], after)
      | ',' :: more =>
          let (items, after) ← takeItems fuel depth more
          return (d :: items, after)
      | _ => none

/-- The fields of an object up to its closing brace, put behind those already read. -/
def takeFields : Nat → Nat → List (String × Datum) → List Char →
    Option (List (String × Datum) × List Char)
  | 0, _, _, _ => none
  | fuel + 1, depth, read, cs => match skip cs with
      | '"' :: rest => do
          let (key, rest) ← takeText fuel rest
          match skip rest with
          | ':' :: rest => do
              let (d, rest) ← takeValue fuel depth rest
              let fields := putField read (String.ofList key) d
              match rest with
              | '\x7d' :: after => return (fields, after)
              | ',' :: more => takeFields fuel depth fields more
              | _ => none
          | _ => none
      | _ => none

end

end Json

/-- The data that a JSON text of at most the given depth denotes. -/
def ofJson? (deepest : Nat) (text : String) : Option Datum := do
  let cs := text.toList
  let (d, rest) ← Json.takeValue (2 * cs.length + 2) deepest cs
  guard rest.isEmpty
  return d

/-- The data that the bytes of a JSON text of at most the given depth denote. -/
def ofJsonBytes? (deepest : Nat) (bytes : ByteArray) : Option Datum := do
  ofJson? deepest (← String.fromUTF8? bytes)

end Optima.Datum
