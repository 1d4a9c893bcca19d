import Optima.Datum.Basic
import Optima.Failure

/-!
Declared nodes. A problem on a graph declares its nodes in a list, and a node is worked with by its
position there. Names have to be pairwise distinct (`repeated?`); then every declared node has one
position and every other name none.

Names that nobody has read yet may be data of any kind (`numbered`). Numbers and truth values are
then compared by value, whichever way they are written.
-/

namespace Optima.Nodes

/-- The position of a node. -/
def position? (nodes : List NodeId) (node : NodeId) : Option (Fin nodes.length) :=
  nodes.finIdxOf? node

/-- The wording for a name that occurs a second time. -/
def repeatedMessage (name : String) : String := "duplicate node id " ++ name

/-! ### Names of any kind -/

/-- The value of a number or a truth value. -/
def value? : Datum → Option Number
  | .number a => some a
  | .bool b => some (.int (if b then 1 else 0))
  | _ => none

/-- Two names are the same. -/
def agree (x y : Datum) : Bool :=
  match x, y with
  | .null, .null => true
  | .text s, .text t => s = t
  | x, y => match value? x, value? y with
    | some a, some b => a.same b
    | _, _ => false

/-- Data that has parts cannot be a name. -/
def checkName : Datum → Except Failure Unit
  | .null | .bool _ | .number _ | .text _ => .ok ()
  | d => .error (.unhashable d.typeName)

/-- Numbers names after those that were numbered before. -/
def numberedAfter (before : List Datum) : List Datum → Except Failure (List (Datum × Nat))
  | [] => .ok []
  | d :: rest => do
      checkName d
      if before.any (agree d) then
        throw (.worded .invalidInput (repeatedMessage <$> d.shownInside))
      return (d, before.length) :: (← numberedAfter (before ++ [d]) rest)

/-- Names with their positions. -/
def numbered (names : List Datum) : Except Failure (List (Datum × Nat)) := numberedAfter [] names

end Optima.Nodes
