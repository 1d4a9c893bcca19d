import Optima.Decimal.Notation
import Optima.NodeId

/-!
The data that requests consist of and answers are written in. A request is data of unknown shape
until a reader has accepted it, so this is the one place where values of different kinds share a
type.
-/

namespace Optima

/-- A piece of data. Requests hold no `table`: it is how answers write what is indexed by nodes. -/
inductive Datum where
  | null
  | bool (value : Bool)
  | number (value : Number)
  | text (value : String)
  | list (items : List Datum)
  | object (fields : List (String × Datum))
  | table (entries : List (NodeId × Datum))

namespace Datum

instance : Inhabited Datum := ⟨.null⟩

/-- An integer. -/
def int (i : Int) : Datum := .number (.int i)

/-- A double. -/
def real (x : Binary64) : Datum := .number (.real x)

/-- Something that may be absent. -/
def optional {α : Type} (write : α → Datum) : Option α → Datum
  | none => .null
  | some a => write a

/-- A list of things. -/
def listOf {α : Type} (write : α → Datum) (items : List α) : Datum := .list (items.map write)

/-- The name of a node. -/
def ofNodeId : NodeId → Datum
  | .int i => .int i
  | .text s => .text s

/-- The value under a key. -/
def lookup (fields : List (String × Datum)) (key : String) : Option Datum :=
  (fields.find? (·.1 = key)).map (·.2)

/-- The kind of data, as messages name it. -/
def typeName : Datum → String
  | .null => "NoneType"
  | .bool _ => "bool"
  | .number (.int _) => "int"
  | .number (.real _) => "float"
  | .text _ => "str"
  | .list _ => "list"
  | .object _ | .table _ => "dict"

/-- The data is this text. -/
def isText (word : String) : Datum → Bool
  | .text s => s = word
  | _ => false

@[simp] theorem isText_text (word s : String) : (text s).isText word = decide (s = word) := rfl

/-- Data that stands for yes: everything but null, false, zero and what is empty. -/
def isTruthy : Datum → Bool
  | .null => false
  | .bool b => b
  | .number x => !x.same (.int 0)
  | .text s => !s.isEmpty
  | .list items => !items.isEmpty
  | .object fields => !fields.isEmpty
  | .table entries => !entries.isEmpty

/-! ### Data shown in a message -/

mutual

/-- Data as it is shown inside other data: texts are quoted. -/
def shownInside : Datum → Except Fault String
  | .null => .ok "None"
  | .bool b => .ok (if b then "True" else "False")
  | .number n => n.written
  | .text s => .ok (Text.quoted s)
  | .list items => do return "[" ++ ", ".intercalate (← shownItems items) ++ "]"
  | .object fields => do return "\x7b" ++ ", ".intercalate (← shownFields fields) ++ "\x7d"
  | .table entries => do return "\x7b" ++ ", ".intercalate (← shownEntries entries) ++ "\x7d"

/-- The items of a list. -/
def shownItems : List Datum → Except Fault (List String)
  | [] => .ok []
  | d :: rest => do return (← shownInside d) :: (← shownItems rest)

/-- The fields of an object. -/
def shownFields : List (String × Datum) → Except Fault (List String)
  | [] => .ok []
  | (key, d) :: rest => do
      return (Text.quoted key ++ ": " ++ (← shownInside d)) :: (← shownFields rest)

/-- The entries of a table. -/
def shownEntries : List (NodeId × Datum) → Except Fault (List String)
  | [] => .ok []
  | (node, d) :: rest => do
      return ((← node.shown) ++ ": " ++ (← shownInside d)) :: (← shownEntries rest)

end

/-- Data as it is shown on its own: a text is itself. -/
def shown : Datum → Except Fault String
  | .text s => .ok s
  | d => shownInside d

/-- Data as it is shown where a message has to be had: what cannot be shown is named by its kind. -/
def printed (d : Datum) : String :=
  match d.shown with
  | .ok s => s
  | .error _ => "<unprintable " ++ d.typeName ++ " object>"

/-! ### Tables with text keys -/

/-- The entries of a table in which every key is a text. Where two nodes share a key, the later
value stands in the earlier place. -/
def putKey (entries : List (NodeId × Datum)) (key : String) (d : Datum) : List (NodeId × Datum) :=
  if entries.any (·.1 = .text key) then
    entries.map fun entry => if entry.1 = .text key then (entry.1, d) else entry
  else entries ++ [(.text key, d)]

mutual

/-- The same data with text keys only. There is none if a key cannot be written. -/
def withTextKeys : Datum → Except Fault Datum
  | .list items => do return .list (← itemsWithTextKeys items)
  | .object fields => do return .object (← fieldsWithTextKeys fields)
  | .table entries => do return .table (← entriesWithTextKeys entries [])
  | d => .ok d

/-- The items of a list. -/
def itemsWithTextKeys : List Datum → Except Fault (List Datum)
  | [] => .ok []
  | d :: rest => do return (← withTextKeys d) :: (← itemsWithTextKeys rest)

/-- The fields of an object. -/
def fieldsWithTextKeys : List (String × Datum) → Except Fault (List (String × Datum))
  | [] => .ok []
  | (key, d) :: rest => do return (key, ← withTextKeys d) :: (← fieldsWithTextKeys rest)

/-- The entries of a table, put after those already written. -/
def entriesWithTextKeys :
    List (NodeId × Datum) → List (NodeId × Datum) → Except Fault (List (NodeId × Datum))
  | [], written => .ok written
  | (node, d) :: rest, written => do
      entriesWithTextKeys rest (putKey written (← node.key) (← withTextKeys d))

end

/-! ### Data of any shape in JSON -/

mutual

/-- How many values stand inside each other, the outermost and the innermost counted. -/
def height : Datum → Nat
  | .list items => heightOfItems items + 1
  | .object fields => heightOfFields fields + 1
  | .table entries => heightOfEntries entries + 1
  | _ => 1

/-- The greatest height among items. -/
def heightOfItems : List Datum → Nat
  | [] => 0
  | d :: rest => max (height d) (heightOfItems rest)

/-- The greatest height among the values of fields. -/
def heightOfFields : List (String × Datum) → Nat
  | [] => 0
  | (_, d) :: rest => max (height d) (heightOfFields rest)

/-- The greatest height among the values of entries. -/
def heightOfEntries : List (NodeId × Datum) → Nat
  | [] => 0
  | (_, d) :: rest => max (height d) (heightOfEntries rest)

end

mutual

/-- The same data with null for every double that is not finite. -/
def withFiniteNumbers : Datum → Datum
  | .number (.real x) => if x.isFinite then .number (.real x) else .null
  | .list items => .list (itemsWithFiniteNumbers items)
  | .object fields => .object (fieldsWithFiniteNumbers fields)
  | d => d

/-- The items of a list. -/
def itemsWithFiniteNumbers : List Datum → List Datum
  | [] => []
  | d :: rest => withFiniteNumbers d :: itemsWithFiniteNumbers rest

/-- The fields of an object. -/
def fieldsWithFiniteNumbers : List (String × Datum) → List (String × Datum)
  | [] => []
  | (key, d) :: rest => (key, withFiniteNumbers d) :: fieldsWithFiniteNumbers rest

end

/-- The greatest height of data that is written in JSON. -/
def highest : Nat := 255

/-- Data of any shape as JSON has it, where all numbers are finite. -/
def inJson (d : Datum) : Except Fault Datum :=
  if d.height ≤ highest then .ok d.withFiniteNumbers else .error .tooDeep

end Datum

end Optima
