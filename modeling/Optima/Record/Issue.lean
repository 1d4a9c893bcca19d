import Optima.Datum.Basic

/-!
What can be wrong with a piece of data, where, and how it is worded. Reading collects every issue of
a request, in the order of its fields; `Checked` is the result of reading, and combining two
results keeps the issues of both (`Checked.seq`).
-/

namespace Optima

/-- The form in which data arrived: as values, or as JSON text. Three wordings depend on it. -/
inductive Form where
  | values
  | json
  deriving DecidableEq, Repr

/-- A step from a piece of data into one of its parts. -/
inductive Step where
  | field (name : String)
  | item (index : Nat)
  deriving DecidableEq, Repr

/-- The text of a step. -/
def Step.text : Step → String
  | .field name => name
  | .item index => toString index

/-- What is wrong with a piece of data. -/
inductive Cause where
  | missing
  | notInt
  | unreadableInt
  | fractionalInt
  | oversizedInt
  | notFinite
  | notReal
  | unreadableReal
  | notText
  | notBool
  | unreadableBool
  | notList (form : Form)
  | notTable (form : Form)
  | notRecord (form : Form) (name : String)
  /-- Not one of the accepted words. -/
  | notAmong (words : List String)
  | below (least : String)
  | notAbove (bound : String)
  /-- Not a record, where the kind of record is told by a tag. -/
  | untaggable (form : Form)
  | untagged (tag : String)
  | unknownTag (tag shown : String) (known : List String)
  /-- A rule of the record as a whole is broken. -/
  | rule (text : String)
  | notJson
  deriving DecidableEq, Repr

namespace Cause

/-- Words in single quotes, joined by commas. -/
def quotedWords (words : List String) : List String := words.map fun w => "'" ++ w ++ "'"

/-- A choice in words: the last word is joined by "or". -/
def choice (words : List String) : String :=
  match (quotedWords words).reverse with
  | [] => ""
  | [one] => one
  | last :: others => ", ".intercalate others.reverse ++ " or " ++ last

/-- The short name of a cause. -/
def code : Cause → String
  | missing => "missing"
  | notInt => "int_type"
  | unreadableInt => "int_parsing"
  | fractionalInt => "int_from_float"
  | oversizedInt => "int_parsing_size"
  | notFinite => "finite_number"
  | notReal => "float_type"
  | unreadableReal => "float_parsing"
  | notText => "string_type"
  | notBool => "bool_type"
  | unreadableBool => "bool_parsing"
  | notList _ => "list_type"
  | notTable _ | untaggable .json => "dict_type"
  | notRecord .. => "model_type"
  | notAmong _ => "literal_error"
  | below _ => "greater_than_equal"
  | notAbove _ => "greater_than"
  | untaggable .values => "model_attributes_type"
  | untagged _ => "union_tag_not_found"
  | unknownTag .. => "union_tag_invalid"
  | rule _ => "value_error"
  | notJson => "json_invalid"

/-- The wording of a cause. -/
def message : Cause → String
  | missing => "Field required"
  | notInt => "Input should be a valid integer"
  | unreadableInt => "Input should be a valid integer, unable to parse string as an integer"
  | fractionalInt => "Input should be a valid integer, got a number with a fractional part"
  | oversizedInt => "Unable to parse input string as an integer, exceeded maximum size"
  | notFinite => "Input should be a finite number"
  | notReal => "Input should be a valid number"
  | unreadableReal => "Input should be a valid number, unable to parse string as a number"
  | notText => "Input should be a valid string"
  | notBool => "Input should be a valid boolean"
  | unreadableBool => "Input should be a valid boolean, unable to interpret input"
  | notList .values => "Input should be a valid list"
  | notList .json => "Input should be a valid array"
  | notTable .values => "Input should be a valid dictionary"
  | notTable .json | notRecord .json _ | untaggable .json => "Input should be an object"
  | notRecord .values name => "Input should be a valid dictionary or instance of " ++ name
  | notAmong words => "Input should be " ++ choice words
  | below least => "Input should be greater than or equal to " ++ least
  | notAbove bound => "Input should be greater than " ++ bound
  | untaggable .values => "Input should be a valid dictionary or object to extract fields from"
  | untagged tag => "Unable to extract tag using discriminator '" ++ tag ++ "'"
  | unknownTag tag shown known =>
      "Input tag '" ++ shown ++ "' found using '" ++ tag ++
        "' does not match any of the expected tags: " ++ ", ".intercalate (quotedWords known)
  | rule text => "Value error, " ++ text
  | notJson => "Invalid JSON"

end Cause

/-- Something wrong with a part of a piece of data. -/
structure Issue where
  path : List Step
  cause : Cause
  deriving DecidableEq, Repr

namespace Issue

/-- The issue seen from one step further out. -/
def under (step : Step) (issue : Issue) : Issue := { issue with path := step :: issue.path }

/-- The place of an issue, its steps joined by points. -/
def place (issue : Issue) : String := ".".intercalate (issue.path.map Step.text)

end Issue

/-- The result of reading: a value, or at least one issue. -/
inductive Checked (α : Type) where
  | ok (value : α)
  | failed (first : Issue) (rest : List Issue)

namespace Checked

variable {α β : Type}

/-- Nothing but one issue at the place itself. -/
def fail (cause : Cause) : Checked α := .failed ⟨[], cause⟩ []

/-- All issues, in order. -/
def issues : Checked α → List Issue
  | .ok _ => []
  | .failed first rest => first :: rest

/-- The value, if there is no issue. -/
def value? : Checked α → Option α
  | .ok a => some a
  | .failed .. => none

def map (f : α → β) : Checked α → Checked β
  | .ok a => .ok (f a)
  | .failed first rest => .failed first rest

/-- Both results; the issues of the first come first. -/
def seq (f : Checked (α → β)) (x : Unit → Checked α) : Checked β :=
  match f, x () with
  | .ok f, .ok a => .ok (f a)
  | .ok _, .failed first rest => .failed first rest
  | .failed first rest, x => .failed first (rest ++ x.issues)

instance : Applicative Checked where
  pure := .ok
  map := map
  seq := seq

/-- A further condition on a value that has been read without issues. -/
def andThen (x : Checked α) (f : α → Checked β) : Checked β :=
  match x with
  | .ok a => f a
  | .failed first rest => .failed first rest

/-- The result seen from one step further out. -/
def under (step : Step) : Checked α → Checked α
  | .ok a => .ok a
  | .failed first rest => .failed (first.under step) (rest.map (Issue.under step))

end Checked

end Optima
