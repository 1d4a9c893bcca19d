import Optima.Decimal.Numeral
import Optima.Record.Issue

/-!
Readers: how data of unknown shape becomes values of the library's types. Reading is lenient where
nothing is lost: whole doubles, truth values and texts of digits are integers, integers are doubles,
and a field that is not asked for is passed over.
-/

namespace Optima

/-- How a type is read. -/
def Reader (α : Type) := Form → Datum → Checked α

namespace Reader

variable {α β : Type}

/-! ### Simple values -/

/-- Doubles from here on are too large to be read as integers. -/
def wholeLimit : Binary64 := Binary64.ofNat (Nat.pow 2 63)

/-- A double as an integer: it has to be finite, whole and of moderate size. -/
def wholeOf (x : Binary64) : Checked Int :=
  match x.truncate? with
  | none => .fail .notFinite
  | some i =>
      if !x.isInteger then .fail .fractionalInt
      else if x.abs.less wholeLimit then .ok i
      else .fail .oversizedInt

/-- An integer. -/
def int : Reader Int := fun _ d =>
  match d with
  | .number (.int i) => .ok i
  | .bool b => .ok (if b then 1 else 0)
  | .number (.real x) => wholeOf x
  | .text s => match Numeral.readInt s with
    | .ok i => .ok i
    | .error .unreadable => .fail .unreadableInt
    | .error .tooLong => .fail .oversizedInt
  | _ => .fail .notInt

/-- A double. -/
def real : Reader Binary64 := fun _ d =>
  match d with
  | .number n => match n.toReal with
    | .ok x => .ok x
    | .error _ => .fail .notReal
  | .bool b => .ok (if b then 1 else 0)
  | .text s => match Numeral.readReal? s with
    | some x => .ok x
    | none => .fail .unreadableReal
  | _ => .fail .notReal

/-- Either of two ways to read, the first preferred; if neither accepts, the issues of both are
kept, each under the name of its way. -/
def either (first second : String × Reader α) : Reader α := fun form d =>
  match first.2 form d with
  | .ok a => .ok a
  | .failed i is => match second.2 form d with
    | .ok a => .ok a
    | .failed j js =>
        .failed (i.under (.field first.1))
          (is.map (Issue.under (.field first.1)) ++
            (j :: js).map (Issue.under (.field second.1)))

/-- A number, kept as it is written: a double stays a double. -/
def number : Reader Number := fun form d =>
  match d with
  | .number n => .ok n
  | d => either ("int", fun form d => .int <$> int form d)
      ("float", fun form d => .real <$> real form d) form d

/-- A text. -/
def text : Reader String := fun _ d =>
  match d with
  | .text s => .ok s
  | _ => .fail .notText

/-- The name of a node: a text stays a text, also one of digits. -/
def nodeId : Reader NodeId := fun form d =>
  match d with
  | .text s => .ok (.text s)
  | d => either ("int", fun form d => .int <$> int form d)
      ("str", fun form d => .text <$> text form d) form d

/-- Texts that say no, and texts that say yes. -/
def noWords : List String := ["0", "off", "f", "false", "n", "no"]
def yesWords : List String := ["1", "on", "t", "true", "y", "yes"]

/-- A truth value given as an integer of at most 64 binary digits. -/
def boolOfInt (i : Int) : Checked Bool :=
  if i = 0 then .ok false
  else if i = 1 then .ok true
  else if -9223372036854775808 ≤ i ∧ i < 9223372036854775808 then .fail .unreadableBool
  else .fail .notBool

/-- A truth value. -/
def bool : Reader Bool := fun _ d =>
  match d with
  | .bool b => .ok b
  | .number (.int i) => boolOfInt i
  | .number (.real x) => match wholeOf x with
    | .ok i => boolOfInt i
    | .failed .. => .fail .notBool
  | .text s =>
      let word := String.ofList (s.toList.map Char.toLower)
      if noWords.contains word then .ok false
      else if yesWords.contains word then .ok true
      else .fail .unreadableBool
  | _ => .fail .notBool

/-- One of a list of words, each standing for a value. -/
def among [Inhabited α] (words : List (String × α)) : Reader α := fun _ d =>
  let found : Option (String × α) := match d with
    | .text s => words.find? fun word => word.1 = s
    | _ => none
  match found with
  | some (_, a) => .ok a
  | none => .fail (.notAmong (words.map Prod.fst))

/-! ### Conditions -/

/-- An integer with a least value. -/
def intFrom (least : Int) : Reader Int := fun form d =>
  (int form d).andThen fun i =>
    if least ≤ i then .ok i else .fail (.below (toString least))

/-- A double that is not below zero. -/
def realFromZero : Reader Binary64 := fun form d =>
  (real form d).andThen fun x =>
    if Binary64.zero.atMost x then .ok x else .fail (.below "0")

/-- A double above zero. -/
def realAboveZero : Reader Binary64 := fun form d =>
  (real form d).andThen fun x =>
    if Binary64.zero.less x then .ok x else .fail (.notAbove "0")

/-! ### Structure -/

/-- Something that may be null. -/
def optional (r : Reader α) : Reader (Option α) := fun form d =>
  match d with
  | .null => .ok none
  | d => some <$> r form d

/-- The items of a list from a position on. -/
def items (r : Reader α) (form : Form) : Nat → List Datum → Checked (List α)
  | _, [] => .ok []
  | index, d :: rest =>
      List.cons <$> (r form d).under (.item index) <*> items r form (index + 1) rest

/-- A list. -/
def listOf (r : Reader α) : Reader (List α) := fun form d =>
  match d with
  | .list ds => items r form 0 ds
  | _ => .fail (.notList form)

/-- The values of an object, each kept with its key. -/
def entries (r : Reader α) (form : Form) : List (String × Datum) → Checked (List (String × α))
  | [] => .ok []
  | (key, d) :: rest =>
      List.cons <$> (Prod.mk key <$> (r form d).under (.field key)) <*> entries r form rest

/-- An object with any keys. -/
def tableOf (r : Reader α) : Reader (List (String × α)) := fun form d =>
  match d with
  | .object fields => entries r form fields
  | _ => .fail (.notTable form)

/-- Data as it is. -/
def any : Reader Datum := fun _ d => .ok d

/-! ### Records -/

/-- The fields of a record, and the form in which they arrived. -/
structure Fields where
  form : Form
  fields : List (String × Datum)

namespace Fields

/-- A field that has to be there. -/
def required (fs : Fields) (name : String) (r : Reader α) : Checked α :=
  match Datum.lookup fs.fields name with
  | some d => (r fs.form d).under (.field name)
  | none => (Checked.fail .missing).under (.field name)

/-- A field that has a value of its own where it is not given. -/
def withDefault (fs : Fields) (name : String) (value : α) (r : Reader α) : Checked α :=
  match Datum.lookup fs.fields name with
  | some d => (r fs.form d).under (.field name)
  | none => .ok value

/-- A field that is absent or null when there is nothing to say. -/
def maybe (fs : Fields) (name : String) (r : Reader α) : Checked (Option α) :=
  fs.withDefault name none (optional r)

/-- A field that holds one word, or is not given. -/
def word (fs : Fields) (name value : String) : Checked Unit :=
  fs.withDefault name () (among [(value, ())])

end Fields

/-- A record of the given name. -/
def record (name : String) (body : Fields → Checked α) : Reader α := fun form d =>
  match d with
  | .object fields => body ⟨form, fields⟩
  | _ => .fail (.notRecord form name)

/-- A record whose kind is told by the word in one of its fields. -/
def tagged (tag : String) (members : List (String × Reader α)) : Reader α := fun form d =>
  match d with
  | .object fields => match Datum.lookup fields tag with
    | none => .fail (.untagged tag)
    | some d' =>
        let found : Option (String × Reader α) := match d' with
          | .text s => members.find? fun member => member.1 = s
          | _ => none
        match found with
        | some (kind, r) => (r form d).under (.field kind)
        | none => .fail (.unknownTag tag d'.printed (members.map Prod.fst))
  | _ => .fail (.untaggable form)

end Reader

end Optima
