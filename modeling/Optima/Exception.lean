import Optima.Failure
import Optima.Record.Issue

/-!
Exceptions. A solver that nobody vouches for may raise anything (`Raised`). Most of it is a failure
that can be reported; but a report asks what was raised for its kind and its text, and where that
does not give an answer that will do, another exception comes up in the place of the report
(`Escape`).
-/

namespace Optima

/-- An exception that is not reported. -/
inductive Escape where
  /-- An exception by its label, with its text if it has one. -/
  | exception (label : String) (text : Option String)
  /-- The issues of a record that was not accepted. -/
  | refused (issue : Issue) (rest : List Issue)

namespace Escape

/-- A fault of arithmetic or of wording. -/
def ofFault (f : Fault) : Escape := exception f.label (some f.message)

/-- Something that was looked up is not there; the text names it. -/
def noKey (text : Option String) : Escape := exception "KeyError" text

/-- Data that has parts was used as a key. -/
def unhashable (typeName : String) : Escape :=
  exception "TypeError" (some (unhashableMessage typeName))

/-- A record that lacks a field. -/
def lacking (record field : String) : Escape :=
  exception "AttributeError" (some (lackingMessage record field))

/-- The exception says that something was looked up in vain. -/
def isNoKey : Escape → Bool
  | exception label _ => label = "KeyError"
  | refused .. => false

end Escape

/-- What a solver may raise. -/
inductive Raised where
  | failure (failure : Failure)
  /-- An exception that raises another one where it is put into words. -/
  | wordless (instead : Escape)
  /-- An exception that counts as a failure, but has a kind and a message of its own, if it has a
  message. -/
  | own (label : String) (kind : Datum) (message : Option Datum)
  /-- An order to stop, which no report on exceptions catches. -/
  | interrupt (escape : Escape)

namespace Datum

/-- Data that has parts. -/
def hasParts : Datum → Bool
  | list _ | object _ | table _ => true
  | null | bool _ | number _ | text _ => false

/-- The text that data is, if it is one. -/
def text? : Datum → Option String
  | text s => some s
  | _ => none

/-- Data as a word that is looked up: what has parts cannot be looked up, and what is no text is no
word. -/
def word? (d : Datum) : Except Escape (Option String) :=
  if d.hasParts then .error (.unhashable d.typeName) else .ok d.text?

end Datum

end Optima
