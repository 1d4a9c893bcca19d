import Optima.Decimal.Notation
import Optima.Text.Quoted

/-!
Names of nodes. A node is named by an integer or by a text, and the integer 1 and the text "1" are
two names: they are equal only if they are of one kind. An integer of too many digits is a name like
any other, but it cannot be written.
-/

namespace Optima

/-- The name of a node. -/
inductive NodeId where
  | int (value : Int)
  | text (value : String)
  deriving DecidableEq, Repr

namespace NodeId

instance : Inhabited NodeId := ⟨.int 0⟩

/-- The name as messages show it: integers in decimal, texts in quotes. -/
def shown : NodeId → Except Fault String
  | .int i => written i
  | .text s => .ok (Text.quoted s)

/-- The name as a key of a table whose keys are texts. Two different names may share it. -/
def key : NodeId → Except Fault String
  | .int i => written i
  | .text s => .ok s

/-- A name that does not have too many digits to be written. -/
def Writable : NodeId → Prop
  | .int i => i.natAbs < writtenBound
  | .text _ => True

theorem Writable.shown {x : NodeId} (writable : x.Writable) : ∃ text, x.shown = .ok text := by
  cases x with
  | int i =>
    rw [Writable] at writable
    exact ⟨toString i, by rw [NodeId.shown, written, if_pos writable]⟩
  | text s => exact ⟨_, rfl⟩

theorem shown_of_not_writable {x : NodeId} (long : ¬ x.Writable) :
    x.shown = .error .unwritable := by
  cases x with
  | int i =>
    rw [Writable] at long
    rw [NodeId.shown, written, if_neg long]
  | text s => exact absurd trivial long

end NodeId

end Optima
