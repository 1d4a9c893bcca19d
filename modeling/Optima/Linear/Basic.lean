import Optima.Number.Basic

/-!
Linear models, over any kind of scalar. A model is stated with doubles; that its meaning survives
the translation into an external solver's terms is a statement about exact scalars, so the
translations do not depend on the kind.
-/

namespace Optima.Linear

/-- Whether the objective is to be small or large. -/
inductive Sense where
  | min
  | max
  deriving DecidableEq, Repr

namespace Sense

def name : Sense → String
  | min => "min"
  | max => "max"

def all : List Sense := [min, max]

instance : Inhabited Sense := ⟨min⟩

end Sense

/-- How the two sides of a constraint compare. -/
inductive Comparison where
  | atMost
  | atLeast
  | equal
  deriving DecidableEq, Repr

namespace Comparison

def name : Comparison → String
  | atMost => "<="
  | atLeast => ">="
  | equal => "=="

def all : List Comparison := [atMost, atLeast, equal]

instance : Inhabited Comparison := ⟨atMost⟩

end Comparison

/-- A variable; a missing bound is no bound. -/
structure Variable (R : Type) where
  name : String
  lower : Option R
  upper : Option R
  isInteger : Bool

/-- A multiple of the variable of the given name. -/
structure Term (R : Type) where
  name : String
  coefficient : R

/-- A sum of terms and a constant. A variable may occur in several terms. -/
structure Expr (R : Type) where
  terms : List (Term R)
  constant : R

/-- A comparison of an expression with a number. -/
structure Constraint (R : Type) where
  name : String
  left : Expr R
  comparison : Comparison
  right : R

/-- A linear model. -/
structure Model (R : Type) where
  name : String
  sense : Sense
  objective : Expr R
  unknowns : List (Variable R)
  constraints : List (Constraint R)

namespace Model

variable {R : Type}

/-- Some variable takes whole values only. -/
def hasIntegers (m : Model R) : Bool := m.unknowns.any (·.isInteger)

/-- The names of the variables, in order. -/
def names (m : Model R) : List String := m.unknowns.map (·.name)

end Model

end Optima.Linear
