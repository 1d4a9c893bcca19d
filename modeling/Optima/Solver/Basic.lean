import Optima.Exception
import Optima.External.Consultation
import Optima.Problem.Record
import Optima.Run
import Optima.Solution.Basic

/-!
Solvers: what solves the problems of one family. A solver is told the problem and the occasion, and
its solve is a computation that can be cut off; what it gives is a finding or a failure, together
with what it asked of external solvers, unless it raises something. The solvers of this library
raise failures only. Solvers build no solutions, so that every answer is built in one place.

Nothing keeps a solver from being handed a problem of another family. It then goes on until it asks
for something that the problem does not have.
-/

namespace Optima

/-- What a solver found. -/
structure Finding where
  result : Result
  objective : Binary64
  stats : SolveStats
  message : String

/-- What a solver is told besides the problem. -/
structure Occasion where
  /-- The capability that was asked for. -/
  capability : String
  /-- The time that is left. -/
  timeLeft : Option Binary64
  replies : External.Replies

/-- What solves the problems of one family. -/
structure Solver where
  name : String
  family : Family
  solve : Problem → Occasion → Run Raised (External.Consultation Finding)

namespace Solver

/-- A solver that asks nothing of external solvers. -/
def internal (name : String) (family : Family) (solve : Problem → Run Failure Finding) :
    Solver where
  name := name
  family := family
  solve p _ := Run.mapError .failure do
    let finding ← solve p
    return ⟨[], .ok finding⟩

/-- A solver that always raises the same. -/
def raising (name : String) (family : Family) (raised : Raised) : Solver where
  name := name
  family := family
  solve _ _ := Run.fail raised

/-- The solver that stands where none could be had, for a reason. -/
def unavailable (reason : String) : Solver where
  name := "UnavailableProvider"
  family := .constraint
  solve _ occasion :=
    Run.fail (.failure (.unsupported (occasion.capability ++ " is unavailable: " ++ reason)))

end Solver

end Optima
