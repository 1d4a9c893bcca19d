import Optima.External.Consultation
import Optima.Lists
import Optima.Lookup

/-!
External solvers whose replies are fixed beforehand. They take the place of installed ones where it
matters what is asked, and not how it is solved. What a script leaves open has a plain value.
-/

namespace Optima.External

/-- What scripted solvers reply. -/
structure Script where
  matrixStatus : Int
  matrixSuccess : Bool
  matrixMessage : Option String
  matrixObjective : Option Number
  /-- The point for a number of columns. -/
  matrixPoint : Nat → Option (List Number)
  matrixIterations : Option Number
  engines : List String
  status : Int
  objective : Option Number
  values : List (String × Number)
  wallTime : Option Number
  iterations : Int
  /-- The places that each vehicle visits; none where no routes are found. -/
  visits : Option (List (List Int))

namespace Script

/-- The script that leaves everything open. -/
def plain : Script where
  matrixStatus := 0
  matrixSuccess := true
  matrixMessage := some ""
  matrixObjective := some (.real Binary64.zero)
  matrixPoint columns := some (List.replicate columns (.real Binary64.zero))
  matrixIterations := none
  engines := ["GLOP", "SCIP", "CBC"]
  status := 0
  objective := some (.real Binary64.zero)
  values := []
  wallTime := some (.int 0)
  iterations := 0
  visits := none

/-- The distance of a way from place to place. Places are looked up by numbers of any size. -/
def length (distances : List (List Int)) : List Int → Except Failure Int
  | u :: v :: rest => do
      let row ← Lookup.get distances.toArray u
      return (← Lookup.get row.toArray v) + (← length distances (v :: rest))
  | _ => .ok 0

/-- The reply about routes. -/
def routing (s : Script) (r : Routing) : Option Routing.Reply :=
  s.visits.map fun visits =>
    let visitsOf (vehicle : Nat) : List Int := visits[vehicle]?.getD []
    ⟨visitsOf, total <$> (r.routes visitsOf).mapM (length r.distances)⟩

/-- The replies that a script fixes. -/
def replies (s : Script) : Replies where
  matrix question := {
    status := s.matrixStatus
    success := s.matrixSuccess
    message := s.matrixMessage
    objective := s.matrixObjective
    point := s.matrixPoint question.bounds.length
    iterations := s.matrixIterations }
  hasEngine name := s.engines.contains name
  stepwise _ := {
    status := s.status
    objective := s.objective
    value := fun name =>
      ((s.values.find? fun entry => entry.1 = name).map (·.2)).getD (.real Binary64.zero)
    wallTime := s.wallTime
    iterations := s.iterations }
  routing := s.routing

end Script

end Optima.External
