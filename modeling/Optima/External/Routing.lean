import Optima.External.Linear
import Optima.Record.Reader

/-!
Routing models: vehicles that start and end at a depot and together visit every other place, with a
distance from every place to every other. A model needs a square table of distances that are not
negative, and a depot among the places (`Routing.defect?`).
-/

namespace Optima.External

/-- A routing model. -/
structure Routing where
  distances : List (List Int)
  vehicles : Int
  depot : Int

namespace Routing

open Reader

/-- What is wrong with a routing model. -/
inductive Defect where
  | noPlaces
  | rowLength (row got expected : Nat)
  | negativeDistance (row : Nat)
  | depotOutside (depot : Int) (last : Nat)

/-- The wording of a defect. -/
def Defect.message : Defect → String
  | noPlaces => "distance_matrix must not be empty"
  | rowLength i got expected => "distance_matrix row " ++ toString i ++ " has " ++ toString got ++
      " entries, expected " ++ toString expected
  | negativeDistance i => "distance_matrix row " ++ toString i ++ " has a negative distance"
  | depotOutside depot last => "depot " ++ toString depot ++ " is outside 0.." ++ toString last

/-- The defect of a row of distances. -/
def rowDefect? (places i : Nat) (row : List Int) : Option Defect :=
  if row.length ≠ places then some (.rowLength i row.length places)
  else if row.any (· < 0) then some (.negativeDistance i)
  else none

/-- The first thing wrong with a routing model. -/
def defect? (r : Routing) : Option Defect :=
  let places := r.distances.length
  if places = 0 then some .noPlaces
  else (r.distances.zipIdx.findSome? fun (row, i) => rowDefect? places i row)
    <|> if 0 ≤ r.depot ∧ r.depot < places then none else some (.depotOutside r.depot (places - 1))

def reader : Reader Routing := fun form d =>
  (record "RoutingPayload" (fun fs =>
    (fun _ => Routing.mk) <$> fs.word "model_type" "routing"
      <*> fs.required "distance_matrix" (listOf (listOf int))
      <*> fs.withDefault "num_vehicles" 1 (intFrom 1)
      <*> fs.withDefault "depot" 0 int) form d).andThen fun r =>
    match r.defect? with
    | some defect => .fail (.rule defect.message)
    | none => .ok r

def write (r : Routing) : Datum := .object [
  ("model_type", .text "routing"), ("distance_matrix", .listOf (.listOf .int) r.distances),
  ("num_vehicles", .int r.vehicles), ("depot", .int r.depot)]

/-! ### Asking the solver -/

/-- A step towards a solve. -/
inductive Request where
  | places (count vehicles depot : Int)
  /-- The distances are the costs of all vehicles. -/
  | costs
  /-- A search; with a time limit it goes on improving its routes until the limit. -/
  | search (milliseconds : Option Int)

/-- The steps that state a model. -/
def statement (r : Routing) : List Request :=
  [.places r.distances.length r.vehicles r.depot, .costs]

/-- A limit on the search is at least a millisecond. -/
def searchLimit (limit : Number) : Except Fault Int := do
  return max 1 (← milliseconds limit)

/-- What the solver replies: the places that each vehicle visits on its way, and the total
distance, which cannot be told if there are visits to places that are not there. -/
structure Reply where
  visits : Nat → List Int
  distance : Except Failure Int

/-- The route of each vehicle, from depot to depot. -/
def routes (r : Routing) (visits : Nat → List Int) : List (List Int) :=
  (List.range r.vehicles.toNat).map fun v => r.depot :: (visits v ++ [r.depot])

/-- What a reply says about a model; there may be none. -/
def outcome (r : Routing) (limited : Bool) : Option Reply → Except Failure Outcome
  | none =>
      if limited then .error (.timeout (.external
        "routing search found no solution within the time limit" Binary64.zero))
      else .error (.infeasible "routing model has no feasible solution")
  | some reply => do
      let objective ← Failure.arith (Number.int (← reply.distance)).toReal
      return ⟨objective, [], some (r.routes reply.visits), 0,
        "best routes found by OR-Tools local search"⟩

end Routing

end Optima.External
