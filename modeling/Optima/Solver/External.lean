import Optima.Solver.Basic

/-!
The family that is solved by external solvers. The model that a problem carries is read, one
checkpoint is passed, and the model is handed on with the time that is left. Where this is not
enabled, or the package of the backend is not installed, a solver that says why takes the place.
-/

namespace Optima.Solver

open External

/-- What an external solver found, as a finding. -/
def findingOf (backend : Backend) (payload : Payload) (outcome : Outcome) :
    Except Failure Finding := do
  let values ← Failure.arith (outcome.values.mapM fun (name, value) => do
    return (name, ← value.toReal))
  return ⟨.constraint ⟨backend.name, payload.modelType, values, outcome.routes⟩,
    outcome.objective, ⟨backend.name, outcome.iterations⟩, outcome.message⟩

/-- The solver that passes models on to a backend. -/
def external (backend : Backend) : Solver where
  name := "ConstraintGateway"
  family := .constraint
  solve p occasion := Run.mapError .failure <| match p with
    | .constraint p => do
        let payload ← Run.ofExcept (Payload.ofDatum (.object p.payload))
        Run.check
        let consultation := consult backend occasion.replies payload
          (occasion.timeLeft.map Number.real)
        return consultation.andThen (findingOf backend payload)
    | p => Run.fail (.lacking p.recordName "payload")

/-- The backend of a name. -/
def backendOf (name : String) : Except Failure Backend :=
  match Backend.ofName? name with
  | some backend => .ok backend
  | none => .error (.unsupported ("unknown FFI backend '" ++ name ++ "'"))

/-- Why models are not passed on, if they are not. -/
def externalObstacle? (settings : Settings) (installed : String → Bool) : Option String :=
  if !settings.enableExternal then
    some "FFI gateway disabled (set OPTIMIZE_PROVIDER_FFI=1 to enable)"
  else if !installed settings.backend.package then
    some ("backend '" ++ settings.backend.name ++ "' needs the '" ++ settings.backend.package ++
      "' package (pip install optimize-provider[ffi])")
  else none

end Optima.Solver
