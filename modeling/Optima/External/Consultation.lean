import Optima.External.Linear
import Optima.External.Payload
import Optima.Settings

/-!
Consulting external solvers. All that is known of them is what they reply to what they are asked
(`Replies`); a consultation keeps everything that was asked, in order, beside what came of it. Which
models are taken, and in which form, depends on the backend: one takes linear models only, in matrix
form; the other takes linear models step by step, and routing models.
-/

namespace Optima.External

/-- What external solvers reply to what they are asked. -/
structure Replies where
  matrix : Matrix.Question Binary64 → Matrix.Reply
  hasEngine : String → Bool
  stepwise : List (Stepwise.Request Binary64) → Stepwise.Reply
  routing : Routing → Option Routing.Reply

/-- Something that was asked of an external solver. -/
inductive Call where
  | matrix (question : Matrix.Question Binary64)
  | stepwise (request : Stepwise.Request Binary64)
  | routing (request : Routing.Request)

/-- What was asked, and what came of it. -/
structure Consultation (α : Type) where
  calls : List Call
  outcome : Except Failure α

/-- The consultation goes on with what came of it. -/
def Consultation.andThen {α β : Type} (c : Consultation α) (f : α → Except Failure β) :
    Consultation β :=
  ⟨c.calls, c.outcome.bind f⟩

/-- The question that a model amounts to, with the time that it may take. -/
def matrixQuestion (m : Linear.Model Binary64) (timeLimit : Option Number) :
    Except Failure (Matrix.Question Binary64) := do
  let question ← Matrix.question m
  let limit ← Failure.arith (timeLimit.mapM Number.toReal)
  return { question with timeLimit := limit }

/-- Asks for a linear model in matrix form. -/
def askMatrix (replies : Replies) (m : Linear.Model Binary64) (timeLimit : Option Number) :
    Consultation Outcome :=
  match matrixQuestion m timeLimit with
  | .error failure => ⟨[], .error failure⟩
  | .ok question => ⟨[.matrix question], Matrix.outcome m (replies.matrix question)⟩

/-- Asks for a linear model step by step. -/
def askStepwise (replies : Replies) (m : Linear.Model Binary64) (timeLimit : Option Number) :
    Consultation Outcome :=
  let (names, found) := Stepwise.tried replies.hasEngine (Stepwise.engines m)
  let engines := names.map Stepwise.Request.engine
  if !found then
    ⟨engines.map .stepwise, .error (.internal "failed to create an OR-Tools linear solver")⟩
  else match timeLimit.mapM milliseconds with
    | .error fault => ⟨engines.map .stepwise, .error (.fault fault)⟩
    | .ok limit =>
        let (statement, failure) := Stepwise.taken (Stepwise.statement m)
        let requests := engines ++ limit.toList.map Stepwise.Request.timeLimit ++ statement
        ⟨requests.map .stepwise, match failure with
          | some failure => .error failure
          | none => Stepwise.outcome m (replies.stepwise requests)⟩

/-- Asks for the routes of a routing model. -/
def askRouting (replies : Replies) (r : Routing) (timeLimit : Option Number) :
    Consultation Outcome :=
  match timeLimit.mapM Routing.searchLimit with
  | .error fault => ⟨r.statement.map .routing, .error (.fault fault)⟩
  | .ok limit =>
      ⟨(r.statement ++ [Routing.Request.search limit]).map .routing,
        r.outcome timeLimit.isSome (replies.routing r)⟩

/-- Passes a model on to a backend, with the time that it may take. -/
def consult (backend : Backend) (replies : Replies) (payload : Payload)
    (timeLimit : Option Number) : Consultation Outcome :=
  match backend, payload with
  | .highs, .linear m => askMatrix replies m timeLimit
  | .highs, .routing _ => ⟨[], .error (.unsupported "routing models need the ortools backend")⟩
  | .ortools, .linear m => askStepwise replies m timeLimit
  | .ortools, .routing r => askRouting replies r timeLimit

end Optima.External
