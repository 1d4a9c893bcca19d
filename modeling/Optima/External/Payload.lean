import Optima.External.Routing
import Optima.Linear.Record

/-!
Models for external solvers, as problems carry them: linear models and routing models, told apart
by the tag `model_type`.
-/

namespace Optima.External

open Reader

/-- A model for an external solver. -/
inductive Payload where
  | linear (model : Linear.Model Binary64)
  | routing (model : Routing)

namespace Payload

/-- The tag of a model. -/
def modelType : Payload → String
  | linear _ => "linear"
  | routing _ => "routing"

def linearReader : Reader (Linear.Model Binary64) := record "LinearPayload" fun fs =>
  (fun _ m => m) <$> fs.word "model_type" "linear" <*> fs.required "model" Linear.Model.reader

def reader : Reader Payload := tagged "model_type" [
  ("linear", fun form d => .linear <$> linearReader form d),
  ("routing", fun form d => .routing <$> Routing.reader form d)]

def write : Payload → Datum
  | linear m => .object [("model_type", .text "linear"), ("model", m.write)]
  | routing r => r.write

/-- The name of the record that holds a model. -/
def recordName : Payload → String
  | linear _ => "LinearPayload"
  | routing _ => "RoutingPayload"

/-- The model that a problem carries. -/
def ofDatum (d : Datum) : Except Failure Payload :=
  match reader .values d with
  | .ok payload => .ok payload
  | .failed issue _ =>
      .error (.invalidInput ("malformed constraint payload: " ++ issue.cause.message))

end Payload

end Optima.External
