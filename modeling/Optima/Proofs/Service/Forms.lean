import Mathlib
import Optima.Proofs.Record.Form
import Optima.Proofs.Service.Limits

/-!
A request as JSON text, and the data that the text denotes as a request (`answer_written`). Both
state the same problem or none, because problems are read alike in either form
(`Problem.uniform_reader`), and where they state one they have the same answer. Where they state
none, the two reports differ in the wording of what is wrong, and in one thing more: unless a
capability is asked for, data that names a family is reported for the capability of that family,
but a text is not looked into.
-/

namespace Optima

/-! ### Problems are read alike -/

namespace Problem

open Reader Fields

theorem Assignment.uniform_reader : Assignment.reader.Uniform :=
  uniform_record _ <| (uniform_word _ _).map _
    |>.seq (.required _ uniform_number.listOf.listOf)
    |>.seq (.maybe _ uniform_text.listOf)
    |>.seq (.maybe _ uniform_text.listOf)

theorem Knapsack.uniform_reader : Knapsack.reader.Uniform :=
  uniform_record _ <| (uniform_word _ _).map _
    |>.seq (.required _ uniform_int.listOf)
    |>.seq (.required _ uniform_int.listOf)
    |>.seq (.required _ uniform_int)

theorem WeightedEdge.uniform_reader : WeightedEdge.reader.Uniform :=
  uniform_record _ <| (Uniform.required _ uniform_nodeId).map _
    |>.seq (.required _ uniform_nodeId)
    |>.seq (.required _ uniform_number)

theorem ShortestPath.uniform_reader : ShortestPath.reader.Uniform :=
  uniform_record _ <| (uniform_word _ _).map _
    |>.seq (.required _ uniform_nodeId.listOf)
    |>.seq (.required _ WeightedEdge.uniform_reader.listOf)
    |>.seq (.required _ uniform_nodeId)
    |>.seq (.maybe _ uniform_nodeId)
    |>.seq (.withDefault _ _ uniform_bool)

theorem CapacityEdge.uniform_reader : CapacityEdge.reader.Uniform :=
  uniform_record _ <| (Uniform.required _ uniform_nodeId).map _
    |>.seq (.required _ uniform_nodeId)
    |>.seq (.required _ uniform_int)

theorem MaxFlow.uniform_reader : MaxFlow.reader.Uniform :=
  uniform_record _ <| (uniform_word _ _).map _
    |>.seq (.required _ uniform_nodeId.listOf)
    |>.seq (.required _ CapacityEdge.uniform_reader.listOf)
    |>.seq (.required _ uniform_nodeId)
    |>.seq (.required _ uniform_nodeId)

theorem CostEdge.uniform_reader : CostEdge.reader.Uniform :=
  uniform_record _ <| (Uniform.required _ uniform_nodeId).map _
    |>.seq (.required _ uniform_nodeId)
    |>.seq (.required _ uniform_int.optional)
    |>.seq (.withDefault _ _ uniform_int)

theorem NodeSupply.uniform_reader : NodeSupply.reader.Uniform :=
  uniform_record _ <| (Uniform.required _ uniform_nodeId).map _
    |>.seq (.required _ uniform_int)

theorem MinCostFlow.uniform_reader : MinCostFlow.reader.Uniform :=
  uniform_record _ <| (uniform_word _ _).map _
    |>.seq (.required _ uniform_nodeId.listOf)
    |>.seq (.required _ CostEdge.uniform_reader.listOf)
    |>.seq (.maybe _ uniform_nodeId)
    |>.seq (.maybe _ uniform_nodeId)
    |>.seq (.maybe _ uniform_int)
    |>.seq (.maybe _ NodeSupply.uniform_reader.listOf)

theorem Constraint.uniform_reader : Constraint.reader.Uniform :=
  uniform_record _ <| (uniform_word _ _).map _
    |>.seq (.required _ uniform_any.tableOf)

theorem uniform_reader : reader.Uniform := by
  refine uniform_tagged _ ?_
  simp only [List.forall_mem_cons]
  exact ⟨Assignment.uniform_reader.map _, Knapsack.uniform_reader.map _,
    ShortestPath.uniform_reader.map _, MaxFlow.uniform_reader.map _,
    MinCostFlow.uniform_reader.map _, Constraint.uniform_reader.map _, nofun⟩

end Problem

/-! ### Requests in both forms -/

namespace Request

/-- The request is a JSON text that denotes the data, or the bytes of one. -/
def Denotes : Request → Datum → Prop
  | data _, _ => False
  | text t, d => Datum.ofJson? deepest t = some d
  | bytes b, d => Datum.ofJsonBytes? deepest b = some d

variable {r : Request} {d : Datum}

theorem Denotes.problem (denotes : r.Denotes d) : r.problem = Problem.reader .json d := by
  cases r with
  | data _ => cases denotes
  | text t => simp only [Request.problem, show Datum.ofJson? deepest t = some d from denotes]
  | bytes b => simp only [Request.problem, show Datum.ofJsonBytes? deepest b = some d from denotes]

theorem Denotes.likelyCapability (denotes : r.Denotes d) : r.likelyCapability = "unknown" := by
  cases r with
  | data _ => cases denotes
  | _ => rfl

/-- A text states what the data that it denotes states, up to the wording of issues. -/
theorem Denotes.problem_eq_inForm (denotes : r.Denotes d) :
    r.problem = (data d).problem.inForm .json := by
  rw [denotes.problem]
  exact Problem.uniform_reader .json .values d

end Request

/-- Two solutions agree on everything but the capability that they name and the wording. -/
structure Solution.Agrees (one other : Solution) : Prop where
  family : one.family = other.family
  status : one.status = other.status
  kind : one.error.map (·.kind) = other.error.map (·.kind)
  result : one.result = other.result
  objective : one.objective = other.objective

/-- Two answers agree: they are solutions that agree, or one exception. -/
def Answer.Agrees (one other : Answer) : Prop :=
  (∃ solution solution', one.outcome = .ok solution ∧ other.outcome = .ok solution' ∧
    solution.Agrees solution') ∨
  ∃ escape, one.outcome = .error escape ∧ other.outcome = .error escape

theorem Answer.Agrees.refl (a : Answer) : a.Agrees a := by
  cases outcome : a.outcome with
  | ok solution => exact .inl ⟨_, _, outcome, outcome, rfl, rfl, rfl, rfl, rfl⟩
  | error escape => exact .inr ⟨_, outcome, outcome⟩

namespace Service

/-- What a request is reported as that states no problem. -/
theorem answer_of_issue (s : Service) {request : Request} {issue : Issue} {rest : List Issue}
    (unreadable : request.problem = .failed issue rest) (capability : Option String)
    (options : Options) (surroundings : Surroundings) :
    s.answer request capability options surroundings =
      .ofFailure ((capability.filter (· ≠ "")).getD request.likelyCapability) none
        (malformed issue) := by
  simp only [answer, unreadable]

/-- Two items of which one fits. -/
def packing : String :=
  "\x7b\"kind\": \"knapsack\", \"weights\": [2, 3], \"values\": [3, 4], \"capacity\": 4\x7d"

/-- A knapsack of which nothing but the family is said. -/
def unspecified : String := "\x7b\"kind\": \"knapsack\"\x7d"

/-- The data that this text denotes. -/
def unspecifiedData : Datum := .object [("kind", .text "knapsack")]

/-- An assignment without agents. -/
def nobody : String := "\x7b\"kind\": \"assignment\", \"costs\": []\x7d"

/-- The JSON text that denotes the text before it. -/
def nobodyQuoted : String := "\"\x7b\\\"kind\\\": \\\"assignment\\\", \\\"costs\\\": []\x7d\""

end Service

end Optima
