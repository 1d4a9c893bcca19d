import Optima.Capability
import Optima.Catalogue
import Optima.Datum.Json
import Optima.Limits
import Optima.Problem.Defect

/-!
From a request to an answer. A capability is looked up, a problem is checked against it and for
soundness, and only then is the solver asked; what goes wrong on the way becomes a solution that
reports it. What the report itself cannot be made of is an exception, and leaves the service as one.

Limits come from the options of the call and, where those leave them open, from the settings.
-/

namespace Optima

/-- What answers requests: settings, and capabilities. -/
structure Service where
  settings : Settings
  capabilities : Capabilities

/-- What the outside contributes to a call: what it shows at each point of a computation under
limits, and what external solvers reply. -/
structure Surroundings where
  signals : Limits → Nat → Signal
  replies : External.Replies

/-- A problem that was handed over to the solver of a capability. -/
structure Invocation where
  identifier : String
  problem : Problem

/-- A solution or an exception, with the solvers that were asked on the way and with what they asked
of external solvers. -/
structure Answer where
  outcome : Except Escape Solution
  invocations : List Invocation
  calls : List External.Call

namespace Answer

/-- The answer that reports what was raised, before any solver was asked. -/
def ofRaised (capability : String) (family : Option String) (raised : Raised) : Answer :=
  ⟨(raised.report capability family).map (.ofError · .empty), [], []⟩

/-- The answer that reports a failure, before any solver was asked. -/
def ofFailure (capability : String) (family : Option String) (failure : Failure) : Answer :=
  ofRaised capability family (.failure failure)

end Answer

/-- A request: data, a JSON text, or the bytes of one. -/
inductive Request where
  | data (d : Datum)
  | text (s : String)
  | bytes (b : ByteArray)

namespace Request

/-- Data as a request: a text is taken for a JSON text. -/
def ofDatum : Datum → Request
  | .text s => text s
  | d => data d

/-- A text whose lists and objects stand inside each other more often than this is refused. -/
def deepest : Nat := 200

/-- The problem that a request states. -/
def problem : Request → Checked Problem
  | data d => Problem.reader .values d
  | text s => match Datum.ofJson? deepest s with
    | some d => Problem.reader .json d
    | none => .fail .notJson
  | bytes b => match Datum.ofJsonBytes? deepest b with
    | some d => Problem.reader .json d
    | none => .fail .notJson

/-- The capability that an unreadable request seems to be meant for: that of the family it names.
Texts are not looked into. -/
def likelyCapability : Request → String
  | data (.object fields) => match Datum.lookup fields "kind" with
    | some (.text kind) => ((Family.ofName? kind).map Family.capability).getD "unknown"
    | _ => "unknown"
  | _ => "unknown"

end Request

namespace Service

/-- The limits of a call. -/
def limits (s : Service) (options : Options) : Limits where
  timeLimit := (options.timeLimit <|> s.settings.defaultTimeLimit).map Number.real
  iterationLimit := (options.iterationLimit <|> s.settings.iterationLimit).map .int
  interval := max 1 s.settings.checkpointInterval.toNat
  interval_pos := by omega

/-- Hands a sound problem over to the solver of a capability. -/
def consult (s : Service) (c : Capability) (p : Problem) (options : Options)
    (surroundings : Surroundings) : Answer :=
  let limits := s.limits options
  let solve := c.solver.solve p ⟨c.identifier, limits.timeLeft, surroundings.replies⟩
  let asked := [⟨c.identifier, p⟩]
  match solve.supervise limits (surroundings.signals limits) Meter.start with
  | .error raised => { Answer.ofRaised c.identifier (some c.family) raised with
      invocations := asked }
  | .ok ⟨calls, .error failure⟩ => { Answer.ofFailure c.identifier (some c.family) failure with
      invocations := asked
      calls := calls }
  | .ok ⟨calls, .ok finding⟩ =>
      ⟨.ok (.optimal c.identifier c.solver.family.name finding.result finding.objective
        finding.stats finding.message), asked, calls⟩

/-- What a subject of another kind than the one asked for is refused with. The refusal names the
kind, where it can be shown. -/
def otherKind (c : Capability) (kind : Datum) : Raised :=
  match kind.shown with
  | .ok text => .failure (.invalidInput (c.identifier ++ " solves '" ++ c.family ++
      "' problems, got '" ++ text ++ "'"))
  | .error fault => .wordless (.ofFault fault)

/-- The problem that may be handed over to the solver of a capability, or why there is none. -/
def accept (s : Service) (c : Capability) (subject : Subject) : Except Raised Problem :=
  if !c.enabled then
    .error (.failure (.unsupported (c.identifier ++ " is disabled: " ++ c.reason)))
  else if !subject.kind.isText c.family then .error (otherKind c subject.kind)
  else match subject with
    | .other typeName _ => .error (.failure (.unrecognised typeName))
    | .problem p => match p.defect? s.settings.knapsackMemoryBudget with
      | some defect => .error (.failure defect.failure)
      | none => .ok p

/-- Solves with the solver that is registered under an identifier. -/
def solveWith (s : Service) (identifier : String) (subject : Subject) (options : Options)
    (surroundings : Surroundings) : Answer :=
  match s.capabilities.lookup identifier with
  | none => .ofFailure identifier none
      (.unsupported ("no provider registered for '" ++ identifier ++ "'"))
  | some c => match s.accept c subject with
    | .error raised => .ofRaised identifier (some c.family) raised
    | .ok p => s.consult c p options surroundings

/-- Solves with the capability that solves the subject's family by default. -/
def solve (s : Service) (subject : Subject) (options : Options) (surroundings : Surroundings) :
    Answer :=
  match Family.capabilityOf subject.kind with
  | .ok identifier => s.solveWith identifier subject options surroundings
  | .error escape =>
      if escape.isNoKey then
        .ofFailure "unknown" none
          (.invalidInput ("not a recognised problem: " ++ subject.typeName))
      else ⟨.error escape, [], []⟩

/-- The wording for a request that states no problem. -/
def malformed (issue : Issue) : Failure :=
  .invalidInput ("malformed problem at '" ++ issue.place ++ "': " ++ issue.cause.message)

/-- Reads a request and solves the problem that it states, with the capability that was asked for
if there was one. -/
def answer (s : Service) (request : Request) (capability : Option String)
    (options : Options) (surroundings : Surroundings) : Answer :=
  match request.problem with
  | .failed issue _ =>
      let label := (capability.filter (· ≠ "")).getD request.likelyCapability
      .ofFailure label none (malformed issue)
  | .ok p => match capability with
    | some identifier => s.solveWith identifier (.problem p) options surroundings
    | none => s.solve (.problem p) options surroundings

/-- The solution of a problem that is given as data, as JSON can hold it: every key is a text. -/
def serve (s : Service) (problem : Datum) (capability : Option String) (options : Options)
    (surroundings : Surroundings) : Except Escape Datum := do
  let solution ← (s.answer (.ofDatum problem) capability options surroundings).outcome
  solution.write.withTextKeys.mapError .ofFault

end Service

end Optima
