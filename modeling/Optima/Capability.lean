import Optima.Lists
import Optima.Solver.External
import Optima.Solver.Internal

/-!
Capabilities. A capability is an identifier under which a solver can be asked for; it is meant for
one family, and may be disabled for a reason. Of several capabilities (`Capabilities`) no two share
an identifier, so an identifier stands for at most one of them.
-/

namespace Optima

/-- A capability. -/
structure Capability where
  identifier : String
  /-- The name of the family whose problems may be handed over. -/
  family : String
  solver : Solver
  enabled : Bool
  reason : String

/-- Capabilities with distinct identifiers, in the order in which they are listed. -/
structure Capabilities where
  entries : List Capability
  distinct : (entries.map (·.identifier)).Nodup

namespace Capabilities

/-- The identifiers, in order. -/
def identifiers (cs : Capabilities) : List String := cs.entries.map (·.identifier)

/-- A list of capabilities, or the first identifier that occurs a second time. -/
def ofList (entries : List Capability) : Except String Capabilities :=
  match h : repeated? (entries.map (·.identifier)) with
  | some identifier => .error identifier
  | none => .ok ⟨entries, (repeated?_eq_none_iff _).1 h⟩

/-- The wording for an identifier that occurs a second time. -/
def repeatedMessage (identifier : String) : String :=
  "capability '" ++ identifier ++ "' registered twice"

/-- The capability of an identifier. -/
def lookup (cs : Capabilities) (identifier : String) : Option Capability :=
  cs.entries.find? fun c => c.identifier = identifier

/-- What is found under an identifier is what is listed with it. -/
theorem lookup_eq_some_iff (cs : Capabilities) (identifier : String) (c : Capability) :
    cs.lookup identifier = some c ↔ c ∈ cs.entries ∧ c.identifier = identifier := by
  obtain ⟨entries, distinct⟩ := cs
  simp only [lookup]
  induction entries with
  | nil => simp
  | cons x rest ih =>
    simp only [List.map_cons, List.nodup_cons, List.mem_map] at distinct
    have := ih distinct.2
    by_cases hx : x.identifier = identifier <;> grind

/-! ### The standard capabilities -/

/-- The solver of a family, or why there is none. -/
def standardSolver (settings : Settings) (installed : String → Bool) :
    Family → Except String Solver
  | .assignment =>
      .ok (.assignment (.int settings.auctionThreshold) (.real settings.assignmentTolerance))
  | .knapsack => .ok .knapsack
  | .shortestPath => .ok .shortestPath
  | .maxFlow => .ok (.maxFlow (.real settings.globalRelabelFrequency))
  | .minCostFlow => .ok .minCostFlow
  | .constraint => match Solver.externalObstacle? settings installed with
    | none => .ok (.external settings.backend)
    | some reason => .error reason

/-- The capability that solves a family by default. -/
def standardEntry (settings : Settings) (installed : String → Bool) (family : Family) :
    Capability :=
  match standardSolver settings installed family with
  | .ok solver => ⟨family.capability, family.name, solver, true, ""⟩
  | .error reason => ⟨family.capability, family.name, .unavailable reason, false, reason⟩

theorem standardEntry_identifier (settings : Settings) (installed : String → Bool)
    (family : Family) :
    (standardEntry settings installed family).identifier = family.capability := by
  unfold standardEntry
  split <;> rfl

/-- The capabilities that the settings ask for: one for each family. -/
def standard (settings : Settings) (installed : String → Bool) : Capabilities where
  entries := Family.all.map (standardEntry settings installed)
  distinct := by
    have h : (Family.all.map (standardEntry settings installed)).map (·.identifier) =
        Family.all.map Family.capability := by
      simp [standardEntry_identifier]
    rw [h]
    decide

end Capabilities

end Optima
