import Optima.Proofs.Assignment.Failures
import Optima.Proofs.Graph.Failures
import Optima.Proofs.Knapsack.Outcome
import Optima.Proofs.Number.Range
import Optima.Proofs.Solver.LeastCost
import Optima.Proofs.Solver.MaxFlow
import Optima.Proofs.Solver.ShortestPath

/-!
Why a sound problem can remain without an answer (`Snag`). An answer is a result, or the report that
a problem is infeasible or unbounded. Each family has its own snags: none for knapsacks; numbers
that are no doubles for flows and paths, and reports too long to be written; and for assignments
what the search for the first one refuses.
-/

namespace Optima

/-- Failures that answer a problem: it has no solution, or no best one. -/
def Failure.Answers (failure : Failure) : Prop :=
  failure.kind = .infeasible ∨ failure.kind = .unbounded

/-- An integer that is beyond the doubles. -/
def BeyondDoubles (i : Int) : Prop := (Number.int i).toReal = .error .tooLarge

theorem toReal_of_not_beyond {i : Int} (inside : ¬ BeyondDoubles i) :
    ∃ x, (Number.int i).toReal = .ok x :=
  (Solver.toReal_cases i).resolve_right inside

namespace Solver

/-! ### Assignments -/

/-- What can keep an assignment from being found, and what it takes if all costs are small whole
numbers: no potentials near the least entries certify any assignment, or there are more rows than
doubles can count. -/
structure AssignmentSnag (p : Problem.Assignment) (failure : Failure) : Prop where
  snag : Assignment.Snag p.costs failure
  of_small : ∀ {agents tasks : Nat} {cost : Nat → Nat → Nat},
    Assignment.Denoting p.costs agents tasks cost → 0 < agents → 0 < tasks →
    (∀ i < agents, ∀ j < tasks, (max agents tasks + 1) ^ 2 * cost i j ≤ 2 ^ 53) →
    (failure = Assignment.Lexicographic.notOptimal ∧ ∀ σ row column, Function.Injective σ →
      ¬ Assignment.Lexicographic.Near
        (Assignment.paddedSquare (max agents tasks) agents tasks cost) σ row column) ∨
    (failure = .fault .tooLarge ∧ 2 ^ 53 < 2 * max agents tasks + 1)

theorem solveAssignment_failsOnly {p : Problem.Assignment} (sound : p.defect? = none)
    (threshold tolerance : Number) :
    FailsOnly (fun failure => failure.Answers ∨ AssignmentSnag p failure)
      (solveAssignment threshold tolerance p).outcome := by
  have matrix_width := Assignment.length_of_no_defect sound
  have only : FailsOnly (fun failure => failure.Answers ∨ Assignment.Snag p.costs failure)
      (solveAssignment threshold tolerance p).outcome := by
    have solved := Assignment.solve_failsOnly rfl matrix_width threshold tolerance
    refine Yields.outcome_bind (solved.imp ?_) fun o _ => ?_
    · rintro _ (⟨text, rfl⟩ | snag)
      · exact .inl (.inl rfl)
      · exact .inr snag
    · exact Yields.outcome_bind ((Number.toReal_onlyTooLarge _).arith (.inr .tooLarge))
        fun _ _ => trivial
  cases outcome : (solveAssignment threshold tolerance p).outcome with
  | ok => trivial
  | error failure =>
    refine (only.allowed_of_error outcome).imp_right fun snag =>
      ⟨snag, fun matrix some_agent some_task small => ?_⟩
    obtain ⟨pairs, -, cheap, ends⟩ := matrix.solve_settled some_agent some_task small
    rw [solveAssignment] at outcome
    rcases ends threshold tolerance with ⟨o, ok, -, value⟩ | ⟨refused, far⟩ | ⟨failed, many⟩
    · rw [Run.outcome_bind_of_ok ok] at outcome
      obtain ⟨x, converted, -⟩ := value.toReal (by
        unfold Number.Small Binary64.exactBound
        omega)
      rw [Run.outcome_bind_of_ok (Run.outcome_arith_of_ok converted)] at outcome
      cases outcome
    · rw [Run.outcome_bind_of_error refused] at outcome
      cases outcome
      exact .inl ⟨rfl, far⟩
    · rw [Run.outcome_bind_of_error failed] at outcome
      cases outcome
      exact .inr ⟨rfl, many⟩

/-! ### Knapsacks -/

theorem solveKnapsack_ok {p : Problem.Knapsack} {budget : Int} (sound : p.defect? budget = none)
    (few : budget < 2 ^ 63) : ∃ finding, (solveKnapsack p).outcome = .ok finding := by
  have sound := Knapsack.sound_of_no_defect sound
  obtain ⟨o, ok, best⟩ := Knapsack.solve_found sound few
  obtain ⟨nonneg, small⟩ := best.totalValue_bounds sound
  have range : o.totalValue.natAbs < 2 ^ 64 := by
    unfold Knapsack.halfRange at small
    omega
  obtain ⟨objective, converted⟩ := Number.exists_toReal range
  rw [solveKnapsack, Run.outcome_bind_of_ok ok,
    Run.outcome_bind_of_ok (Run.outcome_arith_of_ok converted)]
  exact ⟨_, rfl⟩

/-! ### Shortest paths -/

/-- The path to the target, if there is one, ends. -/
def PathEnds (p : Problem.ShortestPath) : Prop :=
  ∀ tree i, (search p).outcome = .ok tree → p.target = some (nameOf p.nodes i) →
    tree.pathTo i ≠ .error .endless

/-- Nothing leads to the target, but the report of that is too long to be written. -/
def TargetSnag (p : Problem.ShortestPath) (failure : Failure) : Prop :=
  failure = .fault .unwritable ∧ ∃ x, p.target = some x ∧ ¬ Connected p x ∧ ¬ Reportable p x

/-- What can keep shortest paths from being found: the target, or a label that is too large. In
integers the latter takes an objective beyond the doubles. -/
def ShortestPathSnag (p : Problem.ShortestPath) (failure : Failure) : Prop :=
  TargetSnag p failure ∨ failure = .fault .tooLarge ∧
    ((∀ e ∈ p.edges, ∃ w, e.weight = .int w) → ∃ d, IsObjective p d ∧ BeyondDoubles d)

theorem pathTo_failsOnly {n : Nat} (t : Graph.ShortestPath.Tree n) (i : Fin n) :
    FailsOnly (· = .endless) (t.pathTo i) := by
  have followed (fuel : Nat) (v : Fin n) (path : List (Fin n)) :
      FailsOnly (· = .endless) (Graph.ShortestPath.follow t.predecessor fuel v path) := by
    fun_induction Graph.ShortestPath.follow with
    | case1 => rfl
    | case2 => trivial
    | case3 _ _ _ _ _ ih => exact ih
  unfold Graph.ShortestPath.Tree.pathTo
  split
  · trivial
  · rw [map_eq_pure_bind]
    exact (followed ..).bind fun _ _ => trivial

theorem report_failsOnly {p : Problem.ShortestPath} (sound : Sound p) (ends : PathEnds p)
    {t : Graph.ShortestPath.Tree p.nodes.length} (found : (search p).outcome = .ok t) :
    FailsOnly (fun failure => failure.Answers ∨ TargetSnag p failure ∨ failure = .fault .tooLarge)
      (report p t).outcome := by
  have concluded (x : Number) (f : Binary64 → Finding) :
      FailsOnly (fun failure => failure.Answers ∨ TargetSnag p failure ∨ failure = .fault .tooLarge)
        ((Failure.arith x.toReal).map f) := by
    have converted : FailsOnly (· = .fault .tooLarge) (Failure.arith x.toReal) :=
      (Number.toReal_onlyTooLarge x).arith rfl
    cases value : Failure.arith x.toReal with
    | ok => trivial
    | error failure => exact .inr (.inr (converted.allowed_of_error value))
  rcases target : p.target with _ | x
  · rw [report_without_target target]
    exact concluded _ _
  · obtain ⟨i, rfl⟩ := exists_nameOf (sound.target target)
    rcases label : t.distance.get i with _ | d
    · rw [report_missed target (route_of_unlabelled sound.distinct label)]
      by_cases reportable : Reportable p (nameOf p.nodes i)
      · obtain ⟨message, reason⟩ := unreachable_of_reportable reportable
        rw [reason]
        exact .inl (.inl rfl)
      · have apart : ¬ Connected p (nameOf p.nodes i) := by
          rw [← (search_spans sound found i).1, label]
          exact Bool.false_ne_true
        rw [unreachable_of_long reportable]
        exact .inr (.inl ⟨rfl, _, target, apart, reportable⟩)
    · cases result : t.pathTo i with
      | error failure =>
        obtain rfl := (pathTo_failsOnly t i).allowed_of_error result
        exact absurd result (ends t i found target)
      | ok path =>
        obtain ⟨path, rfl⟩ : ∃ nodes, path = some nodes := by
          simp only [Graph.ShortestPath.Tree.pathTo, label, map_eq_pure_bind] at result
          obtain ⟨nodes, -, same⟩ := bind_eq_ok_iff.mp result
          cases same
          exact ⟨nodes, rfl⟩
        rw [report_with_target target (route_of_label sound.distinct label result)]
        exact concluded _ _

/-- In integers a label that is too large is one of the objective. -/
theorem exists_beyond_of_whole {p : Problem.ShortestPath} (sound : Sound p)
    (failed : (solveShortestPath p).outcome = .error (.fault .tooLarge))
    (whole : ∀ e ∈ p.edges, ∃ w, e.weight = .int w) : ∃ d, IsObjective p d ∧ BeyondDoubles d := by
  rcases solveShortestPath_cases sound whole with ⟨x, -, -, missed⟩ |
    ⟨-, d, objective, ⟨large, -⟩ | ⟨finding, _, ok, -⟩⟩
  · rw [failed] at missed
    by_cases reportable : Reportable p x
    · obtain ⟨message, reason⟩ := unreachable_of_reportable reportable
      rw [reason] at missed
      cases missed
    · rw [unreachable_of_long reportable] at missed
      cases missed
  · exact ⟨d, objective, large⟩
  · rw [failed] at ok
    cases ok

theorem solveShortestPath_failsOnly {p : Problem.ShortestPath} (accepted : p.defect? = none)
    (ends : PathEnds p) :
    FailsOnly (fun failure => failure.Answers ∨ ShortestPathSnag p failure)
      (solveShortestPath p).outcome := by
  have sound := sound_of_no_defect accepted
  have only : FailsOnly
      (fun failure => failure.Answers ∨ TargetSnag p failure ∨ failure = .fault .tooLarge)
      (solveShortestPath p).outcome := by
    obtain ⟨edges, source, found, -, mem_edges⟩ := search_outcome sound
    have searched : FailsOnly Graph.Search.Overflows (search p).outcome := by
      rw [found]
      exact Graph.ShortestPath.tree_onlyTooLarge
        (fun u e known => (mem_edges.mp known).weight sound) source
    rw [solveShortestPath_eq]
    cases outcome : (search p).outcome with
    | ok t =>
      rw [Run.outcome_bind_of_ok outcome]
      exact report_failsOnly sound ends outcome
    | error failure =>
      rw [Run.outcome_bind_of_error outcome]
      exact .inr (.inr (searched.allowed_of_error outcome))
  cases outcome : (solveShortestPath p).outcome with
  | ok => trivial
  | error failure =>
    obtain answers | missed | rfl := only.allowed_of_error outcome
    · exact .inl answers
    · exact .inr (.inl missed)
    · exact .inr (.inr ⟨rfl, exists_beyond_of_whole sound outcome⟩)

/-! ### Maximum flows -/

/-- What can keep a maximum flow from being found: its value is beyond the doubles, or the number of
nodes is. -/
def MaxFlowSnag (p : Problem.MaxFlow) (failure : Failure) : Prop :=
  failure = .fault .tooLarge ∧ (BeyondDoubles p.nodes.length ∨
    ∃ side, p.IsLeastCut side ∧ BeyondDoubles (p.capacityOut side))

theorem relabelThreshold_of_not_beyond {n : Nat} (inside : ¬ BeyondDoubles n) :
    ∃ threshold, Flow.Maximum.relabelThreshold n (.real 1) = .ok threshold := by
  obtain ⟨y, converted⟩ := toReal_of_not_beyond inside
  have units : ∃ u, y.units? = some u := by
    rw [Number.toReal] at converted
    split at converted
    · rename_i x value
      cases converted
      exact Binary64.units?_of_ofInt? value
    · cases converted
  obtain ⟨u, units⟩ := units
  obtain ⟨w, product⟩ := Binary64.units?_one_mul units
  have multiplied : Number.mul (.real 1) (.int n) = .ok (.real (1 * y)) := by
    simp only [Number.mul, Number.combine, converted]
    rfl
  have truncated : (Number.real (1 * y)).truncate = .ok (w.tdiv Binary64.unit) := by
    simp only [Number.truncate, Binary64.truncate?, product, Option.map_some]
  rw [Flow.Maximum.relabelThreshold, multiplied, show (Except.ok (Number.real (1 * y)) >>= fun
    lifts => lifts.truncate >>= fun lifts => pure (max 1 lifts.toNat)) =
      ((Number.real (1 * y)).truncate >>= fun lifts => pure (max 1 lifts.toNat)) from rfl, truncated]
  exact ⟨_, rfl⟩

theorem relabelThreshold_of_beyond {n : Nat} (beyond : BeyondDoubles n) :
    Flow.Maximum.relabelThreshold n (.real 1) = .error .tooLarge := by
  have multiplied : Number.mul (.real 1) (.int n) = .error .tooLarge := by
    unfold BeyondDoubles at beyond
    simp only [Number.mul, Number.combine, beyond]
    rfl
  rw [Flow.Maximum.relabelThreshold, multiplied]
  rfl

/-- Without a number of lifts after which to compute heights afresh, nothing is pushed. -/
theorem solve_of_threshold_error {n m : Nat} (net : Flow.Network n m) (source sink : Fin n)
    {frequency : Number} {fault : Fault}
    (failed : Flow.Maximum.relabelThreshold n frequency = .error fault) :
    ((Flow.Maximum.solve net source sink frequency).mapError (·.failure)).outcome =
      .error (.fault fault) := by
  rw [Run.outcome_mapError, Flow.Maximum.solve, failed]
  rfl

theorem solveMaxFlow_failsOnly {p : Problem.MaxFlow} (accepted : p.defect? = none) :
    FailsOnly (MaxFlowSnag p) (solveMaxFlow (.real 1) p).outcome := by
  have sound := Problem.MaxFlow.sound_of_no_defect accepted
  obtain ⟨place, named⟩ := exists_positions sound.source
  by_cases beyond : BeyondDoubles p.nodes.length
  · have placed := mapM_position sound.distinct named (fun (e : Problem.CapacityEdge) tail head =>
      (Flow.Edge.mk tail head e.capacity 0, (0 : Int))) sound.ends
    rw [solveMaxFlow, placed, pure_bind, position_eq sound.distinct named sound.source, pure_bind,
      position_eq sound.distinct named sound.sink, pure_bind, Run.outcome_bind_of_error
        (solve_of_threshold_error _ _ _ (relabelThreshold_of_beyond beyond))]
    exact ⟨rfl, .inl beyond⟩
  · obtain ⟨threshold, lifts⟩ := relabelThreshold_of_not_beyond beyond
    obtain ⟨o, ⟨-, reported⟩, value, least, capacity⟩ := solveMaxFlow_eq sound named lifts
    rw [reported, value, capacity]
    by_cases large : BeyondDoubles (p.capacityOut (Solver.reported p o).cutSourceSide.toFinset)
    · rw [large]
      exact ⟨rfl, .inr ⟨_, least, large⟩⟩
    · obtain ⟨x, converted⟩ := toReal_of_not_beyond large
      rw [converted]
      trivial

/-! ### Flows of least cost -/

/-- What can keep a flow of least cost from being found: no flow meets the demand, but the report of
that is too long to be written; or the least cost is beyond the doubles. -/
def MinCostFlowSnag (p : Problem.MinCostFlow) (failure : Failure) : Prop :=
  ∃ links demand, Placed p links demand ∧
    (failure = .fault .unwritable ∧ Flow.LeastCost.Unroutable links demand ∧
        ¬ Flow.LeastCost.Wordable links demand ∨
      failure = .fault .tooLarge ∧ ∃ c, IsLeastCost links demand c ∧ BeyondDoubles c)

theorem solveMinCostFlow_failsOnly {p : Problem.MinCostFlow} (accepted : p.defect? = none) :
    FailsOnly (fun failure => failure.Answers ∨ MinCostFlowSnag p failure)
      (solveMinCostFlow p).outcome := by
  obtain ⟨links, demand, placed, ends⟩ :=
    solveMinCostFlow_ends (Problem.MinCostFlow.sound_of_no_defect accepted)
  cases outcome : (solveMinCostFlow p).outcome with
  | ok => trivial
  | error failure =>
    rw [outcome] at ends
    cases ends with
    | unbounded text => exact .inl (.inr rfl)
    | infeasible text => exact .inl (.inl rfl)
    | unwritable unroutable long =>
      exact .inr ⟨links, demand, placed, .inl ⟨rfl, unroutable, long⟩⟩
    | tooLarge c least beyond =>
      exact .inr ⟨links, demand, placed, .inr ⟨rfl, c, least, beyond⟩⟩

/-! ### Any family -/

/-- What can keep a sound problem from being answered. Knapsacks have no snags. -/
inductive Snag : Problem → Failure → Prop
  | assignment {p : Problem.Assignment} {failure : Failure} :
      AssignmentSnag p failure → Snag (.assignment p) failure
  | shortestPath {p : Problem.ShortestPath} {failure : Failure} :
      ShortestPathSnag p failure → Snag (.shortestPath p) failure
  | maxFlow {p : Problem.MaxFlow} {failure : Failure} :
      MaxFlowSnag p failure → Snag (.maxFlow p) failure
  | minCostFlow {p : Problem.MinCostFlow} {failure : Failure} :
      MinCostFlowSnag p failure → Snag (.minCostFlow p) failure

/-- Snags are reported as failures of the solver. -/
theorem Snag.kind {p : Problem} {failure : Failure} (snag : Snag p failure) :
    failure.kind = .internalSolverError := by
  cases snag with
  | assignment snag => cases snag.snag <;> rfl
  | shortestPath snag => obtain ⟨rfl, _⟩ | ⟨rfl, _⟩ := snag <;> rfl
  | maxFlow snag => rw [snag.1, Failure.kind]
  | minCostFlow snag => obtain ⟨_, _, _, ⟨rfl, _⟩ | ⟨rfl, _⟩⟩ := snag <;> rfl

end Solver

end Optima
