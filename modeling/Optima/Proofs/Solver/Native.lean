import Optima.Proofs.Limits
import Optima.Solver.Internal

/-!
Where the solvers of the five families that are solved here may be cut off. All their points come
from the algorithms underneath (rows and columns of an assignment, items of a knapsack, nodes that
leave a frontier, discharges, augmentations), and at each of them the failure is the reason for the
cut and nothing else. What they do depends on the problem alone.
-/

namespace Optima

open Run

variable {n m : Nat}

/-! ### Pairing -/

namespace Assignment

variable {α : Type} [Quantity α]

theorem Hungarian.solveIn_interruptible (cost : Square n α) :
    Interruptible id (Hungarian.solveIn cost) :=
  (Interruptible.foldlM (fun _ _ => Interruptible.check.bind fun _ => .ofExcept _) _ _).bind
    fun _ => .pure _

theorem Auction.trade_interruptible (benefit : Square n Int) (epsilon fuel : Nat)
    (m : Auction.Market n) : Interruptible id (Auction.trade benefit epsilon fuel m) := by
  fun_induction Auction.trade with
  | case1 | case2 => exact .done _
  | case3 _ _ _ _ _ ih => exact Interruptible.tick.bind fun _ => ih

theorem Auction.solve_interruptible (cost : Square n Int) (outside : List Int) :
    Interruptible id (Auction.solve cost outside) := by
  unfold Auction.solve
  split
  · exact .fail _
  · split
    · exact .pure _
    · refine (Interruptible.foldlM (fun _ _ => Auction.trade_interruptible ..) _ _).bind fun m => ?_
      split
      · exact .pure _
      · exact .fail _

theorem Lexicographic.settle_interruptible (tolerance : Number) (cost : Square n α)
    (rowOf : Table n (Fin n)) (fuel : Nat) (s : Lexicographic.Search n α) :
    Interruptible id (Lexicographic.settle tolerance cost rowOf fuel s) := by
  fun_induction Lexicographic.settle with
  | case1 | case2 => exact .done _
  | case3 _ _ _ _ _ ih =>
    exact Interruptible.tick.bind fun _ => (Interruptible.ofExcept _).bind fun s => ih s

theorem Lexicographic.solveIn_interruptible (cost : Square n α) (columnOf : Table n (Fin n))
    (tolerance : Number) : Interruptible id (Lexicographic.solveIn cost columnOf tolerance) := by
  refine Interruptible.bind ?_ fun tight => Interruptible.bind ?_ fun _ => .pure _
  · exact (Lexicographic.settle_interruptible ..).bind fun _ => (Interruptible.arith _).bind
      fun _ => (Interruptible.arith _).bind fun _ => .pure _
  · exact (Interruptible.foldlM (fun _ _ => Interruptible.check.bind fun _ => .pure _) _ _).bind
      fun _ => .pure _

theorem canonical_interruptible (cost : Square n Number) (columnOf : Table n (Fin n))
    (tolerance : Number) : Interruptible id (canonical cost columnOf tolerance) := by
  unfold canonical
  split <;> exact Lexicographic.solveIn_interruptible ..

theorem hungarian_interruptible (cost : Square n Number) : Interruptible id (hungarian cost) := by
  unfold hungarian
  split <;> exact Hungarian.solveIn_interruptible _

theorem solve_interruptible (costs : List (List Number)) (auctionThreshold tolerance : Number) :
    Interruptible id (solve costs auctionThreshold tolerance) := by
  unfold solve
  dsimp only
  split
  · exact .fail _
  · split
    · exact (Interruptible.arith _).bind fun _ => (Interruptible.arith _).bind fun _ =>
        (Auction.solve_interruptible ..).bind fun _ => (canonical_interruptible ..).bind fun _ =>
        (Interruptible.pure _).bind fun _ => (Interruptible.ofExcept _).bind fun _ => .pure _
    · refine (hungarian_interruptible _).bind fun _ => ?_
      split
      · exact (Interruptible.pure _).bind fun _ => (canonical_interruptible ..).bind fun _ =>
          (Interruptible.pure _).bind fun _ => (Interruptible.ofExcept _).bind fun _ => .pure _
      · exact (Interruptible.arith _).bind fun _ => (canonical_interruptible ..).bind fun _ =>
          (Interruptible.pure _).bind fun _ => (Interruptible.ofExcept _).bind fun _ => .pure _

end Assignment

/-! ### Packing -/

theorem Knapsack.fill_interruptible (values : List Int) (items : List (Nat × Int)) :
    Interruptible id (Knapsack.fill (n := n) values items) := by
  refine Interruptible.foldlM (fun _ item => Interruptible.check.bind fun _ => ?_) _ _
  split
  · exact .fail _
  · dsimp only
    split
    · exact .fail _
    · exact .pure _

theorem Knapsack.solve_interruptible (weights values : List Int) (capacity : Int) :
    Interruptible id (Knapsack.solve weights values capacity) := by
  unfold Knapsack.solve
  split
  · exact .pure _
  · split
    · exact .fail _
    · refine (Knapsack.fill_interruptible ..).bind fun _ => (Interruptible.ofExcept _).bind
        fun _ => .ite (.fail _) (.pure _)

/-! ### Searching -/

theorem Graph.Search.explore_interruptible {μ α : Type} [Quantity α]
    (steps : Fin n → List (Graph.Step n μ α)) (refuse : μ → α → Failure)
    {point : Run Failure Unit} (cut : Interruptible id point) (fuel : Nat)
    (s : Graph.Search.State n μ α) :
    Interruptible id (Graph.Search.explore steps refuse point fuel s) := by
  fun_induction Graph.Search.explore with
  | case1 | case2 => exact .done _
  | case3 _ _ _ _ _ ih => exact cut.bind fun _ => (Interruptible.ofExcept _).bind fun s => ih s

theorem Graph.ShortestPath.tree_interruptible
    (adjacency : Graph.ShortestPath.Adjacency n Number) (source : Fin n) :
    Interruptible id (Graph.ShortestPath.tree adjacency source) := by
  unfold Graph.ShortestPath.tree
  split <;> exact (Graph.Search.explore_interruptible _ _ .tick _ _).bind fun _ => .pure _

/-! ### Routing -/

theorem Flow.Maximum.work_interruptible (setting : Flow.Maximum.Setting n m)
    (threshold fuel discharges relabels : Nat) (s : Flow.Maximum.State n m) :
    Interruptible Flow.Maximum.Interrupted.failure
      (Flow.Maximum.work setting threshold fuel discharges relabels s) := by
  fun_induction Flow.Maximum.work with
  | case1 | case2 => exact .done _
  | case3 _ _ _ _ _ _ _ ihAfresh ih =>
    refine .pause (fun _ => rfl) ?_
    dsimp only
    split
    · exact .fail _
    · exact .ite (ihAfresh _) (ih _)

theorem Flow.Maximum.solve_interruptible (net : Flow.Network n m) (source sink : Fin n)
    (frequency : Number) : Interruptible Flow.Maximum.Interrupted.failure
      (Flow.Maximum.solve net source sink frequency) :=
  (Interruptible.ofExcept _).bind fun _ => (Flow.Maximum.work_interruptible ..).bind
    fun _ => (Interruptible.ofExcept _).bind fun _ => .pure _

theorem Flow.LeastCost.augmentFrom_interruptible (leaving : Table n (List (Flow.Arc m)))
    (s t : Fin n) (limit : Option Int) (fuel : Nat) (st : Flow.LeastCost.State n m) :
    Interruptible id (Flow.LeastCost.augmentFrom leaving s t limit fuel st) := by
  fun_induction Flow.LeastCost.augmentFrom with
  | case1 | case2 => exact .done _
  | case3 st _ fuel ih =>
    refine Interruptible.check.bind fun _ =>
      (Graph.Search.explore_interruptible _ _ (.pure ()) _ _).bind fun found => ?_
    split
    · exact .pure _
    · exact ih _

theorem Flow.LeastCost.solve_interruptible (links : List (Flow.LeastCost.Link n))
    (demand : Flow.LeastCost.Demand n) :
    Interruptible id (Flow.LeastCost.solve links demand) := by
  unfold Flow.LeastCost.solve
  dsimp only
  split
  · exact .fail _
  · refine (Flow.LeastCost.augmentFrom_interruptible ..).bind fun first => ?_
    split
    · exact .fail _
    · split
      · exact (Flow.LeastCost.augmentFrom_interruptible ..).bind fun _ =>
          .ite (.fail _) (.pure _)
      · exact (Interruptible.pure _).bind fun _ => .ite (.fail _) (.pure _)

/-! ### The solvers -/

namespace Solver

/-- A solver that works on the problems of its family by itself: one computation solves the problem
on every occasion. It raises failures only, and wherever it is cut off it fails with the reason. -/
def Native (solver : Solver) : Prop :=
  ∀ p : Problem, p.family = solver.family → ∃ solve : Run Failure (External.Consultation Finding),
    Interruptible id solve ∧ ∀ occasion, solver.solve p occasion = solve.mapError .failure

/-- A solver that asks nothing of external solvers works by itself if it can be cut off. -/
theorem internal_native {name : String} {family : Family} {solve : Problem → Run Failure Finding}
    (cut : ∀ p : Problem, p.family = family → Interruptible id (solve p)) :
    (internal name family solve).Native :=
  fun p own => ⟨_, (cut p own).bind fun _ => .pure _, fun _ => rfl⟩

theorem position_interruptible (nodes : List NodeId) (node : NodeId) :
    Interruptible id (position nodes node) := by
  unfold position
  split
  · exact .pure _
  · exact .fail _

theorem route_interruptible (p : Problem.ShortestPath)
    (tree : Graph.ShortestPath.Tree p.nodes.length) (target : NodeId) :
    Interruptible id (route p tree target) := by
  refine (position_interruptible ..).bind fun t => (Interruptible.ofExcept _).bind fun path => ?_
  split
  · exact .pure _
  · exact .fail _

theorem solveShortestPath_interruptible (p : Problem.ShortestPath) :
    Interruptible id (solveShortestPath p) := by
  refine (Interruptible.mapM (fun _ => (position_interruptible ..).bind fun _ =>
    (position_interruptible ..).bind fun _ => .pure _) _).bind fun _ =>
    (position_interruptible ..).bind fun _ =>
    (Graph.ShortestPath.tree_interruptible ..).bind fun tree => ?_
  dsimp only
  split
  · exact (Interruptible.map _ (route_interruptible ..)).bind fun _ =>
      (Interruptible.arith _).bind fun _ => .pure _
  · exact (Interruptible.pure _).bind fun _ => (Interruptible.arith _).bind fun _ => .pure _

theorem solveMaxFlow_interruptible (relabelFrequency : Number) (p : Problem.MaxFlow) :
    Interruptible id (solveMaxFlow relabelFrequency p) :=
  (Interruptible.mapM (fun _ => (position_interruptible ..).bind fun _ =>
    (position_interruptible ..).bind fun _ => .pure _) _).bind fun _ =>
    (position_interruptible ..).bind fun _ => (position_interruptible ..).bind fun _ =>
    (Interruptible.mapError (Flow.Maximum.solve_interruptible ..)).bind fun _ =>
    (Interruptible.arith _).bind fun _ => .pure _

theorem demand_interruptible (p : Problem.MinCostFlow) : Interruptible id (demand p) := by
  unfold demand
  split
  · exact (Interruptible.foldlM (fun _ _ => (position_interruptible ..).bind fun _ => .pure _)
      _ _).bind fun _ => .pure _
  · refine (position_interruptible ..).bind fun _ => (position_interruptible ..).bind fun _ => ?_
    split <;> exact .pure _
  · exact .fail _

theorem solveMinCostFlow_interruptible (p : Problem.MinCostFlow) :
    Interruptible id (solveMinCostFlow p) :=
  (Interruptible.mapM (fun _ => (position_interruptible ..).bind fun _ =>
    (position_interruptible ..).bind fun _ => .pure _) _).bind fun _ =>
    (demand_interruptible p).bind fun _ => (Flow.LeastCost.solve_interruptible ..).bind fun _ =>
    (Interruptible.arith _).bind fun _ => .pure _

theorem assignment_native (auctionThreshold tolerance : Number) :
    (assignment auctionThreshold tolerance).Native :=
  internal_native fun p own => by
    cases p <;> cases own
    exact (Assignment.solve_interruptible ..).bind fun _ => (Interruptible.arith _).bind
      fun _ => .pure _

theorem knapsack_native : knapsack.Native :=
  internal_native fun p own => by
    cases p <;> cases own
    exact (Knapsack.solve_interruptible ..).bind fun _ => (Interruptible.arith _).bind
      fun _ => .pure _

theorem shortestPath_native : shortestPath.Native :=
  internal_native fun p own => by
    cases p <;> cases own
    exact solveShortestPath_interruptible _

theorem maxFlow_native (relabelFrequency : Number) : (maxFlow relabelFrequency).Native :=
  internal_native fun p own => by
    cases p <;> cases own
    exact solveMaxFlow_interruptible ..

theorem minCostFlow_native : minCostFlow.Native :=
  internal_native fun p own => by
    cases p <;> cases own
    exact solveMinCostFlow_interruptible _

end Solver

end Optima
