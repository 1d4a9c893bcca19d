import Optima.Proofs.Failures
import Optima.Proofs.Graph.ShortestPath
import Optima.Proofs.Number.Order

/-!
A search for shortest paths over lengths without flaw can fail in one way only: a label is an
integer that has become too large to be added to a double (`tree_onlyTooLarge`). Whether labels are
right does not matter for this. Each node is settled once, however labels are rounded, so the search
ends.
-/

namespace Optima.Graph

namespace Search

variable {μ α : Type} [Quantity α] {n : Nat} {steps : Fin n → List (Step n μ α)}

/-- The failure of a label that is too large. -/
abbrev Overflows (failure : Failure) : Prop := failure = .fault .tooLarge

/-- Relaxing steps settles nothing, and puts each head into the frontier at most once. -/
theorem foldlM_relax_yields (mild : Quantity.Mild α) (refuse : μ → α → Failure) (u : Fin n) (d : α)
    {due : List (Step n μ α)}
    (fine : ∀ step ∈ due, Quantity.less step.length Quantity.nought = false) (s : State n μ α) :
    Yields (fun s' => s'.done = s.done ∧ s'.frontier.length ≤ s.frontier.length + due.length)
      Overflows (due.foldlM (relax refuse u d) s) := by
  induction due generalizing s with
  | nil => exact ⟨rfl, le_rfl⟩
  | cons step due ih =>
    have first : Yields (fun s' => s'.done = s.done ∧ s'.frontier.length ≤ s.frontier.length + 1)
        Overflows (relax refuse u d s step) := by
      unfold relax
      rw [fine step List.mem_cons_self, if_neg Bool.false_ne_true]
      refine Yields.bind ((mild.add _ _).arith rfl) fun candidate _ => ?_
      dsimp only
      split
      · exact ⟨rfl, le_rfl⟩
      · split
        · exact ⟨rfl, le_rfl⟩
        · exact ⟨rfl, Nat.le_succ _⟩
    rw [List.foldlM_cons]
    refine first.bind fun s' ⟨done, length⟩ => ?_
    refine (ih (fun other known => fine other (.tail _ known)) s').mono (fun s'' next => ?_)
      fun _ => id
    refine ⟨next.1.trans done, ?_⟩
    have := next.2
    rw [List.length_cons]
    omega

/-- Every node that leaves the frontier uses up one of the departures that are left. -/
theorem explore_failsOnly (mild : Quantity.Mild α) (refuse : μ → α → Failure)
    {point : Run Failure Unit} (passes : point.outcome = .ok ())
    (fine : ∀ u, ∀ step ∈ steps u, Quantity.less step.length Quantity.nought = false) {fuel : Nat}
    {s : State n μ α} (enough : departures steps s ≤ fuel) :
    FailsOnly Overflows (explore steps refuse point fuel s).outcome := by
  induction fuel generalizing s with
  | zero =>
    have empty : s.frontier = [] := by
      unfold departures at enough
      exact List.eq_nil_of_length_eq_zero (by omega)
    simp [explore, empty, Yields]
  | succ fuel ih =>
    cases frontier : s.frontier with
    | nil => simp [explore, frontier, Yields]
    | cons x rest =>
      have leaves := takeLeast_perm x rest
      rw [explore.eq_def]
      simp only [frontier, Run.outcome_bind_of_ok passes]
      rcases taken : takeLeast x rest with ⟨⟨d, u⟩, others⟩
      rw [taken, ← frontier] at leaves
      dsimp only at leaves ⊢
      have settled : Yields (fun s' => departures steps s' < departures steps s) Overflows
          (settle steps refuse d u { s with frontier := others }) := by
        unfold settle
        split
        · have length := leaves.length_eq
          rw [List.length_cons] at length
          show departures steps { s with frontier := others } < departures steps s
          unfold departures
          dsimp only
          omega
        · rename_i fresh
          refine (foldlM_relax_yields mild refuse u d (fine u) _).mono (fun s' relaxed => ?_)
            fun _ => id
          exact departures_settle leaves (Bool.eq_false_iff.mpr fresh) relaxed.1 relaxed.2
      exact settled.outcome_bind fun s' fewer => ih (by omega)

end Search

namespace ShortestPath

variable {n : Nat}

theorem treeIn_failsOnly {α : Type} [Quantity α] (mild : Quantity.Mild α)
    {adjacency : Adjacency n α}
    (fine : ∀ u, ∀ e ∈ adjacency.get u, Quantity.less e.2 Quantity.nought = false) (source : Fin n) :
    FailsOnly Search.Overflows (treeIn adjacency source).outcome := by
  have found : FailsOnly Search.Overflows
      (Search.run (stepsOf adjacency) (fun _ _ => refusal) Run.tick source).outcome :=
    Search.explore_failsOnly mild _ Run.outcome_tick
      (fun u step known => fine u _ (mem_stepsOf.mp known)) (Search.departures_start source).le
  exact found.outcome_bind fun _ _ => trivial

/-- Over lengths without flaw a search fails only where a label is too large. -/
theorem tree_onlyTooLarge {adjacency : Adjacency n Number}
    (fine : ∀ u, ∀ e ∈ adjacency.get u, e.2.flaw? = none) (source : Fin n) :
    FailsOnly Search.Overflows (tree adjacency source).outcome := by
  have nonneg : ∀ u, ∀ e ∈ adjacency.get u, e.2.isNegative = false := fun u e known =>
    let ⟨_, _, _, nonneg⟩ := Number.finite_of_no_flaw (fine u e known)
    nonneg
  by_cases whole : ∀ u, ∀ e ∈ adjacency.get u, ∃ w, e.2 = .int w
  · obtain ⟨ints, found, mem_ints⟩ := ints?_of_whole whole
    rw [tree, found]
    exact treeIn_failsOnly Quantity.mild_int (fun u e known => nonneg u _ (mem_ints.mp known)) source
  · rw [tree, ints?_of_not_whole whole]
    exact treeIn_failsOnly Quantity.mild_number nonneg source

end ShortestPath

end Optima.Graph
