import Optima.Proofs.Number.Overflow
import Optima.Proofs.Record.Reader
import Optima.Proofs.Table
import Optima.Settings

/-!
What sound problems are. A problem is looked through check by check, and the first thing wrong with
it ends the search; what all checks amount to is said here for each family without any order
(`Assignment.WellFormed` and its siblings), and a problem has no defect exactly if it is well formed
(`no_defect_iff_wellFormed`).

A knapsack into which no item fits needs no table, so that it is within every budget that is not
negative; settings have no others.
-/

namespace Optima

namespace Problem

/-! ### Well-formed problems -/

/-- The number of tasks: all rows are to be as long as the first. -/
def Assignment.tasks (p : Assignment) : Nat := (p.costs.head?.map List.length).getD 0

structure Assignment.WellFormed (p : Assignment) : Prop where
  rows : ∀ row ∈ p.costs, row.length = p.tasks
  costs : ∀ row ∈ p.costs, ∀ c ∈ row, c.IsAmount
  agentLabels : ∀ labels ∈ p.agentLabels, labels.length = p.costs.length
  taskLabels : ∀ labels ∈ p.taskLabels, labels.length = p.tasks

/-- How many items are not heavier than the capacity. -/
def Knapsack.candidates (p : Knapsack) : Nat := p.weights.countP (· ≤ p.capacity)

structure Knapsack.WellFormed (p : Knapsack) (budget : Int) : Prop where
  lengths : p.weights.length = p.values.length
  capacity : 0 ≤ p.capacity
  weights : ∀ w ∈ p.weights, 0 ≤ w
  values : ∀ v ∈ p.values, 0 ≤ v
  total : p.values.sum ≤ 2 ^ 63 - 1
  table : 0 < p.candidates → (p.capacity + 1) * (p.candidates + 8) ≤ budget

structure ShortestPath.WellFormed (p : ShortestPath) : Prop where
  nodes : p.nodes.Nodup
  source : p.source ∈ p.nodes
  target : ∀ target ∈ p.target, target ∈ p.nodes
  ends : ∀ e ∈ p.edges, e.tail ∈ p.nodes ∧ e.head ∈ p.nodes
  weights : ∀ e ∈ p.edges, e.weight.IsAmount

structure MaxFlow.WellFormed (p : MaxFlow) : Prop where
  nodes : p.nodes.Nodup
  source : p.source ∈ p.nodes
  sink : p.sink ∈ p.nodes
  apart : p.source ≠ p.sink
  ends : ∀ e ∈ p.edges, e.tail ∈ p.nodes ∧ e.head ∈ p.nodes
  capacities : ∀ e ∈ p.edges, 0 ≤ e.capacity

/-- Supplies and nothing else are given, for declared nodes, none of them twice, and they make up
for each other. -/
structure MinCostFlow.Supplied (p : MinCostFlow) (supplies : List NodeSupply) : Prop where
  given : p.supplies = some supplies
  alone : p.source = none ∧ p.sink = none ∧ p.flowValue = none
  declared : ∀ s ∈ supplies, s.node ∈ p.nodes
  distinct : (supplies.map (·.node)).Nodup
  even : (supplies.map (·.supply)).sum = 0

/-- A source and a sink are given, which are declared and distinct, and no supplies; the value of
the flow, if there is one, is not negative. -/
structure MinCostFlow.Routed (p : MinCostFlow) (source sink : NodeId) : Prop where
  starts : p.source = some source
  stops : p.sink = some sink
  alone : p.supplies = none
  source_mem : source ∈ p.nodes
  sink_mem : sink ∈ p.nodes
  apart : source ≠ sink
  value : ∀ value ∈ p.flowValue, 0 ≤ value

structure MinCostFlow.WellFormed (p : MinCostFlow) : Prop where
  nodes : p.nodes.Nodup
  ends : ∀ e ∈ p.edges, e.tail ∈ p.nodes ∧ e.head ∈ p.nodes
  capacities : ∀ e ∈ p.edges, ∀ capacity ∈ e.capacity, 0 ≤ capacity
  request : (∃ supplies, p.Supplied supplies) ∨ ∃ source sink, p.Routed source sink

/-- A well-formed problem of any family. Models for external solvers are not looked into. -/
def WellFormed (budget : Int) : Problem → Prop
  | assignment p => p.WellFormed
  | knapsack p => p.WellFormed budget
  | shortestPath p => p.WellFormed
  | maxFlow p => p.WellFormed
  | minCostFlow p => p.WellFormed
  | constraint _ => True

/-! ### Checks of lists -/

/-- A check of numbered entries that does not depend on the numbers is one of the entries. -/
theorem findSome?_zipIdx_eq_none_iff {α β : Type} {xs : List α} {check : α × Nat → Option β}
    {ok : α → Prop} (each : ∀ x k, check (x, k) = none ↔ ok x) :
    xs.zipIdx.findSome? check = none ↔ ∀ x ∈ xs, ok x := by
  rw [List.findSome?_eq_none_iff]
  conv_rhs => rw [← List.zipIdx_map_fst 0 xs, List.forall_mem_map]
  exact forall₂_congr fun entry _ => each entry.1 entry.2

theorem costRowDefect?_eq_none_iff {width i : Nat} {row : List Number} :
    costRowDefect? width i row = none ↔ row.length = width ∧ ∀ c ∈ row, c.IsAmount := by
  rw [costRowDefect?, Option.orElse_eq_none, Defect.unless_eq_none_iff,
    findSome?_zipIdx_eq_none_iff fun c j => Option.map_eq_none_iff.trans Number.flaw?_eq_none_iff]

theorem labelsDefect?_eq_none_iff {what : String} {count : Nat} {labels : Option (List String)} :
    labelsDefect? what count labels = none ↔ ∀ l ∈ labels, l.length = count := by
  cases labels <;> simp [labelsDefect?]

theorem endsDefect?_eq_none_iff {nodes : List NodeId} {ends : List (NodeId × NodeId)} :
    endsDefect? nodes ends = none ↔ ∀ e ∈ ends, e.1 ∈ nodes ∧ e.2 ∈ nodes :=
  findSome?_zipIdx_eq_none_iff fun _ _ => Defect.unless_eq_none_iff ..

theorem capacitiesDefect?_eq_none_iff {capacities : List (Option Int)} :
    capacitiesDefect? capacities = none ↔ ∀ c ∈ capacities, ∀ capacity ∈ c, 0 ≤ capacity :=
  findSome?_zipIdx_eq_none_iff fun c _ => by cases c <;> simp

theorem nodesDefect?_eq_none_iff {nodes : List NodeId} :
    nodesDefect? nodes = none ↔ nodes.Nodup :=
  Option.map_eq_none_iff.trans (repeated?_eq_none_iff nodes)

theorem terminalsDefect?_eq_none_iff {nodes : List NodeId} {source sink : NodeId} :
    terminalsDefect? nodes source sink = none ↔
      source ∈ nodes ∧ sink ∈ nodes ∧ source ≠ sink := by
  simp only [terminalsDefect?, roleDefect?, Option.orElse_eq_none, Defect.unless_eq_none_iff]

theorem suppliesDefect?_eq_none_iff {nodes seen : List NodeId} {supplies : List NodeSupply} :
    suppliesDefect? nodes seen supplies = none ↔
      (∀ s ∈ supplies, s.node ∈ nodes ∧ s.node ∉ seen) ∧ (supplies.map (·.node)).Nodup := by
  induction supplies generalizing seen with
  | nil => simp [suppliesDefect?]
  | cons s rest ih =>
    simp only [suppliesDefect?, roleDefect?, Option.orElse_eq_none, Defect.unless_eq_none_iff, ih,
      List.map_cons, List.nodup_cons, List.mem_cons, forall_eq_or_imp, not_or]
    -- That the first is not seen again is said of the others before, and of the first after.
    have again : s.node ∉ rest.map (·.node) ↔ ∀ s' ∈ rest, s'.node ≠ s.node := by
      simp [List.mem_map]
    rw [again]
    constructor
    · rintro ⟨declared, fresh, others, distinct⟩
      exact ⟨⟨⟨declared, fresh⟩, fun s' mem => ⟨(others s' mem).1, (others s' mem).2.2⟩⟩,
        fun s' mem => (others s' mem).2.1, distinct⟩
    · rintro ⟨⟨⟨declared, fresh⟩, others⟩, once, distinct⟩
      exact ⟨declared, fresh, fun s' mem => ⟨(others s' mem).1, once s' mem, (others s' mem).2⟩,
        distinct⟩

/-! ### Checks of a knapsack -/

theorem forall_mem_zip_iff {weights values : List Int} (lengths : weights.length = values.length) :
    (∀ item ∈ weights.zip values, 0 ≤ item.1 ∧ 0 ≤ item.2) ↔
      (∀ w ∈ weights, 0 ≤ w) ∧ ∀ v ∈ values, 0 ≤ v := by
  have firsts : (∀ w ∈ (weights.zip values).map Prod.fst, 0 ≤ w) ↔ _ := List.forall_mem_map
  have seconds : (∀ v ∈ (weights.zip values).map Prod.snd, 0 ≤ v) ↔ _ := List.forall_mem_map
  rw [List.map_fst_zip lengths.le] at firsts
  rw [List.map_snd_zip lengths.ge] at seconds
  rw [firsts, seconds]
  exact forall₂_and

theorem length_fitting (weights : List Int) (capacity : Int) :
    (Knapsack.fitting weights capacity).length = weights.countP (· ≤ capacity) := by
  rw [Optima.Knapsack.fitting, List.length_filterMap_eq_countP]
  conv_rhs => rw [← List.zipIdx_map_fst 0 weights, List.countP_map]
  refine List.countP_congr fun entry _ => ?_
  by_cases fits : entry.1 ≤ capacity <;> simp [fits]

/-- Without candidates there is no table. -/
theorem tableBytes_le_iff {p : Knapsack} {budget : Int} (budget_nonneg : 0 ≤ budget) :
    Optima.Knapsack.tableBytes p.weights p.capacity ≤ budget ↔
      (0 < p.candidates → (p.capacity + 1) * (p.candidates + 8) ≤ budget) := by
  have count : (Optima.Knapsack.fitting p.weights p.capacity).length = p.candidates :=
    length_fitting ..
  unfold Optima.Knapsack.tableBytes
  rw [count]
  split
  · next none =>
    rw [none]
    exact iff_of_true budget_nonneg fun some => absurd some (Nat.lt_irrefl 0)
  · next some =>
    exact ⟨fun le _ => le, fun le => le (Nat.pos_of_ne_zero some)⟩

/-! ### Each family -/

theorem Assignment.defect?_eq_none_iff {p : Assignment} : p.defect? = none ↔ p.WellFormed := by
  have rows : (p.costs.zipIdx.findSome? fun entry =>
      costRowDefect? p.tasks entry.2 entry.1) = none ↔
      ∀ row ∈ p.costs, row.length = p.tasks ∧ ∀ c ∈ row, c.IsAmount :=
    findSome?_zipIdx_eq_none_iff fun _ _ => costRowDefect?_eq_none_iff
  simp only [defect?, Option.orElse_eq_none, labelsDefect?_eq_none_iff]
  constructor
  · rintro ⟨fine, agents, tasks⟩
    exact ⟨fun row mem => (rows.mp fine row mem).1, fun row mem => (rows.mp fine row mem).2,
      agents, tasks⟩
  · intro well
    exact ⟨rows.mpr fun row mem => ⟨well.rows row mem, well.costs row mem⟩, well.agentLabels,
      well.taskLabels⟩

theorem Knapsack.defect?_eq_none_iff {p : Knapsack} {budget : Int} (budget_nonneg : 0 ≤ budget) :
    p.defect? budget = none ↔ p.WellFormed budget := by
  have items : ((p.weights.zip p.values).zipIdx.findSome? fun entry =>
      Defect.expect (0 ≤ entry.1.1 ∧ 0 ≤ entry.1.2) (.negativeItem entry.2)) = none ↔
      ∀ item ∈ p.weights.zip p.values, 0 ≤ item.1 ∧ 0 ≤ item.2 :=
    findSome?_zipIdx_eq_none_iff fun _ _ => Defect.unless_eq_none_iff ..
  have largest : greatestValue = 2 ^ 63 - 1 := rfl
  simp only [defect?, Option.orElse_eq_none, Defect.unless_eq_none_iff,
    tableBytes_le_iff budget_nonneg, total_eq_sum, largest]
  constructor
  · rintro ⟨lengths, capacity, fine, total, table⟩
    obtain ⟨weights, values⟩ := (forall_mem_zip_iff lengths).mp (items.mp fine)
    exact ⟨lengths, capacity, weights, values, total, table⟩
  · intro well
    exact ⟨well.lengths, well.capacity,
      items.mpr ((forall_mem_zip_iff well.lengths).mpr ⟨well.weights, well.values⟩), well.total,
      well.table⟩

theorem ShortestPath.defect?_eq_none_iff {p : ShortestPath} : p.defect? = none ↔ p.WellFormed := by
  have weights : (p.edges.zipIdx.findSome? fun entry => entry.1.weight.flaw?.map
      (Defect.badLength entry.2 entry.1.tail entry.1.head entry.1.weight)) = none ↔
      ∀ e ∈ p.edges, e.weight.IsAmount :=
    findSome?_zipIdx_eq_none_iff fun _ _ =>
      Option.map_eq_none_iff.trans Number.flaw?_eq_none_iff
  simp only [defect?, Option.orElse_eq_none, nodesDefect?_eq_none_iff, roleDefect?,
    Defect.unless_eq_none_iff, Option.bind_eq_none_iff, endsDefect?_eq_none_iff,
    List.forall_mem_map]
  constructor
  · rintro ⟨nodes, source, target, ends, fine⟩
    exact ⟨nodes, source, target, ends, weights.mp fine⟩
  · intro well
    exact ⟨well.nodes, well.source, well.target, well.ends, weights.mpr well.weights⟩

theorem MaxFlow.defect?_eq_none_iff {p : MaxFlow} : p.defect? = none ↔ p.WellFormed := by
  simp only [defect?, Option.orElse_eq_none, nodesDefect?_eq_none_iff,
    terminalsDefect?_eq_none_iff, endsDefect?_eq_none_iff, capacitiesDefect?_eq_none_iff,
    List.forall_mem_map, Option.mem_some_iff, forall_eq']
  constructor
  · rintro ⟨nodes, ⟨source, sink, apart⟩, ends, capacities⟩
    exact ⟨nodes, source, sink, apart, ends, capacities⟩
  · intro well
    exact ⟨well.nodes, ⟨well.source, well.sink, well.apart⟩, well.ends, well.capacities⟩

/-- Where supplies are given, the request is for them. -/
theorem MinCostFlow.requestDefect?_of_supplies {p : MinCostFlow} {supplies : List NodeSupply}
    (given : p.supplies = some supplies) :
    p.requestDefect? = none ↔ p.Supplied supplies := by
  simp only [requestDefect?, given, Option.orElse_eq_none, Defect.unless_eq_none_iff,
    suppliesDefect?_eq_none_iff, total_eq_sum]
  constructor
  · rintro ⟨alone, ⟨declared, distinct⟩, even⟩
    exact ⟨given, alone, fun s mem => (declared s mem).1, distinct, even⟩
  · intro well
    exact ⟨well.alone, ⟨fun s mem => ⟨well.declared s mem, List.not_mem_nil⟩, well.distinct⟩,
      well.even⟩

/-- Without supplies, it is for a flow from the source to the sink. -/
theorem MinCostFlow.requestDefect?_of_ends {p : MinCostFlow} {source sink : NodeId}
    (alone : p.supplies = none) (starts : p.source = some source) (stops : p.sink = some sink) :
    p.requestDefect? = none ↔ p.Routed source sink := by
  simp only [requestDefect?, alone, starts, stops, Option.orElse_eq_none,
    terminalsDefect?_eq_none_iff, Option.bind_eq_none_iff, Defect.unless_eq_none_iff]
  constructor
  · rintro ⟨⟨source_mem, sink_mem, apart⟩, value⟩
    exact ⟨starts, stops, alone, source_mem, sink_mem, apart, value⟩
  · intro well
    exact ⟨⟨well.source_mem, well.sink_mem, well.apart⟩, well.value⟩

theorem MinCostFlow.requestDefect?_eq_none_iff {p : MinCostFlow} : p.requestDefect? = none ↔
    (∃ supplies, p.Supplied supplies) ∨ ∃ source sink, p.Routed source sink := by
  constructor
  · intro fine
    cases given : p.supplies with
    | some supplies => exact .inl ⟨supplies, (requestDefect?_of_supplies given).mp fine⟩
    | none =>
      cases starts : p.source with
      | none =>
        rw [requestDefect?, given, starts] at fine
        cases fine
      | some source =>
        cases stops : p.sink with
        | none =>
          rw [requestDefect?, given, starts, stops] at fine
          cases fine
        | some sink =>
          exact .inr ⟨source, sink, (requestDefect?_of_ends given starts stops).mp fine⟩
  · rintro (⟨supplies, well⟩ | ⟨source, sink, well⟩)
    · exact (requestDefect?_of_supplies well.given).mpr well
    · exact (requestDefect?_of_ends well.alone well.starts well.stops).mpr well

theorem MinCostFlow.defect?_eq_none_iff {p : MinCostFlow} : p.defect? = none ↔ p.WellFormed := by
  simp only [defect?, Option.orElse_eq_none, nodesDefect?_eq_none_iff, endsDefect?_eq_none_iff,
    capacitiesDefect?_eq_none_iff, requestDefect?_eq_none_iff, List.forall_mem_map]
  constructor
  · rintro ⟨nodes, ends, capacities, request⟩
    exact ⟨nodes, ends, capacities, request⟩
  · intro well
    exact ⟨well.nodes, well.ends, well.capacities, well.request⟩

end Problem

/-! ### Any problem -/

namespace Settings

variable {settings : Settings} {form : Form} {d : Datum}

/-- No settings allow fewer than one byte. -/
theorem one_le_budget (read : reader form d = .ok settings) :
    1 ≤ settings.knapsackMemoryBudget := by
  obtain ⟨fields, body⟩ := Reader.record_eq_ok read
  simp only [Checked.seq_eq_ok_iff, Checked.map_eq_ok_iff] at body
  -- The fields from the last to the first; the fifth is the budget.
  obtain ⟨_, _, ⟨_, _, ⟨_, _, ⟨_, _, made, _, rfl⟩, _, rfl⟩, _, rfl⟩, _, rfl⟩ := body
  obtain ⟨_, budget, made, allowed, rfl⟩ := made
  obtain ⟨_, _, ⟨_, _, ⟨_, _, ⟨_, _, rfl⟩, _, rfl⟩, _, rfl⟩, _, rfl⟩ := made
  rcases Reader.withDefault_eq_ok allowed with standard | ⟨_, given⟩
  · change 1 ≤ budget
    rw [standard]
    decide
  · exact Reader.intFrom_eq_ok given

end Settings

/-- Whatever the settings are, the problems without a defect are the well-formed ones. -/
theorem Problem.no_defect_iff_wellFormed {settings : Settings} {form : Form} {d : Datum}
    (read : Settings.reader form d = .ok settings) (p : Problem) :
    p.defect? settings.knapsackMemoryBudget = none ↔
      p.WellFormed settings.knapsackMemoryBudget := by
  cases p with
  | assignment p => exact Assignment.defect?_eq_none_iff
  | knapsack p =>
    have positive := Settings.one_le_budget read
    exact Knapsack.defect?_eq_none_iff (by omega)
  | shortestPath p => exact ShortestPath.defect?_eq_none_iff
  | maxFlow p => exact MaxFlow.defect?_eq_none_iff
  | minCostFlow p => exact MinCostFlow.defect?_eq_none_iff
  | constraint p => exact iff_of_true rfl trivial

/-- A node named by a number and one named by its digits, with an edge of length zero between. -/
def numberAndDigits : Problem := .shortestPath {
  nodes := [.int 1, .text "1"]
  edges := [⟨.int 1, .text "1", .int 0⟩]
  source := .int 1
  target := some (.text "1")
  directed := true }

theorem no_defect_iff_wellFormed_numberAndDigits :
    ∃ settings, Settings.reader .values (.object []) = .ok settings ∧
      numberAndDigits.defect? settings.knapsackMemoryBudget = none ∧
      numberAndDigits.WellFormed settings.knapsackMemoryBudget := by
  have read : Settings.reader .values (.object []) = .ok Settings.standard := by rfl
  have accepted : numberAndDigits.defect? Settings.standard.knapsackMemoryBudget = none := by
    decide +kernel
  exact ⟨_, read, accepted, (Problem.no_defect_iff_wellFormed read _).mp accepted⟩

end Optima
