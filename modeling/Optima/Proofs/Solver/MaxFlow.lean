import Optima.Proofs.Flow.Maximum.LeastCut
import Optima.Proofs.Solver.Placement

/-!
Maximum flows in the terms of a problem. The network of a sound problem has one edge for each edge
of the problem (`solveMaxFlow_eq`), and sets of names stand for sets of positions, so the nodes
reported on the source's side are the least minimum cut of the problem. As this cut is fixed by the
problem's edges as a whole, neither the order of edges and nodes nor the frequency of relabelling
shows in it (`solveMaxFlow_leastCut`); all of them may show in the flow.
-/

namespace Optima

namespace Problem.MaxFlow

/-- What a problem without a defect guarantees. -/
structure Sound (p : MaxFlow) : Prop where
  distinct : p.nodes.Nodup
  source : p.source ∈ p.nodes
  sink : p.sink ∈ p.nodes
  apart : p.source ≠ p.sink
  ends : ∀ e ∈ p.edges, e.tail ∈ p.nodes ∧ e.head ∈ p.nodes
  capacities : ∀ e ∈ p.edges, 0 ≤ e.capacity

/-- What the edges that lead out of a set of nodes can carry together. -/
def capacityOut (p : MaxFlow) (side : Finset NodeId) : Int :=
  total ((p.edges.filter fun e => e.tail ∈ side ∧ e.head ∉ side).map (·.capacity))

/-- The nodes around the source of the minimum cut that lies within every minimum cut. -/
structure IsLeastCut (p : MaxFlow) (side : Finset NodeId) : Prop where
  declared : ∀ x ∈ side, x ∈ p.nodes
  inside : p.source ∈ side
  outside : p.sink ∉ side
  minimum : ∀ other : Finset NodeId, p.source ∈ other → p.sink ∉ other →
    p.capacityOut side ≤ p.capacityOut other
  within : ∀ other : Finset NodeId, p.source ∈ other → p.sink ∉ other →
    p.capacityOut other ≤ p.capacityOut side → side ⊆ other

/-- The same nodes and edges in another order. -/
structure Rearranged (p q : MaxFlow) : Prop where
  nodes : p.nodes.Perm q.nodes
  edges : p.edges.Perm q.edges
  source : p.source = q.source
  sink : p.sink = q.sink

variable {p q : MaxFlow}

theorem sound_of_no_defect (accepted : p.defect? = none) : p.Sound :=
  have well := defect?_eq_none_iff.mp accepted
  ⟨well.nodes, well.source, well.sink, well.apart, well.ends, well.capacities⟩

theorem Sound.rearranged (sound : p.Sound) (moved : p.Rearranged q) : q.Sound where
  distinct := moved.nodes.nodup sound.distinct
  source := moved.source ▸ moved.nodes.mem_iff.mp sound.source
  sink := moved.sink ▸ moved.nodes.mem_iff.mp sound.sink
  apart := moved.source ▸ moved.sink ▸ sound.apart
  ends e mem := (sound.ends e (moved.edges.mem_iff.mpr mem)).imp moved.nodes.mem_iff.mp
    moved.nodes.mem_iff.mp
  capacities e mem := sound.capacities e (moved.edges.mem_iff.mpr mem)

theorem capacityOut_rearranged (moved : p.Rearranged q) : p.capacityOut = q.capacityOut := by
  funext side
  unfold capacityOut
  rw [total_eq_sum, total_eq_sum]
  exact ((moved.edges.filter _).map _).sum_eq

/-- There is only one least cut. -/
theorem IsLeastCut.unique {side other : Finset NodeId} (one : p.IsLeastCut side)
    (two : p.IsLeastCut other) : side = other :=
  Finset.Subset.antisymm
    (one.within other two.inside two.outside (two.minimum side one.inside one.outside))
    (two.within side one.inside one.outside (one.minimum other two.inside two.outside))

/-- The least cut has nothing to do with the order of nodes and edges. -/
theorem IsLeastCut.rearranged {side : Finset NodeId} (cut : p.IsLeastCut side)
    (moved : p.Rearranged q) : q.IsLeastCut side := by
  have same := capacityOut_rearranged moved
  obtain ⟨declared, inside, outside, minimum, within⟩ := cut
  rw [moved.source] at inside minimum within
  rw [moved.sink] at outside minimum within
  rw [same] at minimum within
  exact ⟨fun x mem => moved.nodes.mem_iff.mp (declared x mem), inside, outside, minimum, within⟩

end Problem.MaxFlow

namespace Solver

open Problem (MaxFlow)
open Optima.Flow (Network)

variable {p : MaxFlow}

/-- The edges of a problem between positions. -/
def placedEdges (p : MaxFlow) (place : NodeId → Fin p.nodes.length) :
    List (Flow.Edge p.nodes.length × Int) :=
  p.edges.map fun e => (⟨place e.tail, place e.head, e.capacity, 0⟩, 0)

theorem values_ofList {n : Nat} (edges : List (Flow.Edge n × Int)) :
    (Network.ofList edges).edges.values = edges.map Prod.fst := by
  rw [Table.values_eq_ofFn]
  apply List.ext_getElem (by simp)
  intro k _ _
  simp [Network.ofList]

/-- A set of names leads out as much as the set of their positions. -/
theorem capacityOut_placed (sound : p.Sound) {place : NodeId → Fin p.nodes.length}
    (named : ∀ x ∈ p.nodes, nameOf p.nodes (place x) = x) (side : Finset NodeId) :
    Flow.capacityOut (Network.ofList (placedEdges p place))
      (fun i => decide (nameOf p.nodes i ∈ side)) = p.capacityOut side := by
  let positions : Table p.nodes.length Bool :=
    Table.tabulate fun i => decide (nameOf p.nodes i ∈ side)
  have listed := Flow.Maximum.cutCapacity_eq (Network.ofList (placedEdges p place)) positions
  have same : positions.get = fun i => decide (nameOf p.nodes i ∈ side) := by
    funext i
    exact Table.get_tabulate ..
  rw [same] at listed
  rw [← listed, Flow.Maximum.cutCapacity, values_ofList, placedEdges, List.map_map,
    List.filter_map, List.map_map, Problem.MaxFlow.capacityOut, same]
  refine congrArg (fun edges => total (edges.map Problem.CapacityEdge.capacity))
    (List.filter_congr fun e mem => ?_)
  obtain ⟨tail, head⟩ := sound.ends e mem
  simp [named _ tail, named _ head]

/-- The least cut of the network is the least cut of the problem. -/
theorem leastCut_placed (sound : p.Sound) {place : NodeId → Fin p.nodes.length}
    (named : ∀ x ∈ p.nodes, nameOf p.nodes (place x) = x) {side : Fin p.nodes.length → Bool}
    (cut : Flow.IsLeastCut (Network.ofList (placedEdges p place)) (place p.source) (place p.sink)
      side) :
    let names := (((List.finRange p.nodes.length).filter side).map (nameOf p.nodes)).toFinset
    p.IsLeastCut names ∧
      Flow.capacityOut (Network.ofList (placedEdges p place)) side = p.capacityOut names := by
  let names := (((List.finRange p.nodes.length).filter side).map (nameOf p.nodes)).toFinset
  have mem_names (i : Fin p.nodes.length) : nameOf p.nodes i ∈ names ↔ side i = true := by
    simp [names, (nameOf_injective sound.distinct).eq_iff]
  have same : (fun i => decide (nameOf p.nodes i ∈ names)) = side := by
    funext i
    rw [Bool.eq_iff_iff, decide_eq_true_eq]
    exact mem_names i
  have capacity := capacityOut_placed sound named names
  rw [same] at capacity
  have at_source : nameOf p.nodes (place p.source) = p.source := named _ sound.source
  have at_sink : nameOf p.nodes (place p.sink) = p.sink := named _ sound.sink
  -- a set of names is compared through the positions of its names
  have other_inside {other : Finset NodeId} (inside : p.source ∈ other) :
      decide (nameOf p.nodes (place p.source) ∈ other) = true := by simpa [at_source] using inside
  have other_outside {other : Finset NodeId} (outside : p.sink ∉ other) :
      decide (nameOf p.nodes (place p.sink) ∈ other) = false := by simpa [at_sink] using outside
  refine ⟨⟨fun x mem => ?_, ?_, ?_, fun other inside outside => ?_,
    fun other inside outside minimum x mem => ?_⟩, capacity⟩
  · obtain ⟨i, _, rfl⟩ := List.mem_map.mp (List.mem_toFinset.mp mem)
    exact List.get_mem _ _
  · rw [← at_source]
    exact (mem_names _).mpr cut.inside
  · rw [← at_sink]
    intro mem
    have inside := (mem_names _).mp mem
    rw [cut.outside] at inside
    cases inside
  · rw [← capacity, ← capacityOut_placed sound named other]
    exact cut.minimum _ (other_inside inside) (other_outside outside)
  · rw [← capacity, ← capacityOut_placed sound named other] at minimum
    obtain ⟨i, listed, rfl⟩ := List.mem_map.mp (List.mem_toFinset.mp mem)
    exact decide_eq_true_eq.mp (cut.within _ (other_inside inside) (other_outside outside) minimum i
      (List.mem_filter.mp listed).2)

/-- The network of a sound problem carries nothing yet, and no capacity is negative. -/
theorem placedEdges_ready (sound : p.Sound) (place : NodeId → Fin p.nodes.length) :
    let net := Network.ofList (placedEdges p place)
    (∀ e, net.flow.get e = 0) ∧ ∀ e, 0 ≤ (net.edges.get e).capacity := by
  intro net
  have each : ∀ edge ∈ placedEdges p place, edge.2 = 0 ∧ 0 ≤ edge.1.capacity := by
    intro edge mem
    obtain ⟨e, listed, rfl⟩ := List.mem_map.mp mem
    exact ⟨rfl, sound.capacities e listed⟩
  refine ⟨fun e => ?_, fun e => ?_⟩
  · rw [show net.flow.get e = (placedEdges p place)[e].2 from Table.get_tabulate ..]
    exact (each _ (List.getElem_mem _)).1
  · rw [show net.edges.get e = (placedEdges p place)[e].1 from Table.get_tabulate ..]
    exact (each _ (List.getElem_mem _)).2

/-- An outcome in the terms of a problem. -/
def reported (p : MaxFlow) {m : Nat} (o : Flow.Maximum.Outcome p.nodes.length m) :
    Result.MaxFlow where
  flowValue := o.flowValue
  edgeFlows := edgeFlows (p.edges.map fun e => (e.tail, e.head)) o.edgeFlows
  cutSourceSide := ((List.finRange p.nodes.length).filter o.sourceSide.get).map (nameOf p.nodes)
  cutCapacity := o.cutCapacity

/-- What solving a problem comes to when its nodes are placed: push-relabel on the placed edges ends
with an outcome, and this is what is reported unless its value is no double. -/
def ReportsFlow (frequency : Number) (p : MaxFlow) (place : NodeId → Fin p.nodes.length)
    (o : Flow.Maximum.Outcome p.nodes.length (placedEdges p place).length) : Prop :=
  (∃ final, (Flow.Maximum.solve (Network.ofList (placedEdges p place)) (place p.source)
    (place p.sink) frequency).outcome = .ok (final, o)) ∧
  (solveMaxFlow frequency p).outcome = (Failure.arith (Number.int o.flowValue).toReal).map
    fun objective => ⟨.maxFlow (reported p o), objective, ⟨"push_relabel", o.discharges⟩, ""⟩

/-- Solving a sound problem gives a flow and the least minimum cut, whose capacity is the value of
the flow. -/
theorem solveMaxFlow_eq (sound : p.Sound) {place : NodeId → Fin p.nodes.length}
    (named : ∀ x ∈ p.nodes, nameOf p.nodes (place x) = x) {frequency : Number} {threshold : Nat}
    (lifts : Flow.Maximum.relabelThreshold p.nodes.length frequency = .ok threshold) :
    ∃ o, ReportsFlow frequency p place o ∧ o.flowValue = o.cutCapacity ∧
      p.IsLeastCut (reported p o).cutSourceSide.toFinset ∧
      o.cutCapacity = p.capacityOut (reported p o).cutSourceSide.toFinset := by
  have placed := mapM_position sound.distinct named
    (fun (e : Problem.CapacityEdge) tail head => (Flow.Edge.mk tail head e.capacity 0, (0 : Int)))
    sound.ends
  obtain ⟨still, capacities⟩ := placedEdges_ready sound place
  have apart : place p.source ≠ place p.sink := by
    intro same
    have names := congrArg (nameOf p.nodes) same
    rw [named _ sound.source, named _ sound.sink] at names
    exact sound.apart names
  obtain ⟨final, o, ok, cut, value, capacity⟩ :=
    Flow.Maximum.solve_leastCut still capacities apart lifts
  obtain ⟨least, same⟩ := leastCut_placed sound named cut
  have renamed : ((Flow.Maximum.solve (Network.ofList (placedEdges p place)) (place p.source)
      (place p.sink) frequency).mapError (·.failure)).outcome = .ok (final, o) := by
    rw [Run.outcome_mapError, ok]
    rfl
  refine ⟨o, ⟨⟨final, ok⟩, ?_⟩, value, least, capacity.trans same⟩
  rw [solveMaxFlow, placed, pure_bind, position_eq sound.distinct named sound.source, pure_bind,
    position_eq sound.distinct named sound.sink, pure_bind]
  exact (Run.outcome_bind_of_ok renamed _).trans (Run.outcome_arith_map _ _)

/-- The nodes on the source's side are the least minimum cut of the problem, and hence the same for
every frequency of relabelling and every order of edges and nodes. -/
theorem solveMaxFlow_leastCut (p : MaxFlow) (accepted : p.defect? = none) :
    ∃ side : Finset NodeId, p.IsLeastCut side ∧
      ∀ (q : MaxFlow) (place : NodeId → Fin q.nodes.length) (frequency : Number) (threshold : Nat),
        p.Rearranged q → (∀ x ∈ q.nodes, nameOf q.nodes (place x) = x) →
        Flow.Maximum.relabelThreshold q.nodes.length frequency = .ok threshold →
        ∃ o, ReportsFlow frequency q place o ∧ (reported q o).cutSourceSide.toFinset = side ∧
          o.flowValue = o.cutCapacity ∧ o.cutCapacity = p.capacityOut side := by
  have sound := Problem.MaxFlow.sound_of_no_defect accepted
  obtain ⟨place, named⟩ := exists_positions sound.source
  obtain ⟨o, _, _, least, _⟩ := solveMaxFlow_eq sound named
    (show Flow.Maximum.relabelThreshold p.nodes.length (.int 1) = .ok _ from rfl)
  refine ⟨(reported p o).cutSourceSide.toFinset, least, ?_⟩
  intro q place frequency threshold moved named lifts
  obtain ⟨o', reports, value, least', capacity⟩ :=
    solveMaxFlow_eq (sound.rearranged moved) named lifts
  have same := least'.unique (least.rearranged moved)
  refine ⟨o', reports, same, value, ?_⟩
  rw [capacity, same, Problem.MaxFlow.capacityOut_rearranged moved]

/-- Two ways from the first node to the last one, each as narrow at its beginning as at its end:
four minimum cuts. -/
def twoWays : MaxFlow where
  nodes := [.text "a", .int 1, .int 2, .text "b"]
  edges := [⟨.text "a", .int 1, 2⟩, ⟨.text "a", .int 2, 3⟩, ⟨.int 1, .text "b", 2⟩,
    ⟨.int 2, .text "b", 3⟩]
  source := .text "a"
  sink := .text "b"

/-- The same problem, with its nodes and edges from the last to the first. -/
def twoWaysBack : MaxFlow :=
  { twoWays with nodes := twoWays.nodes.reverse, edges := twoWays.edges.reverse }

theorem solveMaxFlow_leastCut_twoWays :
    twoWays.defect? = none ∧ twoWays.Rearranged twoWaysBack ∧
    ∃ side : Finset NodeId, twoWays.IsLeastCut side ∧
      ∃ place, (∀ x ∈ twoWaysBack.nodes, nameOf twoWaysBack.nodes (place x) = x) ∧
        ∃ o, ReportsFlow (.int 3) twoWaysBack place o ∧
          (reported twoWaysBack o).cutSourceSide.toFinset = side ∧
          o.flowValue = o.cutCapacity ∧ o.cutCapacity = twoWays.capacityOut side := by
  have accepted : twoWays.defect? = none := by decide
  have moved : twoWays.Rearranged twoWaysBack :=
    ⟨(List.reverse_perm _).symm, (List.reverse_perm _).symm, rfl, rfl⟩
  obtain ⟨side, least, reports⟩ := solveMaxFlow_leastCut twoWays accepted
  obtain ⟨place, named⟩ :=
    exists_positions ((Problem.MaxFlow.sound_of_no_defect accepted).rearranged moved).source
  exact ⟨accepted, moved, side, least, place, named,
    reports twoWaysBack place (.int 3) 12 moved named rfl⟩

end Solver

end Optima
