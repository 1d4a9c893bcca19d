import Optima.Proofs.Flow.Maximum.Progress

/-!
Push-relabel finds a maximum flow and a minimum cut. A flow carries no more across a cut than the
cut's capacity (`IsFlow.value_le_capacityOut`). When the queue is empty, what the source still
reaches is one side of a cut that is filled up and that nothing flows back into, so the flow has the
capacity of this cut (`Inv.cut_full`), and neither can be improved (`solve_maximum`).
-/

namespace Optima.Flow

variable {n m : Nat}

/-! ### Flows and cuts -/

/-- Networks that were built by adding edges. -/
inductive Network.Built : {m : Nat} → Network n m → Prop where
  | empty : Built (Network.empty n)
  | addEdge {m : Nat} {net : Network n m} (edge : Edge n) : Built net → Built (net.addEdge edge)

/-- Nothing flows in a network that was just built. -/
theorem Network.Built.flow_eq_zero {net : Network n m} (built : net.Built) (e : Fin m) :
    net.flow.get e = 0 := by
  induction built with
  | empty => exact e.elim0
  | @addEdge m net edge _ ih =>
    by_cases last : e.val < m
    · exact (Vector.getElem_push_lt last).trans (ih ⟨e.val, last⟩)
    · have at_end : e.val = m := by omega
      simp only [Network.addEdge, Table.get, at_end]
      exact Vector.getElem_push_eq

theorem Network.Built.outflow_eq_zero {net : Network n m} (built : net.Built) (v : Fin n) :
    net.outflow v = 0 := by
  unfold Network.outflow
  rw [funext built.flow_eq_zero]
  exact outflow_zero _ _ v

/-- It is sound if its capacities are not negative. -/
theorem Network.Built.sound {net : Network n m} (built : net.Built)
    (capacities : ∀ e, 0 ≤ (net.edges.get e).capacity) : net.Sound :=
  Network.sound_iff.mpr fun e => by
    rw [built.flow_eq_zero]
    exact ⟨le_rfl, capacities e⟩

/-- A flow of some value from a source to a sink: it keeps within the capacities, and nothing is
lost or won at other nodes. -/
structure IsFlow (net : Network n m) (source sink : Fin n) (f : Fin m → Int) (value : Int) :
    Prop where
  nonneg : ∀ e, 0 ≤ f e
  le_capacity : ∀ e, f e ≤ (net.edges.get e).capacity
  conserved : ∀ v, v ≠ source → v ≠ sink →
    outflow (fun e => (net.edges.get e).tail) (fun e => (net.edges.get e).head) f v = 0
  leaves : outflow (fun e => (net.edges.get e).tail) (fun e => (net.edges.get e).head) f source =
    value
  enters : outflow (fun e => (net.edges.get e).tail) (fun e => (net.edges.get e).head) f sink =
    -value

/-- What the edges that lead out of a set of nodes can carry together. -/
def capacityOut (net : Network n m) (side : Fin n → Bool) : Int :=
  ∑ e, if side (net.edges.get e).tail && !side (net.edges.get e).head
    then (net.edges.get e).capacity else 0

variable {net : Network n m} {source sink : Fin n} {f : Fin m → Int} {value : Int}
  {side : Fin n → Bool}

/-- The value of a flow is what crosses any cut, less what flows back. -/
theorem IsFlow.value_eq (flow : IsFlow net source sink f value)
    (inside : side source = true) (outside : side sink = false) :
    value = ∑ e, f e * ((if side (net.edges.get e).tail = true then 1 else 0) -
      (if side (net.edges.get e).head = true then 1 else 0)) := by
  rw [← sum_outflow_mem (fun e => (net.edges.get e).tail) (fun e => (net.edges.get e).head)
    (fun v => side v = true) f]
  rw [Finset.sum_eq_single source]
  · rw [if_pos inside, flow.leaves]
  · intro v _ other
    split
    · next mem =>
      apply flow.conserved v other
      intro same
      rw [same, outside] at mem
      cases mem
    · rfl
  · exact fun absent => absurd (Finset.mem_univ source) absent

/-- No flow is greater than a cut. -/
theorem IsFlow.value_le_capacityOut (flow : IsFlow net source sink f value)
    (inside : side source = true) (outside : side sink = false) :
    value ≤ capacityOut net side := by
  rw [flow.value_eq inside outside]
  apply Finset.sum_le_sum
  intro e _
  have := flow.nonneg e
  have := flow.le_capacity e
  cases side (net.edges.get e).tail <;> cases side (net.edges.get e).head <;> simp <;> omega

namespace Maximum

/-! ### The end of a run -/

theorem cutCapacity_eq (net : Network n m) (side : Table n Bool) :
    cutCapacity net side = capacityOut net side.get :=
  Table.total_filter_values _ _ _

variable {setting : Setting n m} {s : State n m} {discharges relabels : Nat}

/-- Once nothing is queued, what the network carries is a flow of the value that the sink got. -/
theorem Inv.isFlow (inv : Inv setting none s) (empty : s.active = []) :
    IsFlow s.network setting.source setting.sink s.network.flow.get
      (s.excess.get setting.sink) := by
  have rest : ∀ v, v ≠ setting.source → v ≠ setting.sink → s.excess.get v = 0 := by
    intro v source sink
    have := inv.balanced.nonneg v source
    by_contra left
    rcases inv.waiting v source sink (by omega) with active | busy
    · simp [empty] at active
    · cases busy
  have conserved : ∀ v, v ≠ setting.source → v ≠ setting.sink → s.network.outflow v = 0 := by
    intro v source sink
    have := rest v source sink
    have := inv.balanced.excess_eq v
    omega
  have enters : s.network.outflow setting.sink = -s.excess.get setting.sink := by
    have := inv.balanced.excess_eq setting.sink
    omega
  have total : ∑ v, s.network.outflow v = 0 := sum_outflow _ _ _
  refine ⟨inv.balanced.sound.flow_nonneg, inv.balanced.sound.flow_le, conserved, ?_, enters⟩
  rw [← Finset.add_sum_erase _ _ (Finset.mem_univ setting.source),
    Finset.sum_eq_single setting.sink] at total
  · change s.network.outflow setting.source = _
    omega
  · intro v mem sink
    exact conserved v (Finset.ne_of_mem_erase mem) sink
  · intro absent
    exact absurd (Finset.mem_erase.mpr ⟨inv.balanced.apart.symm, Finset.mem_univ _⟩) absent

/-- The cut behind what the source still reaches is filled up. -/
theorem Inv.cut_full (inv : Inv setting none s) (empty : s.active = []) :
    s.excess.get setting.sink =
      capacityOut s.network (s.network.reachableFrom setting.source).get := by
  have reached := fun v => s.network.reachableFrom_iff setting.source v
  have inside := (reached setting.source).mpr .refl
  have outside : (s.network.reachableFrom setting.source).get setting.sink = false := by
    rw [Bool.eq_false_iff, Ne, reached]
    exact inv.labelled.cut
  rw [(inv.isFlow empty).value_eq inside outside]
  apply Finset.sum_congr rfl
  intro e _
  have steps : ∀ a, 0 < s.network.residual a →
      (s.network.reachableFrom setting.source).get (s.network.tail a) = true →
      (s.network.reachableFrom setting.source).get (s.network.head a) = true := by
    intro a room here
    exact (reached _).mpr (((reached _).mp here).tail ⟨a, room, rfl, rfl⟩)
  have forth := steps ⟨e, false⟩
  have back := steps ⟨e, true⟩
  have low := inv.balanced.sound.flow_nonneg e
  have high := inv.balanced.sound.flow_le e
  simp only [Network.residual, Network.tail, Network.head, Bool.false_eq_true, if_true,
    if_false] at forth back
  cases tail : (s.network.reachableFrom setting.source).get (s.network.edges.get e).tail <;>
    cases head : (s.network.reachableFrom setting.source).get (s.network.edges.get e).head <;>
    simp [tail, head] at forth back ⊢ <;> omega

/-- All that is checked at the end holds. -/
theorem Inv.conclude (inv : Inv setting none s) (empty : s.active = []) :
    conclude setting s discharges relabels = .ok ⟨s.excess.get setting.sink,
      s.network.flow.values, s.network.reachableFrom setting.source,
      cutCapacity s.network (s.network.reachableFrom setting.source), discharges, relabels⟩ := by
  have flow := inv.isFlow empty
  have none_left : leftover setting s = none := by
    refine List.find?_eq_none.mpr fun v _ => ?_
    by_cases source : v = setting.source
    · simp [source]
    · by_cases sink : v = setting.sink
      · simp [sink]
      · have conserved : s.network.outflow v = 0 := flow.conserved v source sink
        have := inv.balanced.excess_eq v
        have settled : s.excess.get v = 0 := by omega
        simp [settled]
  have outside : (s.network.reachableFrom setting.source).get setting.sink = false := by
    rw [Bool.eq_false_iff, Ne, Network.reachableFrom_iff]
    exact inv.labelled.cut
  have full : cutCapacity s.network (s.network.reachableFrom setting.source) =
      s.excess.get setting.sink := by
    rw [cutCapacity_eq, inv.cut_full empty]
  simp only [Maximum.conclude, none_left, outside, full, Bool.false_eq_true, if_false,
    ne_eq, not_true_eq_false]

/-- On a network that was just built, with capacities that are not negative and distinct ends,
push-relabel ends with a maximum flow and a minimum cut, whatever the number of lifts after which
heights are computed afresh. -/
theorem solve_maximum (net : Network n m) (built : net.Built)
    (capacities : ∀ e, 0 ≤ (net.edges.get e).capacity) (source sink : Fin n)
    (apart : source ≠ sink) (frequency : Number) (threshold : Nat)
    (lifts : relabelThreshold n frequency = .ok threshold) :
    ∃ (final : Network n m) (o : Outcome n m) (f : Fin m → Int),
      (solve net source sink frequency).outcome = .ok (final, o) ∧ o.edgeFlows = List.ofFn f ∧
      IsFlow net source sink f o.flowValue ∧
      o.sourceSide.get source = true ∧ o.sourceSide.get sink = false ∧
      o.flowValue = o.cutCapacity ∧ o.cutCapacity = capacityOut net o.sourceSide.get ∧
      ∀ side : Fin n → Bool, side source = true → side sink = false →
        o.cutCapacity ≤ capacityOut net side := by
  let setting : Setting n m := ⟨source, sink, net.leaving⟩
  have sound : net.Sound := Network.sound_iff.mpr fun e => by
    rw [built.flow_eq_zero]
    exact ⟨le_rfl, capacities e⟩
  have level : ∀ v, net.outflow v = 0 := by
    intro v
    unfold Network.outflow
    rw [funext built.flow_eq_zero]
    exact outflow_zero _ _ v
  have inv : Inv setting none (start setting net) := start_inv rfl apart sound level
  obtain ⟨s, discharges, relabels, worked, inv, empty, edges⟩ :=
    work_ends threshold (bound n m) 0 1 inv
      (potential_start rfl apart sound level)
  have edges : s.network.edges = net.edges := edges.trans (start_edges setting net)
  have flow : IsFlow net source sink s.network.flow.get (s.excess.get sink) := by
    have flow := inv.isFlow empty
    refine ⟨flow.nonneg, ?_, ?_, ?_, ?_⟩
    all_goals rw [← edges]
    · exact flow.le_capacity
    · exact flow.conserved
    · exact flow.leaves
    · exact flow.enters
  have same : capacityOut s.network = capacityOut net := by
    unfold capacityOut
    rw [edges]
  have full : s.excess.get sink = capacityOut net (s.network.reachableFrom source).get := by
    rw [← same]
    exact inv.cut_full empty
  have cut : cutCapacity s.network (s.network.reachableFrom source) = s.excess.get sink := by
    rw [cutCapacity_eq, same, full]
  refine ⟨s.network, ⟨s.excess.get sink, s.network.flow.values, s.network.reachableFrom source,
    cutCapacity s.network (s.network.reachableFrom source), discharges, relabels⟩,
    s.network.flow.get, ?_, Table.values_eq_ofFn _, flow, ?_, ?_, cut.symm, cut.trans full,
    fun side inside outside => ?_⟩
  · have threshold_ok : (Run.ofExcept ((relabelThreshold n frequency).mapError fun f =>
        Interrupted.mk (start setting net).network (.fault f))).outcome = .ok threshold := by
      rw [lifts]
      rfl
    unfold solve
    rw [Run.outcome_bind_of_ok threshold_ok, Run.outcome_bind_of_ok worked]
    dsimp only
    rw [inv.conclude empty]
    rfl
  · exact (s.network.reachableFrom_iff source source).mpr .refl
  · rw [Bool.eq_false_iff, Ne, Network.reachableFrom_iff]
    exact inv.labelled.cut
  · rw [cut]
    exact flow.value_le_capacityOut inside outside

/-- A loop, opposite edges, and two ways from the first node to the last. -/
def crossedWays : Network 4 6 :=
  (((((Network.empty 4).addEdge ⟨0, 1, 3, 0⟩).addEdge ⟨1, 0, 2, 0⟩).addEdge ⟨1, 1, 5, 0⟩).addEdge
    ⟨1, 3, 2, 0⟩).addEdge ⟨0, 2, 1, 0⟩ |>.addEdge ⟨2, 3, 4, 0⟩

theorem solve_maximum_crossedWays :
    crossedWays.Built ∧ (∀ e, 0 ≤ (crossedWays.edges.get e).capacity) ∧ (0 : Fin 4) ≠ 3 ∧
      relabelThreshold 4 (.int 1) = .ok 4 ∧
      ∃ (final : Network 4 6) (o : Outcome 4 6) (f : Fin 6 → Int),
        (solve crossedWays 0 3 (.int 1)).outcome = .ok (final, o) ∧ o.edgeFlows = List.ofFn f ∧
        IsFlow crossedWays 0 3 f o.flowValue ∧
        o.sourceSide.get 0 = true ∧ o.sourceSide.get 3 = false ∧
        o.flowValue = o.cutCapacity ∧ o.cutCapacity = capacityOut crossedWays o.sourceSide.get ∧
        ∀ side : Fin 4 → Bool, side 0 = true → side 3 = false →
          o.cutCapacity ≤ capacityOut crossedWays side := by
  have built : crossedWays.Built :=
    .addEdge _ (.addEdge _ (.addEdge _ (.addEdge _ (.addEdge _ (.addEdge _ .empty)))))
  have capacities : ∀ e, 0 ≤ (crossedWays.edges.get e).capacity := by decide
  have lifts : relabelThreshold 4 (.int 1) = .ok 4 := by decide +kernel
  exact ⟨built, capacities, by decide, lifts,
    solve_maximum crossedWays built capacities 0 3 (by decide) (.int 1) 4 lifts⟩

end Maximum

end Optima.Flow
