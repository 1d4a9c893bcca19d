import Optima.Proofs.Flow.Maximum.Cut

/-!
Which of the minimum cuts push-relabel gives. A maximum flow fills every edge out of a minimum cut
and uses none that leads into it (`IsFlow.border`), so nothing that the source still reaches lies
beyond any minimum cut. What the source reaches is therefore the least of all minimum cuts, and
there is only one such set, whatever flow it was read from (`solve_leastCut`, `IsLeastCut.unique`).
-/

namespace Optima.Flow

variable {n m : Nat} {net : Network n m} {source sink : Fin n}

/-- The minimum cut that lies within every minimum cut. -/
structure IsLeastCut (net : Network n m) (source sink : Fin n) (side : Fin n → Bool) : Prop where
  inside : side source = true
  outside : side sink = false
  minimum : ∀ other : Fin n → Bool, other source = true → other sink = false →
    capacityOut net side ≤ capacityOut net other
  within : ∀ other : Fin n → Bool, other source = true → other sink = false →
    capacityOut net other ≤ capacityOut net side → ∀ v, side v = true → other v = true

/-- There is only one such cut. -/
theorem IsLeastCut.unique {side other : Fin n → Bool} (one : IsLeastCut net source sink side)
    (two : IsLeastCut net source sink other) : side = other := by
  funext v
  rw [Bool.eq_iff_iff]
  exact ⟨one.within other two.inside two.outside (two.minimum side one.inside one.outside) v,
    two.within side one.inside one.outside (one.minimum other two.inside two.outside) v⟩

/-- A flow that carries as much as a cut can fills what leads out of the cut, and uses nothing that
leads into it. -/
theorem IsFlow.border {f : Fin m → Int} {value : Int} (flow : IsFlow net source sink f value)
    {side : Fin n → Bool} (inside : side source = true) (outside : side sink = false)
    (full : capacityOut net side ≤ value) (e : Fin m) :
    (side (net.edges.get e).tail = true → side (net.edges.get e).head = false →
      f e = (net.edges.get e).capacity) ∧
    (side (net.edges.get e).tail = false → side (net.edges.get e).head = true → f e = 0) := by
  have each : ∀ e ∈ Finset.univ, f e * ((if side (net.edges.get e).tail = true then 1 else 0) -
      (if side (net.edges.get e).head = true then 1 else 0)) ≤
        if side (net.edges.get e).tail && !side (net.edges.get e).head
          then (net.edges.get e).capacity else 0 := by
    intro e _
    have := flow.nonneg e
    have := flow.le_capacity e
    cases side (net.edges.get e).tail <;> cases side (net.edges.get e).head <;> simp <;> omega
  have equal := le_antisymm (flow.value_le_capacityOut inside outside) full
  rw [flow.value_eq inside outside, capacityOut, Finset.sum_eq_sum_iff_of_le each] at equal
  have here := equal e (Finset.mem_univ e)
  constructor
  · intro tail head
    simpa [tail, head] using here
  · intro tail head
    simpa [tail, head] using here

/-- What the source still reaches lies within every cut that the flow fills. -/
theorem IsFlow.reached_within {value : Int} (flow : IsFlow net source sink net.flow.get value)
    {side : Fin n → Bool} (inside : side source = true) (outside : side sink = false)
    (full : capacityOut net side ≤ value) {v : Fin n} (reached : net.Reaches source v) :
    side v = true := by
  induction reached with
  | refl => exact inside
  | @tail u v _ step ih =>
    obtain ⟨⟨e, backward⟩, room, rfl, rfl⟩ := step
    by_contra beyond
    rw [Bool.not_eq_true] at beyond
    have border := flow.border inside outside full e
    -- the step leaves the cut along a full edge, or against an empty one
    cases backward with
    | false =>
      have filled := border.1 ih beyond
      simp only [Network.residual, Bool.false_eq_true, if_false] at room
      omega
    | true =>
      have unused := border.2 beyond ih
      simp only [Network.residual, if_true] at room
      omega

namespace Maximum

/-- On a network that carries nothing yet, push-relabel ends with a flow that fills the cut around
what the source still reaches. -/
theorem solve_ends (still : ∀ e, net.flow.get e = 0)
    (capacities : ∀ e, 0 ≤ (net.edges.get e).capacity) (apart : source ≠ sink)
    {frequency : Number} {threshold : Nat}
    (lifts : relabelThreshold n frequency = .ok threshold) :
    ∃ (final : Network n m) (o : Outcome n m),
      (solve net source sink frequency).outcome = .ok (final, o) ∧ final.edges = net.edges ∧
        IsFlow final source sink final.flow.get o.flowValue ∧
        o.sourceSide = final.reachableFrom source ∧ ¬ final.Reaches source sink ∧
        o.flowValue = o.cutCapacity ∧ o.cutCapacity = capacityOut final o.sourceSide.get := by
  let setting : Setting n m := ⟨source, sink, net.leaving⟩
  have sound : net.Sound := Network.sound_iff.mpr fun e => by
    rw [still]
    exact ⟨le_rfl, capacities e⟩
  have level : ∀ v, net.outflow v = 0 := by
    intro v
    unfold Network.outflow
    rw [funext still]
    exact outflow_zero _ _ v
  have started : Inv setting none (start setting net) := start_inv rfl apart sound level
  obtain ⟨s, discharges, relabels, worked, inv, empty, edges⟩ :=
    work_ends threshold (bound n m) 0 1 started (potential_start rfl apart sound level)
  have cut : cutCapacity s.network (s.network.reachableFrom source) =
      capacityOut s.network (s.network.reachableFrom source).get := cutCapacity_eq _ _
  refine ⟨s.network, ⟨s.excess.get sink, s.network.flow.values, s.network.reachableFrom source,
    cutCapacity s.network (s.network.reachableFrom source), discharges, relabels⟩, ?_,
    edges.trans (start_edges setting net), inv.isFlow empty, rfl, inv.labelled.cut,
    (inv.cut_full empty).trans cut.symm, cut⟩
  have threshold_ok : (Run.ofExcept ((relabelThreshold n frequency).mapError fun f =>
      Interrupted.mk (start setting net).network (.fault f))).outcome = .ok threshold := by
    rw [lifts]
    rfl
  unfold solve
  rw [Run.outcome_bind_of_ok threshold_ok, Run.outcome_bind_of_ok worked]
  dsimp only
  rw [inv.conclude empty]
  rfl

/-- The cut that push-relabel gives is the least minimum cut, and the flow has its capacity. -/
theorem solve_leastCut (still : ∀ e, net.flow.get e = 0)
    (capacities : ∀ e, 0 ≤ (net.edges.get e).capacity) (apart : source ≠ sink)
    {frequency : Number} {threshold : Nat}
    (lifts : relabelThreshold n frequency = .ok threshold) :
    ∃ (final : Network n m) (o : Outcome n m),
      (solve net source sink frequency).outcome = .ok (final, o) ∧
        IsLeastCut net source sink o.sourceSide.get ∧ o.flowValue = o.cutCapacity ∧
        o.cutCapacity = capacityOut net o.sourceSide.get := by
  obtain ⟨final, o, ok, edges, flow, side, cut, value, capacity⟩ :=
    solve_ends still capacities apart lifts
  have same : capacityOut final = capacityOut net := by
    unfold capacityOut
    rw [edges]
  have inside : o.sourceSide.get source = true := by
    rw [side]
    exact (final.reachableFrom_iff source source).mpr .refl
  have outside : o.sourceSide.get sink = false := by
    rw [side, Bool.eq_false_iff, Ne, Network.reachableFrom_iff]
    exact cut
  have filled := value.trans capacity
  refine ⟨final, o, ok, ⟨inside, outside, ?_, ?_⟩, value, by rw [capacity, same]⟩
  · intro other otherInside otherOutside
    rw [← same, ← filled]
    exact flow.value_le_capacityOut otherInside otherOutside
  · intro other otherInside otherOutside minimum v reached
    rw [← same, ← filled] at minimum
    rw [side, Network.reachableFrom_iff] at reached
    exact flow.reached_within otherInside otherOutside minimum reached

end Maximum

end Optima.Flow
