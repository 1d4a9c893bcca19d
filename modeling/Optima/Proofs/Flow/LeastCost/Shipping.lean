import Mathlib.Order.Bounds.Basic
import Optima.Proofs.Flow.LeastCost.Augment
import Optima.Proofs.Flow.LeastCost.Problem

/-!
What augmenting ships, and at what cost. The flow within the capacities may change by what a flow of
the residual network carries along the edges, less what it carries against them, and in no other way
(`exists_residualFlow_iff`). With no residual path left, no change ships more
(`Augmenting.value_le_shipped`); with potentials that fit, no change that ships as much is cheaper
(`Dual.least`). So augmenting ships as much as is asked for, or as fits if that is less, and it does
so at least cost (`augment_cheapest`).
-/

namespace Optima.Flow.LeastCost

variable {n m : Nat} {net : Network n m} {s t : Fin n} {value : Int}

/-! ### Changes of the flow -/

/-- Amounts on the arcs, within what these can still carry, that take a value from `s` to `t`. -/
structure ResidualFlow (net : Network n m) (s t : Fin n) (value : Int) (f : Arc m → Int) :
    Prop where
  nonneg : ∀ a, 0 ≤ f a
  le_residual : ∀ a, f a ≤ net.residual a
  balanced : ∀ v, outflow net.tail net.head f v = transfer s t value v

/-- A change of the flow on the edges that keeps to the capacities and ships a value from `s` to
`t`: no other node changes its balance. -/
structure Ships (net : Network n m) (s t : Fin n) (value : Int) (d : Fin m → Int) : Prop where
  nonneg : ∀ e, 0 ≤ net.flow.get e + d e
  le_capacity : ∀ e, net.flow.get e + d e ≤ (net.edges.get e).capacity
  balanced : ∀ v, outflow (fun e => (net.edges.get e).tail) (fun e => (net.edges.get e).head) d v =
    transfer s t value v

/-- What a change of the flow costs, or saves if negative. -/
def changeCost (net : Network n m) (d : Fin m → Int) : Int :=
  ∑ e, d e * (net.edges.get e).cost

/-- The change from one flow to another. -/
def change (net last : Network n m) (e : Fin m) : Int := last.flow.get e - net.flow.get e

theorem outflow_arcs (net : Network n m) (f : Arc m → Int) (v : Fin n) :
    outflow net.tail net.head f v =
      outflow (fun e => (net.edges.get e).tail) (fun e => (net.edges.get e).head)
        (fun e => f ⟨e, false⟩ - f ⟨e, true⟩) v := by
  rw [outflow, outflow, Arc.sum_eq]
  apply Finset.sum_congr rfl
  intro e _
  simp only [Network.tail, Network.head, Bool.false_eq_true, if_false, if_true]
  split <;> split <;> omega

/-- A flow of the residual network changes the flow on the edges. -/
theorem ResidualFlow.ships {f : Arc m → Int} (flow : ResidualFlow net s t value f) :
    Ships net s t value fun e => f ⟨e, false⟩ - f ⟨e, true⟩ := by
  refine ⟨fun e => ?_, fun e => ?_, fun v => ?_⟩
  · have along := flow.nonneg ⟨e, false⟩
    have against : f ⟨e, true⟩ ≤ net.flow.get e := flow.le_residual ⟨e, true⟩
    omega
  · have along : f ⟨e, false⟩ ≤ (net.edges.get e).capacity - net.flow.get e :=
      flow.le_residual ⟨e, false⟩
    have against := flow.nonneg ⟨e, true⟩
    omega
  · rw [← outflow_arcs]
    exact flow.balanced v

/-- A change of the flow is one along the edges that get more, and against those that get less. -/
theorem Ships.residualFlow {d : Fin m → Int} (ships : Ships net s t value d) (sound : net.Sound) :
    ResidualFlow net s t value fun a => max (if a.backward then -d a.edge else d a.edge) 0 := by
  refine ⟨fun a => le_max_right _ _, fun a => max_le ?_ (sound a), fun v => ?_⟩
  · have low := ships.nonneg a.edge
    have high := ships.le_capacity a.edge
    unfold Network.residual
    split <;> omega
  · have whole : ∀ e, max (d e) 0 - max (-d e) 0 = d e := fun e => by omega
    rw [outflow_arcs]
    simp only [Bool.false_eq_true, if_false, if_true, whole]
    exact ships.balanced v

/-- The values of residual flows are what changes of the flow can ship. -/
theorem exists_residualFlow_iff (sound : net.Sound) :
    (∃ f, ResidualFlow net s t value f) ↔ ∃ d, Ships net s t value d :=
  ⟨fun ⟨_, flow⟩ => ⟨_, flow.ships⟩, fun ⟨_, ships⟩ => ⟨_, ships.residualFlow sound⟩⟩

/-! ### The least cost -/

/-- If potentials fit, no flow within the capacities that sends on the same is cheaper: it could
only differ by more on edges with room left, or by less on edges that carry something. -/
theorem Dual.least {p : Fin n → Int} (dual : Dual net p) {f : Fin m → Int} (nonneg : ∀ e, 0 ≤ f e)
    (le_capacity : ∀ e, f e ≤ (net.edges.get e).capacity)
    (same : ∀ v, outflow (fun e => (net.edges.get e).tail) (fun e => (net.edges.get e).head) f v =
      net.outflow v) :
    ∑ e, net.flow.get e * (net.edges.get e).cost ≤ ∑ e, f e * (net.edges.get e).cost := by
  refine sum_mul_le_sum_mul _ _ p (fun e => (net.edges.get e).cost) same (fun e more => ?_)
    fun e less => ?_
  · have le := le_capacity e
    have room : 0 < net.residual ⟨e, false⟩ := by
      show 0 < (net.edges.get e).capacity - net.flow.get e
      omega
    exact dual ⟨e, false⟩ room
  · have nonneg := nonneg e
    have loaded : 0 < net.residual ⟨e, true⟩ := by
      show 0 < net.flow.get e
      omega
    have back : 0 ≤ -(net.edges.get e).cost + p (net.edges.get e).head - p (net.edges.get e).tail :=
      dual ⟨e, true⟩ loaded
    omega

variable {limit : Option Int} {st : State n m}

/-- Augmenting changes the balances by what is shipped. -/
theorem Augmenting.outflow_eq (inv : Augmenting net s t limit st) (v : Fin n) :
    st.network.outflow v = net.outflow v + transfer s t st.shipped v := by
  rw [inv.outflow, transfer]
  omega

/-- What augmenting has changed ships what it says. -/
theorem Augmenting.ships (inv : Augmenting net s t limit st) :
    Ships net s t st.shipped (change net st.network) := by
  refine ⟨fun e => ?_, fun e => ?_, fun v => ?_⟩
  · have low := inv.sound.flow_nonneg e
    unfold change
    omega
  · have high := inv.sound.flow_le e
    rw [inv.edges] at high
    unfold change
    omega
  · have moved := inv.outflow_eq v
    unfold Network.outflow at moved
    rw [inv.edges] at moved
    unfold change
    rw [outflow_sub, moved]
    exact add_sub_cancel_left _ _

/-- No change that ships as much costs less. -/
theorem Augmenting.cheapest (inv : Augmenting net s t limit st) {d : Fin m → Int}
    (ships : Ships net s t st.shipped d) :
    changeCost net (change net st.network) ≤ changeCost net d := by
  have least := inv.dual.least (f := fun e => net.flow.get e + d e) ships.nonneg
    (inv.edges.symm ▸ ships.le_capacity) fun v => by
      rw [inv.edges, outflow_add, ships.balanced, inv.outflow_eq]
      rfl
  rw [inv.edges] at least
  simp only [add_mul, Finset.sum_add_distrib] at least
  simp only [changeCost, change, sub_mul, Finset.sum_sub_distrib]
  omega

/-! ### The greatest value -/

open Classical in
/-- Without a residual path left no change ships more: what is reached from `s` sends on already
all that fits over its border. -/
theorem Augmenting.value_le_shipped (inv : Augmenting net s t limit st)
    (stuck : ¬ st.network.Reaches s t) {d : Fin m → Int} (ships : Ships net s t value d) :
    value ≤ st.shipped := by
  let reached := st.network.Reaches s
  have sent : ∀ x, ∑ v, (if reached v then net.outflow v + transfer s t x v else 0) =
      ∑ v, (if reached v then net.outflow v else 0) + x := by
    intro x
    have moved := sum_transfer s t x reached
    rw [if_pos (show reached s from .refl), if_neg stuck, sub_zero] at moved
    simp only [← Finset.sum_filter, Finset.sum_add_distrib] at moved ⊢
    rw [moved]
  have full := inv.sound.sum_outflow_reached s
  simp only [inv.outflow_eq, inv.edges] at full
  have crossing := sum_outflow_eq (fun e => (net.edges.get e).tail)
    (fun e => (net.edges.get e).head) reached fun e => net.flow.get e + d e
  simp only [outflow_add, ships.balanced] at crossing
  have back := enteringSum_nonneg (fun e => (net.edges.get e).tail)
    (fun e => (net.edges.get e).head) reached ships.nonneg
  have at_most := leavingSum_le (fun e => (net.edges.get e).tail)
    (fun e => (net.edges.get e).head) reached fun e _ _ => ships.le_capacity e
  have first := sent value
  have second := sent st.shipped
  unfold Network.outflow at first second full
  dsimp only [reached] at first second crossing back at_most
  omega

/-- Then what is shipped is the greatest value of a residual flow. -/
theorem Augmenting.isGreatest (inv : Augmenting net s t limit st) (sound : net.Sound)
    (stuck : ¬ st.network.Reaches s t) :
    IsGreatest {value | ∃ f, ResidualFlow net s t value f} st.shipped := by
  refine ⟨(exists_residualFlow_iff sound).mpr ⟨_, inv.ships⟩, fun value mem => ?_⟩
  obtain ⟨d, ships⟩ := (exists_residualFlow_iff sound).mp mem
  exact inv.value_le_shipped stuck ships

/-! ### Augmenting -/

/-- How augmenting leaves a network. As much is shipped as was asked for, or as the residual network
lets through if that is less, and at least cost; balances change at `s` and `t` only, and the
potentials fit. -/
structure Shipped (net : Network n m) (s t : Fin n) (limit : Option Int) (last : State n m) :
    Prop where
  edges : last.network.edges = net.edges
  sound : last.network.Sound
  dual : Dual last.network last.potential.get
  kept : ∀ v, v ≠ s → v ≠ t → last.network.outflow v = net.outflow v
  shipped : ∃ most, IsGreatest {value | ∃ f, ResidualFlow net s t value f} most ∧
    last.shipped = limit.elim most (min · most)
  ships : Ships net s t last.shipped (change net last.network)
  cheapest : ∀ d, Ships net s t last.shipped d →
    changeCost net (change net last.network) ≤ changeCost net d

/-- Augmenting a network with fitting potentials ends, and ships the least of the limit and of what
can be shipped, at least cost. -/
theorem augment_shipped (net : Network n m) (potential : Table n Int) (s t : Fin n)
    (limit : Option Int) (apart : s ≠ t) (sound : net.Sound) (dual : Dual net potential.get)
    (limit_nonneg : ∀ x ∈ limit, 0 ≤ x) :
    ∃ last, (augment net potential s t limit).outcome = .ok last ∧ Shipped net s t limit last := by
  obtain ⟨last, result, inv, ended⟩ := augment_ends apart sound dual limit_nonneg
  -- Without a limit, augmenting goes on until no path is left, so there is a greatest value.
  have no_limit : ∀ x ∈ (none : Option Int), 0 ≤ x := nofun
  obtain ⟨unlimited, _, all, none_left⟩ := augment_ends apart sound dual no_limit
  have greatest := all.isGreatest sound (none_left.resolve_left nofun)
  refine ⟨last, result, inv.edges, inv.sound, inv.dual, fun v source sink => ?_,
    ⟨unlimited.shipped, greatest, ?_⟩, inv.ships, fun d => inv.cheapest⟩
  · rw [inv.outflow_eq, transfer, if_neg source, if_neg sink, sub_self, add_zero]
  · have fits : last.shipped ≤ unlimited.shipped :=
      greatest.2 ((exists_residualFlow_iff sound).mpr ⟨_, inv.ships⟩)
    rcases ended with full | stuck
    · rw [full]
      exact (min_eq_left fits).symm
    · have same : last.shipped = unlimited.shipped := (inv.isGreatest sound stuck).unique greatest
      cases limit with
      | none => exact same
      | some x =>
        have within := inv.within x rfl
        rw [Option.elim_some, ← same, min_eq_right within]

/-- A network that ships one unit already, along a cheapest path, is to ship two more. Nothing leads
to its last node. -/
theorem augment_shipped_halfShipped :
    let net : Network 5 6 :=
      ⟨#v[⟨0, 1, 2, 1⟩, ⟨0, 2, 2, 2⟩, ⟨1, 2, 1, 1⟩, ⟨1, 3, 1, 3⟩, ⟨2, 3, 2, 1⟩, ⟨4, 3, 5, 0⟩],
        #v[0, 1, 0, 0, 1, 0]⟩
    let potential : Table 5 Int := #v[0, 1, 2, 3, 3]
    (0 : Fin 5) ≠ 3 ∧ net.Sound ∧ Dual net potential.get ∧
      ∃ last, (augment net potential 0 3 (some 2)).outcome = .ok last ∧
        Shipped net 0 3 (some 2) last := by
  intro net potential
  have apart : (0 : Fin 5) ≠ 3 := by decide
  have sound : net.Sound := by unfold Network.Sound; decide +zetaReduce
  have dual : Dual net potential.get := by unfold Dual; decide +zetaReduce
  exact ⟨apart, sound, dual, augment_shipped net potential 0 3 (some 2) apart sound dual (by decide)⟩

end Optima.Flow.LeastCost
