import Mathlib.Logic.Relation
import Optima.Proofs.Flow.LeastCost.Problem

/-!
When amounts on links are as cheap as can be. Potentials show it if every link with room left has a
reduced cost that is not negative, and every link that carries something has one that is not
positive (`Slack`). On a link without a capacity this leaves the case that it carries the ceiling
and has a negative reduced cost. Such a link would be one that its head leads back to along loaded
links without capacity (`returns_of_sum_le`, `returns_of_no_path`), and going round there would save
cost for ever (`Slack.free_nonneg`). So nothing that fits is cheaper, however large (`Slack.least`).
-/

namespace Optima.Flow.LeastCost

variable {n : Nat} {links : List (Link n)} {big : Int} {p : Fin n → Int}
  {x : Fin links.length → Int}

/-- The cost of a link in excess of what its head is worth more than its tail. -/
def excess (links : List (Link n)) (p : Fin n → Int) (k : Fin links.length) : Int :=
  (links.get k).cost + p (links.get k).tail - p (links.get k).head

/-- Amounts within the rooms that fit potentials. -/
structure Slack (links : List (Link n)) (big : Int) (p : Fin n → Int)
    (x : Fin links.length → Int) : Prop where
  nonneg : ∀ k, 0 ≤ x k
  le_room : ∀ k, x k ≤ (links.get k).room big
  excess_nonneg : ∀ k, x k < (links.get k).room big → 0 ≤ excess links p k
  excess_nonpos : ∀ k, 0 < x k → excess links p k ≤ 0

theorem Slack.fits (slack : Slack links big p x) : Fits links x := by
  refine fun k => ⟨slack.nonneg k, fun c capacity => ?_⟩
  have le := slack.le_room k
  rw [Link.room, Option.mem_def.mp capacity] at le
  exact le

/-- Nothing that fits and sends on the same is cheaper, if links without capacity have no negative
excess. -/
theorem Slack.least (slack : Slack links big p x)
    (free : ∀ k : Fin links.length, (links.get k).capacity = none → 0 ≤ excess links p k)
    {g : Fin links.length → Int} (fits : Fits links g)
    (same : ∀ v, netOut links g v = netOut links x v) : cost links x ≤ cost links g := by
  refine sum_mul_le_sum_mul _ _ p (fun k => (links.get k).cost) same (fun k more => ?_)
    fun k less => ?_
  · cases capacity : (links.get k).capacity with
    | none => exact free k capacity
    | some c =>
      have le := (fits k).2 c capacity
      refine slack.excess_nonneg k ?_
      rw [Link.room, capacity, Option.getD_some]
      omega
  · have nonneg := (fits k).1
    exact slack.excess_nonpos k (by omega)

/-! ### Loaded links without capacity -/

/-- A link without capacity leads from one node to the other. -/
def Free (links : List (Link n)) (u v : Fin n) : Prop :=
  ∃ k : Fin links.length, (links.get k).capacity = none ∧ (links.get k).tail = u ∧
    (links.get k).head = v

/-- A link without capacity that carries something leads from one node to the other. -/
def Loaded (links : List (Link n)) (x : Fin links.length → Int) (u v : Fin n) : Prop :=
  ∃ k : Fin links.length, (links.get k).capacity = none ∧ 0 < x k ∧ (links.get k).tail = u ∧
    (links.get k).head = v

/-- Whatever carries the ceiling is led back to along loaded links. -/
def Returns (links : List (Link n)) (big : Int) (x : Fin links.length → Int) : Prop :=
  ∀ k : Fin links.length, (links.get k).capacity = none → x k = big →
    Relation.ReflTransGen (Loaded links x) (links.get k).head (links.get k).tail

/-- Potentials that go with the costs of the links without capacity. -/
def Potentials (links : List (Link n)) (h : Fin n → Int) : Prop :=
  ∀ k : Fin links.length, (links.get k).capacity = none → 0 ≤ excess links h k

/-- If costs have potentials of their own, links without capacity have no negative excess: along
loaded ones the difference of the potentials does not fall, and over such a link it would rise. -/
theorem Slack.free_nonneg (slack : Slack links big p x) (returns : Returns links big x)
    {h : Fin n → Int} (potentials : Potentials links h) (k : Fin links.length)
    (free : (links.get k).capacity = none) : 0 ≤ excess links p k := by
  by_contra negative
  have full : x k = big := by
    have le := slack.le_room k
    have ge : ¬ x k < (links.get k).room big := fun room => negative (slack.excess_nonneg k room)
    rw [Link.room, free, Option.getD_none] at le ge
    omega
  have climb : ∀ {u v}, Relation.ReflTransGen (Loaded links x) u v → p u - h u ≤ p v - h v := by
    intro u v path
    induction path with
    | refl => exact le_rfl
    | tail _ step ih =>
      obtain ⟨j, free, loaded, rfl, rfl⟩ := step
      have low := slack.excess_nonpos j loaded
      have high := potentials j free
      unfold excess at low high
      omega
  have back := climb (returns k free full)
  have high := potentials k free
  unfold excess at negative high
  omega

section Cuts

variable (capacitated : Capacitated links) (nonneg : ∀ k, 0 ≤ x k)
  (le_capacity : ∀ k : Fin links.length, ∀ c ∈ (links.get k).capacity, x k ≤ c)

theorem capacity_nonneg (capacitated : Capacitated links) (k : Fin links.length) :
    0 ≤ (links.get k).capacity.getD 0 := by
  cases capacity : (links.get k).capacity with
  | none => exact le_rfl
  | some c => exact capacitated (links.get k) (List.getElem_mem k.isLt) c capacity

include capacitated le_capacity in
/-- No more leaves a set of nodes than the finite capacities, if links without capacity that lead
out of it are empty. -/
theorem outOf_le_capacity (inside : Fin n → Prop) [DecidablePred inside]
    (empty : ∀ k : Fin links.length, (links.get k).capacity = none → inside (links.get k).tail →
      ¬ inside (links.get k).head → x k ≤ 0) :
    outOf links inside x ≤ ∑ k : Fin links.length, (links.get k).capacity.getD 0 := by
  refine leavingSum_le_sum _ _ inside (fun k => capacity_nonneg capacitated k) fun k out in_ => ?_
  cases capacity : (links.get k).capacity with
  | none => exact empty k capacity out in_
  | some c => exact le_capacity k c capacity

include capacitated le_capacity in
/-- Nor does more enter it, if those that lead into it are empty. -/
theorem into_le_capacity (inside : Fin n → Prop) [DecidablePred inside]
    (empty : ∀ k : Fin links.length, (links.get k).capacity = none → ¬ inside (links.get k).tail →
      inside (links.get k).head → x k ≤ 0) :
    into links inside x ≤ ∑ k : Fin links.length, (links.get k).capacity.getD 0 := by
  rw [into, enteringSum_eq_leavingSum]
  exact outOf_le_capacity capacitated le_capacity _ fun k free out in_ =>
    empty k free out (not_not.mp in_)

open Classical

include capacitated nonneg le_capacity

/-- What is reached along loaded links sends on little if a link into it carries the ceiling. -/
theorem sum_reached_le {k : Fin links.length}
    (away : ¬ Relation.ReflTransGen (Loaded links x) (links.get k).head (links.get k).tail) :
    ∑ v, (if Relation.ReflTransGen (Loaded links x) (links.get k).head v then netOut links x v
        else 0) ≤
      ∑ k : Fin links.length, (links.get k).capacity.getD 0 - x k := by
  let inside := fun v => Relation.ReflTransGen (Loaded links x) (links.get k).head v
  have balance := sum_netOut inside x
  have out := outOf_le_capacity capacitated le_capacity inside
    fun j free out in_ => by
      by_contra loaded
      exact in_ (out.tail ⟨j, free, not_le.mp loaded, rfl, rfl⟩)
  have in_ := le_into inside nonneg away .refl
  refine balance.le.trans ?_
  omega

/-- What loaded links lead from to the tail of a link that carries the ceiling sends on a lot. -/
theorem le_sum_reaching {k : Fin links.length}
    (away : ¬ Relation.ReflTransGen (Loaded links x) (links.get k).head (links.get k).tail) :
    x k - ∑ k : Fin links.length, (links.get k).capacity.getD 0 ≤
      ∑ v, (if Relation.ReflTransGen (Loaded links x) v (links.get k).tail then netOut links x v
        else 0) := by
  let inside := fun v => Relation.ReflTransGen (Loaded links x) v (links.get k).tail
  have balance := sum_netOut inside x
  have in_ := into_le_capacity capacitated le_capacity inside
    fun j free out in_ => by
      by_contra loaded
      exact out (.head ⟨j, free, not_le.mp loaded, rfl, rfl⟩ in_)
  have out := le_outOf inside nonneg .refl away
  refine le_trans ?_ balance.ge
  omega

/-- If no set of nodes demands much, all that carries the ceiling is led back to. -/
theorem returns_of_sum_le (asked : Int)
    (big_eq : big = ∑ k : Fin links.length, (links.get k).capacity.getD 0 + asked + 1)
    (demands : ∀ inside : Fin n → Prop,
      -asked ≤ ∑ v, (if inside v then netOut links x v else 0)) : Returns links big x := by
  intro k _ full
  by_contra away
  have low := sum_reached_le capacitated nonneg le_capacity away
  have high := demands (Relation.ReflTransGen (Loaded links x) (links.get k).head)
  omega

/-- A value goes from a source to a sink that no links without capacity lead to: then all that
carries the ceiling is led back to. -/
theorem returns_of_no_path {source sink : Fin n} {value : Int}
    (big_eq : big = ∑ k : Fin links.length, (links.get k).capacity.getD 0 + 1)
    (sends : ∀ v, netOut links x v = transfer source sink value v)
    (value_nonneg : 0 ≤ value)
    (no_path : ¬ Relation.ReflTransGen (Free links) source sink) :
    Returns links big x := by
  intro k free full
  by_contra away
  have low := sum_reached_le capacitated nonneg le_capacity away
  have high := le_sum_reaching capacitated nonneg le_capacity away
  simp only [sends, sum_transfer] at low high
  have loaded_path : ∀ {u v}, Relation.ReflTransGen (Loaded links x) u v →
      Relation.ReflTransGen (Free links) u v := by
    intro u v path
    exact path.lift id fun _ _ ⟨j, free, _, tail, head⟩ => ⟨j, free, tail, head⟩
  have to_sink : Relation.ReflTransGen (Loaded links x) (links.get k).head sink := by
    by_contra not_sink
    rw [if_neg not_sink] at low
    split at low <;> omega
  have from_source : Relation.ReflTransGen (Loaded links x) source (links.get k).tail := by
    by_contra not_source
    rw [if_neg not_source] at high
    split at high <;> omega
  exact no_path (((loaded_path from_source).tail ⟨k, free, rfl, rfl⟩).trans (loaded_path to_sink))

end Cuts

end Optima.Flow.LeastCost
