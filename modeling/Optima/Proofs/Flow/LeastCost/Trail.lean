import Optima.Flow.LeastCost
import Optima.Proofs.Flow.Residual
import Optima.Proofs.Graph.Search

/-!
Trails of arcs, and what it does to a network to push along one. Only the two ends change their
balance (`outflow_pushAll`), whatever the trail; a trail that repeats no arc takes its amount from
each of its arcs and gives it to their reverses (`residual_pushAll`).

The trail that a search for shortest paths found goes along arcs on which the labels are tight, and
forward in the order in which nodes were settled, so that it repeats nothing (`pathArcs_trail`).
-/

namespace Optima.Flow

open Optima.Graph

variable {n m : Nat}

/-- Arcs that lead from one node to another, the last one first. -/
inductive Trail (net : Network n m) (s : Fin n) : List (Arc m) → Fin n → Prop where
  | nil : Trail net s [] s
  | cons {path : List (Arc m)} {a : Arc m} : Trail net s path (net.tail a) →
      Trail net s (a :: path) (net.head a)

/-- The network after an amount was pushed along each of some arcs. -/
def Network.pushAll (net : Network n m) (path : List (Arc m)) (amount : Int) : Network n m :=
  path.foldl (fun net a => net.push a amount) net

namespace Network

variable (net : Network n m) (path : List (Arc m)) (amount : Int)

@[simp] theorem edges_pushAll : (net.pushAll path amount).edges = net.edges := by
  unfold pushAll
  induction path generalizing net with
  | nil => rfl
  | cons a path ih => exact (ih (net.push a amount)).trans (edges_push net a amount)

theorem residual_pushAll (nodup : path.Nodup) (b : Arc m) :
    (net.pushAll path amount).residual b =
      net.residual b - (if b ∈ path then amount else 0) +
        (if b.reverse ∈ path then amount else 0) := by
  unfold pushAll
  induction path generalizing net with
  | nil => simp
  | cons a path ih =>
    obtain ⟨fresh, nodup⟩ := List.nodup_cons.mp nodup
    rw [List.foldl_cons, ih _ nodup, residual_push]
    have forth : (if b ∈ a :: path then amount else 0) =
        (if b = a then amount else 0) + if b ∈ path then amount else 0 := by
      by_cases same : b = a
      · simp [same, fresh]
      · simp [same]
    have back : (if b.reverse ∈ a :: path then amount else 0) =
        (if b = a.reverse then amount else 0) + if b.reverse ∈ path then amount else 0 := by
      by_cases same : b.reverse = a
      · simp [Arc.eq_reverse_iff, same, fresh]
      · simp [Arc.eq_reverse_iff, same]
    rw [forth, back]
    ring

variable {net path amount}

theorem Sound.pushAll (sound : net.Sound) (nodup : path.Nodup) (nonneg : 0 ≤ amount)
    (fits : ∀ a ∈ path, amount ≤ net.residual a) : (net.pushAll path amount).Sound := by
  intro b
  rw [residual_pushAll net path amount nodup b]
  have room := sound b
  have rest : 0 ≤ if b.reverse ∈ path then amount else 0 := by
    split
    · exact nonneg
    · exact le_rfl
  by_cases mem : b ∈ path
  · have := fits b mem
    rw [if_pos mem]
    omega
  · rw [if_neg mem]
    omega

/-- What is pushed along a trail leaves its first node and arrives at its last one. -/
theorem outflow_pushAll {s t : Fin n} (trail : Trail net s path t) (amount : Int) (v : Fin n) :
    (net.pushAll path amount).outflow v =
      net.outflow v + (if v = s then amount else 0) - (if v = t then amount else 0) := by
  have step : ∀ other : Network n m, other.edges = net.edges →
      (other.pushAll path amount).outflow v =
        other.outflow v + (if v = s then amount else 0) - (if v = t then amount else 0) := by
    induction trail with
    | nil =>
      intro other _
      exact (Int.add_sub_cancel _ _).symm
    | @cons path a _ ih =>
      intro other edges
      have tail : other.tail a = net.tail a := by
        unfold tail
        rw [edges]
      have head : other.head a = net.head a := by
        unfold head
        rw [edges]
      have pushed := ih (other.push a amount) edges
      rw [outflow_push, tail, head] at pushed
      show ((other.push a amount).pushAll path amount).outflow v = _
      rw [pushed]
      simp only [eq_comm (a := v)]
      omega
  exact step net rfl

end Network

namespace LeastCost

/-! ### The bottleneck -/

/-- The least of what is wanted and of what the arcs can carry, if there is anything of either. -/
theorem exists_least (net : Network n m) (path : List (Arc m)) (wanted : Option Int)
    (some_ : wanted.isSome ∨ path ≠ []) :
    ∃ least, path.foldl (fun least a => match least with
        | some x => some (min x (net.residual a))
        | none => some (net.residual a)) wanted = some least ∧
      (∀ x ∈ wanted, least ≤ x) ∧ (∀ a ∈ path, least ≤ net.residual a) ∧
      (wanted = some least ∨ ∃ a ∈ path, least = net.residual a) := by
  induction path generalizing wanted with
  | nil =>
    obtain ⟨x, rfl⟩ := Option.isSome_iff_exists.mp (some_.resolve_right fun h => h rfl)
    exact ⟨x, rfl, fun y same => (Option.some.inj same).le, nofun, .inl rfl⟩
  | cons a path ih =>
    cases wanted with
    | none =>
      obtain ⟨least, result, le, le_path, attained⟩ := ih (some (net.residual a)) (.inl rfl)
      have le_a := le _ rfl
      refine ⟨least, result, nofun, fun b mem => ?_, .inr ?_⟩
      · rcases List.mem_cons.mp mem with rfl | later
        · exact le_a
        · exact le_path b later
      · rcases attained with same | ⟨b, later, same⟩
        · exact ⟨a, List.mem_cons_self .., (Option.some.inj same).symm⟩
        · exact ⟨b, List.mem_cons_of_mem _ later, same⟩
    | some x =>
      obtain ⟨least, result, le, le_path, attained⟩ := ih (some (min x (net.residual a))) (.inl rfl)
      have le_min := le _ rfl
      refine ⟨least, result, fun y same => ?_, fun b mem => ?_, ?_⟩
      · obtain rfl := Option.some.inj same
        exact le_min.trans (min_le_left _ _)
      · rcases List.mem_cons.mp mem with rfl | later
        · exact le_min.trans (min_le_right _ _)
        · exact le_path b later
      · rcases attained with same | ⟨b, later, same⟩
        · rcases min_choice x (net.residual a) with left | right
          · exact .inl (left ▸ same)
          · exact .inr ⟨a, List.mem_cons_self .., (right ▸ Option.some.inj same).symm⟩
        · exact .inr ⟨b, List.mem_cons_of_mem _ later, same⟩

/-- The bottleneck fits, and is the most that does. -/
theorem bottleneck_spec (net : Network n m) (wanted : Option Int) {path : List (Arc m)}
    (nonempty : path ≠ []) :
    (∀ x ∈ wanted, bottleneck net wanted path ≤ x) ∧
      (∀ a ∈ path, bottleneck net wanted path ≤ net.residual a) ∧
      (wanted = some (bottleneck net wanted path) ∨
        ∃ a ∈ path, bottleneck net wanted path = net.residual a) := by
  obtain ⟨least, result, spec⟩ := exists_least net path wanted (.inr nonempty)
  have same : bottleneck net wanted path = least := congrArg (fun x => x.getD 0) result
  rwa [same]

/-! ### Shortest paths in reduced costs -/

/-- The reduced cost of an arc. -/
def reducedCost (net : Network n m) (potential : Fin n → Int) (a : Arc m) : Int :=
  net.cost a + potential (net.tail a) - potential (net.head a)

/-- No arc that can carry something has a negative reduced cost. -/
def Dual (net : Network n m) (potential : Fin n → Int) : Prop :=
  ∀ a, 0 < net.residual a → 0 ≤ reducedCost net potential a

theorem mem_reducedSteps {net : Network n m} {potential : Table n Int} {u : Fin n}
    {step : Graph.Step n (Arc m) Int} :
    step ∈ reducedSteps net net.leaving potential u ↔
      ∃ a, net.tail a = u ∧ 0 < net.residual a ∧
        step = ⟨net.head a, a, reducedCost net potential.get a⟩ := by
  simp only [reducedSteps, List.mem_map, List.mem_filter, Network.mem_leaving, decide_eq_true_eq]
  constructor
  · rintro ⟨a, ⟨rfl, room⟩, rfl⟩
    exact ⟨a, rfl, room, rfl⟩
  · rintro ⟨a, rfl, room, rfl⟩
    exact ⟨a, ⟨rfl, room⟩, rfl⟩

variable {net : Network n m} {potential : Table n Int} {s t : Fin n} {time : Fin n → Nat}
  {found : Search.State n (Arc m) Int}

/-- The arcs that were followed to a node form a trail. They can carry something, their labels are
tight, and they go forward in time, up to the time of the node. -/
theorem pathArcs_trail
    (tree : Search.Tree (reducedSteps net net.leaving potential) s time found) (fuel : Nat)
    {v : Fin n} {d : Int} (label : found.distance.get v = some d) (enough : time v < fuel) :
    Trail net s (pathArcs found.parent fuel v) v ∧
      ∀ a ∈ pathArcs found.parent fuel v, 0 < net.residual a ∧
        (∃ du, found.distance.get (net.tail a) = some du ∧
          found.distance.get (net.head a) = some (du + reducedCost net potential.get a)) ∧
        time (net.tail a) < time (net.head a) ∧ time (net.head a) ≤ time v := by
  induction fuel generalizing v d with
  | zero => exact absurd enough (Nat.not_lt_zero _)
  | succ fuel ih =>
    by_cases root : v = s
    · subst root
      have none_ : pathArcs found.parent (fuel + 1) v = [] := by
        simp [pathArcs, tree.source_parent]
      rw [none_]
      exact ⟨.nil, nofun⟩
    · obtain ⟨u, step, du, parent, mem, head, label', sum, earlier⟩ := tree.parent root label
      obtain ⟨a, rfl, room, rfl⟩ := mem_reducedSteps.mp mem
      dsimp only at head sum parent
      subst head
      have more : pathArcs found.parent (fuel + 1) (net.head a) =
          a :: pathArcs found.parent fuel (net.tail a) := by
        simp [pathArcs, parent]
      obtain ⟨trail, arcs⟩ := ih label' (by omega)
      rw [more]
      refine ⟨trail.cons, fun b mem => ?_⟩
      rcases List.mem_cons.mp mem with rfl | later
      · exact ⟨room, ⟨du, label', by rw [label, sum]⟩, earlier, le_rfl⟩
      · obtain ⟨room, tight, forward, le⟩ := arcs b later
        exact ⟨room, tight, forward, le.trans earlier.le⟩

theorem pathArcs_nodup
    (tree : Search.Tree (reducedSteps net net.leaving potential) s time found) (fuel : Nat)
    {v : Fin n} {d : Int} (label : found.distance.get v = some d) (enough : time v < fuel) :
    (pathArcs found.parent fuel v).Nodup := by
  induction fuel generalizing v d with
  | zero => exact List.nodup_nil
  | succ fuel ih =>
    by_cases root : v = s
    · subst root
      simp [pathArcs, tree.source_parent]
    · obtain ⟨u, step, du, parent, mem, head, label', sum, earlier⟩ := tree.parent root label
      obtain ⟨a, rfl, room, rfl⟩ := mem_reducedSteps.mp mem
      have more : pathArcs found.parent (fuel + 1) v =
          a :: pathArcs found.parent fuel (net.tail a) := by
        simp [pathArcs, parent]
      rw [more]
      refine List.nodup_cons.mpr ⟨fun again => ?_, ih label' (by omega)⟩
      obtain ⟨_, _, forward, le⟩ := (pathArcs_trail tree fuel label' (by omega)).2 a again
      omega

end LeastCost

end Optima.Flow
