import Mathlib.Data.Fintype.Prod
import Optima.Flow.Network
import Optima.Proofs.Flow.Balance
import Optima.Proofs.Graph.Levels

/-!
What pushing along an arc does to a network: it moves residual capacity from the arc to its reverse
and changes the balance of its two ends only. A network is sound when no arc has a negative residual
capacity, which is to say that every flow lies between zero and its capacity.
-/

namespace Optima.Flow

open Optima.Graph

namespace Arc

variable {m : Nat}

instance : Fintype (Arc m) :=
  Fintype.ofEquiv (Fin m × Bool)
    ⟨fun p => ⟨p.1, p.2⟩, fun a => (a.edge, a.backward), fun _ => rfl, fun _ => rfl⟩

@[simp] theorem edge_reverse (a : Arc m) : a.reverse.edge = a.edge := rfl

@[simp] theorem backward_reverse (a : Arc m) : a.reverse.backward = !a.backward := rfl

theorem reverse_ne (a : Arc m) : a.reverse ≠ a := by
  intro same
  have flipped := congrArg Arc.backward same
  simp at flipped

theorem eq_reverse_iff {a b : Arc m} : a = b.reverse ↔ a.reverse = b :=
  ⟨fun h => by rw [h, reverse_reverse], fun h => by rw [← h, reverse_reverse]⟩

theorem mem_all (a : Arc m) : a ∈ all m := by
  obtain ⟨edge, backward⟩ := a
  refine List.mem_flatMap.mpr ⟨edge, List.mem_finRange edge, ?_⟩
  cases backward <;> simp

theorem nodup_all (m : Nat) : (all m).Nodup := by
  refine List.nodup_flatMap.mpr ⟨fun e _ => by simp, ?_⟩
  refine (List.nodup_finRange m).imp fun {e e'} apart => ?_
  simp only [Function.onFun, List.Disjoint]
  intro a first second
  have left : a.edge = e := by
    rcases List.mem_cons.mp first with rfl | rest
    · rfl
    · rw [List.mem_singleton.mp rest]
  have right : a.edge = e' := by
    rcases List.mem_cons.mp second with rfl | rest
    · rfl
    · rw [List.mem_singleton.mp rest]
  exact apart (left.symm.trans right)

/-- A sum over arcs goes over the two directions of each edge. -/
theorem sum_eq (f : Arc m → Int) : ∑ a, f a = ∑ e, (f ⟨e, false⟩ + f ⟨e, true⟩) := by
  rw [← Equiv.sum_comp (⟨fun p => ⟨p.1, p.2⟩, fun a => (a.edge, a.backward), fun _ => rfl,
    fun _ => rfl⟩ : Fin m × Bool ≃ Arc m) f, Fintype.sum_prod_type]
  apply Finset.sum_congr rfl
  intro e _
  rw [Fintype.sum_bool, add_comm]
  rfl

end Arc

namespace Network

variable {n m : Nat} (net : Network n m)

/-! ### Arcs and their ends -/

@[simp] theorem tail_reverse (a : Arc m) : net.tail a.reverse = net.head a := by
  obtain ⟨edge, backward⟩ := a
  cases backward <;> rfl

@[simp] theorem head_reverse (a : Arc m) : net.head a.reverse = net.tail a := by
  obtain ⟨edge, backward⟩ := a
  cases backward <;> rfl

@[simp] theorem cost_reverse (a : Arc m) : net.cost a.reverse = -net.cost a := by
  obtain ⟨edge, backward⟩ := a
  cases backward <;> simp [cost, Arc.reverse]

@[simp] theorem mem_leaving {a : Arc m} {v : Fin n} : a ∈ net.leaving.get v ↔ net.tail a = v := by
  simp [leaving, Arc.mem_all]

theorem leaving_congr {net net' : Network n m} (edges : net.edges = net'.edges) :
    net.leaving = net'.leaving := by
  unfold leaving tail
  rw [edges]

theorem nodup_leaving (v : Fin n) : (net.leaving.get v).Nodup := by
  simp only [leaving, Table.get_tabulate]
  exact (Arc.nodup_all m).filter _

/-! ### Balance -/

/-- What leaves a node, less what enters it. -/
def outflow (v : Fin n) : Int :=
  Flow.outflow (fun e => (net.edges.get e).tail) (fun e => (net.edges.get e).head) net.flow.get v

/-! ### What can be reached -/

/-- An arc that can still carry something leads from one node to the other. -/
def Leads (u v : Fin n) : Prop :=
  ∃ a, 0 < net.residual a ∧ net.tail a = u ∧ net.head a = v

/-- Such arcs lead all the way. -/
def Reaches : Fin n → Fin n → Prop :=
  Relation.ReflTransGen net.Leads

/-- The search of the residual network finds what residual paths lead to. -/
theorem reachableFrom_iff (u v : Fin n) :
    (net.reachableFrom u).get v = true ↔ net.Reaches u v := by
  have same : (fun u v => v ∈ (fun v =>
      ((net.leaving.get v).filter fun a => 0 < net.residual a).map net.head) u) = net.Leads := by
    funext x y
    simp only [List.mem_map, List.mem_filter, mem_leaving, decide_eq_true_eq, Leads,
      eq_iff_iff]
    exact ⟨fun ⟨a, ⟨tail, room⟩, head⟩ => ⟨a, room, tail, head⟩,
      fun ⟨a, room, tail, head⟩ => ⟨a, ⟨tail, room⟩, head⟩⟩
  rw [reachableFrom, reachable_iff, same]
  rfl

/-! ### Soundness -/

/-- No arc has a negative residual capacity. -/
def Sound : Prop := ∀ a, 0 ≤ net.residual a

variable {net}

theorem Sound.flow_nonneg (sound : net.Sound) (e : Fin m) : 0 ≤ net.flow.get e := sound ⟨e, true⟩

theorem Sound.flow_le (sound : net.Sound) (e : Fin m) :
    net.flow.get e ≤ (net.edges.get e).capacity := by
  have room := sound ⟨e, false⟩
  simp only [residual, Bool.false_eq_true, if_false] at room
  omega

theorem sound_iff :
    net.Sound ↔ ∀ e, 0 ≤ net.flow.get e ∧ net.flow.get e ≤ (net.edges.get e).capacity := by
  refine ⟨fun sound e => ⟨sound.flow_nonneg e, sound.flow_le e⟩, fun bounds a => ?_⟩
  obtain ⟨e, backward⟩ := a
  obtain ⟨low, high⟩ := bounds e
  cases backward <;> simp [residual, low, high]

/-- Where nothing can be carried on from what is reached, edges are full, and those that lead back
are empty. -/
theorem Sound.border (sound : net.Sound) (s : Fin n) (e : Fin m) :
    (net.Reaches s (net.edges.get e).tail → ¬ net.Reaches s (net.edges.get e).head →
      net.flow.get e = (net.edges.get e).capacity) ∧
    (¬ net.Reaches s (net.edges.get e).tail → net.Reaches s (net.edges.get e).head →
      net.flow.get e = 0) := by
  have low := sound.flow_nonneg e
  have high := sound.flow_le e
  refine ⟨fun out in_ => ?_, fun out in_ => ?_⟩
  · by_contra room
    refine in_ (out.tail ⟨⟨e, false⟩, ?_, rfl, rfl⟩)
    simp only [residual, Bool.false_eq_true, if_false]
    omega
  · by_contra some_
    refine out (in_.tail ⟨⟨e, true⟩, ?_, rfl, rfl⟩)
    simp only [residual, if_true]
    omega

open Classical in
/-- What is reached sends on exactly what fits over its border. -/
theorem Sound.sum_outflow_reached (sound : net.Sound) (s : Fin n) :
    ∑ v, (if net.Reaches s v then net.outflow v else 0) =
      leavingSum (fun e => (net.edges.get e).tail) (fun e => (net.edges.get e).head)
        (net.Reaches s) (fun e => (net.edges.get e).capacity) := by
  unfold outflow
  rw [sum_outflow_eq, enteringSum_eq_zero _ _ _ fun e out in_ => (sound.border s e).2 out in_,
    leavingSum_congr _ _ _ fun e out in_ => (sound.border s e).1 out in_, sub_zero]

/-- What the arcs of a node can still carry is what the edges out of it can carry, less what goes
out of it already. -/
theorem sum_residual (net : Network n m) (v : Fin n) :
    ∑ a, (if net.tail a = v then net.residual a else 0) =
      ∑ e, (if (net.edges.get e).tail = v then (net.edges.get e).capacity else 0) -
        net.outflow v := by
  rw [Arc.sum_eq, outflow, Flow.outflow, ← Finset.sum_sub_distrib]
  apply Finset.sum_congr rfl
  intro e _
  simp only [tail, residual, Bool.false_eq_true, if_false, if_true]
  split <;> split <;> omega

/-! ### Pushing -/

variable (net) (a : Arc m) (amount : Int)

@[simp] theorem edges_push : (net.push a amount).edges = net.edges := rfl

@[simp] theorem tail_push (b : Arc m) : (net.push a amount).tail b = net.tail b := rfl

@[simp] theorem head_push (b : Arc m) : (net.push a amount).head b = net.head b := rfl

@[simp] theorem cost_push (b : Arc m) : (net.push a amount).cost b = net.cost b := rfl

@[simp] theorem leaving_push : (net.push a amount).leaving = net.leaving := rfl

theorem residual_push (b : Arc m) :
    (net.push a amount).residual b =
      net.residual b - (if b = a then amount else 0) + (if b = a.reverse then amount else 0) := by
  obtain ⟨e, forth⟩ := a
  obtain ⟨e', forth'⟩ := b
  by_cases same : e = e'
  · subst same
    cases forth <;> cases forth' <;> simp [push, residual, Arc.reverse] <;> omega
  · have other : e' ≠ e := fun h => same h.symm
    cases forth <;> cases forth' <;> simp [push, residual, Arc.reverse, same, other]

theorem residual_push_self : (net.push a amount).residual a = net.residual a - amount := by
  simp [residual_push, (Arc.reverse_ne a).symm]

theorem residual_push_reverse :
    (net.push a amount).residual a.reverse = net.residual a.reverse + amount := by
  simp [residual_push, Arc.reverse_ne a]

theorem residual_push_of_ne {b : Arc m} (apart : b ≠ a) (opposite : b ≠ a.reverse) :
    (net.push a amount).residual b = net.residual b := by
  simp [residual_push, apart, opposite]

/-- A push takes from the tail of its arc and gives to the head. -/
theorem outflow_push (v : Fin n) :
    (net.push a amount).outflow v =
      net.outflow v + (if net.tail a = v then amount else 0) -
        (if net.head a = v then amount else 0) := by
  obtain ⟨e, backward⟩ := a
  let signed := if backward then -amount else amount
  have moved : (net.push ⟨e, backward⟩ amount).flow.get =
      fun k => net.flow.get k + if k = e then signed else 0 := by
    funext k
    by_cases same : e = k
    · subst same
      cases backward <;> simp [push, signed, Int.sub_eq_add_neg]
    · have other : k ≠ e := fun h => same h.symm
      simp [push, same, other]
  unfold outflow
  rw [moved, edges_push, outflow_add, outflow_single]
  cases backward <;> simp only [tail, head, signed, if_true, Bool.false_eq_true, if_false] <;>
    split <;> split <;> omega

theorem Sound.push {net : Network n m} (sound : net.Sound) {a : Arc m} {amount : Int}
    (nonneg : 0 ≤ amount) (fits : amount ≤ net.residual a) : (net.push a amount).Sound := by
  intro b
  rw [residual_push]
  have room := sound b
  by_cases same : b = a
  · subst same
    rw [if_pos rfl, if_neg (Arc.reverse_ne b).symm]
    omega
  · rw [if_neg same]
    split <;> omega

end Network

end Optima.Flow
