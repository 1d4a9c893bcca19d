import Optima.Proofs.Flow.Maximum.Heights
import Optima.Proofs.Table

/-!
What holds of a run of push-relabel between any two of its steps, in three parts: flow and excess
(`Balanced`), heights, populations and passed arcs (`Labelled`), and the queue (`Queue`). `Inv` puts
them together; its first argument names the node that is being discharged, if there is one.

That a node with excess stays below `2 * n` is no part of it: such a node can send its excess back
to the source, and valid heights bound the way (`Inv.height_lt`).
-/

namespace Optima.Flow.Maximum

variable {n m : Nat}

/-! ### Flow and excess -/

/-- The network is sound, and the excess of a node is what the flow leaves there. -/
structure Balanced (setting : Setting n m) (net : Network n m) (excess : Table n Int) : Prop where
  leaving : setting.leaving = net.leaving
  apart : setting.source ≠ setting.sink
  sound : net.Sound
  excess_eq : ∀ v, excess.get v = -net.outflow v
  nonneg : ∀ v, v ≠ setting.source → 0 ≤ excess.get v

/-- A node with excess has received it from the source, and the way back is open. -/
theorem Balanced.reaches_source {setting : Setting n m} {net : Network n m} {excess : Table n Int}
    (bal : Balanced setting net excess) {v : Fin n} (pos : 0 < excess.get v) :
    net.Reaches v setting.source := by
  classical
  by_contra away
  have outside : ∀ w, net.Reaches v w → w ≠ setting.source := fun w path same =>
    away (same ▸ path)
  -- No flow enters the nodes that are reached, so together they cannot have received anything.
  have total : ∑ w, (if net.Reaches v w then net.outflow w else 0) =
      ∑ e, net.flow.get e * ((if net.Reaches v (net.edges.get e).tail then 1 else 0) -
        (if net.Reaches v (net.edges.get e).head then 1 else 0)) :=
    sum_outflow_mem _ _ (net.Reaches v) net.flow.get
  have links : 0 ≤ ∑ e, net.flow.get e * ((if net.Reaches v (net.edges.get e).tail then 1 else 0) -
      (if net.Reaches v (net.edges.get e).head then (1 : Int) else 0)) := by
    apply Finset.sum_nonneg
    intro e _
    have flow := bal.sound.flow_nonneg e
    by_cases tail : net.Reaches v (net.edges.get e).tail
    · rw [if_pos tail]
      apply Int.mul_nonneg flow
      split <;> decide
    · rw [if_neg tail]
      split
      · next head =>
        have unused : net.flow.get e = 0 := by
          by_contra used
          have back : net.Leads (net.edges.get e).head (net.edges.get e).tail :=
            ⟨⟨e, true⟩, by simpa [Network.residual] using by omega, rfl, rfl⟩
          exact tail (head.tail back)
        simp [unused]
      · simp
  have nodes : ∑ w, (if net.Reaches v w then net.outflow w else 0) < 0 := by
    refine Finset.sum_neg' (fun w _ => ?_) ⟨v, Finset.mem_univ v, ?_⟩
    · split
      · next path =>
        have := bal.nonneg w (outside w path)
        have := bal.excess_eq w
        omega
      · exact le_rfl
    · rw [if_pos .refl]
      have := bal.excess_eq v
      omega
  omega

/-- Pushing no more than the excess of the tail, or anything from the source, keeps the balance. -/
theorem Balanced.push {setting : Setting n m} {net : Network n m} {excess : Table n Int}
    (bal : Balanced setting net excess) {a : Arc m} {amount : Int} (nonneg : 0 ≤ amount)
    (fits : amount ≤ net.residual a)
    (owned : net.tail a = setting.source ∨ amount ≤ excess.get (net.tail a)) :
    let moved := excess.update (net.tail a) (excess.get (net.tail a) - amount)
    Balanced setting (net.push a amount)
      (moved.update (net.head a) (moved.get (net.head a) + amount)) := by
  intro moved
  have value : ∀ v, (moved.update (net.head a) (moved.get (net.head a) + amount)).get v =
      excess.get v - (if net.tail a = v then amount else 0) +
        (if net.head a = v then amount else 0) := by
    intro v
    simp only [moved, Table.get_update]
    by_cases head : net.head a = v
    · by_cases tail : net.tail a = v
      · simp [head, tail]
      · simp [head, tail]
    · by_cases tail : net.tail a = v
      · simp [head, tail]
      · simp [head, tail]
  refine ⟨bal.leaving, bal.apart, bal.sound.push nonneg fits, fun v => ?_, fun v other => ?_⟩
  · have := bal.excess_eq v
    rw [value, Network.outflow_push]
    omega
  · have := bal.nonneg v other
    rw [value]
    by_cases tail : net.tail a = v
    · rcases owned with source | within
      · exact absurd (tail.symm.trans source) other
      · rw [tail] at within
        split <;> split <;> omega
    · rw [if_neg tail]
      split <;> omega

/-! ### Heights, populations and passed arcs -/

/-- Each population counts the nodes of a height. -/
def Counted (height : Table n Nat) (population : Table (2 * n + 2) Nat) : Prop :=
  ∀ h, population.get h = (Finset.univ.filter fun v => height.get v = h.val).card

/-- The heights are valid, with the sink at the bottom and the source at `n`, and no arc that a node
passed by leads downhill. -/
structure Labelled (setting : Setting n m) (net : Network n m) (height : Table n Nat)
    (pending : Table n (List (Arc m))) (population : Table (2 * n + 2) Nat) : Prop where
  sink : height.get setting.sink = 0
  source : height.get setting.source = n
  bounded : ∀ v, height.get v ≤ 2 * n
  valid : Valid net height
  counted : Counted height population
  passed : ∀ a, 0 < net.residual a → a ∉ pending.get (net.tail a) →
    height.get (net.tail a) ≤ height.get (net.head a)
  suffix : ∀ v, pending.get v <:+ setting.leaving.get v

theorem level_val {h : Nat} (low : h ≤ 2 * n + 1) : (level h : Fin (2 * n + 2)).val = h :=
  Nat.min_eq_left low

theorem Counted.migrate {height : Table n Nat} {population : Table (2 * n + 2) Nat}
    (counted : Counted height population) {v : Fin n} {new : Nat}
    (old_le : height.get v ≤ 2 * n + 1) (new_le : new ≤ 2 * n + 1) :
    Counted (height.update v new) (migrate population (height.get v) new) := by
  intro h
  have left : ∀ x : Fin (2 * n + 2),
      (population.update (level (height.get v)) (population.get (level (height.get v)) - 1)).get x =
        population.get x - if height.get v = x.val then 1 else 0 := by
    intro x
    have same : level (height.get v) = x ↔ height.get v = x.val := by
      rw [Fin.ext_iff, level_val old_le]
    rw [Table.get_update]
    by_cases at_x : level (height.get v) = x
    · rw [if_pos at_x, if_pos (same.mp at_x), at_x]
    · rw [if_neg at_x, if_neg (fun value => at_x (same.mpr value)), Nat.sub_zero]
  have result : (Maximum.migrate population (height.get v) new).get h =
      (population.get h - if height.get v = h.val then 1 else 0) +
        if new = h.val then 1 else 0 := by
    have same : level new = h ↔ new = h.val := by rw [Fin.ext_iff, level_val new_le]
    rw [Maximum.migrate, Table.get_update]
    by_cases at_h : level new = h
    · rw [if_pos at_h, if_pos (same.mp at_h), at_h, left]
    · rw [if_neg at_h, if_neg (fun value => at_h (same.mpr value)), left]
      rfl
  have change := Table.sum_update height v new fun _ x => if x = h.val then 1 else 0
  have before := counted h
  rw [Finset.card_filter] at before ⊢
  rw [result, before]
  -- The subtraction is exact: where `v` leaves, it was counted.
  have present : (if height.get v = h.val then 1 else 0) ≤
      ∑ w, if height.get w = h.val then 1 else 0 :=
    Finset.single_le_sum (f := fun w => if height.get w = h.val then 1 else 0)
      (fun _ _ => Nat.zero_le _) (Finset.mem_univ v)
  omega

/-! ### The queue -/

/-- The marks agree with the queue, which holds inner nodes with excess, none of them twice. -/
structure Queue (setting : Setting n m) (excess : Table n Int) (queued : Table n Bool)
    (active : List (Fin n)) : Prop where
  queued_iff : ∀ v, queued.get v = true ↔ v ∈ active
  nodup : active.Nodup
  inner : ∀ v ∈ active, v ≠ setting.source ∧ v ≠ setting.sink
  pos : ∀ v ∈ active, 0 < excess.get v

/-- A node joins the queue if it should and is not there. -/
theorem Queue.enqueue {setting : Setting n m} {s : State n m}
    (queue : Queue setting s.excess s.queued s.active) (v : Fin n) :
    Queue setting s.excess (enqueue setting v s).queued (enqueue setting v s).active ∧
      ∀ w, w ∈ (Maximum.enqueue setting v s).active ↔
        w ∈ s.active ∨ (w = v ∧ v ≠ setting.source ∧ v ≠ setting.sink ∧ 0 < s.excess.get v) := by
  unfold Maximum.enqueue
  split
  · next joins =>
    obtain ⟨source, sink, free, pos⟩ := joins
    have absent : v ∉ s.active := fun mem => by simp [(queue.queued_iff v).mpr mem] at free
    refine ⟨⟨fun w => ?_, ?_, ?_, ?_⟩, fun w => ?_⟩
    · by_cases same : v = w
      · simp [same]
      · have other : ¬ w = v := fun h => same h.symm
        simp [same, other, queue.queued_iff]
    · exact List.nodup_append.mpr ⟨queue.nodup, List.nodup_singleton v, fun x mem y last => by
        rw [List.mem_singleton.mp last]
        exact fun same => absent (same ▸ mem)⟩
    · intro w mem
      rcases List.mem_append.mp mem with old | new
      · exact queue.inner w old
      · exact List.mem_singleton.mp new ▸ ⟨source, sink⟩
    · intro w mem
      rcases List.mem_append.mp mem with old | new
      · exact queue.pos w old
      · exact List.mem_singleton.mp new ▸ pos
    · simp [source, sink, pos]
  · next stays =>
    refine ⟨queue, fun w => ⟨.inl, fun either => ?_⟩⟩
    rcases either with old | ⟨rfl, source, sink, pos⟩
    · exact old
    · by_contra absent
      have free : s.queued.get w = false := by
        cases mark : s.queued.get w with
        | false => rfl
        | true => exact absurd ((queue.queued_iff w).mp mark) absent
      exact stays ⟨source, sink, by simp [free], pos⟩

/-! ### The invariant -/

/-- What holds between two steps; `busy` is the node that is being discharged. -/
structure Inv (setting : Setting n m) (busy : Option (Fin n)) (s : State n m) : Prop where
  balanced : Balanced setting s.network s.excess
  labelled : Labelled setting s.network s.height s.pending s.population
  queue : Queue setting s.excess s.queued s.active
  waiting : ∀ v, v ≠ setting.source → v ≠ setting.sink → 0 < s.excess.get v →
    v ∈ s.active ∨ busy = some v
  busy : ∀ u, busy = some u → u ≠ setting.source ∧ u ≠ setting.sink ∧ u ∉ s.active

/-- A node with excess is below twice the number of nodes. -/
theorem Inv.height_lt {setting : Setting n m} {busy : Option (Fin n)} {s : State n m}
    (inv : Inv setting busy s) {v : Fin n} (pos : 0 < s.excess.get v) :
    s.height.get v < 2 * n := by
  have := inv.labelled.valid.descent_lt (inv.balanced.reaches_source pos)
  rw [inv.labelled.source] at this
  omega

end Optima.Flow.Maximum
