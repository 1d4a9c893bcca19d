import Optima.Proofs.Flow.Maximum.Cut
import Optima.Proofs.Run

/-!
The states that a run of push-relabel passes through. A place is a state together with the node that
is being discharged, if there is one, and `advance` is one turn of the loops that `work` runs. It is
the same run: `work` ends where the places end (`work_course`), and since a place has at most one
next, no other places are passed on the way there (`course_ends`).

What holds at every place is said in terms of the network that the run was given (`Orderly`). It
follows from the invariant, which every turn keeps (`Inv.advance`), and no turn lowers a node.
-/

namespace Optima.Flow.Maximum

variable {n m : Nat} {setting : Setting n m} {threshold : Nat} {s s' : State n m} {u : Fin n}

/-! ### Places -/

/-- Where a run is: its state, and the node that is being discharged. -/
structure Place (n m : Nat) where
  busy : Option (Fin n)
  state : State n m

/-- One turn. A node is taken from the queue, a step is made with it while it has excess, and then
it is released, and heights are computed afresh if that is due. -/
def advance (setting : Setting n m) (threshold : Nat) (p : Place n m) : Option (Place n m) :=
  match p.busy with
  | none => match p.state.active with
    | [] => none
    | u :: rest =>
        some ⟨some u, { p.state with active := rest, queued := p.state.queued.update u false }⟩
  | some u =>
      if 0 < p.state.excess.get u then some ⟨some u, step setting u p.state⟩
      else some ⟨none, if threshold ≤ p.state.lifts then relabelAll setting p.state else p.state⟩

/-- One place is passed some turns after another. -/
def Course (setting : Setting n m) (threshold : Nat) : Place n m → Place n m → Prop :=
  Relation.ReflTransGen fun p q => advance setting threshold p = some q

theorem advance_take {rest : List (Fin n)} (first : s.active = u :: rest) :
    advance setting threshold ⟨none, s⟩ =
      some ⟨some u, { s with active := rest, queued := s.queued.update u false }⟩ := by
  simp only [advance, first]

theorem advance_end (empty : s.active = []) : advance setting threshold ⟨none, s⟩ = none := by
  simp only [advance, empty]

theorem advance_step (more : 0 < s.excess.get u) :
    advance setting threshold ⟨some u, s⟩ = some ⟨some u, step setting u s⟩ :=
  if_pos more

theorem advance_release (spent : s.excess.get u ≤ 0) :
    advance setting threshold ⟨some u, s⟩ =
      some ⟨none, if threshold ≤ s.lifts then relabelAll setting s else s⟩ :=
  if_neg (Int.not_lt.mpr spent)

/-- The turns of a discharge. -/
theorem discharge_course {fuel : Nat} (result : discharge setting u fuel s = .ok s') :
    Course setting threshold ⟨some u, s⟩ ⟨some u, s'⟩ ∧ s'.excess.get u ≤ 0 := by
  induction fuel generalizing s with
  | zero =>
    rw [discharge.eq_def] at result
    dsimp only at result
    by_cases done : s.excess.get u ≤ 0
    · rw [if_pos done] at result
      cases result
      exact ⟨.refl, done⟩
    · rw [if_neg done] at result
      cases result
  | succ fuel ih =>
    rw [discharge] at result
    by_cases done : s.excess.get u ≤ 0
    · rw [if_pos done] at result
      cases result
      exact ⟨.refl, done⟩
    · rw [if_neg done] at result
      obtain ⟨turns, spent⟩ := ih result
      exact ⟨turns.head (advance_step (Int.not_le.mp done)), spent⟩

/-- With an empty queue there is nothing to do. -/
theorem work_nil {fuel discharges relabels : Nat} (empty : s.active = []) :
    work setting threshold fuel discharges relabels s = pure (s, discharges, relabels) := by
  rw [work.eq_def]
  simp only [empty]

/-- The turns of a run that comes to its end. -/
theorem work_course {fuel discharges relabels discharges' relabels' : Nat}
    (result : (work setting threshold fuel discharges relabels s).outcome =
      .ok (s', discharges', relabels')) :
    Course setting threshold ⟨none, s⟩ ⟨none, s'⟩ ∧ s'.active = [] := by
  induction fuel generalizing s discharges relabels with
  | zero =>
    cases queue : s.active with
    | nil =>
      rw [work_nil queue] at result
      cases result
      exact ⟨.refl, queue⟩
    | cons u rest =>
      rw [work.eq_def] at result
      simp only [queue] at result
      cases result
  | succ fuel ih =>
    cases queue : s.active with
    | nil =>
      rw [work_nil queue] at result
      cases result
      exact ⟨.refl, queue⟩
    | cons u rest =>
      rw [work.eq_def] at result
      simp only [queue, Run.outcome_pause] at result
      split at result
      · cases result
      · next released spent =>
        obtain ⟨turns, done⟩ := discharge_course spent
        have taken : Course setting threshold ⟨none, s⟩ ⟨some u, _⟩ := .single (advance_take queue)
        have discharged := (taken.trans turns).tail (advance_release done)
        split at result
        · next due =>
          obtain ⟨onward, empty⟩ := ih result
          rw [if_pos due] at discharged
          exact ⟨discharged.trans onward, empty⟩
        · next early =>
          obtain ⟨onward, empty⟩ := ih result
          rw [if_neg early] at discharged
          exact ⟨discharged.trans onward, empty⟩

/-- A place with nothing to discharge and an empty queue is the last, and every place that is passed
leads to it. -/
theorem course_ends {first p : Place n m} (last : Course setting threshold first ⟨none, s⟩)
    (empty : s.active = []) (passed : Course setting threshold first p) :
    Course setting threshold p ⟨none, s⟩ :=
  Turns.ends last (advance_end empty) passed

/-! ### What a turn keeps -/

/-- A turn keeps the invariant and the edges, and lowers no node. -/
theorem Inv.advance {p q : Place n m} (inv : Inv setting p.busy p.state)
    (turn : advance setting threshold p = some q) :
    Inv setting q.busy q.state ∧ q.state.network.edges = p.state.network.edges ∧
      ∀ v, p.state.height.get v ≤ q.state.height.get v := by
  obtain ⟨busy, s⟩ := p
  cases busy with
  | none =>
    cases queue : s.active with
    | nil =>
      rw [advance_end queue] at turn
      cases turn
    | cons u rest =>
      rw [advance_take queue] at turn
      cases turn
      exact ⟨inv.take queue, rfl, fun _ => le_rfl⟩
  | some u =>
    by_cases pos : 0 < s.excess.get u
    · rw [advance_step pos] at turn
      cases turn
      refine ⟨inv.step pos, step_edges inv pos, fun v => ?_⟩
      rcases step_cases inv with ⟨passed, lifts⟩ | ⟨a, rest, _, _, ⟨_, pushes⟩ | ⟨_, passes⟩⟩
      · rw [lifts]
        exact (inv.lift pos passed).1.height_le v
      · rw [pushes, enqueue_height]
        exact le_rfl
      · rw [passes]
    · have spent := Int.not_lt.mp pos
      rw [advance_release spent] at turn
      cases turn
      have inv' := inv.release spent
      have raised := relabelAll_raised inv'.balanced inv'.labelled
      dsimp only
      split
      · exact ⟨inv'.raise raised (relabelAll_labelled inv'.balanced inv'.labelled.cut), rfl,
          raised.height_le⟩
      · exact ⟨inv', rfl, fun _ => le_rfl⟩

/-- All places of a run are within the invariant. -/
theorem Inv.course {p q : Place n m} (inv : Inv setting p.busy p.state)
    (turns : Course setting threshold p q) :
    Inv setting q.busy q.state ∧ q.state.network.edges = p.state.network.edges := by
  induction turns with
  | refl => exact ⟨inv, rfl⟩
  | tail _ turn ih =>
    obtain ⟨inv', edges, _⟩ := ih.1.advance turn
    exact ⟨inv', edges.trans ih.2⟩

/-! ### What holds at every place -/

/-- What holds at every place of a run that was given a network without flow. -/
structure Orderly (setting : Setting n m) (net : Network n m) (p : Place n m) : Prop where
  edges : p.state.network.edges = net.edges
  residual_nonneg : ∀ a, 0 ≤ p.state.network.residual a
  residual_pair : ∀ a, p.state.network.residual a + p.state.network.residual a.reverse =
    net.residual a + net.residual a.reverse
  /-- The excess of a node is what flows in less what flows out. -/
  excess_eq : ∀ v, p.state.excess.get v =
    ∑ e, (if (net.edges.get e).head = v then p.state.network.flow.get e else 0) -
      ∑ e, if (net.edges.get e).tail = v then p.state.network.flow.get e else 0
  excess_nonneg : ∀ v, v ≠ setting.source → 0 ≤ p.state.excess.get v
  height_sink : p.state.height.get setting.sink = 0
  height_source : p.state.height.get setting.source = n
  height_le : ∀ v, p.state.height.get v ≤ 2 * n
  height_arc : ∀ a, 0 < p.state.network.residual a →
    p.state.height.get (net.tail a) ≤ p.state.height.get (net.head a) + 1
  height_lt : ∀ v, v ≠ setting.source → v ≠ setting.sink → 0 < p.state.excess.get v →
    p.state.height.get v < 2 * n
  population : ∀ h, p.state.population.get h =
    (Finset.univ.filter fun v => p.state.height.get v = h.val).card
  queued_iff : ∀ v, p.state.queued.get v = true ↔ v ∈ p.state.active
  waiting : ∀ v, v ≠ setting.source → v ≠ setting.sink → 0 < p.state.excess.get v →
    v ∈ p.state.active ∨ p.busy = some v
  /-- The arcs of a node that were passed by come before those it still has to look at. -/
  passed : ∀ v, ∃ before, net.leaving.get v = before ++ p.state.pending.get v ∧
    ∀ a ∈ before, ¬ (0 < p.state.network.residual a ∧
      p.state.height.get v = p.state.height.get (net.head a) + 1)

/-- Passed arcs are those before the ones still to look at, and none of them leads downhill. -/
theorem Labelled.passed_before {net : Network n m} {height : Table n Nat}
    {pending : Table n (List (Arc m))} {population : Table (2 * n + 2) Nat}
    (lab : Labelled setting net height pending population)
    (leaving : setting.leaving = net.leaving) (v : Fin n) :
    ∃ before, net.leaving.get v = before ++ pending.get v ∧
      ∀ a ∈ before, ¬ (0 < net.residual a ∧ height.get v = height.get (net.head a) + 1) := by
  obtain ⟨before, split⟩ := lab.suffix v
  rw [leaving] at split
  refine ⟨before, split.symm, fun a mem adm => ?_⟩
  have once := net.nodup_leaving v
  rw [← split] at once
  have tail : net.tail a = v :=
    net.mem_leaving.mp (split ▸ List.mem_append_left _ mem)
  have gone : a ∉ pending.get (net.tail a) := by
    rw [tail]
    exact fun again => List.disjoint_of_nodup_append once mem again
  have level := lab.passed a adm.1 gone
  rw [tail] at level
  omega

theorem Inv.orderly {net : Network n m} {p : Place n m} (inv : Inv setting p.busy p.state)
    (edges : p.state.network.edges = net.edges) : Orderly setting net p := by
  have pair : ∀ a, p.state.network.residual a + p.state.network.residual a.reverse =
      net.residual a + net.residual a.reverse := by
    intro a
    rw [Network.residual_add_residual_reverse, Network.residual_add_residual_reverse, edges]
  have tail : p.state.network.tail = net.tail := by
    unfold Network.tail
    rw [edges]
  have head : p.state.network.head = net.head := by
    unfold Network.head
    rw [edges]
  have passed := inv.labelled.passed_before inv.balanced.leaving
  have gentle := inv.labelled.valid
  unfold Valid at gentle
  rw [tail, head] at gentle
  rw [Network.leaving_congr edges, head] at passed
  refine ⟨edges, inv.balanced.sound, pair, fun v => ?_, inv.balanced.nonneg, inv.labelled.sink,
    inv.labelled.source, inv.labelled.bounded, gentle, fun v _ _ pos => inv.height_lt pos,
    inv.labelled.counted, inv.queue.queued_iff, inv.waiting, passed⟩
  rw [inv.balanced.excess_eq, Network.outflow, outflow, Finset.sum_sub_distrib, edges, neg_sub]

/-- On a network that was just built, with capacities that are not negative and distinct ends, all
places that push-relabel passes are in order, and heights only rise: from one place to the next, if
they were computed afresh, and where a node is lifted. The run comes to its end, and that is where
all its places lead. -/
theorem solve_orderly (net : Network n m) (built : net.Built)
    (capacities : ∀ e, 0 ≤ (net.edges.get e).capacity) (source sink : Fin n)
    (apart : source ≠ sink) (threshold : Nat) :
    let setting : Setting n m := ⟨source, sink, net.leaving⟩
    let first : Place n m := ⟨none, start setting net⟩
    (∀ p, Course setting threshold first p →
      Orderly setting net p ∧
      (∀ v, p.state.height.get v ≤ (relabelAll setting p.state).height.get v) ∧
      (∀ u, p.busy = some u → 0 < p.state.excess.get u → p.state.pending.get u = [] →
        ∀ v, p.state.height.get v ≤ (lift setting u p.state).height.get v) ∧
      ∀ q, advance setting threshold p = some q →
        ∀ v, p.state.height.get v ≤ q.state.height.get v) ∧
    ∃ s discharges relabels,
      (work setting threshold (bound n m) 0 1 (start setting net)).outcome =
        .ok (s, discharges, relabels) ∧
      Course setting threshold first ⟨none, s⟩ ∧ s.active = [] ∧
      ∀ p, Course setting threshold first p → Course setting threshold p ⟨none, s⟩ := by
  intro setting first
  have sound := built.sound capacities
  have level := built.outflow_eq_zero
  have begins : Inv setting none (start setting net) := start_inv rfl apart sound level
  constructor
  · intro p passed
    obtain ⟨inv, edges⟩ := Inv.course (p := first) begins passed
    refine ⟨inv.orderly (edges.trans (start_edges setting net)),
      (relabelAll_raised inv.balanced inv.labelled).height_le, fun u busy pos stuck v => ?_,
      fun q turn => (inv.advance turn).2.2⟩
    rw [busy] at inv
    exact (inv.lift pos stuck).1.height_le v
  · obtain ⟨s, discharges, relabels, worked, _, _, _⟩ :=
      work_ends threshold (bound n m) 0 1 begins (potential_start rfl apart sound level)
    obtain ⟨turns, empty⟩ := work_course worked
    exact ⟨s, discharges, relabels, worked, turns, empty, fun p => course_ends turns empty⟩

theorem solve_orderly_crossedWays :
    crossedWays.Built ∧ (∀ e, 0 ≤ (crossedWays.edges.get e).capacity) ∧ (0 : Fin 4) ≠ 3 ∧
      let setting : Setting 4 6 := ⟨0, 3, crossedWays.leaving⟩
      let first : Place 4 6 := ⟨none, start setting crossedWays⟩
      (∀ p, Course setting 1 first p →
        Orderly setting crossedWays p ∧
        (∀ v, p.state.height.get v ≤ (relabelAll setting p.state).height.get v) ∧
        (∀ u, p.busy = some u → 0 < p.state.excess.get u → p.state.pending.get u = [] →
          ∀ v, p.state.height.get v ≤ (lift setting u p.state).height.get v) ∧
        ∀ q, advance setting 1 p = some q →
          ∀ v, p.state.height.get v ≤ q.state.height.get v) ∧
      ∃ s discharges relabels,
        (work setting 1 (bound 4 6) 0 1 (start setting crossedWays)).outcome =
          .ok (s, discharges, relabels) ∧
        Course setting 1 first ⟨none, s⟩ ∧ s.active = [] ∧
        ∀ p, Course setting 1 first p → Course setting 1 p ⟨none, s⟩ := by
  have built : crossedWays.Built :=
    .addEdge _ (.addEdge _ (.addEdge _ (.addEdge _ (.addEdge _ (.addEdge _ .empty)))))
  have capacities : ∀ e, 0 ≤ (crossedWays.edges.get e).capacity := by decide
  exact ⟨built, capacities, by decide,
    solve_orderly crossedWays built capacities 0 3 (by decide) 1⟩

end Optima.Flow.Maximum
