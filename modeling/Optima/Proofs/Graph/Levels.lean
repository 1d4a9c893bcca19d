import Mathlib.Data.Fintype.Card
import Mathlib.Logic.Relation
import Optima.Graph.Levels

/-!
What breadth-first levels are. Levels never skip a step (`levels_step`), every level above the first
is reached from the one before (`levels_pred`), and there are fewer of them than nodes
(`levels_lt`). A node has a level exactly when it can be reached (`reachable_iff`).

While levels spread, the nodes of the last level are those whose neighbours may still lack one
(`Spreading`); as each level brings a new node, the search ends before its fuel does.
-/

namespace Optima.Graph

variable {n : Nat}

/-- What holds of the labels when a level has been completed: its nodes are those that are labelled
with it, and all steps from the levels before it are accounted for. -/
structure Spreading (next : Fin n → List (Fin n)) (root : Fin n) (level : Nat)
    (nodes : List (Fin n)) (labels : Table n (Option Nat)) : Prop where
  root_label : labels.get root = some 0
  eq_root : ∀ {v}, labels.get v = some 0 → v = root
  mem_nodes : ∀ {v}, v ∈ nodes ↔ labels.get v = some level
  le_level : ∀ {v d}, labels.get v = some d → d ≤ level
  step : ∀ {u v d}, labels.get u = some d → d < level → v ∈ next u →
    ∃ d' ≤ d + 1, labels.get v = some d'
  pred : ∀ {v d}, labels.get v = some (d + 1) → ∃ u, labels.get u = some d ∧ v ∈ next u
  level_lt : level < (Finset.univ.filter fun v => (labels.get v).isSome).card

/-! ### One level -/

/-- Labelling neighbours keeps the labels there are, and gives the level to all the others. -/
theorem foldl_labelNeighbour (level : Nat) (us : List (Fin n)) (labels : Table n (Option Nat))
    (fresh : List (Fin n)) (v : Fin n) :
    ((us.foldl (labelNeighbour level) (labels, fresh)).1.get v =
      if (labels.get v).isSome then labels.get v else if v ∈ us then some level else none) ∧
    (v ∈ (us.foldl (labelNeighbour level) (labels, fresh)).2 ↔
      v ∈ fresh ∨ (labels.get v = none ∧ v ∈ us)) := by
  induction us generalizing labels fresh with
  | nil => cases known : labels.get v <;> simp [known]
  | cons u us ih =>
    rw [List.foldl_cons]
    by_cases known : (labels.get u).isSome
    · have skip : labelNeighbour level (labels, fresh) u = (labels, fresh) := if_pos known
      obtain ⟨label, mem⟩ := ih labels fresh
      rw [skip, label, mem]
      by_cases same : v = u
      · subst same
        obtain ⟨d, value⟩ := Option.isSome_iff_exists.mp known
        simp [value]
      · simp [same]
    · have add : labelNeighbour level (labels, fresh) u =
          (labels.update u (some level), u :: fresh) := if_neg known
      obtain ⟨label, mem⟩ := ih (labels.update u (some level)) (u :: fresh)
      rw [add, label, mem]
      have absent : labels.get u = none := by simpa using known
      by_cases same : v = u
      · subst same
        simp [absent]
      · have other : ¬ u = v := fun h => same h.symm
        simp [same, other]

/-- One more level labels exactly the unlabelled neighbours of the nodes of the last one. -/
theorem foldl_nodes (next : Fin n → List (Fin n)) (level : Nat) (nodes : List (Fin n))
    (labels : Table n (Option Nat)) (v : Fin n) :
    let found := nodes.foldl (fun found u => (next u).foldl (labelNeighbour level) found)
      (labels, [])
    (found.1.get v = if (labels.get v).isSome then labels.get v
      else if ∃ u ∈ nodes, v ∈ next u then some level else none) ∧
    (v ∈ found.2 ↔ labels.get v = none ∧ ∃ u ∈ nodes, v ∈ next u) := by
  intro found
  have flat : found = (nodes.flatMap next).foldl (labelNeighbour level) (labels, []) :=
    (List.foldl_flatMap ..).symm
  obtain ⟨label, mem⟩ := foldl_labelNeighbour level (nodes.flatMap next) labels [] v
  rw [flat, label, mem]
  simp only [List.mem_flatMap, List.not_mem_nil, false_or, and_self]

section Levels

variable {next : Fin n → List (Fin n)} {root : Fin n}

/-- A completed level that brought new nodes leads to the next one. -/
theorem Spreading.advance {level : Nat} {nodes fresh : List (Fin n)}
    {labels labels' : Table n (Option Nat)} (inv : Spreading next root level nodes labels)
    (label : ∀ v, labels'.get v = if (labels.get v).isSome then labels.get v
      else if ∃ u ∈ nodes, v ∈ next u then some (level + 1) else none)
    (mem : ∀ v, v ∈ fresh ↔ labels.get v = none ∧ ∃ u ∈ nodes, v ∈ next u)
    {w : Fin n} (new : w ∈ fresh) : Spreading next root (level + 1) fresh labels' := by
  have kept : ∀ {v d}, labels.get v = some d → labels'.get v = some d := by
    intro v d known
    rw [label, known]
    rfl
  have fromOld : ∀ {v d}, labels'.get v = some d →
      labels.get v = some d ∨ (d = level + 1 ∧ labels.get v = none ∧ ∃ u ∈ nodes, v ∈ next u) := by
    intro v d labelled
    rw [label] at labelled
    cases known : labels.get v with
    | some d' => exact .inl (by simpa [known] using labelled)
    | none =>
      by_cases near : ∃ u ∈ nodes, v ∈ next u
      · refine .inr ⟨?_, rfl, near⟩
        simpa [known, near] using labelled.symm
      · simp [known, near] at labelled
  refine ⟨kept inv.root_label, ?_, ?_, ?_, ?_, ?_, ?_⟩
  · intro v labelled
    rcases fromOld labelled with old | ⟨contra, _⟩
    · exact inv.eq_root old
    · cases contra
  · intro v
    rw [mem]
    constructor
    · rintro ⟨absent, near⟩
      rw [label, absent]
      simp [near]
    · intro labelled
      rcases fromOld labelled with old | ⟨_, found⟩
      · have := inv.le_level old
        omega
      · exact found
  · intro v d labelled
    rcases fromOld labelled with old | ⟨rfl, _⟩
    · have := inv.le_level old
      omega
    · exact le_rfl
  · intro u v d labelled low step
    rcases fromOld labelled with old | ⟨rfl, _⟩
    · by_cases last : d = level
      · subst last
        cases known : labels.get v with
        | some d' => exact ⟨d', Nat.le_succ_of_le (inv.le_level known), kept known⟩
        | none =>
          have near : ∃ u ∈ nodes, v ∈ next u := ⟨u, inv.mem_nodes.mpr old, step⟩
          exact ⟨d + 1, le_rfl, by simp [label, known, near]⟩
      · obtain ⟨d', near, found⟩ := inv.step old (by omega) step
        exact ⟨d', near, kept found⟩
    · omega
  · intro v d labelled
    rcases fromOld labelled with old | ⟨level_eq, _, u, here, step⟩
    · obtain ⟨u, before, step⟩ := inv.pred old
      exact ⟨u, kept before, step⟩
    · obtain rfl : d = level := by omega
      exact ⟨u, kept (inv.mem_nodes.mp here), step⟩
  · refine lt_of_le_of_lt (Nat.succ_le_of_lt inv.level_lt) (Finset.card_lt_card ?_)
    obtain ⟨absent, near⟩ := (mem w).mp new
    refine (Finset.ssubset_iff_of_subset ?_).mpr ⟨w, ?_, ?_⟩
    · intro v known
      obtain ⟨d, value⟩ := Option.isSome_iff_exists.mp (Finset.mem_filter.mp known).2
      simp [kept value]
    · simp [label, absent, near]
    · simp [absent]

/-- When nothing new is found, all steps are accounted for. -/
theorem Spreading.closed {level : Nat} {nodes : List (Fin n)} {labels : Table n (Option Nat)}
    (inv : Spreading next root level nodes labels)
    (quiet : ∀ v, ¬ (labels.get v = none ∧ ∃ u ∈ nodes, v ∈ next u)) {u v : Fin n} {d : Nat}
    (labelled : labels.get u = some d) (step : v ∈ next u) :
    ∃ d' ≤ d + 1, labels.get v = some d' := by
  by_cases low : d < level
  · exact inv.step labelled low step
  · obtain rfl : d = level := Nat.le_antisymm (inv.le_level labelled) (Nat.le_of_not_lt low)
    cases known : labels.get v with
    | none => exact absurd ⟨known, u, inv.mem_nodes.mpr labelled, step⟩ (quiet v)
    | some d' => exact ⟨d', Nat.le_succ_of_le (inv.le_level known), rfl⟩

/-! ### All levels -/

/-- What is known of finished labels. -/
structure Levelled (next : Fin n → List (Fin n)) (root : Fin n)
    (labels : Table n (Option Nat)) : Prop where
  root_label : labels.get root = some 0
  eq_root : ∀ {v}, labels.get v = some 0 → v = root
  step : ∀ {u v d}, labels.get u = some d → v ∈ next u → ∃ d' ≤ d + 1, labels.get v = some d'
  pred : ∀ {v d}, labels.get v = some (d + 1) → ∃ u, labels.get u = some d ∧ v ∈ next u
  lt : ∀ {v d}, labels.get v = some d → d < n

theorem spreadLevels_levelled (fuel level : Nat) (nodes : List (Fin n))
    (labels : Table n (Option Nat)) (inv : Spreading next root level nodes labels)
    (enough : n ≤ level + fuel) :
    Levelled next root (spreadLevels next fuel (level + 1) nodes labels) := by
  have few : ∀ labels : Table n (Option Nat),
      (Finset.univ.filter fun v => (labels.get v).isSome).card ≤ n := fun labels =>
    (Finset.card_le_univ _).trans_eq (Fintype.card_fin n)
  induction fuel generalizing level nodes labels with
  | zero =>
    have := inv.level_lt
    have := few labels
    omega
  | succ fuel ih =>
    have round := foldl_nodes next (level + 1) nodes labels
    rw [spreadLevels]
    revert round
    generalize nodes.foldl (fun found u => (next u).foldl (labelNeighbour (level + 1)) found)
      (labels, []) = found
    obtain ⟨labels', fresh⟩ := found
    intro round
    have label := fun v => (round v).1
    have mem := fun v => (round v).2
    simp only at label mem ⊢
    cases fresh with
    | nil =>
      have quiet : ∀ v, ¬ (labels.get v = none ∧ ∃ u ∈ nodes, v ∈ next u) := fun v found =>
        List.not_mem_nil ((mem v).mpr found)
      have same : labels' = labels := by
        apply Table.ext
        intro v
        rw [label]
        cases known : labels.get v with
        | some d => rfl
        | none =>
          have far : ¬ ∃ u ∈ nodes, v ∈ next u := fun near => quiet v ⟨known, near⟩
          simp [far]
      subst same
      refine ⟨inv.root_label, inv.eq_root, inv.closed quiet, inv.pred, fun {v d} labelled => ?_⟩
      have := inv.le_level labelled
      have := inv.level_lt
      have := few labels'
      omega
    | cons w rest =>
      exact ih (level + 1) (w :: rest) labels'
        (inv.advance label mem (List.mem_cons_self ..)) (by omega)

theorem levels_levelled (next : Fin n → List (Fin n)) (root : Fin n) :
    Levelled next root (levels next root) := by
  refine spreadLevels_levelled n 0 [root] _ ?_ (by omega)
  have start : ∀ v, ((Table.fill n none).update root (some 0)).get v =
      if root = v then some 0 else (none : Option Nat) := by
    simp
  refine ⟨by simp, ?_, ?_, ?_, ?_, ?_, ?_⟩
  · intro v labelled
    rw [start] at labelled
    split at labelled
    · exact Eq.symm ‹_›
    · cases labelled
  · intro v
    rw [start]
    by_cases same : root = v <;> simp [same, eq_comm]
  · intro v d labelled
    rw [start] at labelled
    split at labelled
    · cases labelled
      exact le_rfl
    · cases labelled
  · intro u v d _ low
    omega
  · intro v d labelled
    rw [start] at labelled
    split at labelled <;> cases labelled
  · refine Finset.card_pos.mpr ⟨root, ?_⟩
    simp

theorem Levelled.isSome_iff {labels : Table n (Option Nat)} (done : Levelled next root labels)
    (v : Fin n) :
    (labels.get v).isSome ↔ Relation.ReflTransGen (fun u v => v ∈ next u) root v := by
  constructor
  · intro known
    obtain ⟨d, labelled⟩ := Option.isSome_iff_exists.mp known
    clear known
    induction d generalizing v with
    | zero =>
      rw [done.eq_root labelled]
    | succ d ih =>
      obtain ⟨u, before, step⟩ := done.pred labelled
      exact (ih u before).tail step
  · intro path
    induction path with
    | refl => simp [done.root_label]
    | tail _ step ih =>
      obtain ⟨d, labelled⟩ := Option.isSome_iff_exists.mp ih
      obtain ⟨d', _, found⟩ := done.step labelled step
      simp [found]

/-- What is marked as reachable is reachable. -/
theorem reachable_iff (next : Fin n → List (Fin n)) (root v : Fin n) :
    (reachable next root).get v = true ↔
      Relation.ReflTransGen (fun u v => v ∈ next u) root v := by
  simp only [reachable, Table.get_tabulate]
  exact (levels_levelled next root).isSome_iff v

end Levels

end Optima.Graph
