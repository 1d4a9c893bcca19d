import Mathlib.Logic.Relation
import Mathlib.Order.Bounds.Defs
import Optima.Proofs.Number.Order
import Optima.Proofs.Solver.Placement

/-!
Shortest paths in integers (`solveShortestPath_exact`). For a sound problem whose lengths are all
integers what is found agrees with the walks from the source (`Walk`): a node has a distance exactly
if a walk reaches it, distances are the least total weights of walks, predecessors lead back to the
source along edges that are tight for the distances, and the path to a target is a shortest walk
that repeats no node (`Exact`). A target that no walk reaches is reported as missed.

There are two other ways to end. The report names the target and the source, and names of too many
digits cannot be written (`not_infeasible_of_longName`). Distances may grow beyond the doubles, where
the objective cannot be given as one.
-/

namespace Optima.Solver

open Optima.Graph (ShortestPath.Adjacency ShortestPath.Tree ShortestPath.Trace)

/-! ### Walks -/

section Walks

variable (p : Problem.ShortestPath)

/-- Walks from the source along edges whose lengths are integers: where they end, the nodes they
pass, and their total weight. -/
inductive Walk : NodeId → List NodeId → Int → Prop
  | source : Walk p.source [p.source] 0
  | step {u v : NodeId} {path : List NodeId} {d w : Int} : Walk u path d → Joins p u v (.int w) →
      Walk v (path ++ [v]) (d + w)

def Reaches (x : NodeId) : Prop := ∃ path d, Walk p x path d

/-- The least total weight of the walks to a node. -/
structure IsDistance (x : NodeId) (d : Int) : Prop where
  attained : ∃ path, Walk p x path d
  least : ∀ path d', Walk p x path d' → d ≤ d'

/-- The distance of the target, or without one the greatest distance. -/
def IsObjective (d : Int) : Prop :=
  match p.target with
  | some x => IsDistance p x d
  | none => IsGreatest {d | ∃ x, IsDistance p x d} d

/-- A result that agrees with the walks. -/
structure Exact (result : Result.ShortestPath) (objective : Binary64) : Prop where
  distances_nodup : (result.distances.map Prod.fst).Nodup
  reached : ∀ x, (∃ d, (x, d) ∈ result.distances) ↔ Reaches p x
  distance : ∀ x d, (x, d) ∈ result.distances ↔ ∃ i, d = .int i ∧ IsDistance p x i
  predecessors_nodup : (result.predecessors.map Prod.fst).Nodup
  preceded : ∀ x, (∃ u, (x, u) ∈ result.predecessors) ↔ Reaches p x ∧ x ≠ p.source
  tight : ∀ x u, (x, u) ∈ result.predecessors → ∃ d w, IsDistance p u d ∧
    Joins p u x (.int w) ∧ IsDistance p x (d + w)
  leads_back : ∀ x, Reaches p x →
    Relation.ReflTransGen (fun x u => (x, u) ∈ result.predecessors) x p.source
  objective : ∃ d, IsObjective p d ∧ (Number.int d).toReal = .ok objective
  path : ∀ x, p.target = some x → ∃ path d, result.path = some path ∧
    result.targetDistance = some (.int d) ∧ path.Nodup ∧ Walk p x path d ∧ IsDistance p x d
  no_path : p.target = none → result.path = none ∧ result.targetDistance = none

end Walks

/-! ### The greatest of integers -/

theorem foldl_greatest {xs : List Number} (whole : ∀ x ∈ xs, ∃ i, x = .int i) (first : Int) :
    ∃ m, xs.foldl (fun best y => if best.less y then y else best) (.int first) = .int m ∧
      .int m ∈ Number.int first :: xs ∧ ∀ i, .int i ∈ Number.int first :: xs → i ≤ m := by
  induction xs generalizing first with
  | nil =>
    refine ⟨first, rfl, List.mem_singleton_self _, fun i mem => ?_⟩
    cases List.mem_singleton.mp mem
    exact le_rfl
  | cons x xs ih =>
    obtain ⟨j, rfl⟩ := whole x List.mem_cons_self
    obtain ⟨m, result, mem, most⟩ :=
      ih (fun y mem => whole y (List.mem_cons_of_mem _ mem)) (max first j)
    have greater : (if (Number.int first).less (.int j) then Number.int j else .int first) =
        .int (max first j) := by
      by_cases less : first < j
      · rw [max_eq_right less.le]
        exact if_pos (decide_eq_true less)
      · rw [max_eq_left (not_lt.mp less)]
        exact if_neg (by simpa [Number.less] using less)
    have upper := most (max first j) List.mem_cons_self
    refine ⟨m, ?_, ?_, fun i mem => ?_⟩
    · rw [List.foldl_cons, greater, result]
    · rcases List.mem_cons.mp mem with same | mem
      · rw [same]
        rcases max_choice first j with same | same <;> simp [same]
      · exact List.mem_cons_of_mem _ (List.mem_cons_of_mem _ mem)
    · rcases List.mem_cons.mp mem with same | mem
      · cases same
        exact (le_max_left _ _).trans upper
      · rcases List.mem_cons.mp mem with same | mem
        · cases same
          exact (le_max_right _ _).trans upper
        · exact most i (List.mem_cons_of_mem _ mem)

/-- The greatest of integers is one of them. -/
theorem greatest?_of_whole {xs : List Number} (whole : ∀ x ∈ xs, ∃ i, x = .int i) {first : Int}
    (mem : .int first ∈ xs) : ∃ m, Number.greatest? xs = some (.int m) ∧ .int m ∈ xs ∧
      ∀ i, .int i ∈ xs → i ≤ m := by
  cases xs with
  | nil => cases mem
  | cons x xs =>
    obtain ⟨j, rfl⟩ := whole x List.mem_cons_self
    obtain ⟨m, result, others⟩ :=
      foldl_greatest (fun y mem => whole y (List.mem_cons_of_mem _ mem)) j
    exact ⟨m, congrArg some result, others⟩

/-! ### Walks and labels -/

/-- What the search for a problem in integers finds: an exact tree over the placed edges. -/
structure Searched (p : Problem.ShortestPath)
    (edges : ShortestPath.Adjacency p.nodes.length Number) (source : Fin p.nodes.length)
    (t : ShortestPath.Tree p.nodes.length) (time : Fin p.nodes.length → Nat)
    (label : Fin p.nodes.length → Option Int) : Prop where
  sound : Sound p
  name : nameOf p.nodes source = p.source
  joins : ∀ {i j w}, (j, w) ∈ edges.get i ↔ Joins p (nameOf p.nodes i) (nameOf p.nodes j) w
  back : t.LeadsBack source time
  labels : t.Exact edges source label

theorem search_searched {p : Problem.ShortestPath} (sound : Sound p)
    (whole : ∀ e ∈ p.edges, ∃ w, e.weight = .int w) : ∃ edges source t time label,
      (search p).outcome = .ok t ∧ Searched p edges source t time label := by
  obtain ⟨edges, source, found, name, mem_edges⟩ := search_outcome sound
  have lengths : ∀ u, ∀ e ∈ edges.get u, ∃ w : Int, 0 ≤ w ∧ e.2 = .int w := by
    intro u e mem
    have joins := mem_edges.mp mem
    have fine := joins.weight sound
    obtain ⟨e', mem', same, _⟩ := joins
    obtain ⟨w, length⟩ := whole e' mem'
    rw [← same, length] at fine
    exact ⟨w, (Number.counts_of_no_flaw fine).1, same.symm.trans length⟩
  obtain ⟨t, time, label, ok, back, labels⟩ := Graph.ShortestPath.tree_exact lengths source
  exact ⟨edges, source, t, time, label, found.trans ok, sound, name, mem_edges, back, labels⟩

section Searched

variable {p : Problem.ShortestPath} {edges : ShortestPath.Adjacency p.nodes.length Number}
  {source : Fin p.nodes.length} {t : ShortestPath.Tree p.nodes.length}
  {time : Fin p.nodes.length → Nat} {label : Fin p.nodes.length → Option Int}
  (searched : Searched p edges source t time label)

include searched

theorem Searched.isSome_distance {i : Fin p.nodes.length} :
    (t.distance.get i).isSome ↔ ∃ d, label i = some d := by
  rw [searched.labels.distance, Option.isSome_map, Option.isSome_iff_exists]

/-- No walk is shorter than the label of the node at which it ends. -/
theorem Searched.le_walk {x : NodeId} {path : List NodeId} {d : Int} (walk : Walk p x path d) :
    ∃ i, nameOf p.nodes i = x ∧ ∃ d' ≤ d, label i = some d' := by
  induction walk with
  | source => exact ⟨source, searched.name, 0, le_rfl, searched.labels.source_label⟩
  | step _ joins ih =>
    obtain ⟨i, rfl, d', le, known⟩ := ih
    obtain ⟨j, rfl⟩ := exists_nameOf (joins.declared searched.sound)
    obtain ⟨new, le', known'⟩ := searched.labels.relaxed known (searched.joins.mpr joins)
    exact ⟨j, rfl, new, by omega, known'⟩

/-- Labels differ along predecessors by the length of an edge. -/
theorem Searched.tight {j i : Fin p.nodes.length} (parent : t.predecessor.get j = some i) :
    j ≠ source ∧ ∃ di w, label i = some di ∧
      Joins p (nameOf p.nodes i) (nameOf p.nodes j) (.int w) ∧ label j = some (di + w) := by
  obtain ⟨apart, reached⟩ := searched.back.reached parent
  obtain ⟨d, known⟩ := searched.isSome_distance.mp reached
  obtain ⟨i', di, w, parent', known', mem, rfl⟩ := searched.labels.predecessor apart known
  obtain rfl := Option.some.inj (parent'.symm.trans parent)
  exact ⟨apart, di, w, known', searched.joins.mp mem, known⟩

/-- Following predecessors back to the source gives a walk whose weight is the label. -/
theorem Searched.walk_of_trace {j : Fin p.nodes.length} {path : List (Fin p.nodes.length)}
    (trace : ShortestPath.Trace t.predecessor source j path) :
    ∃ d, label j = some d ∧ Walk p (nameOf p.nodes j) (path.map (nameOf p.nodes)) d := by
  induction trace with
  | source =>
    refine ⟨0, searched.labels.source_label, ?_⟩
    rw [List.map_singleton, searched.name]
    exact .source
  | @step i j path trace parent ih =>
    obtain ⟨d, known, walk⟩ := ih
    obtain ⟨_, di, w, known', joins, label⟩ := searched.tight parent
    obtain rfl := Option.some.inj (known.symm.trans known')
    refine ⟨_, label, ?_⟩
    rw [List.map_append, List.map_singleton]
    exact walk.step joins

/-- The path to a labelled node, by names. -/
theorem Searched.pathTo {i : Fin p.nodes.length} {d : Int} (known : label i = some d) :
    ∃ path, t.pathTo i = .ok (some path) ∧ (path.map (nameOf p.nodes)).Nodup ∧
      Walk p (nameOf p.nodes i) (path.map (nameOf p.nodes)) d := by
  obtain ⟨path, result, trace, nodup⟩ :=
    searched.back.pathTo (searched.isSome_distance.mpr ⟨d, known⟩)
  obtain ⟨d', known', walk⟩ := searched.walk_of_trace trace
  obtain rfl := Option.some.inj (known.symm.trans known')
  exact ⟨path, result, nodup.map (nameOf_injective searched.sound.distinct), walk⟩

/-- Labels are distances. -/
theorem Searched.isDistance_iff {x : NodeId} {d : Int} :
    IsDistance p x d ↔ ∃ i, nameOf p.nodes i = x ∧ label i = some d := by
  constructor
  · rintro ⟨⟨path, walk⟩, least⟩
    obtain ⟨i, rfl, d', le, known⟩ := searched.le_walk walk
    obtain ⟨path', _, _, walk'⟩ := searched.pathTo known
    have same := le_antisymm le (least _ _ walk')
    exact ⟨i, rfl, same ▸ known⟩
  · rintro ⟨i, rfl, known⟩
    obtain ⟨path, _, _, walk⟩ := searched.pathTo known
    refine ⟨⟨_, walk⟩, fun path' d' walk' => ?_⟩
    obtain ⟨i', same, d'', le, known'⟩ := searched.le_walk walk'
    obtain rfl := nameOf_injective searched.sound.distinct same
    obtain rfl := Option.some.inj (known'.symm.trans known)
    exact le

theorem Searched.reaches_iff {x : NodeId} :
    Reaches p x ↔ ∃ i d, nameOf p.nodes i = x ∧ label i = some d := by
  constructor
  · rintro ⟨path, d, walk⟩
    obtain ⟨i, name, d', _, known⟩ := searched.le_walk walk
    exact ⟨i, d', name, known⟩
  · rintro ⟨i, d, rfl, known⟩
    obtain ⟨path, _, _, walk⟩ := searched.pathTo known
    exact ⟨_, d, walk⟩

/-! ### What is reported -/

theorem Searched.mem_distances {x : NodeId} {d : Number} :
    (x, d) ∈ byNode p.nodes t.distance id ↔ ∃ i, d = .int i ∧ IsDistance p x i := by
  simp only [mem_byNode, searched.labels.distance, searched.isDistance_iff,
    Option.map_eq_some_iff, id]
  grind

theorem Searched.leads_back {j : Fin p.nodes.length} {path : List (Fin p.nodes.length)}
    (trace : ShortestPath.Trace t.predecessor source j path) : Relation.ReflTransGen
      (fun x u => (x, u) ∈ byNode p.nodes t.predecessor (nameOf p.nodes)) (nameOf p.nodes j)
      p.source := by
  induction trace with
  | source => rw [searched.name]
  | @step i j _ _ parent ih =>
    exact .head (mem_byNode.mpr ⟨j, i, rfl, parent, rfl⟩) ih

/-- The tables of distances and predecessors agree with the walks. -/
theorem Searched.exact {path : Option (List NodeId)} {targetDistance : Option Number} {d : Int}
    {objective : Binary64} (answers : IsObjective p d)
    (value : (Number.int d).toReal = .ok objective)
    (found : ∀ x, p.target = some x → ∃ nodes d, path = some nodes ∧
      targetDistance = some (.int d) ∧ nodes.Nodup ∧ Walk p x nodes d ∧ IsDistance p x d)
    (nothing : p.target = none → path = none ∧ targetDistance = none) :
    Exact p ⟨byNode p.nodes t.distance id, byNode p.nodes t.predecessor (nameOf p.nodes), path,
      targetDistance⟩ objective where
  distances_nodup := nodup_byNode searched.sound.distinct
  reached x := by
    rw [searched.reaches_iff]
    constructor
    · rintro ⟨d, mem⟩
      obtain ⟨i, _, distance⟩ := searched.mem_distances.mp mem
      obtain ⟨j, name, known⟩ := searched.isDistance_iff.mp distance
      exact ⟨j, i, name, known⟩
    · rintro ⟨j, i, name, known⟩
      have distance := searched.isDistance_iff.mpr ⟨j, name, known⟩
      exact ⟨.int i, searched.mem_distances.mpr ⟨i, rfl, distance⟩⟩
  distance x d := searched.mem_distances
  predecessors_nodup := nodup_byNode searched.sound.distinct
  preceded x := by
    rw [searched.reaches_iff, ← searched.name]
    constructor
    · rintro ⟨u, mem⟩
      obtain ⟨j, i, rfl, parent, _⟩ := mem_byNode.mp mem
      obtain ⟨apart, di, w, _, _, known⟩ := searched.tight parent
      exact ⟨⟨j, _, rfl, known⟩, (nameOf_injective searched.sound.distinct).ne apart⟩
    · rintro ⟨⟨j, d, rfl, known⟩, apart⟩
      have apart : j ≠ source := fun same => apart (congrArg _ same)
      obtain ⟨i, _, _, parent, _⟩ := searched.labels.predecessor apart known
      exact ⟨_, mem_byNode.mpr ⟨j, i, rfl, parent, rfl⟩⟩
  tight x u mem := by
    obtain ⟨j, i, rfl, parent, rfl⟩ := mem_byNode.mp mem
    obtain ⟨_, di, w, known, joins, known'⟩ := searched.tight parent
    exact ⟨di, w, searched.isDistance_iff.mpr ⟨i, rfl, known⟩, joins,
      searched.isDistance_iff.mpr ⟨j, rfl, known'⟩⟩
  leads_back x reaches := by
    obtain ⟨j, d, rfl, known⟩ := searched.reaches_iff.mp reaches
    obtain ⟨_, _, trace, _⟩ := searched.back.pathTo (searched.isSome_distance.mpr ⟨d, known⟩)
    exact searched.leads_back trace
  objective := ⟨d, answers, value⟩
  path := found
  no_path := nothing

/-- To a node that walks reach there is a route, which is a shortest walk. -/
theorem Searched.route_reached {x : NodeId} (reaches : Reaches p x) : ∃ path d,
    (route p t x).outcome = .ok (path, .int d) ∧ path.Nodup ∧ Walk p x path d ∧
      IsDistance p x d := by
  obtain ⟨i, d, rfl, known⟩ := searched.reaches_iff.mp reaches
  obtain ⟨path, result, nodup, walk⟩ := searched.pathTo known
  have label : t.distance.get i = some (.int d) := by rw [searched.labels.distance, known]; rfl
  exact ⟨_, d, route_of_label searched.sound.distinct label result, nodup, walk,
    searched.isDistance_iff.mpr ⟨i, rfl, known⟩⟩

theorem Searched.route_missed {x : NodeId} (declared : x ∈ p.nodes) (missed : ¬ Reaches p x) :
    (route p t x).outcome = .error (unreachable x p.source) := by
  obtain ⟨i, rfl⟩ := exists_nameOf declared
  apply route_of_unlabelled searched.sound.distinct
  by_contra reached
  obtain ⟨d, known⟩ := searched.isSome_distance.mp (Option.isSome_iff_ne_none.mpr reached)
  exact missed (searched.reaches_iff.mpr ⟨i, d, rfl, known⟩)

/-- The greatest entry of the table of distances is the greatest distance. -/
theorem Searched.longest : ∃ d,
    Number.greatest? ((byNode p.nodes t.distance id).map (·.2)) = some (.int d) ∧
      IsGreatest {d | ∃ x, IsDistance p x d} d := by
  have listed : ∀ {d : Int}, .int d ∈ (byNode p.nodes t.distance id).map (·.2) ↔
      ∃ x, IsDistance p x d := by
    intro d
    constructor
    · intro mem
      obtain ⟨⟨x, _⟩, entry, rfl⟩ := List.mem_map.mp mem
      obtain ⟨i, same, distance⟩ := searched.mem_distances.mp entry
      cases same
      exact ⟨x, distance⟩
    · rintro ⟨x, distance⟩
      exact List.mem_map.mpr ⟨_, searched.mem_distances.mpr ⟨d, rfl, distance⟩, rfl⟩
  have whole : ∀ x ∈ (byNode p.nodes t.distance id).map (·.2), ∃ i, x = .int i := by
    intro d mem
    obtain ⟨⟨x, _⟩, entry, rfl⟩ := List.mem_map.mp mem
    obtain ⟨i, same, _⟩ := searched.mem_distances.mp entry
    exact ⟨i, same⟩
  have start := searched.isDistance_iff.mpr ⟨source, rfl, searched.labels.source_label⟩
  obtain ⟨m, greatest, mem, others⟩ := greatest?_of_whole whole (listed.mpr ⟨_, start⟩)
  exact ⟨m, greatest, listed.mp mem, fun i distance => others i (listed.mpr distance)⟩

end Searched

/-! ### The solver -/

section Solver

variable {p : Problem.ShortestPath}

/-- An integer that is no double is too large for one. -/
theorem toReal_cases (d : Int) :
    (∃ x, (Number.int d).toReal = .ok x) ∨ (Number.int d).toReal = .error .tooLarge := by
  rw [Number.toReal]
  split
  · exact .inl ⟨_, rfl⟩
  · exact .inr rfl

/-- Either no walk reaches the target, and this is what is reported, or there is an objective, and if
it is a double it comes with an exact result. -/
theorem solveShortestPath_cases (sound : Sound p)
    (whole : ∀ e ∈ p.edges, ∃ w, e.weight = .int w) :
    (∃ x, p.target = some x ∧ ¬ Reaches p x ∧
      (solveShortestPath p).outcome = .error (unreachable x p.source)) ∨
    (∀ x, p.target = some x → Reaches p x) ∧ ∃ d, IsObjective p d ∧
      ((Number.int d).toReal = .error .tooLarge ∧
          (solveShortestPath p).outcome = .error (.fault .tooLarge) ∨
        ∃ finding result, (solveShortestPath p).outcome = .ok finding ∧
          finding.result = .shortestPath result ∧ Exact p result finding.objective) := by
  obtain ⟨edges, source, t, time, label, ok, searched⟩ := search_searched sound whole
  rw [solveShortestPath_eq, Run.outcome_bind_of_ok ok]
  rcases target : p.target with _ | x
  · obtain ⟨d, greatest, objective⟩ := searched.longest
    have answers : IsObjective p d := by rwa [IsObjective, target]
    refine .inr ⟨nofun, d, answers, ?_⟩
    have reported := report_without_target (t := t) target
    rw [greatest, Option.getD_some] at reported
    rcases toReal_cases d with ⟨value, double⟩ | large
    · rw [double] at reported
      have exact_result : Exact p ⟨_, _, none, none⟩ value :=
        searched.exact answers double (by simp [target]) fun _ => ⟨rfl, rfl⟩
      exact .inr ⟨finding p t none value, _, reported, rfl, exact_result⟩
    · rw [large] at reported
      exact .inl ⟨large, reported⟩
  · by_cases reaches : Reaches p x
    · obtain ⟨path, d, found, nodup, walk, distance⟩ := searched.route_reached reaches
      have answers : IsObjective p d := by rwa [IsObjective, target]
      refine .inr ⟨fun _ given => Option.some.inj given ▸ reaches, d, answers, ?_⟩
      have reported := report_with_target target found
      rcases toReal_cases d with ⟨value, double⟩ | large
      · rw [double] at reported
        have given : ∀ y, p.target = some y → y = x :=
          fun y given => Option.some.inj (given.symm.trans target)
        have exact_result : Exact p ⟨_, _, some path, some (.int d)⟩ value :=
          searched.exact answers double (fun y known => ⟨path, d, rfl, rfl, nodup,
            given y known ▸ walk, given y known ▸ distance⟩) (by simp [target])
        exact .inr ⟨finding p t (some (path, .int d)) value, _, reported, rfl, exact_result⟩
      · rw [large] at reported
        exact .inl ⟨large, reported⟩
    · have missed := searched.route_missed (sound.target target) reaches
      exact .inl ⟨x, rfl, reaches, report_missed target missed⟩

/-- Where walks reach the target, none is missed. -/
theorem not_missed (reaches : ∀ x, p.target = some x → Reaches p x) {such : NodeId → Prop} :
    ¬ ∃ x, p.target = some x ∧ ¬ Reaches p x ∧ such x := by
  rintro ⟨x, target, missed, -⟩
  exact missed (reaches x target)

/-- With lengths that are integers, a sound problem is infeasible exactly if no walk reaches its
target and this can be written; if it cannot, the solver ends with the fault of writing it. What is
found agrees with the walks, and all that can keep it from being found is an objective that is too
large for a double. -/
theorem solveShortestPath_exact (accepted : p.defect? = none)
    (whole : ∀ e ∈ p.edges, ∃ w, e.weight = .int w) :
    ((∃ message, (solveShortestPath p).outcome = .error (.infeasible message)) ↔
      ∃ x, p.target = some x ∧ ¬ Reaches p x ∧ Reportable p x) ∧
    ((solveShortestPath p).outcome = .error (.fault .unwritable) ↔
      ∃ x, p.target = some x ∧ ¬ Reaches p x ∧ ¬ Reportable p x) ∧
    (∀ finding, (solveShortestPath p).outcome = .ok finding →
      ∃ result, finding.result = .shortestPath result ∧ Exact p result finding.objective) ∧
    ∀ failure, (solveShortestPath p).outcome = .error failure →
      (∃ message, failure = .infeasible message) ∨ failure = .fault .unwritable ∨
      failure = .fault .tooLarge ∧ ∃ d, IsObjective p d ∧
        (Number.int d).toReal = .error .tooLarge := by
  rcases solveShortestPath_cases (sound_of_no_defect accepted) whole with
    ⟨x, target, missed, outcome⟩ |
    ⟨reaches, d, objective, ⟨large, outcome⟩ | ⟨found, result, outcome, same, exact_result⟩⟩
  · have only : ∀ y, p.target = some y → y = x :=
      fun y given => Option.some.inj (given.symm.trans target)
    by_cases reportable : Reportable p x
    · obtain ⟨message, reason⟩ := unreachable_of_reportable reportable
      rw [outcome, reason]
      refine ⟨iff_of_true ⟨message, rfl⟩ ⟨x, target, missed, reportable⟩, iff_of_false ?_ ?_, ?_, ?_⟩
      · rintro ⟨⟩
      · rintro ⟨y, given, -, long⟩
        exact long (only y given ▸ reportable)
      · rintro _ ⟨⟩
      · rintro _ ⟨⟩
        exact .inl ⟨message, rfl⟩
    · rw [outcome, unreachable_of_long reportable]
      refine ⟨iff_of_false ?_ ?_, iff_of_true rfl ⟨x, target, missed, reportable⟩, ?_, ?_⟩
      · rintro ⟨_, ⟨⟩⟩
      · rintro ⟨y, given, -, short⟩
        exact reportable (only y given ▸ short)
      · rintro _ ⟨⟩
      · rintro _ ⟨⟩
        exact .inr (.inl rfl)
  · rw [outcome]
    refine ⟨iff_of_false ?_ (not_missed reaches), iff_of_false ?_ (not_missed reaches), ?_, ?_⟩
    · rintro ⟨_, ⟨⟩⟩
    · rintro ⟨⟩
    · rintro _ ⟨⟩
    · rintro _ ⟨⟩
      exact .inr (.inr ⟨rfl, d, objective, large⟩)
  · rw [outcome]
    refine ⟨iff_of_false ?_ (not_missed reaches), iff_of_false ?_ (not_missed reaches), ?_, ?_⟩
    · rintro ⟨_, ⟨⟩⟩
    · rintro ⟨⟩
    · rintro _ ⟨⟩
      exact ⟨result, same, exact_result⟩
    · rintro _ ⟨⟩

/-- The nodes of the path that is reported, if one is. -/
def pathOf (outcome : Except Failure Finding) : Option (List NodeId) :=
  match outcome with
  | .ok finding => match finding.result with
    | .shortestPath result => result.path
    | _ => none
  | .error _ => none

/-- A number and a text that is written like it, two edges side by side, a loop, an edge of length
zero, and a node that nothing reaches. -/
def undirectedNames : Problem.ShortestPath where
  nodes := [.int 1, .text "1", .text "b", .int 7]
  edges := [⟨.int 1, .text "1", .int 4⟩, ⟨.text "1", .int 1, .int 3⟩,
    ⟨.text "b", .text "b", .int 2⟩, ⟨.text "b", .text "1", .int 0⟩]
  source := .int 1
  target := some (.text "b")
  directed := false

theorem solveShortestPath_exact_undirectedNames :
    undirectedNames.defect? = none ∧ (∀ e ∈ undirectedNames.edges, ∃ w, e.weight = .int w) ∧
      ∃ finding result, (solveShortestPath undirectedNames).outcome = .ok finding ∧
        finding.result = .shortestPath result ∧
        result.path = some [.int 1, .text "1", .text "b"] ∧
        Exact undirectedNames result finding.objective := by
  have accepted : undirectedNames.defect? = none := by decide +kernel
  have whole : ∀ e ∈ undirectedNames.edges, ∃ w, e.weight = .int w := by
    simp [undirectedNames]
  have path : pathOf (solveShortestPath undirectedNames).outcome =
      some [.int 1, .text "1", .text "b"] := by
    decide +kernel
  refine ⟨accepted, whole, ?_⟩
  cases outcome : (solveShortestPath undirectedNames).outcome with
  | error failure =>
    rw [outcome] at path
    cases path
  | ok finding =>
    obtain ⟨result, same, exact_result⟩ :=
      (solveShortestPath_exact accepted whole).2.2.1 finding outcome
    rw [outcome, pathOf, same] at path
    exact ⟨finding, result, rfl, same, path, exact_result⟩

/-- Two nodes and no edge; the name of the target has one digit too many. -/
def longName : Problem.ShortestPath where
  nodes := [.int 0, .int writtenBound]
  edges := []
  source := .int 0
  target := some (.int writtenBound)
  directed := true

theorem not_reaches_longName : ¬ Reaches longName (.int writtenBound) := by
  rintro ⟨_, _, walk⟩
  have apart : longName.source ≠ .int writtenBound := by decide +kernel
  generalize NodeId.int writtenBound = x at walk apart
  cases walk with
  | source => exact apart rfl
  | step _ joins =>
    obtain ⟨e, declared, _⟩ := joins
    cases declared

/-- No walk reaches the target, but this is not what the solver ends with. -/
theorem not_infeasible_of_longName :
    longName.defect? = none ∧ (∀ e ∈ longName.edges, ∃ w, e.weight = .int w) ∧
      (∃ x, longName.target = some x ∧ ¬ Reaches longName x) ∧
      (solveShortestPath longName).outcome = .error (.fault .unwritable) ∧
      ¬ ∃ message, (solveShortestPath longName).outcome = .error (.infeasible message) := by
  have accepted : longName.defect? = none := by decide +kernel
  have whole : ∀ e ∈ longName.edges, ∃ w, e.weight = .int w := nofun
  have long : ¬ Reportable longName (.int writtenBound) := by
    rintro ⟨writable, -⟩
    rw [NodeId.Writable, Int.natAbs_natCast] at writable
    exact lt_irrefl _ writable
  have ended : (solveShortestPath longName).outcome = .error (.fault .unwritable) := by
    rcases solveShortestPath_cases (sound_of_no_defect accepted) whole with
      ⟨x, target, -, outcome⟩ | ⟨reaches, -⟩
    · obtain rfl : .int writtenBound = x := Option.some.inj target
      rw [outcome, unreachable_of_long long]
    · exact absurd (reaches _ rfl) not_reaches_longName
  refine ⟨accepted, whole, ⟨_, rfl, not_reaches_longName⟩, ended, ?_⟩
  rintro ⟨message, infeasible⟩
  rw [ended] at infeasible
  cases infeasible

end Solver

end Optima.Solver
