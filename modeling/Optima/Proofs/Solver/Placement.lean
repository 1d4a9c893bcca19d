import Mathlib.Data.List.NodupEquivFin
import Optima.Proofs.Graph.Reach
import Optima.Proofs.Graph.ShortestPath
import Optima.Proofs.Problem.WellFormed
import Optima.Solver.Internal

/-!
Problems of shortest paths by the positions of their nodes. In a sound problem every name is the
name of one position, so that nothing is lost when edges are placed (`place_outcome`), and the edges
that leave a position are those of the problem that join its node to another (`mem_adjacency_iff`).
Tables by node have one entry for each position with a value (`mem_byNode`).

The solver searches first and then reports on the tree (`solveShortestPath_eq`). What it reports is
decided by the route to the target, if there is one, and ends as soon as the tree leads back to the
source (`report_ends`). That a target is out of reach can be reported only if its identifier can be
written (`Reportable`), and it is out of reach exactly if no edges lead to it (`search_spans`).
-/

namespace Optima.Solver

open Optima.Graph (ShortestPath.Tree)

/-! ### Names and positions -/

section Names

variable {nodes : List NodeId}

theorem nameOf_injective (distinct : nodes.Nodup) : Function.Injective (nameOf nodes) :=
  List.nodup_iff_injective_get.mp distinct

theorem exists_nameOf {x : NodeId} (declared : x ∈ nodes) : ∃ i, nameOf nodes i = x :=
  List.mem_iff_get.mp declared

/-- A name is found at its position. -/
theorem position_nameOf (distinct : nodes.Nodup) (i : Fin nodes.length) :
    position nodes (nameOf nodes i) = pure i := by
  have found : Nodes.position? nodes (nameOf nodes i) = some i := by
    rw [Nodes.position?, List.finIdxOf?_eq_some_iff]
    refine ⟨rfl, fun j earlier same => ?_⟩
    exact absurd (nameOf_injective distinct same) earlier.ne
  rw [position, found]

/-- Declared names have positions. -/
theorem exists_positions {x : NodeId} (declared : x ∈ nodes) :
    ∃ place : NodeId → Fin nodes.length, ∀ y ∈ nodes, nameOf nodes (place y) = y := by
  obtain ⟨i, _⟩ := exists_nameOf declared
  have each (y : NodeId) : ∃ j, y ∈ nodes → nameOf nodes j = y := by
    by_cases mem : y ∈ nodes
    · obtain ⟨j, name⟩ := exists_nameOf mem
      exact ⟨j, fun _ => name⟩
    · exact ⟨i, fun mem' => absurd mem' mem⟩
  choose place named using each
  exact ⟨place, named⟩

/-- A declared name is found at its position. -/
theorem position_eq (distinct : nodes.Nodup) {place : NodeId → Fin nodes.length}
    (named : ∀ x ∈ nodes, nameOf nodes (place x) = x) {x : NodeId} (declared : x ∈ nodes) :
    position nodes x = pure (place x) := by
  have found := position_nameOf distinct (place x)
  rwa [named x declared] at found

/-- Whatever is made of edges between declared nodes, their ends are found. -/
theorem mapM_position (distinct : nodes.Nodup) {place : NodeId → Fin nodes.length}
    (named : ∀ x ∈ nodes, nameOf nodes (place x) = x) {E α : Type} {tail head : E → NodeId}
    (build : E → Fin nodes.length → Fin nodes.length → α) {edges : List E}
    (ends : ∀ e ∈ edges, tail e ∈ nodes ∧ head e ∈ nodes) :
    (edges.mapM fun e => do
      return build e (← position nodes (tail e)) (← position nodes (head e)) : Run Failure _) =
        pure (edges.map fun e => build e (place (tail e)) (place (head e))) := by
  induction edges with
  | nil => rfl
  | cons e edges ih =>
    obtain ⟨tail, head⟩ := ends e List.mem_cons_self
    rw [List.mapM_cons, ih fun e' mem => ends e' (List.mem_cons_of_mem e mem),
      position_eq distinct named tail, position_eq distinct named head]
    rfl

variable {α β : Type} {t : Table nodes.length (Option α)} {write : α → β}

theorem mem_byNode {x : NodeId} {b : β} :
    (x, b) ∈ byNode nodes t write ↔ ∃ i a, nameOf nodes i = x ∧ t.get i = some a ∧ write a = b := by
  simp only [byNode, List.mem_filterMap, List.mem_finRange, true_and, Option.map_eq_some_iff,
    Prod.mk.injEq]
  constructor
  · rintro ⟨i, a, value, name, written⟩
    exact ⟨i, a, name, value, written⟩
  · rintro ⟨i, a, name, value, written⟩
    exact ⟨i, a, value, name, written⟩

/-- No node has two entries. -/
theorem nodup_byNode (distinct : nodes.Nodup) : ((byNode nodes t write).map Prod.fst).Nodup := by
  have keys : (byNode nodes t write).map Prod.fst =
      ((List.finRange nodes.length).filter fun i => (t.get i).isSome).map (nameOf nodes) := by
    rw [byNode, List.map_filterMap, ← List.filterMap_eq_map, List.filterMap_filter]
    apply List.filterMap_congr
    intro i _
    cases t.get i <;> rfl
  rw [keys]
  exact ((List.nodup_finRange _).filter _).map (nameOf_injective distinct)

end Names

/-! ### Edges -/

/-- An edge of the problem leads from one node to another, in either direction if the graph is not
directed. -/
def Joins (p : Problem.ShortestPath) (u v : NodeId) (w : Number) : Prop :=
  ∃ e ∈ p.edges, e.weight = w ∧
    (e.tail = u ∧ e.head = v ∨ p.directed = false ∧ e.head = u ∧ e.tail = v)

/-- A placed edge as an edge of the problem. -/
def PlacedEdge.named {nodes : List NodeId} (e : PlacedEdge nodes.length) : Problem.WeightedEdge :=
  ⟨nameOf nodes e.tail, nameOf nodes e.head, e.weight⟩

/-- What a problem without a defect guarantees. -/
structure Sound (p : Problem.ShortestPath) : Prop where
  distinct : p.nodes.Nodup
  source : p.source ∈ p.nodes
  target : ∀ {t}, p.target = some t → t ∈ p.nodes
  ends : ∀ e ∈ p.edges, e.tail ∈ p.nodes ∧ e.head ∈ p.nodes
  weights : ∀ e ∈ p.edges, e.weight.flaw? = none

section Edges

variable {p : Problem.ShortestPath}

theorem sound_of_no_defect (accepted : p.defect? = none) : Sound p :=
  have well := Problem.ShortestPath.defect?_eq_none_iff.mp accepted
  ⟨well.nodes, well.source, fun given => well.target _ given, well.ends,
    fun e mem => Number.flaw?_eq_none_iff.mpr (well.weights e mem)⟩

theorem Joins.declared (sound : Sound p) {u v : NodeId} {w : Number} (joins : Joins p u v w) :
    v ∈ p.nodes := by
  obtain ⟨e, mem, _, ⟨_, rfl⟩ | ⟨_, _, rfl⟩⟩ := joins
  · exact (sound.ends e mem).2
  · exact (sound.ends e mem).1

theorem Joins.weight (sound : Sound p) {u v : NodeId} {w : Number} (joins : Joins p u v w) :
    w.flaw? = none := by
  obtain ⟨e, mem, rfl, _⟩ := joins
  exact sound.weights e mem

/-- Edges between declared nodes can be placed. -/
theorem place_outcome {nodes : List NodeId} (distinct : nodes.Nodup)
    {edges : List Problem.WeightedEdge} (ends : ∀ e ∈ edges, e.tail ∈ nodes ∧ e.head ∈ nodes) :
    ∃ placed : List (PlacedEdge nodes.length),
      (edges.mapM fun e => do
        return PlacedEdge.mk (← position nodes e.tail) (← position nodes e.head) e.weight :
          Run Failure _).outcome = .ok placed ∧ placed.map PlacedEdge.named = edges := by
  induction edges with
  | nil => exact ⟨[], rfl, rfl⟩
  | cons e edges ih =>
    obtain ⟨placed, ok, names⟩ := ih fun e' mem => ends e' (List.mem_cons_of_mem e mem)
    obtain ⟨tail, head⟩ := ends e List.mem_cons_self
    obtain ⟨i, tail⟩ := exists_nameOf tail
    obtain ⟨j, head⟩ := exists_nameOf head
    refine ⟨⟨i, j, e.weight⟩ :: placed, ?_, ?_⟩
    · rw [List.mapM_cons, ← tail, ← head, position_nameOf distinct, position_nameOf distinct]
      simp only [pure_bind]
      rw [Run.outcome_bind_of_ok ok]
      rfl
    · rw [List.map_cons, names, PlacedEdge.named, tail, head]

theorem mem_adjacency {n : Nat} {placed : List (PlacedEdge n)} {directed : Bool} {u v : Fin n}
    {w : Number} : (v, w) ∈ (adjacency placed directed).get u ↔ ∃ e ∈ placed, e.weight = w ∧
      (e.tail = u ∧ e.head = v ∨ directed = false ∧ e.head = u ∧ e.tail = v) := by
  rw [adjacency, Table.get_tabulate, List.mem_flatMap]
  refine exists_congr fun e => and_congr_right fun _ => ?_
  simp only [List.mem_append, List.mem_ite_nil_right, List.mem_singleton, Prod.mk.injEq,
    Bool.not_eq_true']
  grind

/-- The edges that leave a position are the edges of the problem that leave its node. -/
theorem mem_adjacency_iff (sound : Sound p) {placed : List (PlacedEdge p.nodes.length)}
    (names : placed.map PlacedEdge.named = p.edges) {u v : Fin p.nodes.length} {w : Number} :
    (v, w) ∈ (adjacency placed p.directed).get u ↔
      Joins p (nameOf p.nodes u) (nameOf p.nodes v) w := by
  have injective := nameOf_injective sound.distinct
  rw [mem_adjacency, Joins, ← names]
  simp only [List.mem_map, exists_exists_and_eq_and, PlacedEdge.named, injective.eq_iff]

end Edges

/-! ### The search for a problem -/

section Searching

/-- The tree of shortest paths of a problem. -/
def search (p : Problem.ShortestPath) : Run Failure (ShortestPath.Tree p.nodes.length) := do
  let edges ← p.edges.mapM fun e => do
    return PlacedEdge.mk (← position p.nodes e.tail) (← position p.nodes e.head) e.weight
  let source ← position p.nodes p.source
  Graph.ShortestPath.tree (adjacency edges p.directed) source

/-- What is reported of a tree. -/
def report (p : Problem.ShortestPath) (tree : ShortestPath.Tree p.nodes.length) :
    Run Failure Finding := do
  let distances := byNode p.nodes tree.distance id
  let predecessors := byNode p.nodes tree.predecessor (nameOf p.nodes)
  let found ← match p.target with
    | some target => some <$> route p tree target
    | none => pure none
  let longest := (Number.greatest? (distances.map (·.2))).getD (.int 0)
  let objective ← Run.arith ((found.map (·.2)).getD longest).toReal
  return ⟨.shortestPath ⟨distances, predecessors, found.map (·.1), found.map (·.2)⟩, objective,
    ⟨"dijkstra", tree.settled⟩, ""⟩

theorem solveShortestPath_eq (p : Problem.ShortestPath) :
    solveShortestPath p = search p >>= report p := by
  simp only [solveShortestPath, search, bind_assoc]
  rfl

/-- The search for a sound problem is a search over its edges from the position of its source. -/
theorem search_outcome {p : Problem.ShortestPath} (sound : Sound p) :
    ∃ (edges : Graph.ShortestPath.Adjacency p.nodes.length Number) (source : Fin p.nodes.length),
      (search p).outcome = (Graph.ShortestPath.tree edges source).outcome ∧
      nameOf p.nodes source = p.source ∧
      ∀ {u v w}, (v, w) ∈ edges.get u ↔ Joins p (nameOf p.nodes u) (nameOf p.nodes v) w := by
  obtain ⟨placed, ok, names⟩ := place_outcome sound.distinct sound.ends
  obtain ⟨source, name⟩ := exists_nameOf sound.source
  refine ⟨adjacency placed p.directed, source, ?_, name, mem_adjacency_iff sound names⟩
  rw [search, Run.outcome_bind_of_ok ok, ← name, position_nameOf sound.distinct, pure_bind]

end Searching

/-! ### What a search reaches -/

section Reaching

variable {p : Problem.ShortestPath}

/-- Edges of a problem lead from its source to a node. -/
def Connected (p : Problem.ShortestPath) (x : NodeId) : Prop :=
  Relation.ReflTransGen (fun u v => ∃ w, Joins p u v w) p.source x

/-- Nodes are reached along edges as their positions are. -/
theorem connected_nameOf_iff (sound : Sound p)
    {edges : Graph.ShortestPath.Adjacency p.nodes.length Number} {source i : Fin p.nodes.length}
    (name : nameOf p.nodes source = p.source)
    (mem_edges : ∀ {u v w}, (v, w) ∈ edges.get u ↔
      Joins p (nameOf p.nodes u) (nameOf p.nodes v) w) :
    Connected p (nameOf p.nodes i) ↔
      Relation.ReflTransGen (fun u v => ∃ w, (v, w) ∈ edges.get u) source i := by
  constructor
  · intro connected
    generalize reached : nameOf p.nodes i = x at connected
    induction connected generalizing i with
    | refl => rw [nameOf_injective sound.distinct (reached.trans name.symm)]
    | @tail u v before joins ih =>
      obtain ⟨w, joins⟩ := joins
      have declared : u ∈ p.nodes := by
        cases before with
        | refl => exact sound.source
        | tail _ last => exact last.choose_spec.declared sound
      obtain ⟨j, rfl⟩ := exists_nameOf declared
      subst reached
      exact (ih rfl).tail ⟨w, mem_edges.mpr joins⟩
  · intro reached
    induction reached with
    | refl => exact name ▸ .refl
    | tail _ edge ih =>
      obtain ⟨w, mem⟩ := edge
      exact ih.tail ⟨w, mem_edges.mp mem⟩

/-- The tree of a search has distances and predecessors for the nodes that are reached. -/
theorem search_spans (sound : Sound p) {t : ShortestPath.Tree p.nodes.length}
    (ok : (search p).outcome = .ok t) (i : Fin p.nodes.length) :
    ((t.distance.get i).isSome ↔ Connected p (nameOf p.nodes i)) ∧
    ((t.predecessor.get i).isSome ↔
      Connected p (nameOf p.nodes i) ∧ nameOf p.nodes i ≠ p.source) := by
  obtain ⟨edges, source, found, name, mem_edges⟩ := search_outcome sound
  have spans := Graph.ShortestPath.tree_spans (fun u e mem =>
    (Number.counts_of_no_flaw ((mem_edges.mp mem).weight sound)).1) (found.symm.trans ok)
  rw [connected_nameOf_iff sound name mem_edges, ← name,
    (nameOf_injective sound.distinct).ne_iff]
  exact ⟨spans.distance i, spans.predecessor i⟩

end Reaching

/-! ### What is reported -/

section Reporting

variable {p : Problem.ShortestPath} {t : ShortestPath.Tree p.nodes.length}

/-- The report that a target was not reached can be written: it names the target and the source. -/
def Reportable (p : Problem.ShortestPath) (x : NodeId) : Prop := x.Writable ∧ p.source.Writable

theorem unreachable_of_reportable {x : NodeId} (reportable : Reportable p x) :
    ∃ message, unreachable x p.source = .infeasible message := by
  obtain ⟨target, shown⟩ := reportable.1.shown
  obtain ⟨source, shown'⟩ := reportable.2.shown
  rw [unreachable, shown, shown']
  exact ⟨_, rfl⟩

theorem unreachable_of_long {x : NodeId} (long : ¬ Reportable p x) :
    unreachable x p.source = .fault .unwritable := by
  by_cases writable : x.Writable
  · obtain ⟨target, shown⟩ := writable.shown
    have source := NodeId.shown_of_not_writable fun writable' => long ⟨writable, writable'⟩
    rw [unreachable, shown, source]
    rfl
  · rw [unreachable, NodeId.shown_of_not_writable writable]
    rfl

theorem route_of_label (distinct : p.nodes.Nodup) {i : Fin p.nodes.length} {d : Number}
    {path : List (Fin p.nodes.length)} (label : t.distance.get i = some d)
    (result : t.pathTo i = .ok (some path)) :
    (route p t (nameOf p.nodes i)).outcome = .ok (path.map (nameOf p.nodes), d) := by
  rw [route, position_nameOf distinct, pure_bind, result, label]
  rfl

theorem route_of_unlabelled (distinct : p.nodes.Nodup) {i : Fin p.nodes.length}
    (unlabelled : t.distance.get i = none) :
    (route p t (nameOf p.nodes i)).outcome = .error (unreachable (nameOf p.nodes i) p.source) := by
  have result : t.pathTo i = .ok none := by rw [Graph.ShortestPath.Tree.pathTo, unlabelled]
  rw [route, position_nameOf distinct, pure_bind, result, unlabelled]
  rfl

/-- What is reported once the route is known. -/
def finding (p : Problem.ShortestPath) (t : ShortestPath.Tree p.nodes.length)
    (found : Option (List NodeId × Number)) (objective : Binary64) : Finding where
  result := .shortestPath ⟨byNode p.nodes t.distance id,
    byNode p.nodes t.predecessor (nameOf p.nodes), found.map (·.1), found.map (·.2)⟩
  objective := objective
  stats := ⟨"dijkstra", t.settled⟩
  message := ""

theorem report_with_target {x : NodeId} {found : List NodeId × Number} (target : p.target = some x)
    (ok : (route p t x).outcome = .ok found) :
    (report p t).outcome = (Failure.arith found.2.toReal).map (finding p t (some found)) := by
  have ok : (some <$> route p t x).outcome = .ok (some found) := by
    rw [map_eq_pure_bind, Run.outcome_bind_of_ok ok]
    rfl
  rw [report]
  simp only [target]
  rw [Run.outcome_bind_of_ok ok]
  exact Run.outcome_arith_map _ _

theorem report_missed {x : NodeId} {failure : Failure} (target : p.target = some x)
    (failed : (route p t x).outcome = .error failure) :
    (report p t).outcome = .error failure := by
  have failed : (some <$> route p t x).outcome = .error failure := by
    rw [map_eq_pure_bind, Run.outcome_bind_of_error failed]
  rw [report]
  simp only [target]
  exact Run.outcome_bind_of_error failed _

theorem report_without_target (target : p.target = none) : (report p t).outcome =
    (Failure.arith ((Number.greatest? ((byNode p.nodes t.distance id).map (·.2))).getD
      (.int 0)).toReal).map (finding p t none) := by
  rw [report]
  simp only [target, pure_bind]
  exact Run.outcome_arith_map _ _

/-- Reporting a tree that leads back to the source ends. -/
theorem report_ends (sound : Sound p) {source : Fin p.nodes.length}
    {time : Fin p.nodes.length → Nat} (back : t.LeadsBack source time) :
    (report p t).outcome ≠ .error .endless := by
  have concluded : ∀ (x : Except Fault Binary64) (f : Binary64 → Finding),
      (Failure.arith x).map f ≠ .error .endless := by
    rintro (_ | _) f ⟨⟩
  rcases target : p.target with _ | x
  · rw [report_without_target target]
    exact concluded _ _
  · obtain ⟨i, rfl⟩ := exists_nameOf (sound.target target)
    rcases label : t.distance.get i with _ | d
    · rw [report_missed target (route_of_unlabelled sound.distinct label)]
      by_cases reportable : Reportable p (nameOf p.nodes i)
      · obtain ⟨message, reason⟩ := unreachable_of_reportable reportable
        rw [reason]
        rintro ⟨⟩
      · rw [unreachable_of_long reportable]
        rintro ⟨⟩
    · obtain ⟨path, result, _⟩ := back.pathTo (Option.isSome_iff_exists.mpr ⟨d, label⟩)
      rw [report_with_target target (route_of_label sound.distinct label result)]
      exact concluded _ _

end Reporting

end Optima.Solver
