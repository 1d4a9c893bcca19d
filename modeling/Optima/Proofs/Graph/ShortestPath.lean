import Mathlib.Data.List.Nodup
import Optima.Graph.ShortestPath
import Optima.Proofs.Graph.Search

/-!
Paths read off a tree of predecessors. Where predecessors go back in time to the source
(`Tree.LeadsBack`), following them ends at the source, and the path repeats no node
(`Tree.LeadsBack.pathTo`); every search over steady labels leaves such a tree
(`treeIn_leadsBack`). In integers the labels are tight along predecessors and no edge could lower
one (`Tree.Exact`).
-/

namespace Optima.Graph.ShortestPath

variable {n : Nat}

/-- The path on which following predecessors from a node leads back to the source, listed from the
source on. -/
inductive Trace (predecessor : Table n (Option (Fin n))) (source : Fin n) :
    Fin n → List (Fin n) → Prop
  | source : predecessor.get source = none → Trace predecessor source source [source]
  | step {u v : Fin n} {path : List (Fin n)} : Trace predecessor source u path →
      predecessor.get v = some u → Trace predecessor source v (path ++ [v])

/-- Predecessors lead back to the source: nodes have times, and every node that was reached has a
predecessor of an earlier time, the source apart. -/
structure Tree.LeadsBack (t : Tree n) (source : Fin n) (time : Fin n → Nat) : Prop where
  source_label : (t.distance.get source).isSome
  source_predecessor : t.predecessor.get source = none
  unlabelled : ∀ {v}, t.distance.get v = none → t.predecessor.get v = none
  earlier : ∀ {v}, v ≠ source → (t.distance.get v).isSome →
    ∃ u, t.predecessor.get v = some u ∧ (t.distance.get u).isSome ∧ time u < time v
  time_lt : ∀ {v}, (t.distance.get v).isSome → time v < n

section LeadsBack

variable {t : Tree n} {source : Fin n} {time : Fin n → Nat}

/-- With enough fuel following predecessors ends, on a path that repeats no node. -/
theorem Tree.LeadsBack.follow (back : t.LeadsBack source time) {fuel : Nat} {v : Fin n}
    (labelled : (t.distance.get v).isSome) (enough : time v < fuel) :
    ∃ path, Trace t.predecessor source v path ∧ path.Nodup ∧ (∀ w ∈ path, time w ≤ time v) ∧
      ∀ rest, follow t.predecessor fuel v rest = .ok (path ++ rest) := by
  induction fuel generalizing v with
  | zero => exact absurd enough (Nat.not_lt_zero _)
  | succ fuel ih =>
    by_cases last : v = source
    · subst last
      refine ⟨[v], .source back.source_predecessor, List.nodup_singleton v, ?_, fun rest => ?_⟩
      · intro w mem
        rw [List.mem_singleton.mp mem]
      · rw [ShortestPath.follow, back.source_predecessor]
        rfl
    · obtain ⟨u, predecessor, labelled', earlier⟩ := back.earlier last labelled
      obtain ⟨path, trace, nodup, before, result⟩ := ih labelled' (by omega)
      refine ⟨path ++ [v], .step trace predecessor, ?_, ?_, fun rest => ?_⟩
      · have fresh : v ∉ path := fun again => absurd (before v again) (not_le.mpr earlier)
        rw [List.nodup_append_comm]
        exact List.nodup_cons.mpr ⟨fresh, nodup⟩
      · intro w mem
        rcases List.mem_append.mp mem with inside | here
        · exact (before w inside).trans earlier.le
        · rw [List.mem_singleton.mp here]
      · rw [ShortestPath.follow, predecessor, List.append_assoc]
        exact result (v :: rest)

/-- The path to a node that was reached. -/
theorem Tree.LeadsBack.pathTo (back : t.LeadsBack source time) {v : Fin n}
    (labelled : (t.distance.get v).isSome) :
    ∃ path, t.pathTo v = .ok (some path) ∧ Trace t.predecessor source v path ∧ path.Nodup := by
  obtain ⟨path, trace, nodup, _, result⟩ := back.follow labelled (back.time_lt labelled)
  obtain ⟨d, label⟩ := Option.isSome_iff_exists.mp labelled
  refine ⟨path, ?_, trace, nodup⟩
  rw [Tree.pathTo, label]
  simp only [result, List.append_nil]
  rfl

/-- Only nodes that were reached have predecessors, and the source has none. -/
theorem Tree.LeadsBack.reached (back : t.LeadsBack source time) {u v : Fin n}
    (predecessor : t.predecessor.get v = some u) : v ≠ source ∧ (t.distance.get v).isSome := by
  constructor
  · rintro rfl
    rw [back.source_predecessor] at predecessor
    cases predecessor
  · by_contra unreached
    rw [back.unlabelled (by simpa using unreached)] at predecessor
    cases predecessor

theorem Tree.LeadsBack.predecessor_eq_none (back : t.LeadsBack source time) {v : Fin n}
    (missed : ¬ (v ≠ source ∧ (t.distance.get v).isSome)) : t.predecessor.get v = none := by
  cases predecessor : t.predecessor.get v with
  | none => rfl
  | some u => exact absurd (back.reached predecessor) missed

end LeadsBack

/-! ### The tree of a search -/

section Search

variable {α : Type}

/-- The steps that leave a node. -/
def stepsOf (adjacency : Adjacency n α) (u : Fin n) : List (Step n Unit α) :=
  (adjacency.get u).map fun (v, length) => ⟨v, (), length⟩

theorem mem_stepsOf {adjacency : Adjacency n α} {u : Fin n} {step : Step n Unit α} :
    step ∈ stepsOf adjacency u ↔ (step.head, step.length) ∈ adjacency.get u := by
  constructor
  · intro mem
    obtain ⟨⟨v, length⟩, inside, rfl⟩ := List.mem_map.mp mem
    exact inside
  · intro inside
    exact List.mem_map.mpr ⟨_, inside, rfl⟩

variable [Quantity α]

/-- The labels of a search as a tree. -/
def treeOf (s : Search.State n Unit α) : Tree n where
  distance := Table.tabulate fun v => (s.distance.get v).map Quantity.toNumber
  predecessor := Table.tabulate fun v => (s.parent.get v).map (·.1)
  settled := s.settled

variable {V : Type} [LinearOrder V] {adjacency : Adjacency n α} {value : α → V}
  {fits : Nat → α → Prop} {source : Fin n} {time : Fin n → Nat} {s : Search.State n Unit α}

/-- A search over steady labels ends, with a tree of its labels. -/
theorem treeIn_grown (steady : Search.Steady (stepsOf adjacency) value fits) (source : Fin n) :
    ∃ s time, (treeIn adjacency source).outcome = .ok (treeOf s) ∧
      Search.Grown (stepsOf adjacency) value fits source time s := by
  obtain ⟨s, time, ok, grown⟩ :=
    steady.run_grown (fun _ _ => refusal) Run.outcome_tick source
  refine ⟨s, time, ?_, grown⟩
  rw [treeIn]
  exact Run.outcome_bind_of_ok ok _

theorem leadsBack_of_grown (grown : Search.Grown (stepsOf adjacency) value fits source time s) :
    (treeOf s).LeadsBack source time := by
  have labelled : ∀ {v}, ((treeOf s).distance.get v).isSome → ∃ d, s.distance.get v = some d := by
    intro v some
    simpa [treeOf, Option.isSome_iff_exists] using some
  refine ⟨?_, ?_, fun {v} unreached => ?_, fun {v} apart some => ?_, fun some => ?_⟩
  · simp [treeOf, grown.source_label]
  · simp [treeOf, grown.source_parent]
  · have unreached : s.distance.get v = none := by simpa [treeOf] using unreached
    simp [treeOf, grown.unlabelled unreached]
  · obtain ⟨d, label⟩ := labelled some
    obtain ⟨u, step, du, parent, _, _, label', _, earlier⟩ := grown.parent apart label
    exact ⟨u, by simp [treeOf, parent], by simp [treeOf, label'], earlier⟩
  · obtain ⟨d, label⟩ := labelled some
    exact grown.time_lt label

end Search

/-! ### Integers -/

section Integers

/-- The labels of a tree in integers: they start from zero at the source, no edge leads to a label
that it could lower, and along predecessors they differ by the length of an edge. -/
structure Tree.Exact (t : Tree n) (adjacency : Adjacency n Number) (source : Fin n)
    (label : Fin n → Option Int) : Prop where
  distance : ∀ v, t.distance.get v = (label v).map .int
  source_label : label source = some 0
  relaxed : ∀ {u v d w}, label u = some d → (v, .int w) ∈ adjacency.get u →
    ∃ new ≤ d + w, label v = some new
  predecessor : ∀ {v d}, v ≠ source → label v = some d → ∃ u du w,
    t.predecessor.get v = some u ∧ label u = some du ∧ (v, .int w) ∈ adjacency.get u ∧ d = du + w

variable {adjacency : Adjacency n Number}

/-- Lengths that are all integers are taken as such. -/
theorem ints?_of_whole (whole : ∀ u, ∀ e ∈ adjacency.get u, ∃ w, e.2 = .int w) :
    ∃ ints, ints? adjacency = some ints ∧
      ∀ {u v w}, (v, w) ∈ ints.get u ↔ (v, .int w) ∈ adjacency.get u := by
  refine ⟨_, if_pos ?_, fun {u v w} => ?_⟩
  · simp only [List.all_eq_true, Table.values, List.mem_map]
    rintro edges ⟨u, _, rfl⟩ e mem
    obtain ⟨w, length⟩ := whole u e mem
    rw [length]
    rfl
  · rw [Table.get_tabulate, List.mem_map]
    constructor
    · rintro ⟨⟨head, length⟩, mem, same⟩
      obtain ⟨i, rfl⟩ := whole u _ mem
      cases same
      exact mem
    · intro mem
      exact ⟨_, mem, rfl⟩

theorem ints?_of_not_whole (mixed : ¬ ∀ u, ∀ e ∈ adjacency.get u, ∃ w, e.2 = .int w) :
    ints? adjacency = none := by
  refine if_neg fun all => mixed fun u e mem => ?_
  simp only [List.all_eq_true, Table.values, List.mem_map] at all
  have int := all _ ⟨u, List.mem_finRange u, rfl⟩ e mem
  cases length : e.2 with
  | int w => exact ⟨w, rfl⟩
  | real x =>
    rw [length] at int
    cases int

/-- What a search in integers found is exact. -/
theorem exact_of_grown {ints : Adjacency n Int}
    (mem_ints : ∀ {u v w}, (v, w) ∈ ints.get u ↔ (v, .int w) ∈ adjacency.get u)
    {fits : Nat → Int → Prop} {source : Fin n} {time : Fin n → Nat} {s : Search.State n Unit Int}
    (grown : Search.Grown (stepsOf ints) id fits source time s) :
    (treeOf s).Exact adjacency source s.distance.get := by
  refine ⟨fun v => Table.get_tabulate _ v, grown.source_label, fun {u v d w} label mem => ?_,
    fun {v d} apart label => ?_⟩
  · obtain ⟨c, sum, new, label', le⟩ :=
      grown.relaxed label ⟨v, (), w⟩ (mem_stepsOf.mpr (mem_ints.mpr mem))
    cases sum
    exact ⟨new, le, label'⟩
  · obtain ⟨u, step, du, parent, mem, rfl, label', sum, _⟩ := grown.parent apart label
    cases sum
    exact ⟨u, du, step.length, by simp [treeOf, parent], label',
      mem_ints.mp (mem_stepsOf.mp mem), rfl⟩

/-- Lengths that are integers and not negative are searched as steps of integers. -/
theorem exists_steps (whole : ∀ u, ∀ e ∈ adjacency.get u, ∃ w : Int, 0 ≤ w ∧ e.2 = .int w) :
    ∃ ints, ints? adjacency = some ints ∧
      (∀ {u v w}, (v, w) ∈ ints.get u ↔ (v, .int w) ∈ adjacency.get u) ∧
      Search.Steady (stepsOf ints) (id : Int → Int) fun _ d => 0 ≤ d := by
  obtain ⟨ints, found, mem_ints⟩ := ints?_of_whole fun u e mem =>
    let ⟨w, _, length⟩ := whole u e mem
    ⟨w, length⟩
  refine ⟨ints, found, mem_ints, Search.steady_int fun u step mem => ?_⟩
  obtain ⟨w, nonneg, length⟩ := whole u _ (mem_ints.mp (mem_stepsOf.mp mem))
  cases length
  exact nonneg

/-- The tree over lengths that are integers and not negative. -/
theorem tree_exact (whole : ∀ u, ∀ e ∈ adjacency.get u, ∃ w : Int, 0 ≤ w ∧ e.2 = .int w)
    (source : Fin n) : ∃ t time label, (tree adjacency source).outcome = .ok t ∧
      t.LeadsBack source time ∧ t.Exact adjacency source label := by
  obtain ⟨ints, found, mem_ints, steady⟩ := exists_steps whole
  obtain ⟨s, time, ok, grown⟩ := treeIn_grown steady source
  refine ⟨treeOf s, time, s.distance.get, ?_, leadsBack_of_grown grown,
    exact_of_grown mem_ints grown⟩
  rw [tree, found]
  exact ok

end Integers

end Optima.Graph.ShortestPath
