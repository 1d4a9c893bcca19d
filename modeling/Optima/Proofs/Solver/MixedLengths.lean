import Optima.Proofs.Number.Order
import Optima.Proofs.Solver.Placement

/-!
Shortest paths in integers and doubles mixed. An integer label that is not a double is rounded when
a double is added to it, and may come out below itself: a step then leads to a lower label than it
started from, predecessors can close to a round, and a path that is read off them never ends
(`pathTo_endless_of_rounding`).

Where no label of a search is rounded down, predecessors lead back to the source and every path ends
without repeating a node (`pathTo_ends`): with lengths that are all integers, which are never turned
into doubles, and with integers so small that a path of them stays within `2 ^ 53`, whatever doubles
they are mixed with.
-/

namespace Optima.Graph.ShortestPath

open Search (Steady)

/-! ### Small integers among doubles -/

section Small

variable {n : Nat} {adjacency : Adjacency n Number}

/-- What a label can be after some settlings: a number from zero on, and if it is an integer then
one that is reached in as many steps. -/
def Within (n k : Nat) (d : Number) : Prop := d.Counts ∧ ∀ i, d = .int i → n * i ≤ k * 2 ^ 53

theorem Within.later {k : Nat} {d : Number} (within : Within n k d) : Within n (k + 1) d := by
  refine ⟨within.1, fun i same => (within.2 i same).trans ?_⟩
  rw [Nat.cast_add, Nat.cast_one]
  omega

/-- Before the last settling, a label has its own value as a double. -/
theorem Within.exists_toReal {k : Nat} {d : Number} (within : Within n k d) (room : k < n) :
    ∃ x, d.toReal = .ok x ∧ x.FromZero ∧ Number.value (.real x) = Number.value d := by
  cases d with
  | real x => exact ⟨x, rfl, within.1, rfl⟩
  | int i =>
    have bound := within.2 i rfl
    have fewer : (k : Int) * 2 ^ 53 ≤ n * 2 ^ 53 := by omega
    have positive : (0 : Int) < n := by omega
    have small : i ≤ 2 ^ 53 := le_of_mul_le_mul_left (bound.trans fewer) positive
    exact Number.exists_toReal_of_small within.1 small

/-- A step with a length without flaw leads to a label of no lower value. -/
theorem Within.add {k : Nat} {d length : Number} (within : Within n k d) (room : k < n)
    (fine : length.flaw? = none) (small : ∀ w, length = .int w → n * w ≤ 2 ^ 53) :
    ∃ c, Number.add d length = .ok c ∧ Within n (k + 1) c ∧ d.value ≤ c.value := by
  obtain ⟨counts, y, converted, counts_y⟩ := Number.counts_of_no_flaw fine
  have rounded : ∀ {x : Binary64}, x.FromZero → Number.value (.real x) = d.value →
      Within n (k + 1) (.real (x + y)) ∧ d.value ≤ Number.value (.real (x + y)) := by
    intro x counts_x same
    obtain ⟨counts_sum, le⟩ := Number.value_le_add counts_x counts_y
    exact ⟨⟨counts_sum, nofun⟩, same ▸ le⟩
  cases length with
  | real y' =>
    obtain ⟨x, converted', counts_x, same⟩ := within.exists_toReal room
    cases converted
    exact ⟨_, Number.add_real_right converted', rounded counts_x same⟩
  | int w =>
    cases d with
    | real x => exact ⟨_, Number.add_real_left converted, rounded within.1 rfl⟩
    | int i =>
      have nonneg : 0 ≤ i := within.1
      have nonneg' : 0 ≤ w := counts
      refine ⟨.int (i + w), rfl, ⟨add_nonneg nonneg nonneg', ?_⟩, Number.value_int_le (by omega)⟩
      rintro _ ⟨⟩
      have bound := within.2 i rfl
      have step := small w rfl
      rw [mul_add, Nat.cast_add, Nat.cast_one, add_mul, one_mul]
      exact add_le_add bound step

/-- Mixed labels are steady where integers are small. -/
theorem steady_number (fine : ∀ u, ∀ e ∈ adjacency.get u, e.2.flaw? = none)
    (small : ∀ u, ∀ e ∈ adjacency.get u, ∀ w, e.2 = .int w → n * w ≤ 2 ^ 53) :
    Steady (stepsOf adjacency) Number.value (Within n) where
  less_iff first second := Number.less_iff_value first.1 second.1
  nought := by
    refine ⟨le_rfl, ?_⟩
    rintro _ ⟨⟩
    simp
  nought_le within := Number.value_nonneg within.1
  later within := within.later
  allowed {u} step mem := by
    obtain ⟨counts, _⟩ := Number.counts_of_no_flaw (fine u _ (mem_stepsOf.mp mem))
    have zero : Number.Counts (.int 0) := le_refl (0 : Int)
    rw [Bool.eq_false_iff]
    intro negative
    have below := (Number.less_iff_value counts zero).mp negative
    exact absurd (Number.value_nonneg counts) (not_le.mpr below)
  add {_ _ u} room within step mem :=
    within.add room (fine u _ (mem_stepsOf.mp mem)) (small u _ (mem_stepsOf.mp mem))

end Small

/-- Predecessors lead back to the source, in integers and where integers are small. -/
theorem tree_leadsBack {n : Nat} {adjacency : Adjacency n Number}
    (fine : ∀ u, ∀ e ∈ adjacency.get u, e.2.flaw? = none)
    (unrounded : (∀ u, ∀ e ∈ adjacency.get u, ∃ w, e.2 = .int w) ∨
      ∀ u, ∀ e ∈ adjacency.get u, ∀ w, e.2 = .int w → n * w ≤ 2 ^ 53) (source : Fin n) :
    ∃ t time, (tree adjacency source).outcome = .ok t ∧ t.LeadsBack source time := by
  by_cases whole : ∀ u, ∀ e ∈ adjacency.get u, ∃ w, e.2 = .int w
  · have lengths : ∀ u, ∀ e ∈ adjacency.get u, ∃ w : Int, 0 ≤ w ∧ e.2 = .int w := by
      intro u e mem
      obtain ⟨w, length⟩ := whole u e mem
      have counts := (Number.counts_of_no_flaw (fine u e mem)).1
      rw [length] at counts
      exact ⟨w, counts, length⟩
    obtain ⟨t, time, _, ok, back, _⟩ := tree_exact lengths source
    exact ⟨t, time, ok, back⟩
  · have small := unrounded.resolve_left whole
    obtain ⟨s, time, ok, grown⟩ := treeIn_grown (steady_number fine small) source
    refine ⟨treeOf s, time, ?_, leadsBack_of_grown grown⟩
    rw [tree, ints?_of_not_whole whole]
    exact ok

end Optima.Graph.ShortestPath

namespace Optima.Solver

open Optima.Graph (ShortestPath.Trace)

/-- Where no integer is rounded down, the tree of a sound problem leads back to the source from
every node that was reached, the path to each of them ends and repeats no node, and so the solver
ends. -/
theorem pathTo_ends {p : Problem.ShortestPath} (accepted : p.defect? = none)
    (unrounded : (∀ e ∈ p.edges, ∃ w, e.weight = .int w) ∨
      ∀ e ∈ p.edges, ∀ w, e.weight = .int w → p.nodes.length * w ≤ 2 ^ 53) :
    (∃ tree source time, (search p).outcome = .ok tree ∧ nameOf p.nodes source = p.source ∧
      tree.LeadsBack source time ∧ ∀ v, (tree.distance.get v).isSome → ∃ path,
        tree.pathTo v = .ok (some path) ∧ ShortestPath.Trace tree.predecessor source v path ∧
        path.Nodup) ∧
    (solveShortestPath p).outcome ≠ .error .endless := by
  have sound := sound_of_no_defect accepted
  obtain ⟨edges, source, found, name, mem_edges⟩ := search_outcome sound
  have fine : ∀ u, ∀ e ∈ edges.get u, e.2.flaw? = none :=
    fun u e mem => (mem_edges.mp mem).weight sound
  have unrounded : (∀ u, ∀ e ∈ edges.get u, ∃ w, e.2 = .int w) ∨
      ∀ u, ∀ e ∈ edges.get u, ∀ w, e.2 = .int w → p.nodes.length * w ≤ 2 ^ 53 := by
    refine unrounded.imp (fun whole u e mem => ?_) fun small u e mem w length => ?_
    · obtain ⟨e', mem', same, _⟩ := mem_edges.mp mem
      rw [← same]
      exact whole e' mem'
    · obtain ⟨e', mem', same, _⟩ := mem_edges.mp mem
      exact small e' mem' w (same.trans length)
  obtain ⟨tree, time, ok, back⟩ := Graph.ShortestPath.tree_leadsBack fine unrounded source
  have ended := found.trans ok
  refine ⟨⟨tree, source, time, ended, name, back, fun v => back.pathTo⟩, ?_⟩
  rw [solveShortestPath_eq, Run.outcome_bind_of_ok ended]
  exact report_ends sound back

/-- Integers and doubles side by side, a loop that is as long as it may be, and edges of length zero
of either kind. -/
def mixedLengths : Problem.ShortestPath where
  nodes := [.text "a", .text "b", .text "c", .int 4]
  edges := [⟨.text "a", .text "b", .int 3⟩,
    ⟨.text "b", .text "a", .real (Binary64.ofNat 3 / Binary64.ofNat 2)⟩,
    ⟨.text "b", .text "c", .int 0⟩, ⟨.text "c", .text "b", .real 0⟩,
    ⟨.text "c", .text "c", .int 2251799813685248⟩]
  source := .text "a"
  target := some (.text "c")
  directed := false

theorem pathTo_ends_mixedLengths :
    mixedLengths.defect? = none ∧
      (∀ e ∈ mixedLengths.edges, ∀ w, e.weight = .int w →
        mixedLengths.nodes.length * w ≤ 2 ^ 53) ∧
      (∃ tree source time, (search mixedLengths).outcome = .ok tree ∧
        nameOf mixedLengths.nodes source = .text "a" ∧ tree.LeadsBack source time ∧
        ∀ v, (tree.distance.get v).isSome → ∃ path, tree.pathTo v = .ok (some path) ∧
          ShortestPath.Trace tree.predecessor source v path ∧ path.Nodup) ∧
      (solveShortestPath mixedLengths).outcome ≠ .error .endless := by
  have accepted : mixedLengths.defect? = none := by decide +kernel
  have small : ∀ e ∈ mixedLengths.edges, ∀ w, e.weight = .int w →
      mixedLengths.nodes.length * w ≤ 2 ^ 53 := by
    simp [mixedLengths]
  exact ⟨accepted, small, pathTo_ends accepted (.inr small)⟩

/-- The length of the first edge is rounded down when the second is added to it, and the third leads
back for nothing. -/
def roundedRound : Problem.ShortestPath where
  nodes := [.text "a", .text "b", .text "c"]
  edges := [⟨.text "a", .text "b", .int 9007199254740993⟩, ⟨.text "b", .text "c", .real 0⟩,
    ⟨.text "c", .text "b", .int 0⟩]
  source := .text "a"
  target := none
  directed := true

/-- The places of the last two nodes. -/
def placeB : Fin roundedRound.nodes.length := ⟨1, by decide⟩

def placeC : Fin roundedRound.nodes.length := ⟨2, by decide⟩

/-- Two nodes that were reached precede each other, and the path to either of them never ends. -/
theorem pathTo_endless_of_rounding :
    roundedRound.defect? = none ∧ ∃ tree, (search roundedRound).outcome = .ok tree ∧
      (tree.distance.get placeB).isSome ∧ tree.predecessor.get placeB = some placeC ∧
      tree.predecessor.get placeC = some placeB ∧ tree.pathTo placeB = .error .endless := by
  have accepted : roundedRound.defect? = none := by decide +kernel
  have round : (search roundedRound).outcome.map (fun tree =>
      ((tree.distance.get placeB).isSome, tree.predecessor, tree.pathTo placeB)) =
      .ok (true, #v[none, some placeC, some placeB], .error .endless) := by
    decide +kernel
  refine ⟨accepted, ?_⟩
  cases outcome : (search roundedRound).outcome with
  | error failure =>
    rw [outcome] at round
    cases round
  | ok tree =>
    rw [outcome] at round
    obtain ⟨label, rest⟩ := Prod.mk.inj (Except.ok.inj round)
    obtain ⟨predecessors, path⟩ := Prod.mk.inj rest
    refine ⟨tree, rfl, label, ?_, ?_, path⟩
    · rw [predecessors]
      rfl
    · rw [predecessors]
      rfl

end Optima.Solver
