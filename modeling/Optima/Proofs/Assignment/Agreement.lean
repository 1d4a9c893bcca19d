import Mathlib.Data.Finite.Prod
import Mathlib.Data.Set.Finite.Lemmas
import Mathlib.Order.PiLex
import Optima.Proofs.Assignment.Auction.Optimum
import Optima.Proofs.Assignment.Hungarian.Optimum
import Optima.Proofs.Assignment.Mirror
import Optima.Proofs.Assignment.Outcome
import Optima.Proofs.Assignment.Refusal
import Optima.Proofs.Problem.WellFormed

/-!
Both algorithms agree. On whole numbers in any writing each of them ends with an assignment of least
cost, and from there on both do the same (`solve_outcome`). What is returned is the first pairing of
least cost, so it does not depend on the threshold between them; and that nothing is returned is the
doing of the search for it alone (`solve_agrees`).

The entries have to be small. Beyond that the search rounds, and what it returns depends on which
assignment it was given (`solve_disagrees_beyond`).
-/

namespace Optima.Assignment

open Lexicographic (price IsFirst Modest Near notOptimal)
open Number (Denotes)

variable {n : Nat}

/-! ### The first assignment of least cost -/

/-- There is a first assignment among those of least cost. -/
theorem Lexicographic.exists_isFirst (cost : Square n Int) :
    ∃ σ : Fin n → Fin n, IsFirst cost σ := by
  classical
  obtain ⟨τ, different, least⟩ := Set.exists_min_image
    {σ : Fin n → Fin n | Function.Injective σ} (price cost) (Set.toFinite _)
    ⟨id, Function.injective_id⟩
  obtain ⟨σ, ⟨own, cheap⟩, first⟩ := Set.exists_min_image
    {σ : Fin n → Fin n | Function.Injective σ ∧ price cost σ = price cost τ} toLex
    (Set.toFinite _) ⟨τ, different, rfl⟩
  refine ⟨σ, own, fun ρ other => cheap ▸ least ρ other, fun ρ other same i before => ?_⟩
  by_contra lower
  refine absurd (first ρ ⟨other, same.trans cheap⟩) (not_le.mpr ⟨i, before, not_le.mp lower⟩)

/-- There is only one. -/
theorem Lexicographic.IsFirst.unique {cost : Square n Int} {σ τ : Fin n → Fin n}
    (one : IsFirst cost σ) (two : IsFirst cost τ) : σ = τ := by
  have same : price cost σ = price cost τ :=
    le_antisymm (one.least τ two.injective) (two.least σ one.injective)
  funext i
  induction i using WellFoundedLT.induction with
  | ind i before =>
    apply le_antisymm
    · exact one.first τ two.injective same.symm i fun k less => (before k less).symm
    · exact two.first σ one.injective same i before

/-- Potentials that certify some assignment certify any of least cost. -/
theorem Lexicographic.Near.of_least {cost : Square n Int} {σ : Fin n → Fin n}
    {row column : Fin n → Int} (near : Near cost σ row column)
    (different : Function.Injective σ) {columnOf : Table n (Fin n)}
    (own : Function.Injective columnOf.get)
    (least : ∀ τ : Fin n → Fin n, Function.Injective τ → price cost columnOf.get ≤ price cost τ) :
    Near cost (Lexicographic.Matching.ofColumns columnOf).rowOf.get row column := by
  refine ⟨near.feasible, (Lexicographic.matched_iff own).mpr fun i => ?_, near.row_nonpos,
    near.near⟩
  obtain ⟨τ, left, right⟩ := Function.bijective_iff_has_inverse.mp
    (Finite.injective_iff_bijective.mp different)
  have tight : ∀ i, entry cost i (τ i) + row i = column (τ i) := by
    intro i
    have pair := near.matched (τ i)
    rwa [right i] at pair
  have cheap := least τ right.injective
  have exact : ∑ i, (entry cost i (τ i) + row i - column (τ i)) = 0 :=
    Finset.sum_eq_zero fun i _ => sub_eq_zero.mpr (tight i)
  have reduced : ∀ i ∈ Finset.univ,
      0 ≤ entry cost i (columnOf.get i) + row i - column (columnOf.get i) :=
    fun i _ => sub_nonneg.mpr (near.feasible i _)
  rw [Lexicographic.price_eq cost row column own,
    Lexicographic.price_eq cost row column right.injective, exact] at cheap
  have zero := (Finset.sum_eq_zero_iff_of_nonneg reduced).mp
    (le_antisymm (by omega) (Finset.sum_nonneg reduced))
  exact sub_eq_zero.mp (zero i (Finset.mem_univ i))

/-! ### Squares of whole numbers -/

section Square

variable {cost : Square n Number} {square : Square n Int} {most : Int}
  (entries : ∀ i j, (entry cost i j).Denotes (entry square i j))

include entries

/-- The integers of a matrix that holds nothing else are those that it denotes. -/
theorem ints?_eq {ints : Square n Int} (found : ints? cost = some ints) : ints = square := by
  unfold ints? at found
  split at found
  · rename_i all
    cases found
    refine Table.ext fun i => Table.ext fun j => ?_
    have row := List.all_eq_true.mp all _ (List.mem_map.mpr ⟨i, List.mem_finRange i, rfl⟩)
    have whole := List.all_eq_true.mp row _ (List.mem_map.mpr ⟨j, List.mem_finRange j, rfl⟩)
    have value := entries i j
    rw [Table.get_tabulate, Table.get_tabulate]
    cases text : entry cost i j with
    | int k =>
      rw [text] at value
      exact value.int_eq
    | real x =>
      rw [show (cost.get i).get j = .real x from text] at whole
      cases whole
  · cases found

theorem truncated_eq : truncated cost = .ok square := by
  have row : ∀ i ∈ List.finRange n, (cost.get i).values.mapM Number.truncate =
      .ok (square.get i).values := by
    intro i _
    unfold Table.values
    rw [List.mapM_map]
    exact mapM_eq_ok fun j _ => Number.truncate_exact (entries i j)
  have rows : cost.values.mapM (fun row => row.values.mapM Number.truncate) =
      .ok ((List.finRange n).map fun i => (square.get i).values) := by
    unfold Table.values at row ⊢
    rw [List.mapM_map]
    exact mapM_eq_ok row
  unfold truncated
  rw [rows]
  refine congrArg Except.ok (Table.ext fun i => Table.ext fun j => ?_)
  simp [pad, Table.values]

/-- The search for the first assignment does the same as in integers. -/
theorem canonical_eq (modest : Modest square most) (columnOf : Table n (Fin n)) :
    (canonical cost columnOf (.real Binary64.zero)).outcome =
      (Lexicographic.solveIn square columnOf (.real Binary64.zero)).outcome := by
  unfold canonical
  cases found : ints? cost with
  | none => exact Lexicographic.solveIn_mixed entries modest columnOf
  | some ints => rw [ints?_eq entries found]

omit entries in
/-- Integers written as such. -/
theorem exact_entries (square : Square n Int) (i j : Fin n) :
    (entry (Table.tabulate fun i => Table.tabulate fun j => Number.int (entry square i j)) i j).Denotes
      (entry square i j) := by
  simp [entry, Number.denotes_int]

/-- The Hungarian method ends with an assignment of least cost. -/
theorem hungarian_least (modest : Modest square most) (some_row : 0 < n) :
    ∃ columnOf scans, (hungarian cost).outcome = .ok (columnOf, scans) ∧
      Function.Injective columnOf.get ∧
      ∀ σ : Fin n → Fin n, Function.Injective σ → price square columnOf.get ≤ price square σ := by
  have most_nonneg : 0 ≤ most := (modest.nonneg ⟨0, some_row⟩ ⟨0, some_row⟩).trans
    (modest.le_most ⟨0, some_row⟩ ⟨0, some_row⟩)
  have between : Hungarian.Between (fun i j => entry square i j) 0 most :=
    ⟨le_rfl, most_nonneg, modest.nonneg, modest.le_most⟩
  have ends : ∃ columnOf scans, (hungarian cost).outcome = .ok (columnOf, scans) ∧
      Function.Injective columnOf.get ∧
      ∃ row column : Fin n → Int, (∀ i j, column j ≤ entry square i j + row i) ∧
        ∀ i, entry square i (columnOf.get i) + row i = column (columnOf.get i) := by
    unfold hungarian
    cases found : ints? cost with
    | none =>
      have roomy : Hungarian.Roomy n Number.Small 0 most := by
        intro x bound
        have wide : ((n : Int) + 2) * (most - 0) ≤ ((n : Int) + 1) ^ 2 * most := by
          have : (1 : Int) ≤ n := by exact_mod_cast some_row
          rw [sub_zero]
          exact mul_le_mul_of_nonneg_right (by nlinarith) most_nonneg
        have exact := modest.exact
        have bounds := abs_le.mp bound
        unfold Number.Small
        omega
      obtain ⟨columnOf, scans, ok, -, certified⟩ :=
        Hungarian.solveIn_ends Number.faithful roomy between entries
      exact ⟨columnOf, scans, ok, Hungarian.solveIn_injective ok, certified⟩
    | some ints =>
      obtain rfl := ints?_eq entries found
      obtain ⟨columnOf, scans, ok, -, certified⟩ := Hungarian.solveIn_ends
        Quantity.faithful_int (fun _ _ => trivial) between fun i j => Eq.refl (entry ints i j)
      exact ⟨columnOf, scans, ok, Hungarian.solveIn_injective ok, certified⟩
  obtain ⟨columnOf, scans, ok, own, row, column, feasible, tight⟩ := ends
  exact ⟨columnOf, scans, ok, own, fun σ other =>
    Lexicographic.price_le_of_tight feasible tight own other⟩

end Square

/-! ### Matrices of whole numbers -/

section Matrix

variable {costs : List (List Number)} {agents tasks : Nat} {cost : Nat → Nat → Nat}

/-- A matrix whose entries denote natural numbers, in whichever writing. -/
structure Denoting (costs : List (List Number)) (agents tasks : Nat) (cost : Nat → Nat → Nat) :
    Prop where
  height : costs.length = agents
  width : ∀ row ∈ costs, row.length = tasks
  values : ∀ {i j : Nat} {c : Number}, costs[i]?.bind (·[j]?) = some c → c.Denotes (cost i j)

theorem Denoting.width_eq (matrix : Denoting costs agents tasks cost) (some_agent : 0 < agents) :
    (costs.head?.map List.length).getD 0 = tasks := by
  cases rows : costs with
  | nil =>
    have := matrix.height
    rw [rows, List.length_nil] at this
    omega
  | cons row rest => exact matrix.width row (rows ▸ List.mem_cons_self)

theorem Denoting.whole (matrix : Denoting costs agents tasks cost) :
    (costs.all fun row => row.all Number.isInteger) = true := by
  rw [List.all_eq_true]
  intro row known
  rw [List.all_eq_true]
  intro c member
  obtain ⟨i, inside, rfl⟩ := List.mem_iff_getElem.mp known
  obtain ⟨j, within, rfl⟩ := List.mem_iff_getElem.mp member
  refine Number.isInteger_of_denotes (matrix.values (i := i) (j := j) ?_)
  rw [List.getElem?_eq_getElem inside, Option.bind_some, List.getElem?_eq_getElem within]

theorem Denoting.entries (matrix : Denoting costs agents tasks cost) (i j : Fin n) :
    (entry (pad (.int 0) n costs) i j).Denotes (entry (paddedSquare n agents tasks cost) i j) := by
  rw [entry_squareOf, entry, pad, Table.get_tabulate, Table.get_tabulate, padded]
  cases found : costs[i.val]?.bind (·[j.val]?) with
  | none =>
    rw [if_neg]
    · exact Number.denotes_zero
    · rintro ⟨agent, task⟩
      have inside : i.val < costs.length := matrix.height ▸ agent
      have within : j.val < costs[i.val].length :=
        matrix.width _ (List.getElem_mem inside) ▸ task
      simp [inside, within] at found
  | some c =>
    obtain ⟨row, first, second⟩ := Option.bind_eq_some_iff.mp found
    have agent := (List.getElem?_eq_some_iff.mp first).1
    have task := (List.getElem?_eq_some_iff.mp second).1
    rw [matrix.height] at agent
    rw [matrix.width row (List.mem_of_getElem? first)] at task
    rw [if_pos ⟨agent, task⟩]
    exact matrix.values found

/-- Rows that are not longer than the square leave nothing outside it. -/
theorem beyond_eq_nil {size : Nat} (width : ∀ row ∈ costs, row.length ≤ size) :
    beyond size costs = [] :=
  List.flatMap_eq_nil_iff.mpr fun row known => List.drop_eq_nil_iff.mpr (width row known)

/-- Whichever algorithm runs, it ends with an assignment of least cost. What is returned is what the
search for the first one makes of that. -/
theorem solve_outcome (matrix : Denoting costs agents tasks cost) (some_agent : 0 < agents)
    (some_task : 0 < tasks) {most : Int}
    (modest : Modest (paddedSquare (max agents tasks) agents tasks cost) most)
    (threshold tolerance : Number) :
    ∃ columnOf algorithm iterations, Function.Injective (Table.get columnOf) ∧
      (∀ σ : Fin (max agents tasks) → Fin (max agents tasks), Function.Injective σ →
        price (paddedSquare (max agents tasks) agents tasks cost) columnOf.get ≤
          price (paddedSquare (max agents tasks) agents tasks cost) σ) ∧
      (solve costs threshold tolerance).outcome =
        (Lexicographic.solveIn (paddedSquare (max agents tasks) agents tasks cost) columnOf
          (.real Binary64.zero)).outcome.bind fun best =>
        (totalOf costs (pairsOf agents tasks best.get)).bind fun total =>
          .ok ⟨pairsOf agents tasks best.get, total, algorithm, iterations⟩ := by
  have entries := matrix.entries (n := max agents tasks)
  have some_row : 0 < max agents tasks := lt_max_of_lt_left some_agent
  have whole := matrix.whole
  have inside := beyond_eq_nil fun row known =>
    (matrix.width row known).le.trans (le_max_right agents tasks)
  have width := matrix.width_eq some_agent
  obtain ⟨height, -, -⟩ := matrix
  subst height
  subst width
  unfold solve
  dsimp only
  rw [if_neg (by omega), whole, Bool.true_and]
  split
  · obtain ⟨columnOf, bids, ok, least⟩ := Auction.solve_cheapest
      (paddedSquare _ costs.length ((costs.head?.map List.length).getD 0) cost) [] some_row
    have again := canonical_eq (exact_entries _) modest columnOf
    refine ⟨columnOf, .auction, bids, Auction.solve_injective ok, least, ?_⟩
    rw [Run.outcome_bind_of_ok (Run.outcome_arith_of_ok (truncated_eq entries)), inside,
      Run.outcome_bind_of_ok (a := []) rfl, Run.outcome_bind_of_ok ok, Run.outcome_bind, again]
    refine congrArg (Except.bind _) (funext fun best => ?_)
    rw [pure_bind, Run.outcome_bind]
    rfl
  · obtain ⟨columnOf, scans, ok, own, least⟩ := hungarian_least entries modest some_row
    refine ⟨columnOf, .hungarian, scans, own, least, ?_⟩
    rw [Run.outcome_bind_of_ok ok, if_pos rfl, pure_bind, Run.outcome_bind,
      canonical_eq entries modest]
    refine congrArg (Except.bind _) (funext fun best => ?_)
    rw [pure_bind, Run.outcome_bind]
    rfl

/-- The total of pairs is what they cost. -/
theorem Denoting.totalOf_denotes (matrix : Denoting costs agents tasks cost)
    {pairs : List (Nat × Nat)} (inside : ∀ p ∈ pairs, p.1 < agents ∧ p.2 < tasks)
    (small : charge cost pairs ≤ 2 ^ 53) :
    ∃ total, totalOf costs pairs = .ok total ∧ total.Denotes (charge cost pairs) := by
  have bound : Binary64.exactBound = 2 ^ 53 := rfl
  rw [← Nat.zero_add (charge cost pairs)] at small ⊢
  refine exists_foldlM_charge (fun total sum => total.Denotes sum)
    (fun p known total sum value small => ?_) Number.denotes_zero small
  obtain ⟨agent, task⟩ := inside p known
  have row : p.1 < costs.length := matrix.height ▸ agent
  have column : p.2 < costs[p.1].length := matrix.width _ (List.getElem_mem row) ▸ task
  have found : costs[p.1]?.bind (·[p.2]?) = some costs[p.1][p.2] := by
    rw [List.getElem?_eq_getElem row, Option.bind_some, List.getElem?_eq_getElem column]
  obtain ⟨next, added, next_value⟩ := Number.add_exact value (matrix.values found)
    (by unfold Number.Small; omega) (by unfold Number.Small; omega)
    (by unfold Number.Small; omega)
  refine ⟨next, ?_, by exact_mod_cast next_value⟩
  simp only [found, added]
  rfl

/-- The pairs of an assignment do not cost more than doubles represent exactly. -/
theorem charge_pairsOf_le (side : n = max agents tasks) {most : Int} (most_nonneg : 0 ≤ most)
    (modest : Modest (paddedSquare n agents tasks cost) most) {σ : Fin n → Fin n}
    (different : Function.Injective σ) : charge cost (pairsOf agents tasks σ) ≤ 2 ^ 53 := by
  have each := Finset.sum_le_card_nsmul Finset.univ
    (fun i => entry (paddedSquare n agents tasks cost) i (σ i)) most fun i _ =>
      modest.le_most i (σ i)
  have total : price (paddedSquare n agents tasks cost) σ = charge cost (pairsOf agents tasks σ) :=
    price_eq_charge_pairsOf side different
  have exact := modest.exact
  have bound : ((Binary64.exactBound : Nat) : Int) = 2 ^ 53 := rfl
  rw [Finset.card_univ, Fintype.card_fin, nsmul_eq_mul] at each
  rw [price] at total
  have wide : (n : Int) * most ≤ ((n : Int) + 1) ^ 2 * most :=
    mul_le_mul_of_nonneg_right (by nlinarith) most_nonneg
  have summed : (charge cost (pairsOf agents tasks σ) : Int) ≤ 2 ^ 53 := by omega
  exact_mod_cast summed

/-- Small entries leave three ways to end: with the canonical pairing and what it costs; refused,
with no potentials near the least entries; or with more rows than doubles can count. -/
theorem Denoting.solve_settled (matrix : Denoting costs agents tasks cost) (some_agent : 0 < agents)
    (some_task : 0 < tasks)
    (small : ∀ i < agents, ∀ j < tasks, (max agents tasks + 1) ^ 2 * cost i j ≤ 2 ^ 53) :
    ∃ pairs, Canonical agents tasks cost pairs ∧ charge cost pairs ≤ 2 ^ 53 ∧
      ∀ threshold tolerance : Number, let outcome := (solve costs threshold tolerance).outcome
      (∃ o, outcome = .ok o ∧ o.pairs = pairs ∧ o.totalCost.Denotes (charge cost pairs)) ∨
      (outcome = .error notOptimal ∧ ∀ σ row column, Function.Injective σ →
        ¬ Near (paddedSquare (max agents tasks) agents tasks cost) σ row column) ∨
      (outcome = .error (.fault .tooLarge) ∧ 2 ^ 53 < 2 * max agents tasks + 1) := by
  have modest := modest_padded rfl small
  obtain ⟨first, isFirst⟩ :=
    Lexicographic.exists_isFirst (paddedSquare (max agents tasks) agents tasks cost)
  have canonical := canonical_of_isFirst rfl isFirst
  have cheap := charge_pairsOf_le rfl (Int.natCast_nonneg _) modest isFirst.injective
  refine ⟨pairsOf agents tasks first, canonical, cheap, fun threshold tolerance => ?_⟩
  obtain ⟨columnOf, algorithm, iterations, own, least, eq⟩ :=
    solve_outcome matrix some_agent some_task modest threshold tolerance
  dsimp only
  rw [eq]
  rcases Lexicographic.solveIn_cases modest own with ⟨best, ok⟩ | ⟨refused, far⟩ | ⟨failed, many, -⟩
  · left
    obtain ⟨other, -⟩ := Lexicographic.solveIn_first modest own ok
    obtain rfl := other.unique isFirst
    obtain ⟨total, summed, value⟩ := matrix.totalOf_denotes
      (fun q known => ⟨canonical.pairing.agents_lt q known, canonical.pairing.tasks_lt q known⟩)
      cheap
    rw [ok]
    refine ⟨⟨pairsOf agents tasks best.get, total, algorithm, iterations⟩, ?_, rfl, value⟩
    simp only [Except.bind, summed]
  · right
    left
    rw [refused]
    exact ⟨rfl, fun σ row column different near =>
      far row column (near.of_least different own least)⟩
  · right
    right
    rw [failed]
    exact ⟨rfl, by exact_mod_cast many⟩

end Matrix

/-! ### Whichever algorithm runs -/

/-- In a sound problem all rows are as long as the first. -/
theorem length_of_no_defect {p : Problem.Assignment} (sound : p.defect? = none) :
    ∀ row ∈ p.costs, row.length = (p.costs.head?.map List.length).getD 0 :=
  (Problem.Assignment.defect?_eq_none_iff.mp sound).rows

/-- Whole numbers, in whichever writing, are paired alike by both algorithms. There is one canonical
pairing, and whatever the threshold and the tolerance are, either its pairs are returned, with what
they cost; or the assignment that was found is refused, and then no potentials near the least
entries certify any assignment; or there are more rows than doubles can count. The bound on the
entries leaves all labels of the search within the integers that doubles represent. -/
theorem solve_agrees {p : Problem.Assignment} {agents tasks : Nat} {cost : Nat → Nat → Nat}
    (sound : p.defect? = none) (height : p.costs.length = agents)
    (width : (p.costs.head?.map List.length).getD 0 = tasks) (some_agent : 0 < agents)
    (some_task : 0 < tasks)
    (whole : ∀ (i j : Nat) (c : Number), p.costs[i]?.bind (·[j]?) = some c → c.Denotes (cost i j))
    (small : ∀ i < agents, ∀ j < tasks, (max agents tasks + 1) ^ 2 * cost i j ≤ 2 ^ 53) :
    ∃ pairs, Canonical agents tasks cost pairs ∧ ∀ threshold tolerance : Number,
      let outcome := (solve p.costs threshold tolerance).outcome
      (∃ o, outcome = .ok o ∧ o.pairs = pairs ∧ o.totalCost.Denotes (charge cost pairs)) ∨
      (outcome = .error notOptimal ∧ ∀ σ row column, Function.Injective σ →
        ¬ Near (paddedSquare (max agents tasks) agents tasks cost) σ row column) ∨
      (outcome = .error (.fault .tooLarge) ∧ 2 ^ 53 < 2 * max agents tasks + 1) := by
  have matrix : Denoting p.costs agents tasks cost :=
    ⟨height, fun row known => (length_of_no_defect sound row known).trans width, whole _ _ _⟩
  obtain ⟨pairs, canonical, -, ends⟩ := matrix.solve_settled some_agent some_task small
  exact ⟨pairs, canonical, ends⟩

/-- Two agents and two tasks, at costs of both writings. -/
def bothWritings : Problem.Assignment where
  costs := [[.int 1, .real (Binary64.ofNat 2)], [.real (Binary64.ofNat 2), .int 4]]
  agentLabels := none
  taskLabels := none

/-- Either algorithm lets the agents change places. -/
theorem solve_agrees_bothWritings :
    bothWritings.defect? = none ∧
      (solve bothWritings.costs (.int 64) (.real 0)).outcome =
        .ok ⟨[(0, 1), (1, 0)], .real (Binary64.ofNat 4), .hungarian, 3⟩ ∧
      (solve bothWritings.costs (.int 1) (.real 0)).outcome =
        .ok ⟨[(0, 1), (1, 0)], .real (Binary64.ofNat 4), .auction, 5⟩ ∧
      Canonical 2 2 (fun i j => (i + 1) * (j + 1)) [(0, 1), (1, 0)] := by
  have sound : bothWritings.defect? = none := by decide +kernel
  have scanned : (solve bothWritings.costs (.int 64) (.real 0)).outcome =
      .ok ⟨[(0, 1), (1, 0)], .real (Binary64.ofNat 4), .hungarian, 3⟩ := by decide +kernel
  have auctioned : (solve bothWritings.costs (.int 1) (.real 0)).outcome =
      .ok ⟨[(0, 1), (1, 0)], .real (Binary64.ofNat 4), .auction, 5⟩ := by decide +kernel
  have whole : ∀ (i j : Nat) (c : Number), bothWritings.costs[i]?.bind (·[j]?) = some c →
      c.Denotes (((i + 1) * (j + 1) : Nat) : Int) := by
    rintro (_ | _ | i) (_ | _ | j) c found
    all_goals first
      | obtain rfl := Option.some.inj found
        decide +kernel
      | simp [bothWritings] at found
  have small : ∀ i < 2, ∀ j < 2, (max 2 2 + 1) ^ 2 * ((i + 1) * (j + 1)) ≤ 2 ^ 53 := by decide
  obtain ⟨pairs, canonical, each⟩ := solve_agrees sound rfl rfl two_pos two_pos whole small
  refine ⟨sound, scanned, auctioned, ?_⟩
  rcases each (.int 64) (.real 0) with ⟨o, ok, same, -⟩ | ⟨refused, -⟩ | ⟨failed, -⟩
  · rw [scanned] at ok
    cases ok
    subst same
    exact canonical
  · rw [scanned] at refused
    cases refused
  · rw [scanned] at failed
    cases failed

/-- Whole costs next to the last integer up to which all are doubles. -/
def atTheEdge : Problem.Assignment where
  costs := [[.int 9007199254740993, .int 4], [.real (Binary64.ofNat 9007199254740994), .int 6]]
  agentLabels := none
  taskLabels := none

/-- Beyond the bound the algorithms disagree. The search from the Hungarian method's assignment
subtracts a double from an integer that no double represents; all edges look tight to it, and it
gives the dearer pairing. -/
theorem solve_disagrees_beyond :
    atTheEdge.defect? = none ∧
      (solve atTheEdge.costs (.int 64) (.real 0)).outcome =
        .ok ⟨[(0, 0), (1, 1)], .int 9007199254740999, .hungarian, 3⟩ ∧
      (solve atTheEdge.costs (.int 1) (.real 0)).outcome =
        .ok ⟨[(0, 1), (1, 0)], .real (Binary64.ofNat 9007199254740998), .auction, 56⟩ ∧
      4 + 9007199254740994 < 9007199254740993 + 6 := by
  refine ⟨?_, ?_, ?_, by decide⟩ <;> decide +kernel

end Optima.Assignment
