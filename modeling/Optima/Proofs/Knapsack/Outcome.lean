import Mathlib.Algebra.Order.BigOperators.Group.List
import Mathlib.Algebra.Order.Ring.Int
import Mathlib.Data.List.GetD
import Optima.Problem.Defect
import Optima.Proofs.Knapsack.Table
import Optima.Proofs.Table

/-!
What the solver of knapsack problems returns (`solve_best`). For a sound problem it is a selection
of greatest value among all sets of items within the capacity, those with items that are too heavy
by themselves included, and of several such selections the one that comes first when sets are read
from the last item to the first (`Best`). No cell of the table wraps around on the way
(`NeverWraps`), as the values of all items of a sound problem fit into one cell.

The only other way to end is that there cannot be a table of the size needed (`tableObstacle?`),
which takes a budget of `2 ^ 63` bytes or more.
-/

namespace Optima.Knapsack

/-! ### Selections -/

section Selections

variable (p : Problem.Knapsack)

/-- The weight of an item, and nothing for what is no item. -/
def weightOf (i : Nat) : Int := p.weights.getD i 0

/-- The value of an item, and nothing for what is no item. -/
def valueOf (i : Nat) : Int := p.values.getD i 0

/-- Items that can be packed together. -/
def Feasible (S : Finset Nat) : Prop :=
  S ⊆ Finset.range p.weights.length ∧ ∑ i ∈ S, weightOf p i ≤ p.capacity

/-- `A` comes before `S` when membership is read from the last item to the first: at the first
difference only `S` has the item. -/
def Before (A S : Finset Nat) : Prop := ∃ i ∈ S, i ∉ A ∧ ∀ j, i < j → (j ∈ A ↔ j ∈ S)

/-- What a solver should find: the first of all selections of greatest value. An item is taken only
when the items up to it, within the capacity that later ones leave, are worth less without it. -/
structure Best (o : Outcome) : Prop where
  increasing : o.selected.Pairwise (· < ·)
  totalWeight : o.totalWeight = ∑ i ∈ o.selected.toFinset, weightOf p i
  totalValue : o.totalValue = ∑ i ∈ o.selected.toFinset, valueOf p i
  feasible : Feasible p o.selected.toFinset
  greatest : ∀ S, Feasible p S → ∑ i ∈ S, valueOf p i ≤ o.totalValue
  first : ∀ S, Feasible p S → ∑ i ∈ S, valueOf p i = o.totalValue → S ≠ o.selected.toFinset →
    Before o.selected.toFinset S
  needed : ∀ i ∈ o.selected, ∀ S ⊆ Finset.range i,
    ∑ j ∈ S, weightOf p j + ∑ j ∈ o.selected.toFinset with i < j, weightOf p j ≤ p.capacity →
    ∑ j ∈ S, valueOf p j < ∑ j ∈ o.selected.toFinset with j ≤ i, valueOf p j

/-- No cell of the table wraps: neither one that a row has after some of the items, nor one that it
gets from any item after those. -/
def NeverWraps : Prop :=
  ∀ before after, fitting p.weights p.capacity = before ++ after → ∃ row stages,
    (fill (n := (p.capacity + 1).toNat) p.values before).outcome = .ok (row, stages) ∧
    ∀ c, wrap (row.get c) = row.get c ∧
      ∀ entry ∈ after, wrap (row.get c + valueOf p entry.1) = row.get c + valueOf p entry.1

end Selections

/-! ### Sound problems -/

section Sound

variable {p : Problem.Knapsack} {budget : Int}

/-- What a problem without a defect guarantees. -/
structure Sound (p : Problem.Knapsack) (budget : Int) : Prop where
  lengths : p.weights.length = p.values.length
  capacity : 0 ≤ p.capacity
  weights : ∀ i, 0 ≤ weightOf p i
  values : ∀ i, 0 ≤ valueOf p i
  small : total p.values < halfRange
  bytes : tableBytes p.weights p.capacity ≤ budget

theorem sound_of_no_defect (accepted : p.defect? budget = none) : Sound p budget := by
  simp only [Problem.Knapsack.defect?, Option.orElse_eq_none, Defect.unless_eq_none_iff,
    List.findSome?_eq_none_iff] at accepted
  obtain ⟨lengths, capacity, items, small, bytes⟩ := accepted
  have nonneg : ∀ i, 0 ≤ weightOf p i ∧ 0 ≤ valueOf p i := by
    intro i
    by_cases inside : i < p.weights.length
    · have other : i < p.values.length := lengths ▸ inside
      have listed : ((p.weights[i], p.values[i]), i) ∈ (p.weights.zip p.values).zipIdx := by
        rw [List.mk_mem_zipIdx_iff_getElem?, List.getElem?_zip_eq_some]
        exact ⟨List.getElem?_eq_getElem inside, List.getElem?_eq_getElem other⟩
      rw [weightOf, valueOf, List.getD_eq_getElem _ _ inside, List.getD_eq_getElem _ _ other]
      exact items _ listed
    · have other : ¬ i < p.values.length := lengths ▸ inside
      rw [weightOf, valueOf, List.getD_eq_default _ _ (not_lt.mp inside),
        List.getD_eq_default _ _ (not_lt.mp other)]
      exact ⟨le_rfl, le_rfl⟩
  refine ⟨lengths, capacity, fun i => (nonneg i).1, fun i => (nonneg i).2, ?_, bytes⟩
  unfold Problem.greatestValue at small
  unfold halfRange
  omega

/-! ### The items that fit -/

/-- The items that are not too heavy by themselves, from the last to the first. -/
def candidates (p : Problem.Knapsack) : List Nat :=
  ((List.range p.weights.length).filter fun i => weightOf p i ≤ p.capacity).reverse

theorem mem_candidates {i : Nat} :
    i ∈ candidates p ↔ i < p.weights.length ∧ weightOf p i ≤ p.capacity := by
  simp [candidates]

theorem candidates_falling : (candidates p).Pairwise (· > ·) := by
  rw [candidates, List.pairwise_reverse]
  exact List.pairwise_lt_range.filter _

theorem fitting_eq : fitting p.weights p.capacity = entries (weightOf p) (candidates p) := by
  have listed : p.weights.zipIdx =
      (List.range p.weights.length).map fun i => (weightOf p i, i) := by
    apply List.ext_getElem
    · simp
    · intro i inside other
      have inside : i < p.weights.length := by simpa using inside
      simp [weightOf, inside]
  rw [fitting, listed, List.filterMap_map, entries, candidates, List.reverse_reverse,
    ← List.filterMap_eq_map, List.filterMap_filter]
  apply List.filterMap_congr
  intro i _
  simp

/-- The items that fit are no more than all items. -/
theorem total_candidates_le (sound : Sound p budget) :
    total ((candidates p).map (valueOf p)) ≤ total p.values := by
  have all : (List.range p.weights.length).map (valueOf p) = p.values := by
    apply List.ext_getElem
    · simp [sound.lengths]
    · intro i _ other
      simp [valueOf, other]
  rw [total_eq_sum, total_eq_sum, ← all, candidates, List.map_reverse, List.sum_reverse]
  apply List.Sublist.sum_le_sum (List.filter_sublist.map _)
  intro v mem
  obtain ⟨i, _, rfl⟩ := List.mem_map.mp mem
  exact sound.values i

theorem admissible_candidates (sound : Sound p budget) :
    Admissible (weightOf p) (valueOf p) (candidates p) where
  weights := sound.weights
  values i _ := sound.values i
  small := (total_candidates_le sound).trans_lt sound.small

theorem value_of_mem_candidates (sound : Sound p budget) :
    ∀ i ∈ candidates p, p.values[i]? = some (valueOf p i) := by
  intro i mem
  have inside : i < p.values.length := sound.lengths ▸ (mem_candidates.mp mem).1
  rw [valueOf, List.getD_eq_getElem _ _ inside, List.getElem?_eq_getElem inside]

/-- Items that can be packed together fit by themselves. -/
theorem subset_candidates (sound : Sound p budget) {S : Finset Nat} (feasible : Feasible p S) :
    S ⊆ (candidates p).toFinset := by
  intro i mem
  have light := Finset.single_le_sum (fun j (_ : j ∈ S) => sound.weights j) mem
  rw [List.mem_toFinset, mem_candidates]
  exact ⟨Finset.mem_range.mp (feasible.1 mem), light.trans feasible.2⟩

end Sound

/-! ### What is chosen from the items that fit -/

section Chosen

variable {p : Problem.Knapsack} {budget : Int} {A : Finset Nat}

/-- The selection of the solver. -/
def selection (p : Problem.Knapsack) : List Nat :=
  chosen (weightOf p) (valueOf p) (candidates p) p.capacity

theorem selection_falling : (selection p).Pairwise (· > ·) :=
  candidates_falling.sublist (chosen_sublist _ _)

theorem sum_selection (f : Nat → Int) :
    ∑ i ∈ (selection p).toFinset, f i = total ((selection p).map f) := by
  have nodup : (selection p).Nodup := selection_falling.imp fun less => less.ne'
  rw [total_eq_sum, List.sum_toFinset f nodup]

theorem feasible_selection (sound : Sound p budget) : Feasible p (selection p).toFinset := by
  constructor
  · intro i mem
    have candidate := (chosen_sublist _ _).subset (List.mem_toFinset.mp mem)
    exact Finset.mem_range.mpr (mem_candidates.mp candidate).1
  · rw [sum_selection]
    exact weight_chosen_le _ sound.capacity

/-- Nothing that can be packed is worth more than the selection. -/
theorem worth_le_selection (sound : Sound p budget) {S : Finset Nat} (feasible : Feasible p S) :
    ∑ i ∈ S, valueOf p i ≤ ∑ i ∈ (selection p).toFinset, valueOf p i := by
  rw [sum_selection, selection, value_chosen]
  exact worth_le_optimum sound.weights (subset_candidates sound feasible) feasible.2

theorem selection_before (sound : Sound p budget) {S : Finset Nat} (feasible : Feasible p S)
    (equal : ∑ i ∈ S, valueOf p i = ∑ i ∈ (selection p).toFinset, valueOf p i)
    (apart : S ≠ (selection p).toFinset) : Before (selection p).toFinset S := by
  rw [sum_selection, selection, value_chosen] at equal
  have le := chosen_colex_le sound.weights candidates_falling (subset_candidates sound feasible)
    feasible.2 equal
  have less : toColex (selection p).toFinset < toColex S :=
    lt_of_le_of_ne le fun same => apart (toColex.injective same).symm
  obtain ⟨i, mem, same⟩ := Finset.Colex.lt_iff_exists_filter_lt.mp less
  obtain ⟨inside, without⟩ := Finset.mem_sdiff.mp mem
  refine ⟨i, inside, without, fun j later => ?_⟩
  have both := Finset.ext_iff.mp same j
  simpa [later] using both

/-- Items without which those up to `i` were worth as much could replace them in a selection that
comes first, and that would come before it. -/
theorem needed_of_first (greatest : ∀ S, Feasible p S →
      ∑ j ∈ S, valueOf p j ≤ ∑ j ∈ A, valueOf p j)
    (first : ∀ S, Feasible p S → ∑ j ∈ S, valueOf p j = ∑ j ∈ A, valueOf p j → S ≠ A → Before A S)
    (inside : A ⊆ Finset.range p.weights.length) {i : Nat} (taken : i ∈ A) {S : Finset Nat}
    (earlier : S ⊆ Finset.range i)
    (fits : ∑ j ∈ S, weightOf p j + ∑ j ∈ A with i < j, weightOf p j ≤ p.capacity) :
    ∑ j ∈ S, valueOf p j < ∑ j ∈ A with j ≤ i, valueOf p j := by
  have below : ∀ j ∈ S, j < i := fun j mem => Finset.mem_range.mp (earlier mem)
  have apart : Disjoint S (A.filter (i < ·)) := by
    rw [Finset.disjoint_left]
    intro j mem later
    exact absurd (below j mem) (Finset.mem_filter.mp later).2.le.not_gt
  have split := Finset.sum_filter_add_sum_filter_not A (· ≤ i) (valueOf p)
  simp only [not_le] at split
  have feasible : Feasible p (S ∪ A.filter (i < ·)) := by
    constructor
    · intro j mem
      rcases Finset.mem_union.mp mem with mem | later
      · have := below j mem
        have := Finset.mem_range.mp (inside taken)
        exact Finset.mem_range.mpr (by omega)
      · exact inside (Finset.mem_filter.mp later).1
    · rw [Finset.sum_union apart]
      exact fits
  have lost : i ∉ S ∪ A.filter (i < ·) := by
    intro mem
    rcases Finset.mem_union.mp mem with mem | later
    · exact lt_irrefl i (below i mem)
    · exact lt_irrefl i (Finset.mem_filter.mp later).2
  by_contra enough
  have le := greatest _ feasible
  have equal : ∑ j ∈ S ∪ A.filter (i < ·), valueOf p j = _ := Finset.sum_union apart
  obtain ⟨k, mem, without, agree⟩ := first _ feasible (by omega)
    (fun same => lost (by rwa [same]))
  rcases Finset.mem_union.mp mem with mem | later
  · exact lost ((agree i (below k mem)).mp taken)
  · exact without (Finset.mem_filter.mp later).1

/-- The outcome that names the selection is the best. -/
theorem best_selection (sound : Sound p budget) (cells : Nat) :
    Best p ⟨(selection p).reverse, total ((selection p).map (weightOf p)),
      total ((selection p).map (valueOf p)), cells⟩ := by
  have same : (selection p).reverse.toFinset = (selection p).toFinset := List.toFinset_reverse
  have feasible := feasible_selection sound
  have greatest := fun S (other : Feasible p S) => worth_le_selection sound other
  have first := fun S (other : Feasible p S) => selection_before sound other
  refine ⟨?_, ?_, ?_, ?_, fun S other => ?_, fun S other equal apart => ?_,
    fun i mem S earlier fits => ?_⟩
  · exact List.pairwise_reverse.mpr selection_falling
  · rw [same, sum_selection]
  · rw [same, sum_selection]
  · rw [same]
    exact feasible
  · rw [← sum_selection (valueOf p)]
    exact greatest S other
  · rw [same] at apart ⊢
    rw [← sum_selection (valueOf p)] at equal
    exact first S other equal apart
  · rw [same] at fits ⊢
    exact needed_of_first greatest first feasible.1
      (List.mem_toFinset.mpr (List.mem_reverse.mp mem)) earlier fits

end Chosen

/-! ### The solver -/

section Solver

variable {p : Problem.Knapsack} {budget : Int}

theorem never_wraps (sound : Sound p budget) : NeverWraps p := by
  intro before after parts
  have admissible := admissible_candidates sound
  rw [fitting_eq, entries] at parts
  obtain ⟨early, late, both, rfl, rfl⟩ := List.map_eq_append_iff.mp parts
  have items : candidates p = late.reverse ++ early.reverse := by
    rw [← List.reverse_append, ← both, List.reverse_reverse]
  rw [items] at admissible
  have part := admissible.sublist (List.sublist_append_right _ _)
  obtain ⟨row, stages, ok, filled⟩ := fill_filled (n := (p.capacity + 1).toNat)
    (fun i mem => value_of_mem_candidates sound i (items ▸ List.mem_append_right _ mem)) part
  rw [entries, List.reverse_reverse] at ok
  refine ⟨row, stages, ok, fun c => ⟨?_, fun entry mem => ?_⟩⟩
  · rw [filled.row]
    exact part.wrap_optimum c.val
  · obtain ⟨i, later, rfl⟩ := List.mem_map.mp mem
    have more : (i :: early.reverse).Sublist (late.reverse ++ early.reverse) :=
      (List.singleton_sublist.mpr (List.mem_reverse.mpr later)).append (List.Sublist.refl _)
    rw [filled.row]
    exact (admissible.sublist more).wrap_sum c.val

theorem tableObstacle?_eq_none {cells : Int} {items : Nat} (nonneg : 0 ≤ cells)
    (row : 8 * cells < 2 ^ 63) (decisions : items * cells < 2 ^ 63) :
    tableObstacle? cells items = none := by
  lift cells to Nat using nonneg
  have row_small : ¬ Nat.pow 2 63 ≤ 8 * cells := by
    show ¬ 2 ^ 63 ≤ 8 * cells
    omega
  have decisions_small : ¬ Nat.pow 2 63 ≤ items * cells := by
    show ¬ 2 ^ 63 ≤ items * cells
    exact_mod_cast not_le.mpr decisions
  have cells_small : ¬ Nat.pow 2 63 ≤ cells := by omega
  rw [tableObstacle?, if_neg (by omega), Int.toNat_natCast, if_neg cells_small,
    if_neg (not_or.mpr ⟨row_small, decisions_small⟩)]

/-- Where there is no table of the size needed, the budget is larger than one can be. -/
theorem budget_of_obstacle (sound : Sound p budget) {entry : Nat × Int}
    {others : List (Nat × Int)} (items : fitting p.weights p.capacity = entry :: others)
    {failure : Failure}
    (obstacle : tableObstacle? (p.capacity + 1) (entry :: others).length = some failure) :
    2 ^ 63 ≤ budget := by
  have capacity := sound.capacity
  have bytes : ((entry :: others).length : Int) * (p.capacity + 1) + 8 * (p.capacity + 1) ≤
      budget := by
    rw [← add_mul, mul_comm]
    have bytes := sound.bytes
    rwa [tableBytes, items] at bytes
  have decisions : 0 ≤ ((entry :: others).length : Int) * (p.capacity + 1) :=
    mul_nonneg (Int.natCast_nonneg _) (by omega)
  by_contra small
  rw [tableObstacle?_eq_none (by omega) (by omega) (by omega)] at obstacle
  cases obstacle

/-- With a table, what is found is the selection. -/
theorem solve_eq_selection (sound : Sound p budget) {entry : Nat × Int} {others : List (Nat × Int)}
    (items : fitting p.weights p.capacity = entry :: others)
    (room : tableObstacle? (p.capacity + 1) (entry :: others).length = none) :
    (solve p.weights p.values p.capacity).outcome = .ok ⟨(selection p).reverse,
      total ((selection p).map (weightOf p)), total ((selection p).map (valueOf p)),
      (entry :: others).length * (p.capacity + 1).toNat⟩ := by
  have capacity := sound.capacity
  have inside : p.capacity.toNat < (p.capacity + 1).toNat := by omega
  obtain ⟨row, stages, ok, filled⟩ := fill_filled (n := (p.capacity + 1).toNat)
    (value_of_mem_candidates sound) (admissible_candidates sound)
  rw [← fitting_eq, items] at ok
  have read : select stages p.capacity =
      .ok ((selection p).map (itemAt (weightOf p) (valueOf p))) :=
    select_of_records sound.weights filled.stages capacity inside
  have found : valueAt row p.capacity = total ((selection p).map (valueOf p)) := by
    rw [valueAt, dif_pos ⟨capacity, inside⟩, filled.row, selection, value_chosen]
    exact congrArg _ (Int.toNat_of_nonneg capacity)
  have sums : ∀ f : Item → Int,
      total (((selection p).map (itemAt (weightOf p) (valueOf p))).reverse.map f) =
        total ((selection p).map fun i => f (itemAt (weightOf p) (valueOf p) i)) := by
    intro f
    rw [List.map_reverse, total_eq_sum, total_eq_sum, List.sum_reverse, List.map_map]
    rfl
  have indices : ((selection p).map (itemAt (weightOf p) (valueOf p))).reverse.map (·.index) =
      (selection p).reverse := by
    rw [List.map_reverse, List.map_map]
    exact congrArg List.reverse (List.map_id _)
  rw [solve, items]
  simp only [room]
  rw [Run.outcome_bind_of_ok ok, Run.outcome_bind_of_ok (Run.outcome_ofExcept _ |>.trans read)]
  simp only [found, sums, indices]
  exact congrArg Run.outcome (if_neg fun differ => differ rfl)

/-- Within a budget for which there is every table the best selection is found. -/
theorem solve_found (sound : Sound p budget) (few : budget < 2 ^ 63) :
    ∃ o, (solve p.weights p.values p.capacity).outcome = .ok o ∧ Best p o := by
  rcases items : fitting p.weights p.capacity with _ | ⟨entry, others⟩
  · have empty : selection p = [] := by
      rw [fitting_eq, entries, List.map_eq_nil_iff, List.reverse_eq_nil_iff] at items
      rw [selection, items, chosen]
    have best := best_selection sound 0
    rw [empty] at best
    refine ⟨_, ?_, best⟩
    rw [solve, items]
    rfl
  · rcases obstacle : tableObstacle? (p.capacity + 1) (entry :: others).length with _ | failure
    · exact ⟨_, solve_eq_selection sound items obstacle, best_selection sound _⟩
    · exact absurd (budget_of_obstacle sound items obstacle) (not_le.mpr few)

/-- What a sound problem can pack is worth no more than a cell holds. -/
theorem Best.totalValue_bounds (sound : Sound p budget) {o : Outcome} (best : Best p o) :
    0 ≤ o.totalValue ∧ o.totalValue < halfRange := by
  have all : ∑ i ∈ Finset.range p.weights.length, valueOf p i = total p.values := by
    rw [total_eq_sum, sound.lengths, Finset.sum_range, ← Fin.sum_univ_getElem]
    exact Finset.sum_congr rfl fun i _ => List.getD_eq_getElem _ _ i.isLt
  rw [best.totalValue]
  refine ⟨Finset.sum_nonneg fun i _ => sound.values i, ?_⟩
  refine (Finset.sum_le_sum_of_subset_of_nonneg best.feasible.1 fun i _ _ =>
    sound.values i).trans_lt ?_
  rw [all]
  exact sound.small

/-- A sound problem is solved by the best selection, and no cell of the table wraps. Only a budget
of more bytes than can be numbered lets a problem through whose table cannot be had. -/
theorem solve_best (accepted : p.defect? budget = none) :
    NeverWraps p ∧
      ((∃ o, (solve p.weights p.values p.capacity).outcome = .ok o ∧ Best p o) ∨
        2 ^ 63 ≤ budget ∧ ∃ failure,
          tableObstacle? (p.capacity + 1) (fitting p.weights p.capacity).length = some failure ∧
          (solve p.weights p.values p.capacity).outcome = .error failure) := by
  have sound := sound_of_no_defect accepted
  refine ⟨never_wraps sound, ?_⟩
  rcases items : fitting p.weights p.capacity with _ | ⟨entry, others⟩
  · left
    have empty : selection p = [] := by
      rw [fitting_eq, entries, List.map_eq_nil_iff, List.reverse_eq_nil_iff] at items
      rw [selection, items, chosen]
    have best := best_selection sound 0
    rw [empty] at best
    refine ⟨_, ?_, best⟩
    rw [solve, items]
    rfl
  · rcases obstacle : tableObstacle? (p.capacity + 1) (entry :: others).length with _ | failure
    · exact .inl ⟨_, solve_eq_selection sound items obstacle, best_selection sound _⟩
    · right
      refine ⟨budget_of_obstacle sound items obstacle, failure, rfl, ?_⟩
      rw [solve, items]
      simp only [obstacle]
      rfl

deriving instance DecidableEq for Outcome

/-- Two ways of packing as much, with an item that is too heavy, one without weight and one without
value. -/
def equalPacks : Problem.Knapsack where
  weights := [3, 2, 2, 3, 9, 0, 1]
  values := [4, 3, 3, 4, 50, 2, 0]
  capacity := 5

/-- The items with the lower numbers are taken. -/
theorem solve_best_equalPacks :
    equalPacks.defect? (2 ^ 28) = none ∧ NeverWraps equalPacks ∧
      (solve equalPacks.weights equalPacks.values equalPacks.capacity).outcome =
        .ok ⟨[0, 1, 5], 5, 9, 36⟩ ∧ Best equalPacks ⟨[0, 1, 5], 5, 9, 36⟩ := by
  have sound : equalPacks.defect? (2 ^ 28) = none := by rfl
  have solved : (solve equalPacks.weights equalPacks.values equalPacks.capacity).outcome =
      .ok ⟨[0, 1, 5], 5, 9, 36⟩ := by
    decide +kernel
  obtain ⟨whole, ⟨o, found, best⟩ | ⟨large, _⟩⟩ := solve_best sound
  · rw [solved] at found
    cases found
    exact ⟨sound, whole, solved, best⟩
  · exact absurd large (by decide)

end Solver

end Optima.Knapsack
