import Optima.Assignment.Ragged
import Optima.Proofs.Assignment.Agreement
import Optima.Proofs.Assignment.Failures

/-!
Squares of integers given by rows. Rows of the right length lack no entry and leave none over, so
each algorithm on them is the algorithm on the square that they state (`States.hungarian_eq`,
`States.auction_eq`, `States.canonical_eq`). There both solvers end with a permutation of least cost
whatever the integers are (`hungarian_cheapest`, `auction_cheapest`).

The search for the first of these starts from any permutation. It either gives the first one, and
then it has started from one of least cost, or it fails (`canonical_settles`). The first one is a
matter of the square alone, so no two permutations lead to different ones.
-/

namespace Optima.Assignment

open Lexicographic (price IsFirst Near Matching Modest notOptimal)

variable {n : Nat}

/-- A permutation that costs no more than any other. -/
structure Cheapest (cost : Square n Int) (columnOf : Fin n → Fin n) : Prop where
  bijective : Function.Bijective columnOf
  least : ∀ σ : Equiv.Perm (Fin n), price cost columnOf ≤ price cost σ

theorem Cheapest.of_injective {cost : Square n Int} {columnOf : Fin n → Fin n}
    (own : Function.Injective columnOf)
    (least : ∀ σ : Fin n → Fin n, Function.Injective σ → price cost columnOf ≤ price cost σ) :
    Cheapest cost columnOf :=
  ⟨Finite.injective_iff_bijective.mp own, fun σ => least σ σ.injective⟩

namespace Ragged

/-- Rows that state a square of integers. -/
structure States (rows : List (List Number)) (cost : Square rows.length Int) : Prop where
  width : ∀ row ∈ rows, row.length = rows.length
  value : ∀ i j : Fin rows.length,
    rows[i.val]?.bind (·[j.val]?) = some (.int (entry cost i j))

variable {rows : List (List Number)} {cost : Square rows.length Int}

/-! ### Nothing lacks and nothing is left over -/

theorem States.entry_square (states : States rows cost) (i j : Fin rows.length) :
    entry (square rows) i j = .int (entry cost i j) := by
  rw [square, entry, pad, Table.get_tabulate, Table.get_tabulate, states.value i j,
    Option.getD_some]

theorem States.shortRow?_eq_none (states : States rows cost) : shortRow? rows = none := by
  unfold shortRow?
  rw [List.find?_eq_none]
  intro i _
  rw [decide_eq_true_eq, Fin.getElem_fin, states.width _ (List.getElem_mem i.isLt)]
  exact lt_irrefl _

theorem States.ints?_eq (states : States rows cost) : ints? (square rows) = some cost := by
  rw [ints?_of_entries (f := fun i j => entry cost i j) states.entry_square]
  congr 1
  exact Table.ext fun i => Table.ext fun j => entry_squareOf _ i j

/-- The Hungarian method on the rows is that on the square. -/
theorem States.hungarian_eq (states : States rows cost) :
    hungarian rows = Hungarian.solveIn cost := by
  unfold hungarian
  rw [states.shortRow?_eq_none]
  dsimp only
  rw [Assignment.hungarian, states.ints?_eq]

theorem States.integral?_eq (states : States rows cost) : integral? rows = some (cost, []) := by
  have inside := beyond_eq_nil fun row known => (states.width row known).le
  unfold integral?
  rw [states.shortRow?_eq_none, states.ints?_eq, inside]
  rfl

/-- The auction on the rows is that on the square, with no entries outside it, and needs nobody's
patience. -/
theorem States.auction_eq (states : States rows cost) (patience : Nat) :
    auction patience rows = Auction.solve cost [] := by
  unfold auction
  by_cases single : rows.length = 1
  · have some_row : rows.length ≠ 0 := by omega
    rw [if_pos single, Auction.solve, if_neg some_row, if_pos single]
  · rw [if_neg single, states.integral?_eq]

/-! ### Permutations given by lists -/

/-- The columns of a permutation by number. -/
def numbers (columnOf : Table n (Fin n)) : List Int := columnOf.values.map fun j => (j.val : Int)

theorem columnsOf?_numbers (columnOf : Table n (Fin n)) :
    columnsOf? n (numbers columnOf) = some columnOf.values := by
  unfold columnsOf? numbers
  induction columnOf.values with
  | nil => rfl
  | cons j rest ih =>
    rw [List.map_cons, List.mapM_cons, Table.index?_val, ih]
    rfl

/-- The rows that claim columns are those of the list. -/
theorem claims_lt {columns : List (Fin n)} (short : columns.length ≤ n) (j : Fin n) :
    (claims columns).get j < n := by
  have start : ∀ j, (Table.fill n 0).get j < n := by
    intro j
    rw [Table.get_fill]
    exact j.pos
  have numbered : ∀ claim ∈ columns.zipIdx, claim.2 < n := fun claim known =>
    (List.snd_lt_of_mem_zipIdx known).trans_le short
  unfold claims
  generalize Table.fill n 0 = rowOf at start ⊢
  generalize columns.zipIdx = listed at numbered ⊢
  induction listed generalizing rowOf with
  | nil => exact start j
  | cons claim rest ih =>
    refine ih _ (fun k => ?_) fun later known => numbered later (List.mem_cons_of_mem _ known)
    rw [Table.get_update]
    split
    · exact numbered claim List.mem_cons_self
    · exact start k

/-- The search from the columns of a permutation is that from the permutation. -/
theorem States.canonical_eq (states : States rows cost)
    (columnOf : Table rows.length (Fin rows.length)) (tolerance : Number) :
    canonical rows (numbers columnOf) tolerance =
      Lexicographic.solveIn cost columnOf tolerance := by
  have length : columnOf.values.length = rows.length := by
    rw [Table.values, List.length_map, List.length_finRange]
  have claimed : (List.finRange rows.length).find? (fun j =>
      rows.length ≤ (claims columnOf.values).get j) = none := by
    rw [List.find?_eq_none]
    intro j _
    rw [decide_eq_true_eq, not_le]
    exact claims_lt length.le j
  have same : (Table.tabulate fun i => columnOf.values[i.val]?.getD i) = columnOf := by
    refine Table.ext fun i => ?_
    rw [Table.get_tabulate, Table.values_eq_ofFn]
    simp
  unfold canonical
  rw [columnsOf?_numbers]
  dsimp only
  rw [states.shortRow?_eq_none, claimed, same]
  simp only [length, lt_irrefl, if_false, Option.isSome_none, Bool.false_eq_true]
  rw [Assignment.canonical, states.ints?_eq]

/-! ### Permutations of least cost -/

/-- The Hungarian method ends with a permutation of least cost, whatever the integers are, after
scanning from one column for each row at least. -/
theorem hungarian_cheapest (states : States rows cost) :
    ∃ columnOf scans, (hungarian rows).outcome = .ok (columnOf, scans) ∧
      Cheapest cost columnOf.get ∧ rows.length ≤ scans ∧
      scans ≤ rows.length * (rows.length + 1) / 2 := by
  obtain ⟨low, high, between⟩ := Hungarian.exists_between fun i j => entry cost i j
  obtain ⟨columnOf, scans, ok, ⟨le_scans, scans_le⟩, row, column, feasible, tight⟩ :=
    Hungarian.solveIn_ends Quantity.faithful_int (fun _ _ => trivial) between fun _ _ => rfl
  have own := Hungarian.solveIn_injective ok
  refine ⟨columnOf, scans, ?_, Cheapest.of_injective own fun σ other => ?_, le_scans, by omega⟩
  · rw [states.hungarian_eq]
    exact ok
  · exact Lexicographic.price_le_of_tight feasible tight own other

/-- Integers of both signs. -/
def mixedSigns : List (List Number) :=
  [[.int 6, .int (-7), .int 3], [.int 2, .int (-9), .int 5], [.int 3, .int 2, .int (-2)]]

/-- The square that they make. -/
def mixedSquare : Square mixedSigns.length Int := #v[#v[6, -7, 3], #v[2, -9, 5], #v[3, 2, -2]]

/-- The first two rows both do best in the second column, and the first has more to lose. -/
theorem hungarian_cheapest_mixedSigns :
    States mixedSigns mixedSquare ∧
      (hungarian mixedSigns).outcome = .ok ((#v[1, 0, 2] : Table 3 (Fin 3)), 6) ∧
      Cheapest mixedSquare (#v[1, 0, 2] : Table 3 (Fin 3)).get := by
  have states : States mixedSigns mixedSquare := ⟨by decide, by decide⟩
  have scanned : (hungarian mixedSigns).outcome = .ok ((#v[1, 0, 2] : Table 3 (Fin 3)), 6) := by
    decide +kernel
  obtain ⟨columnOf, scans, ok, cheapest, -⟩ := hungarian_cheapest states
  rw [scanned] at ok
  cases ok
  exact ⟨states, scanned, cheapest⟩

/-- The auction ends with a permutation of least cost, whatever the integers are. -/
theorem auction_cheapest (states : States rows cost) (some_row : 0 < rows.length)
    (patience : Nat) : ∃ columnOf bids, (auction patience rows).outcome = .ok (columnOf, bids) ∧
      Cheapest cost columnOf.get := by
  obtain ⟨columnOf, bids, ok, least⟩ := Auction.solve_cheapest cost [] some_row
  refine ⟨columnOf, bids, ?_, Cheapest.of_injective (Auction.solve_injective ok) least⟩
  rw [states.auction_eq]
  exact ok

/-- The same rows bid for the columns. -/
theorem auction_cheapest_mixedSigns :
    States mixedSigns mixedSquare ∧ 0 < mixedSigns.length ∧
      (auction 0 mixedSigns).outcome = .ok ((#v[1, 0, 2] : Table 3 (Fin 3)), 13) ∧
      Cheapest mixedSquare (#v[1, 0, 2] : Table 3 (Fin 3)).get := by
  have states : States mixedSigns mixedSquare := ⟨by decide, by decide⟩
  have auctioned : (auction 0 mixedSigns).outcome = .ok ((#v[1, 0, 2] : Table 3 (Fin 3)), 13) := by
    decide +kernel
  obtain ⟨columnOf, bids, ok, cheapest⟩ := auction_cheapest states (by decide) 0
  rw [auctioned] at ok
  cases ok
  exact ⟨states, by decide, auctioned, cheapest⟩

/-! ### The first of them -/

/-- The search from a permutation ends. It gives the first permutation of least cost, the same from
wherever it starts, and then it has started from one of least cost. Otherwise it refuses the
permutation, and if that is one of least cost, then no potentials near the least entries certify any;
or there are more rows than doubles can count. -/
theorem canonical_settles (states : States rows cost) (nonneg : ∀ i j, 0 ≤ entry cost i j)
    (small : ∀ i j, ((rows.length : Int) + 1) ^ 2 * entry cost i j ≤ 2 ^ 53) :
    ∃ first : Table rows.length (Fin rows.length), IsFirst cost first.get ∧
      ∀ columnOf : Table rows.length (Fin rows.length), Function.Injective columnOf.get →
        let outcome := (canonical rows (numbers columnOf) (.real Binary64.zero)).outcome
        (outcome = .ok first ∧ Cheapest cost columnOf.get) ∨
        (outcome = .error notOptimal ∧ (Cheapest cost columnOf.get →
          ∀ σ row column, Function.Injective σ → ¬ Near cost σ row column)) ∨
        (outcome = .error (.fault .tooLarge) ∧ 2 ^ 53 < 2 * rows.length + 1) := by
  have modest := modest_of_nonneg nonneg small
  obtain ⟨σ, isFirst⟩ := Lexicographic.exists_isFirst cost
  have listed : (Table.tabulate σ).get = σ := funext (Table.get_tabulate σ)
  refine ⟨Table.tabulate σ, listed.symm ▸ isFirst, fun columnOf own => ?_⟩
  dsimp only
  rw [states.canonical_eq]
  rcases Lexicographic.solveIn_cases modest own with ⟨best, ok⟩ | ⟨refused, far⟩ | ⟨failed, many, -⟩
  · left
    obtain ⟨bestFirst, same⟩ := Lexicographic.solveIn_first modest own ok
    have equal : best = Table.tabulate σ :=
      Table.ext fun i => by rw [bestFirst.unique isFirst, listed]
    rw [ok, equal]
    exact ⟨rfl, Cheapest.of_injective own fun τ other => same ▸ bestFirst.least τ other⟩
  · right
    left
    refine ⟨refused, fun cheapest τ row column other near => far row column ?_⟩
    exact near.of_least other own fun ρ different =>
      cheapest.least (Equiv.ofBijective ρ (Finite.injective_iff_bijective.mp different))
  · right
    right
    exact ⟨failed, by exact_mod_cast many⟩

/-- Rows in which all permutations cost the same. -/
def levelRows : List (List Number) :=
  [[.int 1, .int 2, .int 1], [.int 2, .int 3, .int 2], [.int 1, .int 2, .int 1]]

/-- The square that they make. -/
def levelSquare : Square levelRows.length Int := #v[#v[1, 2, 1], #v[2, 3, 2], #v[1, 2, 1]]

/-- From the last permutation the first one is found. -/
theorem canonical_settles_levelRows :
    States levelRows levelSquare ∧ (∀ i j, 0 ≤ entry levelSquare i j) ∧
      (∀ i j, ((levelRows.length : Int) + 1) ^ 2 * entry levelSquare i j ≤ 2 ^ 53) ∧
      (canonical levelRows [2, 1, 0] (.real Binary64.zero)).outcome =
        .ok (#v[0, 1, 2] : Table 3 (Fin 3)) ∧
      IsFirst levelSquare (#v[0, 1, 2] : Table 3 (Fin 3)).get ∧
      Cheapest levelSquare (#v[2, 1, 0] : Table 3 (Fin 3)).get := by
  have states : States levelRows levelSquare := ⟨by decide, by decide⟩
  have nonneg : ∀ i j, 0 ≤ entry levelSquare i j := by decide
  have small : ∀ i j, ((levelRows.length : Int) + 1) ^ 2 * entry levelSquare i j ≤ 2 ^ 53 := by
    decide
  have settled : (canonical levelRows [2, 1, 0] (.real Binary64.zero)).outcome =
      .ok (#v[0, 1, 2] : Table 3 (Fin 3)) := by
    decide +kernel
  have different : Function.Injective (#v[2, 1, 0] : Table 3 (Fin 3)).get := by decide
  have listed : numbers (#v[2, 1, 0] : Table 3 (Fin 3)) = [2, 1, 0] := by decide
  refine ⟨states, nonneg, small, settled, ?_⟩
  obtain ⟨first, isFirst, each⟩ := canonical_settles states nonneg small
  rcases listed ▸ each (#v[2, 1, 0] : Table 3 (Fin 3)) different with
    ⟨ok, cheapest⟩ | ⟨refused, -⟩ | ⟨failed, -⟩
  · rw [settled] at ok
    cases ok
    exact ⟨isFirst, cheapest⟩
  · rw [settled] at refused
    cases refused
  · rw [settled] at failed
    cases failed

end Ragged

end Optima.Assignment
