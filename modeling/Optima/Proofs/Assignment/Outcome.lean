import Optima.Assignment.Basic
import Optima.Proofs.Assignment.Auction
import Optima.Proofs.Assignment.Hungarian
import Optima.Proofs.Assignment.Lexicographic
import Optima.Proofs.Assignment.Pairing

/-!
Pairings as they are returned. Both algorithms hand a permutation of the square to the search for
the lexicographically smallest one, and its result does not depend on which permutation that was
(`Lexicographic.solveIn_first`). The pairs inside the matrix inherit that they are of least cost and
smallest among those from the permutations that extend them (`canonical_of_isFirst`).
-/

namespace Optima.Assignment

variable {n : Nat}

/-! ### Matrices of integers -/

/-- The square table of a function. -/
abbrev squareOf (f : Fin n → Fin n → Int) : Square n Int :=
  Table.tabulate fun i => Table.tabulate fun j => f i j

theorem entry_squareOf (f : Fin n → Fin n → Int) (i j : Fin n) :
    entry (squareOf f) i j = f i j := by
  rw [entry, Table.get_tabulate, Table.get_tabulate]

theorem values_of_entries {cost : Square n Number} {f : Fin n → Fin n → Int}
    (entries : ∀ i j, entry cost i j = .int (f i j)) (i : Fin n) :
    (cost.get i).values = (List.finRange n).map fun j => Number.int (f i j) :=
  List.map_congr_left fun j _ => entries i j

theorem ints?_of_entries {cost : Square n Number} {f : Fin n → Fin n → Int}
    (entries : ∀ i j, entry cost i j = .int (f i j)) : ints? cost = some (squareOf f) := by
  have all : (cost.values.all fun row => row.values.all fun c => c.int?.isSome) = true := by
    rw [List.all_eq_true]
    intro row known
    obtain ⟨i, _, rfl⟩ := List.mem_map.mp known
    rw [values_of_entries entries, List.all_eq_true]
    intro c member
    obtain ⟨j, _, rfl⟩ := List.mem_map.mp member
    rfl
  rw [ints?, if_pos all]
  simp only [entries, Number.int?, Option.getD_some]

theorem mapM_truncate {xs : List Int} :
    (xs.map Number.int).mapM Number.truncate = .ok xs := by
  induction xs with
  | nil => rfl
  | cons x xs ih =>
    rw [List.map_cons, List.mapM_cons, ih]
    rfl

theorem truncated_of_entries {cost : Square n Number} {f : Fin n → Fin n → Int}
    (entries : ∀ i j, entry cost i j = .int (f i j)) : truncated cost = .ok (squareOf f) := by
  have rows : ∀ is : List (Fin n), (is.map cost.get).mapM (fun row =>
      row.values.mapM Number.truncate) = .ok (is.map fun i => (List.finRange n).map (f i)) := by
    intro is
    induction is with
    | nil => rfl
    | cons i is ih =>
      have row : (cost.get i).values = ((List.finRange n).map (f i)).map Number.int := by
        rw [values_of_entries entries, List.map_map]
        rfl
      rw [List.map_cons, List.mapM_cons, ih, row, mapM_truncate]
      rfl
  unfold truncated
  change Except.bind ((List.map cost.get (List.finRange n)).mapM _) _ = _
  rw [rows]
  refine congrArg Except.ok (Table.ext fun i => Table.ext fun j => ?_)
  simp [pad]

/-! ### Whichever algorithm runs -/

/-- A pairing comes from a permutation that one of the algorithms found, by the search for the
lexicographically smallest one. -/
theorem solve_from_square {costs : List (List Number)} {agents tasks : Nat}
    (height : costs.length = agents) (width : (costs.head?.map List.length).getD 0 = tasks)
    {f : Fin (max agents tasks) → Fin (max agents tasks) → Int}
    (entries : ∀ i j, entry (pad (.int 0) (max agents tasks) costs) i j = .int (f i j))
    (whole : (costs.all fun row => row.all Number.isInteger) = true)
    {threshold tolerance : Number} {o : Outcome}
    (solved : (solve costs threshold tolerance).outcome = .ok o) :
    ∃ columnOf best : Table (max agents tasks) (Fin (max agents tasks)),
      Function.Injective columnOf.get ∧
      (Lexicographic.solveIn (squareOf f) columnOf (.real Binary64.zero)).outcome = .ok best ∧
      o.pairs = pairsOf agents tasks best.get ∧ totalOf costs o.pairs = .ok o.totalCost := by
  subst height
  subst width
  have integers := ints?_of_entries entries
  unfold solve at solved
  dsimp only at solved
  split at solved
  · cases solved
  · rw [whole, Bool.true_and] at solved
    split at solved
    · rw [Run.outcome_bind_eq_ok_iff] at solved
      obtain ⟨square, exact, solved⟩ := solved
      rw [Run.outcome_bind_eq_ok_iff] at solved
      obtain ⟨outside, _, solved⟩ := solved
      rw [Run.outcome_bind_eq_ok_iff] at solved
      obtain ⟨⟨columnOf, bids⟩, auctioned, solved⟩ := solved
      rw [Run.outcome_bind_eq_ok_iff] at solved
      obtain ⟨best, first, solved⟩ := solved
      rw [pure_bind, Run.outcome_bind_eq_ok_iff] at solved
      obtain ⟨total, summed, solved⟩ := solved
      cases solved
      rw [truncated_of_entries entries] at exact
      cases exact
      have again : ∀ i j, entry (Table.tabulate fun i => Table.tabulate fun j =>
          Number.int (entry (squareOf f) i j)) i j = Number.int (f i j) := by
        intro i j
        rw [entry, Table.get_tabulate, Table.get_tabulate, entry_squareOf]
      rw [canonical, ints?_of_entries again] at first
      exact ⟨columnOf, best, Auction.solve_injective auctioned, first, rfl, summed⟩
    · rw [Run.outcome_bind_eq_ok_iff] at solved
      obtain ⟨⟨columnOf, scans⟩, scanned, solved⟩ := solved
      rw [pure_bind, Run.outcome_bind_eq_ok_iff] at solved
      obtain ⟨best, first, solved⟩ := solved
      rw [pure_bind, Run.outcome_bind_eq_ok_iff] at solved
      obtain ⟨total, summed, solved⟩ := solved
      cases solved
      rw [hungarian, integers] at scanned
      rw [canonical, integers] at first
      exact ⟨columnOf, best, Hungarian.solveIn_injective scanned, first, rfl, summed⟩

/-! ### Natural numbers as costs -/

variable {agents tasks : Nat} {cost : Nat → Nat → Nat}

/-- The rows of a matrix of natural numbers. -/
def rowsOf (agents tasks : Nat) (cost : Nat → Nat → Nat) : List (List Number) :=
  (List.range agents).map fun i => (List.range tasks).map fun j => .int (cost i j)

theorem getElem?_rowsOf {i j : Nat} (agent : i < agents) (task : j < tasks) :
    ((rowsOf agents tasks cost)[i]?.bind (·[j]?)) = some (.int (cost i j)) := by
  simp [rowsOf, agent, task]

theorem entry_pad_rowsOf (i j : Fin n) :
    entry (pad (.int 0) n (rowsOf agents tasks cost)) i j =
      .int (padded agents tasks cost i.val j.val) := by
  rw [entry, pad, Table.get_tabulate, Table.get_tabulate, padded]
  by_cases agent : i.val < agents
  · by_cases task : j.val < tasks
    · rw [getElem?_rowsOf agent task, if_pos ⟨agent, task⟩]
      rfl
    · rw [if_neg fun both => task both.2]
      simp [rowsOf, agent, not_lt.mp task]
  · rw [if_neg fun both => agent both.1]
    simp [rowsOf, not_lt.mp agent]

theorem width_rowsOf (someAgent : 0 < agents) :
    ((rowsOf agents tasks cost).head?.map List.length).getD 0 = tasks := by
  obtain ⟨before, rfl⟩ := Nat.exists_eq_add_of_lt someAgent
  simp [rowsOf, List.range_succ_eq_map]

theorem whole_rowsOf :
    ((rowsOf agents tasks cost).all fun row => row.all Number.isInteger) = true := by
  simp [rowsOf, Number.isInteger]

/-- The square that holds a matrix of natural numbers in its corner. -/
abbrev paddedSquare (n agents tasks : Nat) (cost : Nat → Nat → Nat) : Square n Int :=
  squareOf fun i j => padded agents tasks cost i.val j.val

/-- Natural numbers that the square of one more than the number of rows does not take beyond the
integers that doubles represent. -/
theorem modest_squareOf {f : Fin n → Fin n → Nat} (small : ∀ i j, (n + 1) ^ 2 * f i j ≤ 2 ^ 53) :
    Lexicographic.Modest (squareOf fun i j => f i j) ((2 ^ 53 / (n + 1) ^ 2 : Nat) : Int) := by
  have positive : 0 < (n + 1) ^ 2 := Nat.pow_pos (Nat.succ_pos n)
  constructor
  · intro i j
    rw [entry_squareOf]
    exact Int.natCast_nonneg _
  · intro i j
    rw [entry_squareOf, Int.ofNat_le, Nat.le_div_iff_mul_le positive, mul_comm]
    exact small i j
  · have product := Nat.mul_div_le (2 ^ 53) ((n + 1) ^ 2)
    exact_mod_cast product

/-- The same for a square of integers that are not negative. -/
theorem modest_of_nonneg {square : Square n Int} (nonneg : ∀ i j, 0 ≤ entry square i j)
    (small : ∀ i j, ((n : Int) + 1) ^ 2 * entry square i j ≤ 2 ^ 53) :
    Lexicographic.Modest square ((2 ^ 53 / (n + 1) ^ 2 : Nat) : Int) := by
  have natural : square = squareOf fun i j => ((entry square i j).toNat : Int) := by
    refine Table.ext fun i => Table.ext fun j => ?_
    have stated := entry_squareOf (fun i j => ((entry square i j).toNat : Int)) i j
    exact (Int.toNat_of_nonneg (nonneg i j)).symm.trans stated.symm
  rw [natural]
  apply modest_squareOf
  intro i j
  have bound := small i j
  rw [← Int.toNat_of_nonneg (nonneg i j)] at bound
  exact_mod_cast bound

theorem modest_padded (side : n = max agents tasks)
    (small : ∀ i < agents, ∀ j < tasks, (max agents tasks + 1) ^ 2 * cost i j ≤ 2 ^ 53) :
    Lexicographic.Modest (paddedSquare n agents tasks cost)
      ((2 ^ 53 / (n + 1) ^ 2 : Nat) : Int) := by
  rw [← side] at small
  apply modest_squareOf
  intro i j
  rw [padded]
  split
  · rename_i inside
    exact small i.val inside.1 j.val inside.2
  · rw [Nat.mul_zero]
    exact Nat.zero_le _

/-- A fold whose steps add costs, as far as sums are within a bound, adds up the cost of pairs. -/
theorem exists_foldlM_charge (shows : Number → Nat → Prop) {most : Nat}
    {step : Number → Nat × Nat → Except Failure Number} {pairs : List (Nat × Nat)}
    (adds : ∀ p ∈ pairs, ∀ total sum, shows total sum → sum + cost p.1 p.2 ≤ most →
      ∃ total', step total p = .ok total' ∧ shows total' (sum + cost p.1 p.2))
    {total : Number} {sum : Nat} (start : shows total sum)
    (within : sum + charge cost pairs ≤ most) :
    ∃ total', pairs.foldlM step total = .ok total' ∧ shows total' (sum + charge cost pairs) := by
  induction pairs generalizing total sum with
  | nil => exact ⟨total, rfl, start⟩
  | cons p rest ih =>
    have split : charge cost (p :: rest) = cost p.1 p.2 + charge cost rest := by
      rw [charge, charge, List.map_cons, List.sum_cons]
    rw [split, ← Nat.add_assoc] at within ⊢
    obtain ⟨next, stepped, shown⟩ := adds p List.mem_cons_self total sum start (by omega)
    obtain ⟨total', folded, all⟩ :=
      ih (fun q known => adds q (List.mem_cons_of_mem _ known)) shown within
    refine ⟨total', ?_, all⟩
    rw [List.foldlM_cons, stepped]
    exact folded

theorem totalOf_eq {pairs : List (Nat × Nat)} (inside : ∀ p ∈ pairs, p.1 < agents ∧ p.2 < tasks) :
    totalOf (rowsOf agents tasks cost) pairs = .ok (.int (charge cost pairs)) := by
  obtain ⟨total, ok, rfl⟩ : ∃ total, totalOf (rowsOf agents tasks cost) pairs = .ok total ∧
      total = .int ((0 + charge cost pairs : Nat) : Int) := by
    refine exists_foldlM_charge (fun total sum => total = .int sum)
      (fun p known total sum shown _ => ?_) rfl le_rfl
    obtain ⟨agent, task⟩ := inside p known
    subst shown
    simp only [getElem?_rowsOf agent task]
    rw [Nat.cast_add]
    exact ⟨_, rfl, rfl⟩
  rwa [Nat.zero_add] at ok

/-! ### The pairing that is returned -/

/-- Pairs in the order of their agents, as many as there can be, of least cost, and first among the
pairings of least cost by the sequence of tasks. -/
structure Canonical (agents tasks : Nat) (cost : Nat → Nat → Nat) (pairs : List (Nat × Nat)) :
    Prop where
  pairing : Pairing agents tasks pairs
  sorted : (pairs.map Prod.fst).Pairwise (· < ·)
  least : ∀ other, Pairing agents tasks other → charge cost pairs ≤ charge cost other
  first : ∀ other, Pairing agents tasks other → charge cost other = charge cost pairs →
    taskSequence agents tasks pairs ≤ taskSequence agents tasks other

/-- What a permutation of the padded square costs is what its pairs inside the matrix cost. -/
theorem price_eq_charge (side : n = max agents tasks) {σ : Fin n → Fin n}
    (injective : Function.Injective σ) {choice : Nat → Nat} (fits : Fits agents tasks choice)
    (contains : ∀ k : Fin n, k.val < agents → choice k.val < tasks → (σ k).val = choice k.val) :
    Lexicographic.price (paddedSquare n agents tasks cost) σ =
      chargeOf agents tasks cost choice := by
  rw [← fits.sum_padded side injective contains, Lexicographic.price, Nat.cast_sum]
  exact Finset.sum_congr rfl fun k _ => entry_squareOf _ k (σ k)

theorem price_eq_charge_pairsOf (side : n = max agents tasks) {σ : Fin n → Fin n}
    (injective : Function.Injective σ) :
    Lexicographic.price (paddedSquare n agents tasks cost) σ =
      charge cost (pairsOf agents tasks σ) := by
  have pairing : Pairing agents tasks (pairsOf agents tasks σ) := pairing_pairsOf side injective
  rw [pairing.charge_eq]
  apply price_eq_charge side injective pairing.fits
  intro k agent chosen
  rw [taskOf_pairsOf side injective agent] at chosen ⊢
  omega

/-- A pairing that costs as little gives no agent a lower task, as long as the agents before have
the same tasks. It is part of a permutation that agrees with the first one as far as that. -/
theorem taskOf_le_of_agrees (side : n = max agents tasks) {σ : Fin n → Fin n}
    (isFirst : Lexicographic.IsFirst (paddedSquare n agents tasks cost) σ)
    {other : List (Nat × Nat)} (others : Pairing agents tasks other)
    (same : charge cost other = charge cost (pairsOf agents tasks σ)) {i : Nat} (agent : i < agents)
    (agrees : ∀ k < i, taskOf tasks other k = taskOf tasks (pairsOf agents tasks σ) k) :
    taskOf tasks (pairsOf agents tasks σ) i ≤ taskOf tasks other i := by
  have pairing : Pairing agents tasks (pairsOf agents tasks σ) :=
    pairing_pairsOf side isFirst.injective
  have own : ∀ k : Fin n, k.val < agents → taskOf tasks (pairsOf agents tasks σ) k.val =
      min (σ k).val tasks := fun k known => taskOf_pairsOf side isFirst.injective known
  by_cases chosen : taskOf tasks other i < tasks
  · have inside : i < n := side ▸ lt_max_of_lt_left agent
    have beyond : ∀ k : Fin n, k.val < i → tasks ≤ taskOf tasks other k.val →
        tasks ≤ (σ k).val := by
      intro k soon unchosen
      rw [agrees k.val soon, own k (soon.trans agent)] at unchosen
      omega
    obtain ⟨τ, different, contains, follows⟩ :=
      others.fits.extend side isFirst.injective i beyond
    have equal : Lexicographic.price (paddedSquare n agents tasks cost) τ =
        Lexicographic.price (paddedSquare n agents tasks cost) σ := by
      rw [price_eq_charge_pairsOf side isFirst.injective,
        price_eq_charge side different others.fits contains, ← others.charge_eq, same]
    have before : ∀ k : Fin n, k < ⟨i, inside⟩ → τ k = σ k := by
      intro k soon
      have agent_k : k.val < agents := lt_trans soon agent
      by_cases task : taskOf tasks other k.val < tasks
      · apply Fin.ext
        rw [contains k agent_k task]
        rw [agrees k.val soon, own k agent_k] at task ⊢
        omega
      · exact follows k agent_k soon (not_lt.mp task)
    have lower : (σ ⟨i, inside⟩).val ≤ (τ ⟨i, inside⟩).val :=
      isFirst.first τ different equal ⟨i, inside⟩ before
    have value : (τ ⟨i, inside⟩).val = taskOf tasks other i := contains ⟨i, inside⟩ agent chosen
    calc taskOf tasks (pairsOf agents tasks σ) i = min (σ ⟨i, inside⟩).val tasks :=
          own ⟨i, inside⟩ agent
      _ ≤ (σ ⟨i, inside⟩).val := min_le_left _ _
      _ ≤ taskOf tasks other i := value ▸ lower
  · exact (pairing.taskOf_le i).trans (not_lt.mp chosen)

/-- The pairs of the first permutation of least cost are the first pairing of least cost. -/
theorem canonical_of_isFirst (side : n = max agents tasks) {σ : Fin n → Fin n}
    (isFirst : Lexicographic.IsFirst (paddedSquare n agents tasks cost) σ) :
    Canonical agents tasks cost (pairsOf agents tasks σ) := by
  constructor
  · exact pairing_pairsOf side isFirst.injective
  · exact pairsOf_sorted agents tasks σ
  · intro other others
    obtain ⟨τ, different, contains, _⟩ := others.fits.extend side isFirst.injective 0
      fun k soon => absurd soon (Nat.not_lt_zero _)
    have least := isFirst.least τ different
    rw [price_eq_charge_pairsOf side isFirst.injective,
      price_eq_charge side different others.fits contains, ← others.charge_eq] at least
    exact_mod_cast least
  · intro other others same
    exact map_range_le fun i agent agrees =>
      taskOf_le_of_agrees side isFirst others same agent agrees

/-- Whatever the threshold between the algorithms and the tolerance are, the pairs returned are
canonical and the total is their cost. The bound on the entries leaves all labels of the search for
them within the integers that doubles represent. -/
theorem solve_canonical {threshold tolerance : Number} {o : Outcome}
    (small : ∀ i < agents, ∀ j < tasks, (max agents tasks + 1) ^ 2 * cost i j ≤ 2 ^ 53)
    (solved : (solve (rowsOf agents tasks cost) threshold tolerance).outcome = .ok o) :
    Canonical agents tasks cost o.pairs ∧ o.totalCost = .int (charge cost o.pairs) := by
  rcases Nat.eq_zero_or_pos agents with rfl | someAgent
  · cases solved
  · have height : (rowsOf agents tasks cost).length = agents := by simp [rowsOf]
    obtain ⟨columnOf, best, injective, first, pairs, total⟩ := solve_from_square height
      (width_rowsOf someAgent) entry_pad_rowsOf whole_rowsOf solved
    have isFirst := (Lexicographic.solveIn_first (modest_padded rfl small) injective first).1
    have canonical := canonical_of_isFirst rfl isFirst
    rw [← pairs] at canonical
    refine ⟨canonical, ?_⟩
    rw [totalOf_eq fun p known => ⟨canonical.pairing.agents_lt p known,
      canonical.pairing.tasks_lt p known⟩] at total
    exact (Except.ok.inj total).symm

deriving instance DecidableEq for Outcome

/-- Three agents and two tasks. Only the second agent does worse at the second task. -/
def unevenCost (i j : Nat) : Nat := i * j % 2 + 1

/-- The second agent goes without a task, whichever algorithm runs. -/
theorem solve_canonical_unevenCost :
    (∀ i < 3, ∀ j < 2, (max 3 2 + 1) ^ 2 * unevenCost i j ≤ 2 ^ 53) ∧
      (solve (rowsOf 3 2 unevenCost) (.int 64) (.real 0)).outcome =
        .ok ⟨[(0, 0), (2, 1)], .int 2, .hungarian, 5⟩ ∧
      (solve (rowsOf 3 2 unevenCost) (.int 1) (.real 0)).outcome =
        .ok ⟨[(0, 0), (2, 1)], .int 2, .auction, 6⟩ ∧
      Canonical 3 2 unevenCost [(0, 0), (2, 1)] := by
  have small : ∀ i < 3, ∀ j < 2, (max 3 2 + 1) ^ 2 * unevenCost i j ≤ 2 ^ 53 := by decide
  have scanned : (solve (rowsOf 3 2 unevenCost) (.int 64) (.real 0)).outcome =
      .ok ⟨[(0, 0), (2, 1)], .int 2, .hungarian, 5⟩ := by
    decide +kernel
  have auctioned : (solve (rowsOf 3 2 unevenCost) (.int 1) (.real 0)).outcome =
      .ok ⟨[(0, 0), (2, 1)], .int 2, .auction, 6⟩ := by
    decide +kernel
  exact ⟨small, scanned, auctioned, (solve_canonical small auctioned).1⟩

end Optima.Assignment
