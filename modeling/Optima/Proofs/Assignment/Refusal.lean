import Mathlib.Data.Fin.VecNotation
import Optima.Proofs.Assignment.Outcome

/-!
Which assignments are refused as not of least cost. An assignment that is not of least cost always
is, since a search that ends leaves potentials that certify the assignment
(`Lexicographic.solveIn_first`), and a search always ends: every column that is looked at was
waiting at first or has used up one of the improvements that its label may see
(`Search.visitsLeft`).

The converse fails. The label of a column may be improved by every other column in one pass through
the queue, and again in later passes, so that more than `n` improvements are no sign of a cheaper
assignment (`canonical_refuses_descending`). What keeps an assignment of least cost from being
refused is that labels cannot fall far: they stay above potentials that certify it, and each
improvement lets a label fall by one at least (`Search.Above`).
-/

namespace Optima.Assignment

variable {n : Nat}

namespace Lexicographic

variable {cost : Square n Int} {rowOf : Table n (Fin n)} {most : Int} {row column : Fin n → Int}

/-- Potentials that leave no reduced cost negative and those of matched pairs zero, and that are for
each column at most `n` below one of its entries. -/
structure Near (cost : Square n Int) (rowOf : Fin n → Fin n) (row column : Fin n → Int) :
    Prop where
  feasible : ∀ i j, column j ≤ entry cost i j + row i
  matched : ∀ j, entry cost (rowOf j) j + row (rowOf j) = column j
  row_nonpos : ∀ i, row i ≤ 0
  near : ∀ j, ∃ i, entry cost i j ≤ column j + n

namespace Search

variable {s : Search n Int} {i j k : Fin n}

/-- How many columns can still be looked at: those that wait, and one for each improvement that is
left. -/
def visitsLeft {α : Type} (s : Search n α) : Nat :=
  s.queue.length + ∑ j, (n - s.improvements.get j)

/-- An improvement lets at most one more column wait. -/
theorem visitsLeft_improved {α : Type} {s s' : Search n α} (few : s.improvements.get j < n)
    (counted : s'.improvements = s.improvements.update j (s.improvements.get j + 1))
    (waits : s'.queue.length ≤ s.queue.length + 1) : s'.visitsLeft ≤ s.visitsLeft := by
  have change := Table.sum_update s.improvements j (s.improvements.get j + 1)
    fun _ count => n - count
  unfold visitsLeft
  rw [counted]
  omega

theorem visitsLeft_lowered (label : Int) (few : s.improvements.get j < n) :
    (s.lowered j label).visitsLeft ≤ s.visitsLeft := by
  refine visitsLeft_improved few rfl ?_
  dsimp only [lowered]
  split
  · omega
  · rw [List.length_append, List.length_singleton]

/-- Labels have not fallen below potentials, and with each improvement by one at least. -/
structure Above (cost : Square n Int) (row column : Fin n → Int) (s : Search n Int) : Prop where
  row_le : ∀ i, row i ≤ s.rowPotential.get i
  column_le : ∀ j, column j ≤ s.columnPotential.get j
  spent : ∀ j, s.improvements.get j + s.columnPotential.get j ≤ leastOfColumn cost j

/-- There are potentials near the least entries that labels have not fallen below. -/
def Safe (cost : Square n Int) (rowOf : Table n (Fin n)) (s : Search n Int) : Prop :=
  ∃ row column, Near cost rowOf.get row column ∧ s.Above cost row column

theorem Above.le_passed (above : s.Above cost row column)
    (near : Near cost rowOf.get row column) (i j : Fin n) :
    column j ≤ s.rowPotential.get i + entry cost i j := by
  have := near.feasible i j
  have := above.row_le i
  omega

/-- What waits does not matter. -/
theorem Safe.of_labels {s' : Search n Int} (safe : s.Safe cost rowOf)
    (rows : s'.rowPotential = s.rowPotential) (columns : s'.columnPotential = s.columnPotential)
    (counts : s'.improvements = s.improvements) : s'.Safe cost rowOf := by
  obtain ⟨row, column, near, above⟩ := safe
  refine ⟨row, column, near, ?_, ?_, ?_⟩
  · rw [rows]
    exact above.row_le
  · rw [columns]
    exact above.column_le
  · rw [columns, counts]
    exact above.spent

/-- A label that is passed on leaves labels above the potentials. -/
theorem Safe.lowered (safe : s.Safe cost rowOf)
    (better : s.rowPotential.get i + entry cost i j < s.columnPotential.get j) :
    (s.lowered j (s.rowPotential.get i + entry cost i j)).Safe cost rowOf := by
  obtain ⟨row, column, near, above⟩ := safe
  refine ⟨row, column, near, above.row_le, fun k => ?_, fun k => ?_⟩
  · simp only [Search.lowered, Table.get_update]
    split
    · rename_i same
      exact same ▸ above.le_passed near i j
    · exact above.column_le k
  · have spent := above.spent k
    simp only [Search.lowered, Table.get_update]
    split
    · rename_i same
      subst same
      omega
    · exact spent

/-- As long as labels are above such potentials, a label that can be improved may be. -/
theorem Safe.few (safe : s.Safe cost rowOf)
    (better : s.rowPotential.get i + entry cost i j < s.columnPotential.get j) :
    s.improvements.get j < n := by
  obtain ⟨row, column, near, above⟩ := safe
  have passed := above.le_passed near i j
  have spent := above.spent j
  obtain ⟨i', close⟩ := near.near j
  have least := (leastOfColumn_le cost i' j).1
  omega

/-- A row that is reached from a column it is matched with stays above its potential. -/
theorem Safe.lowerRow (safe : s.Safe cost rowOf) (k : Fin n) (waiting : Table n Bool)
    (queue : List (Fin n)) :
    (Search.mk (s.rowPotential.update (rowOf.get k)
      (s.columnPotential.get k - entry cost (rowOf.get k) k))
      s.columnPotential s.improvements waiting queue).Safe cost rowOf := by
  obtain ⟨row, column, near, above⟩ := safe
  refine ⟨row, column, near, fun i => ?_, above.column_le, above.spent⟩
  simp only [Table.get_update]
  split
  · rename_i same
    have := above.column_le k
    have := near.matched k
    rw [← same]
    omega
  · exact above.row_le i

theorem start_safe (near : Near cost rowOf.get row column) : (start cost).Safe cost rowOf := by
  refine ⟨row, column, near, fun i => ?_, fun j => ?_, fun j => ?_⟩
  · simp only [start, Table.get_fill]
    exact near.row_nonpos i
  · simp only [start, Table.get_tabulate]
    obtain ⟨i, least⟩ := (leastOfColumn_le cost j j).2
    have := near.feasible i j
    have := near.row_nonpos i
    omega
  · simp [start]

theorem start_visitsLeft {α : Type} [Quantity α] (cost : Square n α) :
    (start cost).visitsLeft = n + n * n := by
  simp [visitsLeft, start]

end Search

/-! ### Every search ends -/

/-- A part of a search ends in one of two ways. It succeeds, and then it leaves no more columns to
be looked at than there were before, and does not endanger what was safe; or it is refused, and then
it was not safe. -/
inductive Ends (cost : Square n Int) (rowOf : Table n (Fin n)) (s : Search n Int) :
    Except Failure (Search n Int) → Prop
  | refused (unsafe_ : ¬ s.Safe cost rowOf) : Ends cost rowOf s (.error notOptimal)
  | ok (s' : Search n Int) (visits : s'.visitsLeft ≤ s.visitsLeft)
      (safe : s.Safe cost rowOf → s'.Safe cost rowOf) : Ends cost rowOf s (.ok s')

theorem Ends.of_step {s s' : Search n Int} {result : Except Failure (Search n Int)}
    (ends : Ends cost rowOf s' result) (visits : s'.visitsLeft ≤ s.visitsLeft)
    (safe : s.Safe cost rowOf → s'.Safe cost rowOf) : Ends cost rowOf s result := by
  cases ends with
  | refused endangered => exact .refused (mt safe endangered)
  | ok t fewer kept => exact .ok t (fewer.trans visits) (kept ∘ safe)

/-- Passing on a label to all columns that are due. -/
theorem relaxAll_ends {i : Fin n} {due : List (Fin n)} {s : Search n Int} {reach : Int}
    (modest : Modest cost most) (sound : s.Sound cost rowOf most i due)
    (label : s.rowPotential.get i = reach) :
    Ends cost rowOf s (due.foldlM (relax (.real Binary64.zero) (cost.get i) reach) s) := by
  induction due generalizing s with
  | nil => exact .ok s le_rfl id
  | cons j due ih =>
    subst label
    have step : relax (.real Binary64.zero) (cost.get i) (s.rowPotential.get i) s j = _ :=
      relax_eq (sound.bounded.column_exact modest j)
    rw [List.foldlM_cons]
    by_cases better : s.rowPotential.get i + entry cost i j < s.columnPotential.get j
    · rw [if_pos better] at step
      by_cases few : s.improvements.get j < n
      · rw [if_pos few] at step
        rw [step]
        have next := sound.lowered modest better few
        exact (ih next rfl).of_step (Search.visitsLeft_lowered _ few) fun safe =>
          safe.lowered better
      · rw [if_neg few] at step
        rw [step]
        exact .refused fun safe => few (safe.few better)
    · rw [if_neg better] at step
      rw [step]
      exact ih (relax_sound modest sound step).1 rfl

/-- A visit to the column that waited longest leaves one column less to be looked at. -/
theorem visit_ends {i k : Fin n} {rest : List (Fin n)} {s : Search n Int}
    (modest : Modest cost most) (sound : s.Sound cost rowOf most i []) (first : s.queue = k :: rest) :
    Ends cost rowOf { s with queue := rest }
      (visit (.real Binary64.zero) cost rowOf k { s with queue := rest }) := by
  rw [visit_eq (s := { s with queue := rest }) (sound.bounded.row_exact modest _)]
  split
  · rename_i better
    have passed := relaxAll_ends modest (sound.lowerRow modest first better)
      (by rw [Table.get_update, if_pos rfl])
    refine passed.of_step le_rfl fun safe => ?_
    exact safe.lowerRow k (s.waiting.update k false) rest
  · exact .ok _ le_rfl fun safe => safe.of_labels rfl rfl rfl

/-- A search either is refused, and then it was not safe, or ends with no column waiting. -/
theorem settle_ends {fuel : Nat} {i : Fin n} {s : Search n Int} (modest : Modest cost most)
    (sound : s.Sound cost rowOf most i []) (enough : s.visitsLeft ≤ fuel) :
    Ends cost rowOf s (settle (.real Binary64.zero) cost rowOf fuel s).outcome := by
  induction fuel generalizing s i with
  | zero =>
    have empty : s.queue = [] := by
      unfold Search.visitsLeft at enough
      exact List.eq_nil_of_length_eq_zero (by omega)
    unfold settle
    rw [empty]
    exact .ok s le_rfl id
  | succ fuel ih =>
    unfold settle
    cases queue : s.queue with
    | nil => exact .ok s le_rfl id
    | cons k rest =>
      have fewer : Search.visitsLeft { s with queue := rest } + 1 = s.visitsLeft := by
        unfold Search.visitsLeft
        rw [queue, List.length_cons]
        dsimp only
        omega
      have visited := visit_ends modest sound queue
      simp only
      rw [Run.outcome_bind_of_ok Run.outcome_tick]
      cases result : visit (.real Binary64.zero) cost rowOf k { s with queue := rest } with
      | error failure =>
        rw [result] at visited
        cases visited with
        | refused endangered => exact .refused fun safe => endangered (safe.of_labels rfl rfl rfl)
      | ok t =>
        rw [result] at visited
        cases visited with
        | ok _ visits safe =>
          have next := visit_sound modest sound queue result
          exact (ih next (by omega)).of_step (by omega) fun s_safe => safe (s_safe.of_labels rfl rfl rfl)

theorem start_ends (modest : Modest cost most) (rowOf : Table n (Fin n)) :
    Ends cost rowOf (Search.start cost)
      (settle (.real Binary64.zero) cost rowOf (n + n * n) (Search.start cost)).outcome := by
  rcases Nat.eq_zero_or_pos n with rfl | positive
  · exact .ok _ le_rfl id
  · exact settle_ends modest (start_sound modest rowOf ⟨0, positive⟩)
      (Search.start_visitsLeft cost).le

/-! ### What comes of an assignment -/

/-- Settling rows cannot fail. -/
theorem settleRows_ok (tight : Table n (List (Fin n))) (rows : List (Fin n)) (m : Matching n) :
    ∃ m', (settleRows tight rows m).outcome = .ok m' := by
  unfold settleRows
  apply Run.exists_outcome_bind
  · apply Run.exists_outcome_foldlM
    rintro ⟨m, fixed⟩ i
    exact ⟨_, rfl⟩
  · exact fun s => ⟨s.1, rfl⟩

/-- Recovering tight columns either succeeds; or the matching is refused, and then no potentials
near the least entries certify it; or there are more rows than doubles can count, and then some
potentials certify it. -/
theorem tightTable_cases (modest : Modest cost most) (m : Matching n) :
    (∃ tight, (tightTable cost m (.real Binary64.zero)).outcome = .ok tight) ∨
    ((tightTable cost m (.real Binary64.zero)).outcome = .error notOptimal ∧
      ∀ row column, ¬ Near cost m.rowOf.get row column) ∨
    ((tightTable cost m (.real Binary64.zero)).outcome = .error (.fault .tooLarge) ∧
      Binary64.exactBound < 2 * n + 1 ∧ ∃ row column : Fin n → Int,
        (∀ i j, column j ≤ entry cost i j + row i) ∧
        ∀ j, entry cost (m.rowOf.get j) j + row (m.rowOf.get j) = column j) := by
  have ends := start_ends modest m.rowOf
  unfold tightTable
  cases settled : (settle (.real Binary64.zero) cost m.rowOf (n + n * n)
      (Search.start cost)).outcome with
  | error failure =>
    rw [settled] at ends
    cases ends with
    | refused endangered =>
      refine .inr (.inl ⟨Run.outcome_bind_of_error settled _, fun row column near => ?_⟩)
      exact endangered (Search.start_safe near)
  | ok s =>
    obtain ⟨feasible, matched⟩ := settle_certifies modest settled
    rw [Run.outcome_bind_of_ok settled]
    rcases Number.mul_int_cases Binary64.zero (2 * n + 1) with ⟨slack, multiplied⟩ | ⟨failed, many⟩
    · left
      have each : tightColumns cost s slack = fun i => pure ((List.finRange n).filter fun j =>
          entry cost i j + s.rowPotential.get i = s.columnPotential.get j) :=
        funext fun i => tightColumns_eq multiplied (feasible i)
      rw [Run.outcome_bind_of_ok (a := slack), each, List.mapM_pure]
      · exact ⟨_, rfl⟩
      · rw [Run.outcome_arith, arith_eq_ok_iff]
        exact multiplied
    · refine .inr (.inr ⟨Run.outcome_bind_of_error ?_ _, by omega, _, _, feasible, matched⟩)
      rw [Run.outcome_arith]
      exact congrArg Failure.arith failed

/-- A different column for each row: pairs match as seen from the rows and from the columns. -/
theorem matched_iff {columnOf : Table n (Fin n)} (injective : Function.Injective columnOf.get)
    {row column : Fin n → Int} :
    (∀ j, entry cost ((Matching.ofColumns columnOf).rowOf.get j) j +
      row ((Matching.ofColumns columnOf).rowOf.get j) = column j) ↔
    ∀ i, entry cost i (columnOf.get i) + row i = column (columnOf.get i) := by
  have paired := Matching.ofColumns_paired injective
  constructor
  · intro matched i
    have pair := matched (columnOf.get i)
    rwa [show (Matching.ofColumns columnOf).rowOf.get (columnOf.get i) = i from
      paired.row_column i] at pair
  · intro matched j
    have pair := matched ((Matching.ofColumns columnOf).rowOf.get j)
    rwa [show columnOf.get ((Matching.ofColumns columnOf).rowOf.get j) = j from
      paired.column_row j] at pair

/-- From any assignment one is found; or the one that is given is refused, and then no potentials
near the least entries certify it; or there are too many rows, and then it is one of least cost. -/
theorem solveIn_cases (modest : Modest cost most) {columnOf : Table n (Fin n)}
    (injective : Function.Injective columnOf.get) :
    (∃ best, (solveIn cost columnOf (.real Binary64.zero)).outcome = .ok best) ∨
    ((solveIn cost columnOf (.real Binary64.zero)).outcome = .error notOptimal ∧
      ∀ row column, ¬ Near cost (Matching.ofColumns columnOf).rowOf.get row column) ∨
    ((solveIn cost columnOf (.real Binary64.zero)).outcome = .error (.fault .tooLarge) ∧
      Binary64.exactBound < 2 * n + 1 ∧
      ∀ σ : Fin n → Fin n, Function.Injective σ → price cost columnOf.get ≤ price cost σ) := by
  unfold solveIn
  rcases tightTable_cases modest (Matching.ofColumns columnOf) with
    ⟨tight, recovered⟩ | ⟨refused, far⟩ | ⟨failed, many, row, column, feasible, matched⟩
  · obtain ⟨m, settled⟩ := settleRows_ok tight (List.finRange n) (Matching.ofColumns columnOf)
    left
    refine ⟨m.columnOf, ?_⟩
    rw [Run.outcome_bind_of_ok recovered, Run.outcome_bind_of_ok settled]
    rfl
  · exact .inr (.inl ⟨Run.outcome_bind_of_error refused _, far⟩)
  · refine .inr (.inr ⟨Run.outcome_bind_of_error failed _, many, fun σ different => ?_⟩)
    exact price_le_of_tight feasible ((matched_iff injective).mp matched) injective different

end Lexicographic

/-! ### The check for least cost -/

open Lexicographic (price IsFirst notOptimal)

/-- What the check makes of an assignment of natural costs. One that is not of least cost is
refused. What is given for any other is the first assignment of least cost, and nothing but a
refusal or more rows than doubles can count keeps it from being given. An assignment is not refused
if it is certified by potentials of columns that lie at most `n` below an entry of each. -/
theorem canonical_refuses {cost : Square n Number} {f : Fin n → Fin n → Nat}
    {columnOf : Table n (Fin n)} (entries : ∀ i j, entry cost i j = .int (f i j))
    (small : ∀ i j, (n + 1) ^ 2 * f i j ≤ 2 ^ 53) (injective : Function.Injective columnOf.get) :
    let square : Square n Int := squareOf fun i j => f i j
    let outcome := (canonical cost columnOf (.real Binary64.zero)).outcome
    (∀ σ : Fin n → Fin n, Function.Injective σ → price square σ < price square columnOf.get →
      outcome = .error notOptimal) ∧
    (∀ best, outcome = .ok best →
      IsFirst square best.get ∧ price square columnOf.get = price square best.get) ∧
    (∀ failure, outcome = .error failure →
      failure = notOptimal ∨ failure = .fault .tooLarge ∧ 2 ^ 53 < 2 * n + 1) ∧
    ∀ row column : Fin n → Int, (∀ i j, column j ≤ f i j + row i) →
      (∀ i, f i (columnOf.get i) + row i = column (columnOf.get i)) → (∀ i, row i ≤ 0) →
      (∀ j, ∃ i, f i j ≤ column j + n) → outcome ≠ .error notOptimal := by
  intro square outcome
  have modest := modest_squareOf small
  have solved : outcome = (Lexicographic.solveIn square columnOf (.real Binary64.zero)).outcome := by
    show (canonical cost columnOf (.real Binary64.zero)).outcome = _
    rw [canonical, ints?_of_entries entries]
  have cases := Lexicographic.solveIn_cases modest injective
  have first : ∀ best, outcome = .ok best →
      IsFirst square best.get ∧ price square columnOf.get = price square best.get := by
    intro best ok
    rw [solved] at ok
    exact Lexicographic.solveIn_first modest injective ok
  rw [← solved] at cases
  refine ⟨fun σ different cheaper => ?_, first, fun failure failed => ?_,
    fun row column feasible tight nonpos near refused => ?_⟩
  · rcases cases with ⟨best, ok⟩ | ⟨refused, _⟩ | ⟨_, _, least⟩
    · obtain ⟨isFirst, same⟩ := first best ok
      exact absurd (isFirst.least σ different) (not_le.mpr (same ▸ cheaper))
    · exact refused
    · exact absurd (least σ different) (not_le.mpr cheaper)
  · rcases cases with ⟨best, ok⟩ | ⟨refused, _⟩ | ⟨fault, many, _⟩
    · rw [ok] at failed
      cases failed
    · rw [refused] at failed
      cases failed
      exact .inl rfl
    · rw [fault] at failed
      cases failed
      exact .inr ⟨rfl, many⟩
  · rcases cases with ⟨best, ok⟩ | ⟨_, far⟩ | ⟨fault, _⟩
    · rw [ok] at refused
      cases refused
    · apply far row column
      constructor
      · intro i j
        rw [entry_squareOf]
        exact feasible i j
      · rw [Lexicographic.matched_iff injective]
        intro i
        rw [entry_squareOf]
        exact tight i
      · exact nonpos
      · intro j
        obtain ⟨i, close⟩ := near j
        exact ⟨i, by rwa [entry_squareOf]⟩
    · rw [fault] at refused
      cases refused

/-- A square of natural costs as it is stated in a problem. -/
abbrev stated (f : Fin n → Fin n → Nat) : Square n Number :=
  Table.tabulate fun i => Table.tabulate fun j => .int (f i j)

/-- Two rows that each cost nothing in the column of the other. -/
def crossed : Fin 2 → Fin 2 → Nat := ![![1, 0], ![0, 1]]

/-- Where the rows should change places they are refused, and else they are not. -/
theorem canonical_refuses_crossed :
    (canonical (stated crossed) (Table.tabulate id) (.real Binary64.zero)).outcome =
      .error notOptimal ∧
    (canonical (stated crossed) (Table.tabulate Fin.rev) (.real Binary64.zero)).outcome ≠
      .error notOptimal := by
  have entries : ∀ i j, entry (stated crossed) i j = .int (crossed i j) := by decide
  have small : ∀ i j, (2 + 1) ^ 2 * crossed i j ≤ 2 ^ 53 := by decide
  have own : Function.Injective (Table.tabulate id : Table 2 (Fin 2)).get := by decide
  have other : Function.Injective (Table.tabulate Fin.rev : Table 2 (Fin 2)).get := by decide
  constructor
  · exact (canonical_refuses entries small own).1 Fin.rev (by decide) (by decide)
  · exact (canonical_refuses entries small other).2.2.2 0 0 (by decide) (by decide) (by decide)
      (by decide)

/-- Five rows. The second, third and fourth all lower the label of the first column in one pass
through the queue, and again when the labels of their own columns were lowered. -/
def descending : Fin 5 → Fin 5 → Nat :=
  ![![0, 2, 4, 7, 7], ![0, 1, 4, 7, 7], ![0, 0, 2, 6, 6], ![0, 0, 0, 3, 4], ![0, 0, 0, 0, 0]]

/-- An assignment of least cost that is refused, although the Hungarian method has found it. -/
theorem canonical_refuses_descending :
    (∀ i j, (5 + 1) ^ 2 * descending i j ≤ 2 ^ 53) ∧
    (∀ σ : Fin 5 → Fin 5, Function.Injective σ →
      price (squareOf fun i j => descending i j) id ≤
        price (squareOf fun i j => descending i j) σ) ∧
    (hungarian (stated descending)).outcome = .ok (Table.tabulate id, 15) ∧
    (canonical (stated descending) (Table.tabulate id) (.real Binary64.zero)).outcome =
      .error notOptimal := by
  refine ⟨by decide, fun σ different => ?_, by decide +kernel, by decide +kernel⟩
  have feasible : ∀ i j, (![0, 2, 4, 7, 7] : Fin 5 → Int) j ≤
      entry (squareOf fun i j => descending i j) i j + (![0, 1, 2, 4, 7] : Fin 5 → Int) i := by
    decide
  exact Lexicographic.price_le_of_tight feasible (by decide) Function.injective_id different

end Optima.Assignment
