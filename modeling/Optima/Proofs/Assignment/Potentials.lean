import Mathlib.Algebra.Order.BigOperators.Group.Finset
import Mathlib.Tactic.Linarith
import Mathlib.Tactic.Ring
import Optima.Assignment.Lexicographic
import Optima.Proofs.Number.Exact
import Optima.Proofs.Run
import Optima.Proofs.Table

/-!
The search for potentials. Labels only fall, and each improvement lets the least of them fall by no
more than the largest entry, so the bound on improvements keeps every label within the integers that
doubles represent and all comparisons are those of integers (`Search.Bounded`).

A column that does not wait satisfies the row that holds it, and no column is labelled above what a
row would pass on to it (`Search.Sound`). When no column waits any more, the potentials therefore
certify the matching: no reduced cost is negative, and those of matched pairs are zero
(`tightTable_certifies`). Nothing is assumed of the matching for this.
-/

namespace Optima.Assignment.Lexicographic

variable {n : Nat} {cost : Square n Int} {rowOf : Table n (Fin n)} {most : Int}

/-- Entries from zero to a bound, which leaves all labels of a search exact. -/
structure Modest (cost : Square n Int) (most : Int) : Prop where
  nonneg : ∀ i j, 0 ≤ entry cost i j
  le_most : ∀ i j, entry cost i j ≤ most
  exact : ((n : Int) + 1) ^ 2 * most ≤ Binary64.exactBound

namespace Search

/-- How many times labels were improved. -/
def improved (s : Search n Int) : Nat := ∑ j, s.improvements.get j

/-- All labels lie between bounds that depend on the number of improvements so far. -/
structure Bounded (most : Int) (s : Search n Int) : Prop where
  most_nonneg : 0 ≤ most
  improvements_le : ∀ j, s.improvements.get j ≤ n
  column_le : ∀ j, s.columnPotential.get j ≤ most
  le_column : ∀ j, -(s.improved * most) ≤ s.columnPotential.get j
  row_nonpos : ∀ i, s.rowPotential.get i ≤ 0
  le_row : ∀ i, -((s.improved + 1) * most) ≤ s.rowPotential.get i

theorem Bounded.improved_le {s : Search n Int} (bounded : s.Bounded most) :
    s.improved ≤ n * n := by
  have each := Finset.sum_le_card_nsmul Finset.univ (fun j => s.improvements.get j) n
    fun j _ => bounded.improvements_le j
  simpa [improved] using each

/-- The farthest that labels get from zero. -/
theorem Bounded.reach_le {s : Search n Int} (bounded : s.Bounded most) (modest : Modest cost most) :
    ((s.improved : Int) + 1) * most ≤ Binary64.exactBound := by
  have most_nonneg := bounded.most_nonneg
  have count : (s.improved : Int) ≤ n * n := by exact_mod_cast bounded.improved_le
  have wide : (s.improved : Int) + 1 ≤ ((n : Int) + 1) ^ 2 := by nlinarith
  exact (mul_le_mul_of_nonneg_right wide most_nonneg).trans modest.exact

theorem Bounded.column_exact {s : Search n Int} (bounded : s.Bounded most)
    (modest : Modest cost most) (j : Fin n) :
    (s.columnPotential.get j).natAbs ≤ Binary64.exactBound := by
  have reach := bounded.reach_le modest
  have most_nonneg := bounded.most_nonneg
  have above := bounded.column_le j
  have below := bounded.le_column j
  have share : 0 ≤ (s.improved : Int) * most := mul_nonneg (Int.natCast_nonneg _) most_nonneg
  rw [add_mul, one_mul] at reach
  omega

theorem Bounded.row_exact {s : Search n Int} (bounded : s.Bounded most)
    (modest : Modest cost most) (i : Fin n) :
    (s.rowPotential.get i).natAbs ≤ Binary64.exactBound := by
  have reach := bounded.reach_le modest
  have above := bounded.row_nonpos i
  have below := bounded.le_row i
  omega

/-- What the loop of the search keeps, while the row `i` has its label still to pass on to the
columns `due`. Between visits there are none. -/
structure Sound (cost : Square n Int) (rowOf : Table n (Fin n)) (most : Int) (i : Fin n)
    (due : List (Fin n)) (s : Search n Int) : Prop where
  bounded : s.Bounded most
  feasible : ∀ i' j, (i' = i ∧ j ∈ due) ∨
    s.columnPotential.get j ≤ entry cost i' j + s.rowPotential.get i'
  settled : ∀ k, k ∈ s.queue ∨
    s.rowPotential.get (rowOf.get k) + entry cost (rowOf.get k) k ≤ s.columnPotential.get k
  queued : ∀ k, s.waiting.get k = true → k ∈ s.queue

/-- The search after the label of a column was improved. -/
def lowered (s : Search n Int) (j : Fin n) (label : Int) : Search n Int where
  rowPotential := s.rowPotential
  columnPotential := s.columnPotential.update j label
  improvements := s.improvements.update j (s.improvements.get j + 1)
  waiting := s.waiting.update j true
  queue := if s.waiting.get j then s.queue else s.queue ++ [j]

theorem mem_lowered_queue {s : Search n Int} {j k : Fin n} {label : Int}
    (queued : ∀ k, s.waiting.get k = true → k ∈ s.queue) :
    k ∈ (s.lowered j label).queue ↔ k = j ∨ k ∈ s.queue := by
  by_cases waits : s.waiting.get j = true
  · have there := queued j waits
    simp only [lowered, waits, if_true]
    exact ⟨Or.inr, fun known => known.elim (fun same => same ▸ there) id⟩
  · simp only [lowered, waits]
    simp [or_comm]

theorem improved_lowered (s : Search n Int) (j : Fin n) (label : Int) :
    (s.lowered j label).improved = s.improved + 1 := by
  have change := Table.sum_update s.improvements j (s.improvements.get j + 1) fun _ count => count
  simp only [improved, lowered] at change ⊢
  omega

theorem Bounded.lowered {s : Search n Int} {j : Fin n} {label : Int} (bounded : s.Bounded most)
    (few : s.improvements.get j < n) (better : label < s.columnPotential.get j)
    (enough : -((s.improved + 1) * most) ≤ label) : (s.lowered j label).Bounded most := by
  have most_nonneg := bounded.most_nonneg
  have count : ((s.lowered j label).improved : Int) = s.improved + 1 := by
    rw [improved_lowered]
    push_cast
    rfl
  constructor
  · exact most_nonneg
  · intro k
    simp only [Search.lowered, Table.get_update]
    split
    · exact few
    · exact bounded.improvements_le k
  · intro k
    simp only [Search.lowered, Table.get_update]
    split
    · exact better.le.trans (bounded.column_le j)
    · exact bounded.column_le k
  · intro k
    rw [count]
    simp only [Search.lowered, Table.get_update]
    split
    · exact enough
    · have before := bounded.le_column k
      linarith
  · exact bounded.row_nonpos
  · intro i
    rw [count]
    have before := bounded.le_row i
    change _ ≤ s.rowPotential.get i
    linarith

/-- A row that is reached from a column gets a label within the bounds. -/
theorem Bounded.lowerRow {s : Search n Int} {i k : Fin n} (bounded : s.Bounded most)
    (modest : Modest cost most)
    (better : s.columnPotential.get k - entry cost i k < s.rowPotential.get i)
    (waiting : Table n Bool) (queue : List (Fin n)) :
    (Search.mk (s.rowPotential.update i (s.columnPotential.get k - entry cost i k))
      s.columnPotential s.improvements waiting queue).Bounded most := by
  constructor
  · exact bounded.most_nonneg
  · exact bounded.improvements_le
  · exact bounded.column_le
  · exact bounded.le_column
  · intro i'
    simp only [Table.get_update]
    split
    · exact better.le.trans (bounded.row_nonpos i)
    · exact bounded.row_nonpos i'
  · intro i'
    change -(((s.improved : Int) + 1) * most) ≤ _
    simp only [Table.get_update]
    split
    · have below := bounded.le_column k
      have entry_le := modest.le_most i k
      linarith
    · exact bounded.le_row i'

theorem Sound.feasible_all {i : Fin n} {s : Search n Int} (sound : s.Sound cost rowOf most i [])
    (i' j : Fin n) : s.columnPotential.get j ≤ entry cost i' j + s.rowPotential.get i' := by
  rcases sound.feasible i' j with ⟨_, none⟩ | kept
  · cases none
  · exact kept

/-- A column whose label was improved waits, and the row that improved it is satisfied. -/
theorem Sound.lowered {i j : Fin n} {due : List (Fin n)} {s : Search n Int}
    (modest : Modest cost most) (sound : s.Sound cost rowOf most i (j :: due))
    (better : s.rowPotential.get i + entry cost i j < s.columnPotential.get j)
    (few : s.improvements.get j < n) :
    (s.lowered j (s.rowPotential.get i + entry cost i j)).Sound cost rowOf most i due := by
  constructor
  · apply sound.bounded.lowered few better
    have below := sound.bounded.le_row i
    have passed := modest.nonneg i j
    linarith
  · intro i' k
    simp only [Search.lowered, Table.get_update]
    by_cases same : j = k
    · subst same
      right
      rw [if_pos rfl]
      by_cases own : i' = i
      · rw [own, add_comm]
      · rcases sound.feasible i' j with ⟨other, _⟩ | kept
        · exact absurd other own
        · exact better.le.trans kept
    · rw [if_neg same]
      rcases sound.feasible i' k with ⟨rfl, member⟩ | kept
      · rcases List.mem_cons.mp member with rfl | later
        · exact absurd rfl same
        · exact .inl ⟨rfl, later⟩
      · exact .inr kept
  · intro k
    rw [mem_lowered_queue sound.queued]
    by_cases same : k = j
    · exact .inl (.inl same)
    · rcases sound.settled k with waiting | kept
      · exact .inl (.inr waiting)
      · right
        simp only [Search.lowered, Table.get_update, if_neg (Ne.symm same)]
        exact kept
  · intro k waits
    rw [mem_lowered_queue sound.queued]
    simp only [Search.lowered, Table.get_update] at waits
    split at waits
    · rename_i same
      exact .inl same.symm
    · exact .inr (sound.queued k waits)

end Search

/-! ### Steps -/

/-- Comparing exact labels is comparing integers. -/
theorem improves_eq {label old : Int} (small : old.natAbs ≤ Binary64.exactBound) :
    improves (.real Binary64.zero) label old = .ok (decide (label < old)) := by
  obtain ⟨y, difference, units⟩ := Number.sub_zero_exact small
  change ((Number.sub (.int old) (.real Binary64.zero)).bind fun bound =>
    .ok ((Number.int label).less bound)) = _
  rw [difference]
  change Except.ok ((Number.int label).less (.real y)) = _
  rw [Number.less_real units]

/-- Passing on a label to one column lowers the label there, once more than before, or leaves all as
it is. Only the bound on improvements makes it fail. -/
theorem relax_eq {costs : Table n Int} {reach : Int} {s : Search n Int} {j : Fin n}
    (small : (s.columnPotential.get j).natAbs ≤ Binary64.exactBound) :
    relax (.real Binary64.zero) costs reach s j =
      if reach + costs.get j < s.columnPotential.get j then
        if s.improvements.get j < n then .ok (s.lowered j (reach + costs.get j))
        else .error notOptimal
      else .ok s := by
  have compared : Failure.arith (improves (.real Binary64.zero) (reach + costs.get j)
      (s.columnPotential.get j)) =
        .ok (decide (reach + costs.get j < s.columnPotential.get j)) := by
    rw [improves_eq small]
    rfl
  have added : Failure.arith (Quantity.add reach (costs.get j)) = .ok (reach + costs.get j) := rfl
  unfold relax
  rw [added]
  simp only [bind, Except.bind, compared]
  by_cases better : reach + costs.get j < s.columnPotential.get j
  · simp only [better, decide_true, if_true]
    by_cases few : s.improvements.get j < n
    · have seldom : ¬ n < s.improvements.get j + 1 := by omega
      rw [if_pos few, if_neg seldom]
      by_cases waits : s.waiting.get j = true
      · have unchanged : s.waiting.update j true = s.waiting := by
          apply Table.ext
          intro k
          rw [Table.get_update]
          split
          · rename_i same
            rw [← same, waits]
          · rfl
        simp only [Search.lowered, waits, if_true, unchanged]
        rfl
      · simp only [Search.lowered, waits]
        rfl
    · have often : n < s.improvements.get j + 1 := by omega
      rw [if_neg few, if_pos often]
      rfl
  · simp only [better, decide_false]
    rfl

theorem relax_cases {costs : Table n Int} {reach : Int} {s s' : Search n Int} {j : Fin n}
    (small : (s.columnPotential.get j).natAbs ≤ Binary64.exactBound)
    (ok : relax (.real Binary64.zero) costs reach s j = .ok s') :
    (s.columnPotential.get j ≤ reach + costs.get j ∧ s' = s) ∨
      (reach + costs.get j < s.columnPotential.get j ∧ s.improvements.get j < n ∧
        s' = s.lowered j (reach + costs.get j)) := by
  rw [relax_eq small] at ok
  split at ok
  · rename_i better
    split at ok
    · rename_i few
      cases ok
      exact .inr ⟨better, few, rfl⟩
    · cases ok
  · rename_i enough
    cases ok
    exact .inl ⟨not_lt.mp enough, rfl⟩

/-- Passing on a label to one column. -/
theorem relax_sound {i j : Fin n} {due : List (Fin n)} {s s' : Search n Int}
    (modest : Modest cost most) (sound : s.Sound cost rowOf most i (j :: due))
    (ok : relax (.real Binary64.zero) (cost.get i) (s.rowPotential.get i) s j = .ok s') :
    s'.Sound cost rowOf most i due ∧ s'.rowPotential = s.rowPotential := by
  rcases relax_cases (sound.bounded.column_exact modest j) ok with
    ⟨enough, rfl⟩ | ⟨better, few, rfl⟩
  · refine ⟨⟨sound.bounded, fun i' k => ?_, sound.settled, sound.queued⟩, rfl⟩
    rcases sound.feasible i' k with ⟨rfl, member⟩ | kept
    · rcases List.mem_cons.mp member with rfl | later
      · exact .inr (by rw [add_comm]; exact enough)
      · exact .inl ⟨rfl, later⟩
    · exact .inr kept
  · exact ⟨sound.lowered modest better few, rfl⟩

/-- Passing on a label to all columns. -/
theorem relaxAll_sound {i : Fin n} {due : List (Fin n)} {s s' : Search n Int} {reach : Int}
    (modest : Modest cost most) (sound : s.Sound cost rowOf most i due)
    (label : s.rowPotential.get i = reach)
    (ok : due.foldlM (relax (.real Binary64.zero) (cost.get i) reach) s = .ok s') :
    s'.Sound cost rowOf most i [] := by
  induction due generalizing s with
  | nil =>
    cases ok
    exact sound
  | cons j due ih =>
    rw [List.foldlM_cons] at ok
    obtain ⟨t, step, ok⟩ := bind_eq_ok_iff.mp ok
    obtain ⟨next, same⟩ := relax_sound modest sound (by rw [label]; exact step)
    exact ih next (by rw [same]; exact label) ok

/-- A visit passes on a label to all columns where the row gets a better one. -/
theorem visit_eq {s : Search n Int} {k : Fin n}
    (small : (s.rowPotential.get (rowOf.get k)).natAbs ≤ Binary64.exactBound) :
    visit (.real Binary64.zero) cost rowOf k s =
      if s.columnPotential.get k - entry cost (rowOf.get k) k < s.rowPotential.get (rowOf.get k) then
        (List.finRange n).foldlM (relax (.real Binary64.zero) (cost.get (rowOf.get k))
          (s.columnPotential.get k - entry cost (rowOf.get k) k))
          { s with
            waiting := s.waiting.update k false
            rowPotential := s.rowPotential.update (rowOf.get k)
              (s.columnPotential.get k - entry cost (rowOf.get k) k) }
      else .ok { s with waiting := s.waiting.update k false } := by
  have compared : improves (.real Binary64.zero)
      (s.columnPotential.get k - entry cost (rowOf.get k) k) (s.rowPotential.get (rowOf.get k)) =
        .ok (decide (s.columnPotential.get k - entry cost (rowOf.get k) k <
          s.rowPotential.get (rowOf.get k))) := improves_eq small
  have reached : Failure.arith (Quantity.sub (s.columnPotential.get k)
      (entry cost (rowOf.get k) k)) =
        .ok (s.columnPotential.get k - entry cost (rowOf.get k) k) := rfl
  unfold visit
  simp only [bind, Except.bind, reached]
  rw [compared]
  simp only [Failure.arith, Except.mapError]
  by_cases better : s.columnPotential.get k - entry cost (rowOf.get k) k <
      s.rowPotential.get (rowOf.get k)
  · simp only [better, decide_true, if_true]
  · simp only [better, decide_false]
    rfl

theorem visit_cases {s s' : Search n Int} {k : Fin n}
    (small : (s.rowPotential.get (rowOf.get k)).natAbs ≤ Binary64.exactBound)
    (ok : visit (.real Binary64.zero) cost rowOf k s = .ok s') :
    (s.rowPotential.get (rowOf.get k) ≤ s.columnPotential.get k - entry cost (rowOf.get k) k ∧
        s' = { s with waiting := s.waiting.update k false }) ∨
      (s.columnPotential.get k - entry cost (rowOf.get k) k < s.rowPotential.get (rowOf.get k) ∧
        (List.finRange n).foldlM (relax (.real Binary64.zero) (cost.get (rowOf.get k))
          (s.columnPotential.get k - entry cost (rowOf.get k) k))
          { s with
            waiting := s.waiting.update k false
            rowPotential := s.rowPotential.update (rowOf.get k)
              (s.columnPotential.get k - entry cost (rowOf.get k) k) } = .ok s') := by
  rw [visit_eq small] at ok
  split at ok
  · rename_i better
    exact .inr ⟨better, ok⟩
  · rename_i enough
    cases ok
    exact .inl ⟨not_lt.mp enough, rfl⟩

/-- What holds of the other columns when the one that waited longest is taken from the queue. -/
theorem Search.Sound.pop {i k : Fin n} {rest : List (Fin n)} {s : Search n Int}
    (sound : s.Sound cost rowOf most i []) (first : s.queue = k :: rest) :
    (∀ c, c ≠ k → c ∈ rest ∨
      s.rowPotential.get (rowOf.get c) + entry cost (rowOf.get c) c ≤ s.columnPotential.get c) ∧
    ∀ c, (s.waiting.update k false).get c = true → c ∈ rest := by
  constructor
  · intro c other
    rcases sound.settled c with waits | kept
    · rw [first] at waits
      exact .inl ((List.mem_cons.mp waits).resolve_left other)
    · exact .inr kept
  · intro c waits
    rw [Table.get_update] at waits
    split at waits
    · cases waits
    · rename_i other
      have there := sound.queued c waits
      rw [first] at there
      exact (List.mem_cons.mp there).resolve_left (Ne.symm other)

/-- A row that is reached from the column that waited longest has its label to pass on to all
columns. -/
theorem Search.Sound.lowerRow {i k : Fin n} {rest : List (Fin n)} {s : Search n Int}
    (modest : Modest cost most) (sound : s.Sound cost rowOf most i []) (first : s.queue = k :: rest)
    (better : s.columnPotential.get k - entry cost (rowOf.get k) k <
      s.rowPotential.get (rowOf.get k)) :
    (Search.mk (s.rowPotential.update (rowOf.get k)
      (s.columnPotential.get k - entry cost (rowOf.get k) k))
      s.columnPotential s.improvements (s.waiting.update k false) rest).Sound cost rowOf most
        (rowOf.get k) (List.finRange n) := by
  obtain ⟨settled, queued⟩ := sound.pop first
  refine ⟨sound.bounded.lowerRow modest better _ _, fun i' j => ?_, fun c => ?_, queued⟩
  · by_cases own : i' = rowOf.get k
    · exact .inl ⟨own, List.mem_finRange j⟩
    · right
      simp only [Table.get_update, if_neg (Ne.symm own)]
      exact sound.feasible_all i' j
  · by_cases same : c = k
    · subst same
      right
      simp only [Table.get_update, if_true]
      exact (sub_add_cancel _ _).le
    · apply (settled c same).imp_right
      intro kept
      simp only [Table.get_update]
      split
      · rename_i row
        rw [← row] at kept ⊢
        exact (add_le_add_left better.le _).trans kept
      · exact kept

/-- A visit to the column that waited longest. -/
theorem visit_sound {i k : Fin n} {rest : List (Fin n)} {s s' : Search n Int}
    (modest : Modest cost most) (sound : s.Sound cost rowOf most i [])
    (first : s.queue = k :: rest)
    (ok : visit (.real Binary64.zero) cost rowOf k { s with queue := rest } = .ok s') :
    s'.Sound cost rowOf most (rowOf.get k) [] := by
  have bounded := sound.bounded
  rcases visit_cases (s := { s with queue := rest }) (bounded.row_exact modest _) ok with
    ⟨enough, rfl⟩ | ⟨better, passed⟩
  · change s.rowPotential.get _ ≤ s.columnPotential.get k - _ at enough
    obtain ⟨settled, queued⟩ := sound.pop first
    refine ⟨⟨bounded.most_nonneg, bounded.improvements_le, bounded.column_le, bounded.le_column,
      bounded.row_nonpos, bounded.le_row⟩, fun i' j => .inr (sound.feasible_all i' j), ?_, queued⟩
    intro c
    by_cases same : c = k
    · subst same
      exact .inr (le_sub_iff_add_le.mp enough)
    · exact settled c same
  · exact relaxAll_sound modest (sound.lowerRow modest first better)
      (by rw [Table.get_update, if_pos rfl]) passed

/-- A search that ends leaves no column waiting. -/
theorem settle_sound {fuel : Nat} {i : Fin n} {s s' : Search n Int} (modest : Modest cost most)
    (sound : s.Sound cost rowOf most i [])
    (ok : (settle (.real Binary64.zero) cost rowOf fuel s).outcome = .ok s') :
    ∃ i, s'.Sound cost rowOf most i [] ∧ s'.queue = [] := by
  induction fuel generalizing s i with
  | zero =>
    unfold settle at ok
    cases queue : s.queue with
    | nil =>
      rw [queue] at ok
      cases ok
      exact ⟨i, sound, queue⟩
    | cons k rest =>
      rw [queue] at ok
      cases ok
  | succ fuel ih =>
    unfold settle at ok
    cases queue : s.queue with
    | nil =>
      rw [queue] at ok
      cases ok
      exact ⟨i, sound, queue⟩
    | cons k rest =>
      rw [queue] at ok
      simp only at ok
      rw [Run.outcome_bind_of_ok Run.outcome_tick, Run.outcome_bind_eq_ok_iff] at ok
      obtain ⟨t, visited, more⟩ := ok
      exact ih (visit_sound modest sound queue visited) more

/-! ### Beginning and end -/

/-- The fold over a column gives one of its entries, and none of those seen is less. -/
theorem foldl_least (cost : Square n Int) (j first : Fin n) (rows : List (Fin n)) :
    let least := rows.foldl (fun best i =>
      if Quantity.less (entry cost i j) best then entry cost i j else best) (entry cost first j)
    (∀ i ∈ first :: rows, least ≤ entry cost i j) ∧ ∃ i, least = entry cost i j := by
  induction rows generalizing first with
  | nil =>
    refine ⟨fun i member => ?_, first, rfl⟩
    rw [List.mem_singleton.mp member]
    exact le_refl _
  | cons next rows ih =>
    simp only [List.foldl_cons]
    by_cases smaller : entry cost next j < entry cost first j
    · have chosen : Quantity.less (entry cost next j) (entry cost first j) = true :=
        decide_eq_true smaller
      rw [if_pos chosen]
      obtain ⟨below, attained⟩ := ih next
      refine ⟨fun i member => ?_, attained⟩
      rcases List.mem_cons.mp member with rfl | later
      · exact (below next List.mem_cons_self).trans smaller.le
      · exact below i later
    · have kept : ¬ Quantity.less (entry cost next j) (entry cost first j) = true := by
        intro less
        exact smaller (of_decide_eq_true less)
      rw [if_neg kept]
      obtain ⟨below, attained⟩ := ih first
      refine ⟨fun i member => ?_, attained⟩
      rcases List.mem_cons.mp member with rfl | later
      · exact below i List.mem_cons_self
      · rcases List.mem_cons.mp later with rfl | further
        · exact (below first List.mem_cons_self).trans (not_lt.mp smaller)
        · exact below i (List.mem_cons_of_mem _ further)

theorem leastOfColumn_le (cost : Square n Int) (i j : Fin n) :
    leastOfColumn cost j ≤ entry cost i j ∧ ∃ i, leastOfColumn cost j = entry cost i j := by
  unfold leastOfColumn
  cases rows : List.finRange n with
  | nil =>
    have member := List.mem_finRange i
    rw [rows] at member
    cases member
  | cons first rest =>
    obtain ⟨below, attained⟩ := foldl_least cost j first rest
    exact ⟨below i (rows ▸ List.mem_finRange i), attained⟩

theorem start_sound (modest : Modest cost most) (rowOf : Table n (Fin n)) (i : Fin n) :
    (Search.start cost).Sound cost rowOf most i [] := by
  have none : (Search.start cost).improved = 0 := by
    simp [Search.improved, Search.start]
  have most_nonneg : 0 ≤ most := (modest.nonneg i i).trans (modest.le_most i i)
  constructor
  · constructor
    · exact most_nonneg
    · intro j
      simp [Search.start]
    · intro j
      simp only [Search.start, Table.get_tabulate]
      exact (leastOfColumn_le cost i j).1.trans (modest.le_most i j)
    · intro j
      obtain ⟨row, least⟩ := (leastOfColumn_le cost i j).2
      rw [none, Nat.cast_zero, zero_mul, neg_zero]
      simp only [Search.start, Table.get_tabulate, least]
      exact modest.nonneg row j
    · intro i
      simp only [Search.start, Table.get_fill]
      exact le_refl 0
    · intro i
      rw [none, Nat.cast_zero, zero_add, one_mul]
      simp only [Search.start, Table.get_fill]
      exact neg_nonpos.mpr most_nonneg
  · intro i' j
    right
    simp only [Search.start, Table.get_tabulate, Table.get_fill]
    change _ ≤ _ + (0 : Int)
    rw [add_zero]
    exact (leastOfColumn_le cost i' j).1
  · exact fun k => .inl (List.mem_finRange k)
  · exact fun k _ => List.mem_finRange k

/-- Potentials that leave no reduced cost negative, the table of the tight columns by them, and a
matching all of whose pairs are tight. -/
structure Certifies (cost : Square n Int) (rowOf : Table n (Fin n))
    (tight : Table n (List (Fin n))) (row column : Fin n → Int) : Prop where
  feasible : ∀ i j, column j ≤ entry cost i j + row i
  tight_eq : ∀ i, tight.get i = (List.finRange n).filter fun j => entry cost i j + row i = column j
  matched : ∀ k, entry cost (rowOf.get k) k + row (rowOf.get k) = column k

theorem filterM_ok {α : Type} (p : α → Bool) (xs : List α) :
    (xs.filterM fun x => (.ok (p x) : Except Fault Bool)) = .ok (xs.filter p) := by
  have loop : ∀ xs seen : List α, xs.filterAuxM (fun x => (.ok (p x) : Except Fault Bool)) seen =
      .ok ((xs.filter p).reverse ++ seen) := by
    intro xs
    induction xs with
    | nil => intro seen; rfl
    | cons x xs ih =>
      intro seen
      change (xs.filterAuxM _ (bif p x then x :: seen else seen)) = _
      rw [ih]
      cases keep : p x <;> simp [keep]
  change Except.bind (xs.filterAuxM _ []) _ = _
  rw [loop]
  simp [Except.bind, pure, Except.pure]

theorem tightColumns_eq {s : Search n Int} {slack : Number} {k : Int} {i : Fin n}
    (exact : Number.mul (.real Binary64.zero) (.int k) = .ok slack)
    (feasible : ∀ j, s.columnPotential.get j ≤ entry cost i j + s.rowPotential.get i) :
    tightColumns cost s slack i = .ok ((List.finRange n).filter fun j =>
      entry cost i j + s.rowPotential.get i = s.columnPotential.get j) := by
  rw [← filterM_ok]
  refine congrArg (fun test => (List.finRange n).filterM test) (funext fun j => ?_)
  have reduced := feasible j
  change Except.ok ((Number.int _).atMost slack) = _
  rw [Number.atMost_zero_mul exact]
  exact congrArg Except.ok (decide_eq_decide.mpr (by omega))

/-- A search that ends leaves no reduced cost negative and those of matched pairs zero. -/
theorem settle_certifies {fuel : Nat} {s : Search n Int} (modest : Modest cost most)
    (settled : (settle (.real Binary64.zero) cost rowOf fuel (Search.start cost)).outcome = .ok s) :
    (∀ i j, s.columnPotential.get j ≤ entry cost i j + s.rowPotential.get i) ∧
      ∀ k, entry cost (rowOf.get k) k + s.rowPotential.get (rowOf.get k) =
        s.columnPotential.get k := by
  rcases Nat.eq_zero_or_pos n with rfl | positive
  · exact ⟨fun i => i.elim0, fun k => k.elim0⟩
  obtain ⟨i, sound, empty⟩ := settle_sound modest (start_sound modest rowOf ⟨0, positive⟩) settled
  refine ⟨sound.feasible_all, fun k => ?_⟩
  rcases sound.settled k with waits | kept
  · rw [empty] at waits
    cases waits
  · have lower := sound.feasible_all (rowOf.get k) k
    omega

/-- The tight columns are given by potentials that certify the matching. -/
theorem tightTable_certifies {m : Matching n} {tight : Table n (List (Fin n))}
    (modest : Modest cost most)
    (ok : (tightTable cost m (.real Binary64.zero)).outcome = .ok tight) :
    ∃ row column : Fin n → Int, Certifies cost m.rowOf tight row column := by
  unfold tightTable at ok
  rw [Run.outcome_bind_eq_ok_iff] at ok
  obtain ⟨s, settled, ok⟩ := ok
  rw [Run.outcome_bind_eq_ok_iff] at ok
  obtain ⟨slack, multiplied, ok⟩ := ok
  rw [Run.outcome_bind_eq_ok_iff] at ok
  obtain ⟨rows, listed, ok⟩ := ok
  cases ok
  obtain ⟨feasible, matched⟩ := settle_certifies modest settled
  rw [Run.outcome_arith, arith_eq_ok_iff] at multiplied
  have each : tightColumns cost s slack = fun i => pure ((List.finRange n).filter fun j =>
      entry cost i j + s.rowPotential.get i = s.columnPotential.get j) :=
    funext fun i => tightColumns_eq multiplied (feasible i)
  rw [each, List.mapM_pure] at listed
  cases listed
  refine ⟨s.rowPotential.get, s.columnPotential.get, feasible, fun i => ?_, matched⟩
  simp [Table.get_tabulate]

end Optima.Assignment.Lexicographic
