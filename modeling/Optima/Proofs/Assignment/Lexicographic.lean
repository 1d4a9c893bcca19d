import Optima.Proofs.Assignment.Potentials
import Optima.Proofs.Assignment.Reroute

/-!
The lexicographically smallest assignment of least cost. With potentials that certify one
assignment, the price of any other exceeds it by the reduced costs of its edges, so the assignments
of least cost are the perfect matchings of tight edges. Rows are settled in turn: a row passes over
a tight column only when no perfect matching that keeps the rows before gives it to the row, so the
columns chosen are least among all those that agree on the rows before (`Settled`).
-/

namespace Optima.Assignment.Lexicographic

variable {n : Nat} {cost : Square n Int} {tight : Table n (List (Fin n))}

/-- What an assignment costs. -/
def price (cost : Square n Int) (columnOf : Fin n → Fin n) : Int := ∑ i, entry cost i (columnOf i)

/-- No assignment costs less, and among those that cost as little none is lexicographically
smaller. -/
structure IsFirst (cost : Square n Int) (columnOf : Fin n → Fin n) : Prop where
  injective : Function.Injective columnOf
  least : ∀ σ : Fin n → Fin n, Function.Injective σ → price cost columnOf ≤ price cost σ
  first : ∀ σ : Fin n → Fin n, Function.Injective σ → price cost σ = price cost columnOf →
    ∀ i, (∀ k < i, σ k = columnOf k) → columnOf i ≤ σ i

/-! ### Tight edges -/

section Tight

variable {rowOf : Table n (Fin n)} {row column : Fin n → Int}

theorem Certifies.mem_tight_iff (certifies : Certifies cost rowOf tight row column) {i j : Fin n} :
    j ∈ tight.get i ↔ entry cost i j + row i = column j := by
  rw [certifies.tight_eq, List.mem_filter]
  simp

/-- The price of an assignment is what the potentials give, and the reduced costs of its edges. -/
theorem price_eq (cost : Square n Int) (row column : Fin n → Int) {σ : Fin n → Fin n}
    (injective : Function.Injective σ) : price cost σ =
      ∑ i, (entry cost i (σ i) + row i - column (σ i)) + (∑ j, column j - ∑ i, row i) := by
  have onto : Function.Bijective σ := Finite.injective_iff_bijective.mp injective
  rw [← onto.sum_comp column, ← Finset.sum_sub_distrib, ← Finset.sum_add_distrib, price]
  apply Finset.sum_congr rfl
  intro i _
  ring

/-- An assignment all of whose pairs are tight costs no more than any other. -/
theorem price_le_of_tight {row column : Fin n → Int} {σ τ : Fin n → Fin n}
    (feasible : ∀ i j, column j ≤ entry cost i j + row i)
    (tight : ∀ i, entry cost i (τ i) + row i = column (τ i)) (own : Function.Injective τ)
    (other : Function.Injective σ) : price cost τ ≤ price cost σ := by
  rw [price_eq cost row column own, price_eq cost row column other]
  apply add_le_add_left
  apply Finset.sum_le_sum
  intro i _
  have := feasible i (σ i)
  have := tight i
  omega

/-- The price of any assignment is at least what the potentials give. -/
theorem Certifies.le_price (certifies : Certifies cost rowOf tight row column) {σ : Fin n → Fin n}
    (injective : Function.Injective σ) : ∑ j, column j - ∑ i, row i ≤ price cost σ := by
  have reduced : 0 ≤ ∑ i, (entry cost i (σ i) + row i - column (σ i)) :=
    Finset.sum_nonneg fun i _ => sub_nonneg.mpr (certifies.feasible i (σ i))
  rw [price_eq cost row column injective]
  omega

/-- It is what the potentials give for perfect matchings of tight edges alone. -/
theorem Certifies.price_eq_iff (certifies : Certifies cost rowOf tight row column)
    {σ : Fin n → Fin n} (injective : Function.Injective σ) :
    price cost σ = ∑ j, column j - ∑ i, row i ↔ Perfect tight σ := by
  have reduced : ∀ i ∈ Finset.univ, 0 ≤ entry cost i (σ i) + row i - column (σ i) :=
    fun i _ => sub_nonneg.mpr (certifies.feasible i (σ i))
  rw [price_eq cost row column injective, add_eq_right, Finset.sum_eq_zero_iff_of_nonneg reduced]
  constructor
  · intro zero
    refine ⟨injective, fun i => certifies.mem_tight_iff.mpr ?_⟩
    exact sub_eq_zero.mp (zero i (Finset.mem_univ i))
  · intro perfect i _
    exact sub_eq_zero.mpr (certifies.mem_tight_iff.mp (perfect.tight i))

end Tight

theorem Matching.perfect {m : Matching n} (paired : m.Paired) (tightIn : m.TightIn tight) :
    Perfect tight m.columnOf.get :=
  ⟨fun _ _ same => paired.column_injective same, tightIn⟩

/-! ### Settling rows -/

/-- Looking through tight columns, in order, for the first that a row can have. -/
theorem settleRow_least {fixed : Table n Bool} {i : Fin n} {js : List (Fin n)} {m : Matching n}
    (sorted : ∀ i, (tight.get i).Pairwise (· < ·)) (suffix : js <:+ tight.get i)
    (paired : m.Paired) (tightIn : m.TightIn tight) (member : m.columnOf.get i ∈ js)
    (free : fixed.get (m.columnOf.get i) = false) :
    ∃ j, fixed.get j = false ∧ Rerouted tight fixed m i j (settleRow tight fixed i js m) ∧
      ∀ σ, Perfect tight σ → Agrees fixed m σ → σ i ∈ js → j ≤ σ i := by
  induction js with
  | nil => cases member
  | cons j rest ih =>
    have ordered := (sorted i).sublist suffix.sublist
    have least : ∀ k ∈ j :: rest, j ≤ k := by
      intro k known
      rcases List.mem_cons.mp known with rfl | later
      · exact le_refl _
      · exact (List.rel_of_pairwise_cons ordered later).le
    have skip : ∀ (m' : Matching n), m.columnOf.get i ≠ j →
        (∀ σ, Perfect tight σ → Agrees fixed m σ → σ i ≠ j) →
        m' = settleRow tight fixed i rest m →
        ∃ k, fixed.get k = false ∧ Rerouted tight fixed m i k m' ∧
          ∀ σ, Perfect tight σ → Agrees fixed m σ → σ i ∈ j :: rest → k ≤ σ i := by
      intro m' apart none equal
      subst equal
      obtain ⟨k, unfixed, rerouted, below⟩ := ih ((List.suffix_cons j rest).trans suffix)
        ((List.mem_cons.mp member).resolve_left apart)
      refine ⟨k, unfixed, rerouted, fun σ perfect agrees known => below σ perfect agrees ?_⟩
      exact (List.mem_cons.mp known).resolve_left (none σ perfect agrees)
    unfold settleRow
    by_cases held : fixed.get j = true
    · rw [if_pos held]
      refine skip _ ?_ ?_ rfl
      · intro same
        rw [same, held] at free
        cases free
      · intro σ perfect agrees gives
        have holder : σ (m.rowOf.get j) = j := by
          rw [agrees _ (by rw [paired.column_row]; exact held), paired.column_row]
        have same := perfect.injective (holder.trans gives.symm)
        rw [← same, paired.column_row, held] at free
        cases free
    · rw [if_neg held]
      rw [Bool.not_eq_true] at held
      by_cases own : m.columnOf.get i = j
      · rw [if_pos own]
        exact ⟨j, held, ⟨paired, tightIn, own, fun _ _ _ => rfl⟩, fun σ _ _ known => least _ known⟩
      · rw [if_neg own]
        cases found : reroute? tight fixed m i j with
        | some m' =>
          refine ⟨j, held, ?_, fun σ _ _ known => least _ known⟩
          exact reroute?_eq_some paired tightIn (suffix.subset List.mem_cons_self) own held found
        | none => exact skip _ own (reroute?_eq_none paired own held found) rfl

/-- What settling rows in turn keeps, after the rows `done`. -/
structure Settled (tight : Table n (List (Fin n))) (done : List (Fin n)) (m : Matching n)
    (fixed : Table n Bool) : Prop where
  paired : m.Paired
  tightIn : m.TightIn tight
  fixed_iff : ∀ j, fixed.get j = true ↔ m.rowOf.get j ∈ done
  least : ∀ σ, Perfect tight σ → ∀ i ∈ done, (∀ k < i, σ k = m.columnOf.get k) →
    m.columnOf.get i ≤ σ i

/-- In the list of all rows, those before a row are those below it. -/
theorem lt_iff_mem_of_finRange {done rest : List (Fin n)} {i : Fin n}
    (order : done ++ i :: rest = List.finRange n) (k : Fin n) : k < i ↔ k ∈ done := by
  have ascending : (done ++ i :: rest).Pairwise (· < ·) := by
    rw [order]
    exact List.pairwise_lt_finRange n
  obtain ⟨_, later, before⟩ := List.pairwise_append.mp ascending
  constructor
  · intro less
    have listed : k ∈ done ++ i :: rest := order ▸ List.mem_finRange k
    rcases List.mem_append.mp listed with known | after
    · exact known
    · rcases List.mem_cons.mp after with rfl | behind
      · exact absurd less (lt_irrefl _)
      · exact absurd (less.trans (List.rel_of_pairwise_cons later behind)) (lt_irrefl _)
  · exact fun known => before k known i List.mem_cons_self

/-- Rows that kept their columns are fixed again, and so is the row that was settled. -/
theorem Settled.fixed_iff_next {done : List (Fin n)} {i : Fin n} {m m' : Matching n}
    {fixed : Table n Bool} (settled : Settled tight done m fixed) (paired : m'.Paired)
    (kept : ∀ k ∈ done, m'.columnOf.get k = m.columnOf.get k) (c : Fin n) :
    (fixed.update (m'.columnOf.get i) true).get c = true ↔ m'.rowOf.get c ∈ done ++ [i] := by
  rw [Table.get_update, List.mem_append, List.mem_singleton]
  by_cases new : m'.columnOf.get i = c
  · rw [if_pos new, ← new, paired.row_column]
    simp
  · have other : m'.rowOf.get c ≠ i := by
      intro same
      exact new (by rw [← same, paired.column_row])
    rw [if_neg new, settled.fixed_iff]
    constructor
    · intro known
      have same := kept _ known
      rw [settled.paired.column_row] at same
      rw [← same, paired.row_column]
      exact .inl known
    · intro known
      have known := known.resolve_right other
      have same := kept _ known
      rw [paired.column_row] at same
      rwa [same, settled.paired.row_column]

theorem Settled.next {done rest : List (Fin n)} {i : Fin n} {m : Matching n}
    {fixed : Table n Bool} (sorted : ∀ i, (tight.get i).Pairwise (· < ·))
    (order : done ++ i :: rest = List.finRange n) (settled : Settled tight done m fixed) :
    let m' := settleRow tight fixed i (tight.get i) m
    Settled tight (done ++ [i]) m' (fixed.update (m'.columnOf.get i) true) := by
  intro m'
  have mem_done := lt_iff_mem_of_finRange order
  have fixed_row : ∀ k, fixed.get (m.columnOf.get k) = true ↔ k ∈ done := by
    intro k
    rw [settled.fixed_iff, settled.paired.row_column]
  have undone : i ∉ done := fun known => absurd ((mem_done i).mpr known) (lt_irrefl _)
  have free : fixed.get (m.columnOf.get i) = false := by
    rw [← Bool.not_eq_true, fixed_row]
    exact undone
  obtain ⟨j, _, rerouted, below⟩ := settleRow_least sorted (List.suffix_refl _) settled.paired
    settled.tightIn (settled.tightIn i) free
  have kept : ∀ k ∈ done, m'.columnOf.get k = m.columnOf.get k := by
    intro k known
    exact rerouted.kept k (fun same => undone (same ▸ known)) ((fixed_row k).mpr known)
  refine ⟨rerouted.paired, rerouted.tightIn, settled.fixed_iff_next rerouted.paired kept, ?_⟩
  intro σ perfect k known agrees
  rcases List.mem_append.mp known with old | new
  · rw [kept k old]
    apply settled.least σ perfect k old
    intro l less
    have known := (mem_done l).mp (less.trans ((mem_done k).mpr old))
    rw [agrees l less, kept l known]
  · obtain rfl := List.mem_singleton.mp new
    have own : m'.columnOf.get k = j := rerouted.own
    rw [own]
    refine below σ perfect (fun l held => ?_) (perfect.tight k)
    have known := (fixed_row l).mp held
    rw [agrees l ((mem_done l).mpr known), kept l known]

theorem settleRows_settled {rows done : List (Fin n)} {m m' : Matching n} {fixed : Table n Bool}
    (sorted : ∀ i, (tight.get i).Pairwise (· < ·)) (order : done ++ rows = List.finRange n)
    (settled : Settled tight done m fixed)
    (ok : (do
      let (m, _) ← rows.foldlM (fun (m, fixed) i => do
        Run.check
        let m := settleRow tight fixed i (tight.get i) m
        return (m, fixed.update (m.columnOf.get i) true)) (m, fixed)
      return m : Run Failure (Matching n)).outcome = .ok m') :
    ∃ fixed', Settled tight (List.finRange n) m' fixed' := by
  induction rows generalizing done m fixed with
  | nil =>
    cases ok
    rw [List.append_nil] at order
    exact ⟨fixed, order ▸ settled⟩
  | cons i rest ih =>
    have split : (done ++ [i]) ++ rest = List.finRange n := by
      rw [List.append_assoc, List.singleton_append]
      exact order
    exact ih split (settled.next sorted order) ok

/-- Settling all rows gives the first of the perfect matchings of tight edges. -/
theorem settleRows_first {m m' : Matching n} (sorted : ∀ i, (tight.get i).Pairwise (· < ·))
    (paired : m.Paired) (tightIn : m.TightIn tight)
    (ok : (settleRows tight (List.finRange n) m).outcome = .ok m') :
    Perfect tight m'.columnOf.get ∧ ∀ σ, Perfect tight σ → ∀ i,
      (∀ k < i, σ k = m'.columnOf.get k) → m'.columnOf.get i ≤ σ i := by
  have start : Settled tight [] m (Table.fill n false) := by
    constructor
    · exact paired
    · exact tightIn
    · intro j
      rw [Table.get_fill]
      simp
    · intro σ _ i known
      cases known
  obtain ⟨_, settled⟩ := settleRows_settled sorted (List.nil_append _) start ok
  refine ⟨Matching.perfect settled.paired settled.tightIn, fun σ perfect i agrees => ?_⟩
  exact settled.least σ perfect i (List.mem_finRange i) agrees

/-! ### The whole -/

/-- A list of different columns is a matching. -/
theorem Matching.ofColumns_paired {columnOf : Table n (Fin n)}
    (injective : Function.Injective columnOf.get) : (Matching.ofColumns columnOf).Paired := by
  have untouched : ∀ (rows : List (Fin n)) (rowOf : Table n (Fin n)) (j : Fin n),
      (∀ i ∈ rows, columnOf.get i ≠ j) →
      (rows.foldl (fun rowOf i => rowOf.update (columnOf.get i) i) rowOf).get j = rowOf.get j := by
    intro rows
    induction rows with
    | nil => intro rowOf j _; rfl
    | cons first rest ih =>
      intro rowOf j apart
      rw [List.foldl_cons, ih _ j fun i later => apart i (List.mem_cons_of_mem _ later),
        Table.get_update, if_neg (apart first List.mem_cons_self)]
  have written : ∀ (rows : List (Fin n)) (rowOf : Table n (Fin n)), ∀ i ∈ rows,
      (rows.foldl (fun rowOf i => rowOf.update (columnOf.get i) i) rowOf).get (columnOf.get i) =
        i := by
    intro rows
    induction rows with
    | nil =>
      intro rowOf i known
      cases known
    | cons first rest ih =>
      intro rowOf i known
      rw [List.foldl_cons]
      by_cases later : i ∈ rest
      · exact ih _ i later
      · obtain rfl := (List.mem_cons.mp known).resolve_right later
        rw [untouched, Table.get_update, if_pos rfl]
        exact fun k member same => later (injective same ▸ member)
  have row_column : ∀ i, (Matching.ofColumns columnOf).rowOf.get (columnOf.get i) = i :=
    fun i => written _ _ i (List.mem_finRange i)
  constructor
  · exact row_column
  · intro j
    obtain ⟨i, rfl⟩ := (Finite.injective_iff_surjective.mp injective) j
    rw [row_column]
    rfl

/-- From any assignment that is not refused, the first assignment of least cost is found, and the
one it was found from costs as little. -/
theorem solveIn_first {most : Int} {columnOf best : Table n (Fin n)} (modest : Modest cost most)
    (injective : Function.Injective columnOf.get)
    (ok : (solveIn cost columnOf (.real Binary64.zero)).outcome = .ok best) :
    IsFirst cost best.get ∧ price cost columnOf.get = price cost best.get := by
  have paired := Matching.ofColumns_paired injective
  unfold solveIn at ok
  rw [Run.outcome_bind_eq_ok_iff] at ok
  obtain ⟨tight, recovered, ok⟩ := ok
  rw [Run.outcome_bind_eq_ok_iff] at ok
  obtain ⟨m, settled, ok⟩ := ok
  cases ok
  obtain ⟨row, column, certifies⟩ := tightTable_certifies modest recovered
  have sorted : ∀ i, (tight.get i).Pairwise (· < ·) := by
    intro i
    rw [certifies.tight_eq]
    exact (List.pairwise_lt_finRange n).filter _
  have tightIn : (Matching.ofColumns columnOf).TightIn tight := by
    intro i
    have matched := certifies.matched ((Matching.ofColumns columnOf).columnOf.get i)
    rw [paired.row_column] at matched
    exact certifies.mem_tight_iff.mpr matched
  obtain ⟨perfect, first⟩ := settleRows_first sorted paired tightIn settled
  have value := (certifies.price_eq_iff perfect.injective).mpr perfect
  constructor
  · constructor
    · exact perfect.injective
    · intro σ different
      rw [value]
      exact certifies.le_price different
    · intro σ different same
      rw [value] at same
      exact first σ ((certifies.price_eq_iff different).mp same)
  · rw [value, certifies.price_eq_iff injective]
    exact Matching.perfect paired tightIn

end Optima.Assignment.Lexicographic
