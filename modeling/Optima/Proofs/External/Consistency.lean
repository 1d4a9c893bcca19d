import Optima.Proofs.External.Translation

/-!
The sizes of what the solver that takes matrices is asked. Every constraint of a model becomes a row
with a coefficient for each variable (`rowsOf_sized`), and the matrices of a question have a row for
each right-hand side. But a matrix is left out where it has no entries, and a list of right-hand
sides where it is empty. The two agree as long as there are variables; a model without variables
keeps the right-hand sides of its constraints and loses the rows, so that its question is consistent
only if it has no constraints either (`askMatrix_consistent_iff`).
-/

namespace Optima

/-! ### Rows -/

namespace Linear

variable {R : Type} {names : List String}

/-- There are so many rows, each with so many coefficients. -/
structure Rows.Sized (rows : Rows R) (count columns : Nat) : Prop where
  count : rows.upper.length + rows.equal.length = count
  upper : ∀ row ∈ rows.upper, row.coefficients.length = columns
  equal : ∀ row ∈ rows.equal, row.coefficients.length = columns

theorem Constraint.row_length [Zero R] [Add R] [Sub R] {c : Constraint R} {row : Row R}
    (ok : c.row names = .ok row) : row.coefficients.length = names.length := by
  obtain ⟨t, -, same⟩ := bind_eq_ok_iff.mp ok
  cases same
  rw [Table.values_eq_ofFn, List.length_ofFn]

theorem Rows.Sized.add [Neg R] {rows : Rows R} {count columns : Nat}
    (sized : rows.Sized count columns) (comparison : Comparison) {row : Row R}
    (wide : row.coefficients.length = columns) :
    (rows.add comparison row).Sized (count + 1) columns := by
  have total := sized.count
  cases comparison with
  | atMost =>
    refine ⟨?_, List.forall_mem_cons.mpr ⟨wide, sized.upper⟩, sized.equal⟩
    simp only [Rows.add, List.length_cons]
    omega
  | atLeast =>
    have turned : row.negated.coefficients.length = columns := by
      rwa [Row.negated, List.length_map]
    refine ⟨?_, List.forall_mem_cons.mpr ⟨turned, sized.upper⟩, sized.equal⟩
    simp only [Rows.add, List.length_cons]
    omega
  | equal =>
    refine ⟨?_, sized.upper, List.forall_mem_cons.mpr ⟨wide, sized.equal⟩⟩
    simp only [Rows.add, List.length_cons]
    omega

/-- There is a row for each constraint, and a coefficient in it for each variable. -/
theorem rowsOf_sized [Zero R] [Add R] [Sub R] [Neg R] {constraints : List (Constraint R)}
    {rows : Rows R} (ok : rowsOf names constraints = .ok rows) :
    rows.Sized constraints.length names.length := by
  induction constraints generalizing rows with
  | nil =>
    cases ok
    exact ⟨rfl, List.forall_mem_nil _, List.forall_mem_nil _⟩
  | cons c rest ih =>
    obtain ⟨row, rowOk, ok⟩ := bind_eq_ok_iff.mp ok
    obtain ⟨others, othersOk, same⟩ := bind_eq_ok_iff.mp ok
    cases same
    exact (ih othersOk).add c.comparison (Constraint.row_length rowOk)

end Linear

/-! ### Questions -/

namespace External.Matrix

open Linear

variable {R : Type}

/-- A matrix, if there is one, has a row for each right-hand side and a column for each variable. -/
def Fits (columns : Nat) (matrix : Option (List (List R))) (sides : Option (List R)) : Prop :=
  ∀ rows ∈ matrix, rows.length = (sides.getD []).length ∧ ∀ row ∈ rows, row.length = columns

/-- The matrices of a question go with its right-hand sides, and hold all constraints of a model. -/
structure Question.Consistent (q : Question R) (m : Model R) : Prop where
  upper_present : q.upper.isSome ↔ q.upperSides.isSome
  equal_present : q.equal.isSome ↔ q.equalSides.isSome
  upper_fits : Fits m.unknowns.length q.upper q.upperSides
  equal_fits : Fits m.unknowns.length q.equal q.equalSides
  complete : (q.upper.getD []).length + (q.equal.getD []).length = m.constraints.length

variable {columns : Nat} {rows : List (Row R)}

theorem sides?_length (rows : List (Row R)) : ((sides? rows).getD []).length = rows.length := by
  cases rows <;> simp [sides?]

theorem fits_matrix? (wide : ∀ row ∈ rows, row.coefficients.length = columns) :
    Fits columns (matrix? columns rows) (sides? rows) := by
  intro matrix present
  rw [sides?_length]
  unfold matrix? at present
  split at present
  · cases present
  · cases present
    exact ⟨List.length_map .., List.forall_mem_map.mpr wide⟩

/-- With columns, a matrix is left out exactly where the right-hand sides are. -/
theorem matrix?_of_columns (columns_ne : columns ≠ 0) (rows : List (Row R)) :
    ((matrix? columns rows).getD []).length = rows.length ∧
      ((matrix? columns rows).isSome ↔ (sides? rows).isSome) := by
  cases rows <;> simp [matrix?, sides?, columns_ne]

/-- Without columns, there is no matrix. -/
theorem matrix?_zero (rows : List (Row R)) : matrix? 0 rows = none := if_pos (.inr rfl)

section Question

variable {m : Model R} {q : Question R}

/-- The rows that a question is made of; it says nothing of time. -/
theorem exists_rows [Zero R] [One R] [Add R] [Sub R] [Mul R] [Neg R] (ok : question m = .ok q) :
    ∃ rows : Rows R, rows.Sized m.constraints.length m.unknowns.length ∧
      q.upper = matrix? m.unknowns.length rows.upper ∧ q.upperSides = sides? rows.upper ∧
      q.equal = matrix? m.unknowns.length rows.equal ∧ q.equalSides = sides? rows.equal ∧
      q.timeLimit = none := by
  obtain ⟨costs, costsOk, rest⟩ := bind_eq_ok_iff.mp ok
  obtain ⟨rows, rowsOk, -⟩ := bind_eq_ok_iff.mp rest
  have sized := rowsOf_sized rowsOk
  rw [Model.names, List.length_map] at sized
  cases (question_eq rowsOk costsOk).symm.trans ok
  exact ⟨rows, sized, rfl, rfl, rfl, rfl, rfl⟩

variable [Zero R] [One R] [Add R] [Sub R] [Mul R] [Neg R]

/-- The matrices of a question fit, and it has a right-hand side for each constraint. -/
theorem question_fits (ok : question m = .ok q) :
    Fits m.unknowns.length q.upper q.upperSides ∧ Fits m.unknowns.length q.equal q.equalSides ∧
      (q.upperSides.getD []).length + (q.equalSides.getD []).length = m.constraints.length := by
  obtain ⟨rows, sized, upper, upperSides, equal, equalSides, -⟩ := exists_rows ok
  rw [upper, upperSides, equal, equalSides, sides?_length, sides?_length]
  exact ⟨fits_matrix? sized.upper, fits_matrix? sized.equal, sized.count⟩

/-- It is consistent unless there are constraints and no variables. -/
theorem question_consistent_iff (ok : question m = .ok q) :
    q.Consistent m ↔ m.unknowns ≠ [] ∨ m.constraints = [] := by
  obtain ⟨rows, sized, upper, upperSides, equal, equalSides, -⟩ := exists_rows ok
  have count := sized.count
  constructor
  · intro consistent
    by_contra neither
    obtain ⟨unknowns, constraints⟩ := not_or.mp neither
    have complete := consistent.complete
    rw [upper, equal, not_not.mp unknowns] at complete
    simp only [List.length_nil, matrix?_zero, Option.getD_none] at complete
    exact constraints (List.length_eq_zero_iff.mp complete.symm)
  · intro either
    have matched (rs : List (Row R)) (few : rs.length ≤ m.constraints.length) :
        ((matrix? m.unknowns.length rs).getD []).length = rs.length ∧
          ((matrix? m.unknowns.length rs).isSome ↔ (sides? rs).isSome) := by
      rcases either with unknowns | constraints
      · exact matrix?_of_columns (List.length_eq_zero_iff.not.mpr unknowns) rs
      · obtain rfl : rs = [] := by
          rw [constraints] at few
          exact List.length_eq_zero_iff.mp (Nat.le_zero.mp few)
        exact ⟨rfl, Iff.rfl⟩
    obtain ⟨upper_count, upper_present⟩ := matched rows.upper (by omega)
    obtain ⟨equal_count, equal_present⟩ := matched rows.equal (by omega)
    obtain ⟨upper_fits, equal_fits, -⟩ := question_fits ok
    refine ⟨?_, ?_, upper_fits, equal_fits, ?_⟩
    · rwa [upper, upperSides]
    · rwa [equal, equalSides]
    · rw [upper, equal, upper_count, equal_count, count]

end Question

/-- Without a limit of time, the question itself is asked. -/
theorem calls_askMatrix_none {m : Model Binary64} {q : Question Binary64} (ok : question m = .ok q)
    (replies : Replies) : (askMatrix replies m none).calls = [.matrix q] := by
  obtain ⟨_, -, -, -, -, -, untimed⟩ := exists_rows ok
  rw [(Question.putFor ok replies none).asked none rfl, ← untimed]

/-- Whatever the solver is asked about a model is the question that the model amounts to. -/
theorem calls_askMatrix {m : Model Binary64} {q : Question Binary64} (ok : question m = .ok q)
    (replies : Replies) (timeLimit : Option Number) :
    ∀ call ∈ (askMatrix replies m timeLimit).calls,
      ∃ limit, call = .matrix { q with timeLimit := limit } := by
  have put := Question.putFor ok replies timeLimit
  intro call mem
  cases converts : timeLimit.mapM Number.toReal with
  | error fault =>
    rw [put.timeless fault converts] at mem
    cases mem
  | ok limit =>
    rw [put.asked limit converts] at mem
    exact ⟨limit, List.mem_singleton.mp mem⟩

/-- The solver is asked one question about every linear model that is accepted. Its matrices fit and
there is a right-hand side for each constraint, and it is consistent exactly if the model has
variables or is without constraints. -/
theorem askMatrix_consistent_iff {d : Datum} {m : Model Binary64}
    (accepted : Payload.ofDatum d = .ok (.linear m)) :
    ∃ q, (∀ replies, (askMatrix replies m none).calls = [.matrix q]) ∧
      (∀ replies timeLimit, ∀ call ∈ (askMatrix replies m timeLimit).calls,
        ∃ limit, call = .matrix { q with timeLimit := limit }) ∧
      Fits m.unknowns.length q.upper q.upperSides ∧
      Fits m.unknowns.length q.equal q.equalSides ∧
      (q.upperSides.getD []).length + (q.equalSides.getD []).length = m.constraints.length ∧
      (q.Consistent m ↔ m.unknowns ≠ [] ∨ m.constraints = []) := by
  obtain ⟨q, ok, -⟩ := exists_describes (declares_of_ofDatum accepted)
  obtain ⟨upper, equal, sides⟩ := question_fits ok
  exact ⟨q, calls_askMatrix_none ok, calls_askMatrix ok, upper, equal, sides,
    question_consistent_iff ok⟩

theorem askMatrix_consistent_twoProducts : ∃ m : Model Binary64,
    Payload.ofDatum twoProducts = .ok (.linear m) ∧ m.names = ["x", "y"] ∧
    m.constraints.length = 3 ∧
    ∃ q, (∀ replies, (askMatrix replies m none).calls = [.matrix q]) ∧ q.Consistent m := by
  obtain ⟨m, accepted, names, constraints, -⟩ := accepted_twoProducts
  obtain ⟨q, asked, -, -, -, -, consistent⟩ := askMatrix_consistent_iff accepted
  refine ⟨m, accepted, names, constraints, q, asked, consistent.mpr (.inl fun none => ?_)⟩
  rw [Model.names, none] at names
  cases names

/-- A constraint between two numbers, in a model without variables. -/
def noVariables : Datum :=
  .object [("model_type", .text "linear"), ("model", .object [
    ("sense", .text "min"),
    ("objective", .object []),
    ("variables", .list []),
    ("constraints", .list [
      .object [("name", .text "c"), ("lhs", .object []), ("cmp", .text "<="),
        ("rhs", .int 1)]])])]

/-- The right-hand side of the constraint is passed without its row. -/
theorem askMatrix_not_consistent_noVariables : ∃ (m : Model Binary64) (q : Question Binary64),
    Payload.ofDatum noVariables = .ok (.linear m) ∧ m.unknowns.length = 0 ∧
    m.constraints.length = 1 ∧ (∀ replies, (askMatrix replies m none).calls = [.matrix q]) ∧
    q.upper.isNone ∧ q.upperSides.isSome ∧ ¬ q.Consistent m := by
  have read : (linear? (Payload.ofDatum noVariables)).map
      (fun m => (m.unknowns.length, m.constraints.length, (question m).toOption.map fun q =>
        (q.upper.isNone, q.upperSides.isSome))) = some (0, 1, some (true, true)) := by
    decide +kernel
  obtain ⟨m, found, parts⟩ := Option.map_eq_some_iff.mp read
  obtain ⟨unknowns, parts⟩ := Prod.mk.inj parts
  obtain ⟨constraints, asked⟩ := Prod.mk.inj parts
  have accepted := eq_of_linear? found
  obtain ⟨q, ok, -⟩ := exists_describes (declares_of_ofDatum accepted)
  rw [ok] at asked
  obtain ⟨rowless, sided⟩ := Prod.mk.inj (Option.some.inj asked)
  refine ⟨m, q, accepted, unknowns, constraints, calls_askMatrix_none ok, rowless, sided,
    fun consistent => ?_⟩
  have paired := consistent.upper_present.mpr sided
  rw [Option.isNone_iff_eq_none.mp rowless] at paired
  cases paired

end External.Matrix

end Optima
