import Mathlib.Algebra.BigOperators.Fin
import Mathlib.Algebra.BigOperators.Ring.Finset
import Mathlib.Algebra.Order.Field.Basic
import Mathlib.Tactic.Linarith
import Mathlib.Tactic.LinearCombination
import Mathlib.Tactic.Ring
import Optima.Linear.Matrix
import Optima.Proofs.Run
import Optima.Proofs.Table

/-!
What linear models mean, and that their matrix form means the same. In exact arithmetic a point
satisfies the rows of a model exactly if it satisfies the constraints (`rowsOf_hold_iff`), and the
costs of a point, turned back and with the constant, are the objective (`Model.costs_eq`). No
variable is looked up in vain as long as terms refer to declared variables (`Model.Declares`).

The matrix form is the one that is made of doubles; here it is made of the elements of an ordered
field, as which the doubles of a model are read (`Model.map`).
-/

namespace Optima

namespace Linear

variable {R K : Type}

/-! ### What a model says -/

section Meaning

variable [Field K]

/-- The value of a sum of terms. -/
def Term.total (terms : List (Term K)) (x : String → K) : K :=
  (terms.map fun t => t.coefficient * x t.name).sum

/-- The value of an expression. -/
def Expr.value (e : Expr K) (x : String → K) : K := Term.total e.terms x + e.constant

/-- The product of a row of coefficients with a point. -/
def dot (coefficients point : List K) : K := (List.zipWith (· * ·) coefficients point).sum

variable [LinearOrder K]

/-- Two numbers compare as a comparison says. -/
def Comparison.Holds : Comparison → K → K → Prop
  | atMost, a, b => a ≤ b
  | atLeast, a, b => b ≤ a
  | equal, a, b => a = b

/-- An assignment of numbers to variables satisfies a constraint. -/
def Constraint.Holds (c : Constraint K) (x : String → K) : Prop :=
  c.comparison.Holds (c.left.value x) c.right

/-- The first value is as good as the second, or better. -/
def Sense.AsGood : Sense → K → K → Prop
  | min, a, b => a ≤ b
  | max, a, b => b ≤ a

/-- An assignment satisfies all constraints of a model. -/
def Model.Feasible (m : Model K) (x : String → K) : Prop := ∀ c ∈ m.constraints, c.Holds x

/-- A point satisfies all rows. -/
structure Rows.Hold (rows : Rows K) (point : List K) : Prop where
  upper : ∀ row ∈ rows.upper, dot row.coefficients point ≤ row.side
  equal : ∀ row ∈ rows.equal, dot row.coefficients point = row.side

end Meaning

/-! ### Columns -/

/-- All terms refer to declared variables. -/
structure Model.Declares (m : Model R) : Prop where
  objective : ∀ t ∈ m.objective.terms, t.name ∈ m.names
  constraints : ∀ c ∈ m.constraints, ∀ t ∈ c.left.terms, t.name ∈ m.names

section Lookups

variable {names : List String}

/-- A declared variable has a column. -/
theorem exists_column {name : String} (declared : name ∈ names) :
    ∃ j, column names name = .ok j := by
  obtain ⟨k, here⟩ := List.mem_iff_get.mp declared
  unfold column
  split
  · exact ⟨_, rfl⟩
  · rename_i nothing
    rw [List.find?_eq_none] at nothing
    exact absurd (by simpa using here) (nothing k (by simp))

/-- The column of a variable bears its name. -/
theorem column_eq_ok {name : String} {j : Fin names.length} (ok : column names name = .ok j) :
    names.get j = name := by
  unfold column at ok
  split at ok
  · rename_i found
    cases ok
    simpa using List.find?_some found
  · cases ok

theorem Expr.exists_coefficients [Zero R] [Add R] {e : Expr R}
    (declared : ∀ t ∈ e.terms, t.name ∈ names) : ∃ t, e.coefficients names = .ok t := by
  obtain ⟨terms, constant⟩ := e
  unfold Expr.coefficients
  generalize Table.fill names.length (0 : R) = start
  induction terms generalizing start with
  | nil => exact ⟨start, rfl⟩
  | cons term terms ih =>
    obtain ⟨j, found⟩ := exists_column (declared term List.mem_cons_self)
    rw [List.foldlM_cons, found]
    exact ih (fun t mem => declared t (List.mem_cons_of_mem _ mem)) _

theorem exists_rowsOf [Zero R] [Add R] [Sub R] [Neg R] {constraints : List (Constraint R)}
    (declared : ∀ c ∈ constraints, ∀ t ∈ c.left.terms, t.name ∈ names) :
    ∃ rows, rowsOf names constraints = .ok rows := by
  induction constraints with
  | nil => exact ⟨_, rfl⟩
  | cons c constraints ih =>
    obtain ⟨t, coefficients⟩ := Expr.exists_coefficients (declared c List.mem_cons_self)
    obtain ⟨rows, rest⟩ := ih fun c mem => declared c (List.mem_cons_of_mem _ mem)
    rw [rowsOf, Constraint.row, coefficients, rest]
    exact ⟨_, rfl⟩

theorem Model.exists_costs [Zero R] [One R] [Add R] [Mul R] [Neg R] {m : Model R}
    (declares : m.Declares) : ∃ costs, m.costs = .ok costs := by
  obtain ⟨t, coefficients⟩ := Expr.exists_coefficients declares.objective
  rw [Model.costs, coefficients]
  exact ⟨_, rfl⟩

end Lookups

/-! ### Rows -/

section Rows

variable [Field K] {names : List String}

/-- The values of a table times those of the variables. -/
theorem dot_values (t : Table names.length K) (x : String → K) :
    dot t.values (names.map x) = ∑ j, t.get j * x (names.get j) := by
  have listed : names.map x = (List.finRange names.length).map fun j => x (names.get j) :=
    List.ext_getElem (by simp) (by simp)
  rw [dot, Table.values, listed, List.zipWith_map, List.zipWith_self, Fin.sum_univ_def]

/-- Adding the coefficients of terms to their columns adds up the terms. -/
theorem sum_foldlM_coefficients {terms : List (Term K)} {start t : Table names.length K}
    (ok : (terms.foldlM (fun t term => do
      let j ← column names term.name
      return t.update j (t.get j + term.coefficient)) start : Except Failure _) = .ok t)
    (x : String → K) : ∑ j, t.get j * x (names.get j) =
      ∑ j, start.get j * x (names.get j) + Term.total terms x := by
  induction terms generalizing start with
  | nil =>
    cases ok
    simp [Term.total]
  | cons term terms ih =>
    rw [List.foldlM_cons] at ok
    obtain ⟨next, put, ok⟩ := bind_eq_ok_iff.mp ok
    obtain ⟨j, found, put⟩ := bind_eq_ok_iff.mp put
    cases put
    have changed := Table.sum_update start j (start.get j + term.coefficient)
      fun w a => a * x (names.get w)
    rw [column_eq_ok found] at changed
    rw [ih ok, Term.total, Term.total, List.map_cons, List.sum_cons]
    linear_combination changed

/-- The coefficients of an expression by column make up its terms. -/
theorem Expr.dot_coefficients {e : Expr K} {t : Table names.length K}
    (ok : e.coefficients names = .ok t) (x : String → K) :
    dot t.values (names.map x) = Term.total e.terms x := by
  rw [dot_values, sum_foldlM_coefficients ok x]
  simp

theorem dot_map_neg (coefficients point : List K) :
    dot (coefficients.map (- ·)) point = -dot coefficients point := by
  unfold dot
  induction coefficients generalizing point with
  | nil => simp
  | cons a coefficients ih =>
    cases point with
    | nil => simp
    | cons b point => simp [ih, neg_mul, add_comm]

theorem dot_map_mul (coefficients point : List K) (factor : K) :
    dot (coefficients.map (· * factor)) point = dot coefficients point * factor := by
  unfold dot
  induction coefficients generalizing point with
  | nil => simp
  | cons a coefficients ih =>
    cases point with
    | nil => simp
    | cons b point =>
      simp only [List.map_cons, List.zipWith_cons_cons, List.sum_cons, ih]
      ring

variable [LinearOrder K] [IsStrictOrderedRing K]

/-- A row that is added demands what its comparison says. -/
theorem Rows.hold_add_iff {rows : Rows K} {comparison : Comparison} {row : Row K} {point : List K} :
    (rows.add comparison row).Hold point ↔
      comparison.Holds (dot row.coefficients point) row.side ∧ rows.Hold point := by
  cases comparison with
  | atMost =>
    constructor
    · rintro ⟨upper, equal⟩
      exact ⟨upper row List.mem_cons_self, fun r mem => upper r (List.mem_cons_of_mem _ mem), equal⟩
    · rintro ⟨here, upper, equal⟩
      exact ⟨List.forall_mem_cons.mpr ⟨here, upper⟩, equal⟩
  | atLeast =>
    have turned : dot row.negated.coefficients point ≤ row.negated.side ↔
        row.side ≤ dot row.coefficients point := by
      rw [Row.negated, dot_map_neg, neg_le_neg_iff]
    constructor
    · rintro ⟨upper, equal⟩
      exact ⟨turned.mp (upper row.negated List.mem_cons_self),
        fun r mem => upper r (List.mem_cons_of_mem _ mem), equal⟩
    · rintro ⟨here, upper, equal⟩
      exact ⟨List.forall_mem_cons.mpr ⟨turned.mpr here, upper⟩, equal⟩
  | equal =>
    constructor
    · rintro ⟨upper, equal⟩
      exact ⟨equal row List.mem_cons_self, upper, fun r mem => equal r (List.mem_cons_of_mem _ mem)⟩
    · rintro ⟨here, upper, equal⟩
      exact ⟨upper, List.forall_mem_cons.mpr ⟨here, equal⟩⟩

/-- The row of a constraint demands what the constraint says. -/
theorem Constraint.row_holds_iff {c : Constraint K} {row : Row K} (ok : c.row names = .ok row)
    (x : String → K) :
    c.comparison.Holds (dot row.coefficients (names.map x)) row.side ↔ c.Holds x := by
  obtain ⟨t, coefficients, same⟩ := bind_eq_ok_iff.mp ok
  cases same
  rw [Expr.dot_coefficients coefficients, Constraint.Holds, Expr.value]
  cases c.comparison with
  | atMost => exact le_sub_iff_add_le
  | atLeast => exact sub_le_iff_le_add
  | equal => exact eq_sub_iff_add_eq

/-- A point satisfies the rows of constraints exactly if it satisfies the constraints. -/
theorem rowsOf_hold_iff {constraints : List (Constraint K)} {rows : Rows K}
    (ok : rowsOf names constraints = .ok rows) (x : String → K) :
    rows.Hold (names.map x) ↔ ∀ c ∈ constraints, c.Holds x := by
  induction constraints generalizing rows with
  | nil =>
    cases ok
    exact ⟨fun _ => nofun, fun _ => ⟨nofun, nofun⟩⟩
  | cons c constraints ih =>
    obtain ⟨row, first, ok⟩ := bind_eq_ok_iff.mp ok
    obtain ⟨rest, later, same⟩ := bind_eq_ok_iff.mp ok
    cases same
    rw [Rows.hold_add_iff, c.row_holds_iff first, ih later, List.forall_mem_cons]

end Rows

/-! ### The objective -/

section Objective

variable [Field K] {m : Model K} {costs : List K}

theorem Model.senseFactor_mul_self (m : Model K) : m.senseFactor * m.senseFactor = 1 := by
  unfold senseFactor
  split <;> simp

/-- The objective of a model from the value that is minimised. -/
theorem Model.costs_eq (ok : m.costs = .ok costs) (x : String → K) :
    m.senseFactor * dot costs (m.names.map x) + m.objective.constant = m.objective.value x := by
  obtain ⟨t, coefficients, same⟩ := bind_eq_ok_iff.mp ok
  cases same
  rw [dot_map_mul, Expr.dot_coefficients coefficients, Expr.value]
  linear_combination Term.total m.objective.terms x * m.senseFactor_mul_self

/-- Making the costs small makes the objective what the model wants it to be. -/
theorem Model.costs_le_iff [LinearOrder K] [IsStrictOrderedRing K] (ok : m.costs = .ok costs)
    (x y : String → K) : dot costs (m.names.map x) ≤ dot costs (m.names.map y) ↔
      m.sense.AsGood (m.objective.value x) (m.objective.value y) := by
  rw [← m.costs_eq ok x, ← m.costs_eq ok y]
  cases sense : m.sense with
  | min => simp [Sense.AsGood, senseFactor, sense]
  | max =>
    simp only [Sense.AsGood, senseFactor, sense]
    constructor <;> intro le <;> linarith

end Objective

/-! ### Other scalars -/

section Map

variable {S : Type} (f : R → S)

def Term.map (t : Term R) : Term S := ⟨t.name, f t.coefficient⟩

def Expr.map (e : Expr R) : Expr S := ⟨e.terms.map (Term.map f), f e.constant⟩

def Variable.map (v : Variable R) : Variable S :=
  ⟨v.name, v.lower.map f, v.upper.map f, v.isInteger⟩

def Constraint.map (c : Constraint R) : Constraint S :=
  ⟨c.name, c.left.map f, c.comparison, f c.right⟩

/-- The model with its scalars read as others. -/
def Model.map (m : Model R) : Model S where
  name := m.name
  sense := m.sense
  objective := m.objective.map f
  unknowns := m.unknowns.map (Variable.map f)
  constraints := m.constraints.map (Constraint.map f)

theorem Model.names_map (m : Model R) : (m.map f).names = m.names := by
  simp only [names, map, List.map_map]
  rfl

theorem Model.Declares.map {m : Model R} (declares : m.Declares) : (m.map f).Declares := by
  have kept {terms : List (Term R)} (declared : ∀ t ∈ terms, t.name ∈ m.names) :
      ∀ t ∈ terms.map (Term.map f), t.name ∈ (m.map f).names := by
    rw [m.names_map]
    exact List.forall_mem_map.mpr declared
  exact ⟨kept declares.objective,
    List.forall_mem_map.mpr fun c mem => kept (declares.constraints c mem)⟩

end Map

end Linear

end Optima
