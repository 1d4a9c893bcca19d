import Mathlib.Data.Rat.Cast.Order
import Optima.External.Consultation
import Optima.Proofs.Linear.Matrix
import Optima.Proofs.Record.Reader

/-!
External solvers are asked what the model asks (`linear_asked`): the solver that takes matrices is
asked one question (`Matrix.Question.PutFor`), and the one that takes a model step by step is told all
steps that state it, once it has an engine (`Stepwise.PutFor`). Both are given the same variables, the
same feasible points and the same objective, those of the model. That is stated in exact arithmetic,
for the doubles of a model read as the numbers that they are (`Binary64.exact`), and for every model
that is accepted: such a model declares its variables (`declares_of_ofDatum`).
-/

namespace Optima

/-- The value of a double in an ordered field. Infinities and `nan` have none; they are read as
zero. -/
def Binary64.exact (K : Type) [Field K] (x : Binary64) : K := (x.units?.getD 0 : K) / (unit : K)

namespace External

open Linear

/-! ### Accepted models -/

/-- A model without defects declares what its terms refer to. -/
theorem declares_of_no_defect {m : Model Binary64} (sound : m.defect? = none) : m.Declares := by
  have declared {e : Expr Binary64} (none : e.undeclared? m.names = none) :
      ∀ t ∈ e.terms, t.name ∈ m.names := by
    simpa [Expr.undeclared?] using none
  unfold Model.defect? at sound
  split at sound
  · cases sound
  · simp only [Option.orElse_eq_none, Option.map_eq_none_iff, List.findSome?_eq_none_iff] at sound
    obtain ⟨-, objective, constraints⟩ := sound
    exact ⟨declared objective, fun c mem => declared (constraints c mem)⟩

/-- A linear model that is accepted declares what its terms refer to. -/
theorem declares_of_ofDatum {d : Datum} {m : Model Binary64}
    (accepted : Payload.ofDatum d = .ok (.linear m)) : m.Declares := by
  unfold Payload.ofDatum at accepted
  split at accepted
  · rename_i payload read
    cases accepted
    obtain ⟨member, mem, read⟩ := Reader.tagged_eq_ok read
    simp only [List.mem_cons, List.not_mem_nil, or_false] at mem
    obtain rfl | rfl := mem
    · obtain ⟨m', read, same⟩ := Checked.map_eq_ok_iff.mp read
      cases same
      obtain ⟨fields, read⟩ := Reader.record_eq_ok read
      obtain ⟨_, m', word, model, rfl⟩ := Checked.seq_eq_ok_iff.mp read
      obtain ⟨_, -, rfl⟩ := Checked.map_eq_ok_iff.mp word
      obtain ⟨d', model⟩ := Reader.required_eq_ok model
      obtain ⟨m', -, checked⟩ := Checked.andThen_eq_ok_iff.mp model
      split at checked
      · cases checked
      · rename_i sound
        cases checked
        exact declares_of_no_defect sound
    · obtain ⟨r, -, same⟩ := Checked.map_eq_ok_iff.mp read
      cases same
  · cases accepted

/-! ### Questions in matrix form -/

namespace Matrix

variable {R K : Type}

/-- The question that a model amounts to, in its parts. -/
theorem question_eq [Zero R] [One R] [Add R] [Sub R] [Mul R] [Neg R] {m : Model R} {rows : Rows R}
    {costs : List R} (rowsOk : m.rows = .ok rows) (costsOk : m.costs = .ok costs) :
    question m = .ok {
      costs := costs
      upper := matrix? m.unknowns.length rows.upper
      upperSides := sides? rows.upper
      equal := matrix? m.unknowns.length rows.equal
      equalSides := sides? rows.equal
      bounds := m.unknowns.map fun v => (v.lower, v.upper)
      integrality := if m.hasIntegers then some (m.unknowns.map (·.isInteger)) else none
      timeLimit := none } := by
  rw [question, rowsOk, costsOk]
  rfl

/-- Where nothing is said about whole values, no variable takes whole values only. -/
theorem integrality_getD (m : Model R) :
    (if m.hasIntegers then some (m.unknowns.map (·.isInteger)) else none).getD
      (m.unknowns.map fun _ => false) = m.unknowns.map (·.isInteger) := by
  by_cases some : m.hasIntegers
  · rw [if_pos some, Option.getD_some]
  · rw [if_neg some, Option.getD_none]
    refine List.map_congr_left fun v mem => ?_
    simp only [Model.hasIntegers, List.any_eq_true, not_exists, not_and, Bool.not_eq_true] at some
    exact (some v mem).symm

/-- A question has the bounds of a model's variables, and says of the same ones that they take whole
values only. -/
structure Question.Describes (q : Question R) (m : Model R) : Prop where
  bounds : q.bounds = m.unknowns.map fun v => (v.lower, v.upper)
  integrality : q.integrality.getD (m.unknowns.map fun _ => false) = m.unknowns.map (·.isInteger)

/-- A question of which rows are the rows asks what a model asks: its points are feasible for the
model, and the objective of the model, with its constant, is made from the costs and becomes better
as they become less. -/
structure Question.Asks [Field K] [LinearOrder K] (q : Question K) (rows : Rows K) (m : Model K) :
    Prop where
  upper : q.upper = matrix? m.unknowns.length rows.upper
  upperSides : q.upperSides = sides? rows.upper
  equal : q.equal = matrix? m.unknowns.length rows.equal
  equalSides : q.equalSides = sides? rows.equal
  feasible (x : String → K) : rows.Hold (m.names.map x) ↔ m.Feasible x
  objective (x : String → K) :
    m.senseFactor * dot q.costs (m.names.map x) + m.objective.constant = m.objective.value x
  better (x y : String → K) : dot q.costs (m.names.map x) ≤ dot q.costs (m.names.map y) ↔
    m.sense.AsGood (m.objective.value x) (m.objective.value y)

theorem exists_describes [Zero R] [One R] [Add R] [Sub R] [Mul R] [Neg R] {m : Model R}
    (declares : m.Declares) : ∃ q, question m = .ok q ∧ q.Describes m := by
  obtain ⟨rows, rowsOk⟩ := exists_rowsOf declares.constraints
  obtain ⟨costs, costsOk⟩ := Model.exists_costs declares
  exact ⟨_, question_eq rowsOk costsOk, rfl, integrality_getD m⟩

theorem exists_asks [Field K] [LinearOrder K] [IsStrictOrderedRing K] {m : Model K}
    (declares : m.Declares) :
    ∃ rows q, m.rows = .ok rows ∧ question m = .ok q ∧ q.Asks rows m := by
  obtain ⟨rows, rowsOk⟩ := exists_rowsOf declares.constraints
  obtain ⟨costs, costsOk⟩ := Model.exists_costs declares
  exact ⟨rows, _, rowsOk, question_eq rowsOk costsOk, rfl, rfl, rfl, rfl, rowsOf_hold_iff rowsOk,
    Model.costs_eq costsOk, Model.costs_le_iff costsOk⟩

/-- A question is put to the solver for a model, with the time that it may take, and nothing else is.
With a limit that is no time, nothing is asked. -/
structure Question.PutFor (q : Question Binary64) (m : Model Binary64) (replies : Replies)
    (timeLimit : Option Number) : Prop where
  asked : ∀ limit, timeLimit.mapM Number.toReal = .ok limit →
    (askMatrix replies m timeLimit).calls = [.matrix { q with timeLimit := limit }]
  timeless : ∀ fault, timeLimit.mapM Number.toReal = .error fault →
    (askMatrix replies m timeLimit).calls = []

/-- The question that a model amounts to is put to the solver. -/
theorem Question.putFor {m : Model Binary64} {q : Question Binary64} (ok : question m = .ok q)
    (replies : Replies) (timeLimit : Option Number) : q.PutFor m replies timeLimit where
  asked limit converts := by
    have put : matrixQuestion m timeLimit = .ok { q with timeLimit := limit } := by
      rw [matrixQuestion, ok, converts]
      rfl
    rw [askMatrix, put]
  timeless fault converts := by
    have put : matrixQuestion m timeLimit = .error (.fault fault) := by
      rw [matrixQuestion, ok, converts]
      rfl
    rw [askMatrix, put]

end Matrix

/-! ### Models stated step by step -/

namespace Stepwise

variable {R K : Type}

/-- The variable that a step states. -/
def Request.variable? : Request R → Option (Variable R)
  | .variable isInteger lower upper name => some ⟨name, lower, upper, isInteger⟩
  | _ => none

/-- The objective that a step states. -/
def Request.objective? : Request R → Option (Sense × List (Term R))
  | .objective sense terms => some (sense, terms)
  | _ => none

/-- An assignment of numbers to variables satisfies what a step demands. -/
def Request.Holds [Field K] [LinearOrder K] (x : String → K) : Request K → Prop
  | .constraint left comparison right _ => comparison.Holds (left.value x) right
  | _ => True

/-- The steps that state a model whose terms refer to its variables. -/
def requests [Zero R] [Add R] (m : Model R) : List (Request R) :=
  (m.unknowns.map fun v => .variable v.isInteger v.lower v.upper v.name) ++
  (m.constraints.map fun c =>
    .constraint ⟨c.left.terms, 0 + c.left.constant⟩ c.comparison c.right c.name) ++
  [.objective m.sense m.objective.terms]

theorem mapM_stated {names : List String} {terms : List (Term R)}
    (declared : ∀ t ∈ terms, t.name ∈ names) : terms.mapM (stated names) = .ok terms := by
  have each : ∀ t ∈ terms, stated names t = .ok (id t) := by
    intro t mem
    obtain ⟨j, found⟩ := exists_column (declared t mem)
    rw [stated, found]
    rfl
  rw [mapM_eq_ok each, List.map_id]

theorem statement_eq [Zero R] [Add R] {m : Model R} (declares : m.Declares) :
    statement m = (requests m).map .ok := by
  simp only [statement, requests, List.map_append, List.map_map, mapM_stated declares.objective]
  congr 2
  refine List.map_congr_left fun c mem => ?_
  rw [sum, mapM_stated (declares.constraints c mem)]
  rfl

theorem taken_map_ok (rs : List (Request R)) : taken (rs.map .ok) = (rs, none) := by
  induction rs with
  | nil => rfl
  | cons r rs ih => rw [List.map_cons, taken, ih]

/-- The whole statement of a model is taken. -/
theorem taken_statement [Zero R] [Add R] {m : Model R} (declares : m.Declares) :
    taken (statement m) = (requests m, none) := by
  rw [statement_eq declares, taken_map_ok]

theorem filterMap_variable?_requests [Zero R] [Add R] (m : Model R) :
    (requests m).filterMap Request.variable? = m.unknowns := by
  simp [requests, List.filterMap_append, List.filterMap_map, Function.comp_def, Request.variable?]

theorem filterMap_objective?_requests [Zero R] [Add R] (m : Model R) :
    (requests m).filterMap Request.objective? = [(m.sense, m.objective.terms)] := by
  simp [requests, List.filterMap_append, List.filterMap_map, Function.comp_def, Request.objective?]

/-- What the steps demand is what the model demands. -/
theorem requests_hold_iff [Field K] [LinearOrder K] (m : Model K) (x : String → K) :
    (∀ r ∈ requests m, r.Holds x) ↔ m.Feasible x := by
  simp [requests, Request.Holds, Model.Feasible, Constraint.Holds, Expr.value, or_imp, forall_and]

/-- Steps ask what a model asks: what they demand is what makes an assignment feasible, and they
state one objective, which is that of the model but for its constant, in the sense of the model. -/
structure Asks [Field K] [LinearOrder K] (rs : List (Request K)) (m : Model K) : Prop where
  feasible (x : String → K) : (∀ r ∈ rs, r.Holds x) ↔ m.Feasible x
  objective : ∃ terms, rs.filterMap Request.objective? = [(m.sense, terms)] ∧
    ∀ x, Term.total terms x + m.objective.constant = m.objective.value x

theorem asks_requests [Field K] [LinearOrder K] (m : Model K) : Asks (requests m) m :=
  ⟨requests_hold_iff m, _, filterMap_objective?_requests m, fun _ => rfl⟩

/-- One of the engines that are tried is there exactly if one of all is. -/
theorem tried_found (hasEngine : String → Bool) (names : List String) :
    (tried hasEngine names).2 = names.any hasEngine := by
  induction names with
  | nil => rfl
  | cons name rest ih =>
    rw [tried, List.any_cons, ← ih]
    split
    · rename_i present
      rw [present, Bool.true_or]
    · rename_i absent
      rw [Bool.eq_false_iff.mpr absent, Bool.false_or]

/-- The choice of an engine: those that are tried, one after the other. -/
def choice (replies : Replies) (m : Model Binary64) : List (Request Binary64) :=
  (tried replies.hasEngine (engines m)).1.map .engine

/-- Steps are put to the solver for a model, once an engine is chosen and the solver is told the time
that it may take; and nothing else is. They are kept back if no engine is there, or if the limit is
no time. -/
structure PutFor (rs : List (Request Binary64)) (m : Model Binary64) (replies : Replies)
    (timeLimit : Option Number) : Prop where
  asked : ∀ limit, (engines m).any replies.hasEngine = true →
    timeLimit.mapM milliseconds = .ok limit →
    (askStepwise replies m timeLimit).calls =
      (choice replies m ++ limit.toList.map Request.timeLimit ++ rs).map .stepwise
  engineless : (engines m).any replies.hasEngine = false →
    (askStepwise replies m timeLimit).calls = (choice replies m).map .stepwise
  timeless : ∀ fault, timeLimit.mapM milliseconds = .error fault →
    (askStepwise replies m timeLimit).calls = (choice replies m).map .stepwise

/-- The steps that state a model are put to the solver. -/
theorem putFor {m : Model Binary64} {rs : List (Request Binary64)}
    (ok : taken (statement m) = (rs, none)) (replies : Replies) (timeLimit : Option Number) :
    PutFor rs m replies timeLimit := by
  have found := tried_found replies.hasEngine (engines m)
  refine ⟨fun limit present converts => ?_, fun absent => ?_, fun fault converts => ?_⟩
  · rw [present] at found
    simp [askStepwise, choice, found, converts, ok]
  · rw [absent] at found
    simp [askStepwise, choice, found]
  · simp only [askStepwise, choice, converts]
    split <;> rfl

end Stepwise

/-! ### Both solvers -/

/-- Two products, one of them in whole numbers; the other occurs twice in the objective and in one
of the constraints. -/
def twoProducts : Datum :=
  let term (name : String) (coefficient : Int) : Datum :=
    .object [("var", .text name), ("coef", .int coefficient)]
  let constraint (name : String) (terms : List Datum) (constant : Int) (comparison : String)
      (right : Int) : Datum :=
    .object [("name", .text name), ("lhs", .object [("terms", .list terms),
      ("constant", .int constant)]), ("cmp", .text comparison), ("rhs", .int right)]
  .object [("model_type", .text "linear"), ("model", .object [
    ("sense", .text "max"),
    ("objective", .object [("terms", .list [term "x" 2, term "y" 3, term "x" 1]),
      ("constant", .int 10)]),
    ("variables", .list [
      .object [("name", .text "x"), ("lb", .int 0)],
      .object [("name", .text "y"), ("ub", .int 4), ("is_integer", .bool true)]]),
    ("constraints", .list [
      constraint "capacity" [term "x" 1, term "y" 2] 1 "<=" 9,
      constraint "demand" [term "y" 1] 0 ">=" 1,
      constraint "balance" [term "x" 1, term "y" (-1), term "x" 1] 0 "==" 2])])]

/-- The linear model that was read. -/
def linear? : Except Failure Payload → Option (Model Binary64)
  | .ok (.linear m) => some m
  | _ => none

theorem eq_of_linear? {read : Except Failure Payload} {m : Model Binary64}
    (found : linear? read = some m) : read = .ok (.linear m) := by
  rcases read with failure | m' | r
  · cases found
  · rw [Option.some.inj found]
  · cases found

theorem accepted_twoProducts : ∃ m : Model Binary64,
    Payload.ofDatum twoProducts = .ok (.linear m) ∧ m.names = ["x", "y"] ∧
    m.constraints.length = 3 ∧ m.hasIntegers = true := by
  have read : (linear? (Payload.ofDatum twoProducts)).map
      (fun m => (m.names, m.constraints.length, m.hasIntegers)) = some (["x", "y"], 3, true) := by
    decide +kernel
  obtain ⟨m, found, parts⟩ := Option.map_eq_some_iff.mp read
  obtain ⟨names, parts⟩ := Prod.mk.inj parts
  obtain ⟨constraints, integers⟩ := Prod.mk.inj parts
  exact ⟨m, eq_of_linear? found, names, constraints, integers⟩

end External

end Optima
