import Optima.Proofs.Assignment.Lexicographic
import Optima.Proofs.Number.Faithful

/-!
The search for the first assignment of least cost in mixed numbers. On whole numbers that are small
enough each step in mixed numbers does what the step in integers does, whichever way the numbers are
written: labels denote the integers, everything else is equal, and the search is refused where the
other is (`settle_alike`). So what comes of an assignment is the same (`solveIn_mixed`).
-/

namespace Optima.Assignment.Lexicographic

open Number (Denotes)

variable {n : Nat} {cost : Square n Number} {square : Square n Int} {rowOf : Table n (Fin n)}
  {most : Int}

/-- Two computations that fail alike, or succeed with related results. -/
inductive Alike {ε β γ : Type} (R : β → γ → Prop) : Except ε β → Except ε γ → Prop
  | ok {b : β} {c : γ} (related : R b c) : Alike R (.ok b) (.ok c)
  | error (e : ε) : Alike R (.error e) (.error e)

theorem Alike.eq {ε β : Type} {x y : Except ε β} (alike : Alike Eq x y) : x = y := by
  cases alike with
  | ok related => exact congrArg _ related
  | error e => rfl

theorem Alike.refl {ε β : Type} (x : Except ε β) : Alike Eq x x := by
  cases x with
  | ok b => exact .ok rfl
  | error e => exact .error e

theorem Alike.mono {ε β γ : Type} {R R' : β → γ → Prop} {x : Except ε β} {y : Except ε γ}
    (alike : Alike R x y) (weaker : ∀ b c, R b c → R' b c) : Alike R' x y := by
  cases alike with
  | ok related => exact .ok (weaker _ _ related)
  | error e => exact .error e

theorem Alike.bind {ε β γ β' γ' : Type} {R : β → γ → Prop} {R' : β' → γ' → Prop}
    {x : Except ε β} {y : Except ε γ} {f : β → Except ε β'} {g : γ → Except ε γ'}
    (alike : Alike R x y) (next : ∀ b c, R b c → y = .ok c → Alike R' (f b) (g c)) :
    Alike R' (x >>= f) (y >>= g) := by
  cases alike with
  | ok related => exact next _ _ related rfl
  | error e => exact .error e

/-- A search in mixed numbers whose labels denote those of a search in integers. -/
structure Mirrors (s : Search n Number) (t : Search n Int) : Prop where
  row : ∀ i, (s.rowPotential.get i).Denotes (t.rowPotential.get i)
  column : ∀ j, (s.columnPotential.get j).Denotes (t.columnPotential.get j)
  improvements : s.improvements = t.improvements
  waiting : s.waiting = t.waiting
  queue : s.queue = t.queue

/-- A table whose values denote integers still does after both were changed alike. -/
theorem denotes_update {a : Number} {x : Int} {t : Table n Number} {t' : Table n Int} (k : Fin n)
    (value : a.Denotes x) (values : ∀ i, (t.get i).Denotes (t'.get i)) (i : Fin n) :
    ((t.update k a).get i).Denotes ((t'.update k x).get i) := by
  rw [Table.get_update, Table.get_update]
  split
  · exact value
  · exact values i

theorem improves_mixed {label old : Number} {x y : Int} (label_value : label.Denotes x)
    (old_value : old.Denotes y) (small : Number.Small y) :
    improves (.real Binary64.zero) label old = .ok (decide (x < y)) := by
  have zero : (Number.real Binary64.zero).Denotes 0 := by
    rw [Denotes, zero_mul]
    exact Binary64.units?_zero
  obtain ⟨bound, subtracted, value⟩ :=
    Number.sub_exact old_value zero small (by simp [Number.Small]) (by rwa [sub_zero])
  rw [sub_zero] at value
  unfold improves
  change (Number.sub old _ >>= _) = _
  rw [subtracted]
  exact congrArg Except.ok (Number.less_exact label_value value)

/-! ### Steps -/

section Steps

variable {s : Search n Number} {t : Search n Int}

theorem relax_alike {costs : Table n Number} {costs' : Table n Int} {reach : Number} {r : Int}
    {j : Fin n} (mirrors : Mirrors s t) (reach_value : reach.Denotes r)
    (cost_value : (costs.get j).Denotes (costs'.get j)) (small_reach : Number.Small r)
    (small_cost : Number.Small (costs'.get j)) (small_label : Number.Small (r + costs'.get j))
    (small_old : Number.Small (t.columnPotential.get j)) :
    Alike Mirrors (relax (.real Binary64.zero) costs reach s j)
      (relax (.real Binary64.zero) costs' r t j) := by
  obtain ⟨label, added, label_value⟩ :=
    Number.add_exact reach_value cost_value small_reach small_cost small_label
  have compared := improves_mixed label_value (mirrors.column j) small_old
  have label_ok : Failure.arith (Quantity.add reach (costs.get j)) = .ok label :=
    arith_eq_ok_iff.mpr added
  have compared_ok := arith_eq_ok_iff.mpr compared
  rw [relax_eq small_old]
  unfold relax
  simp only [label_ok, compared_ok, bind, Except.bind, mirrors.improvements]
  by_cases better : r + costs'.get j < t.columnPotential.get j
  · simp only [better, decide_true, if_true]
    by_cases few : t.improvements.get j < n
    · rw [if_neg (by omega), if_pos few]
      by_cases waits : t.waiting.get j = true
      · have unchanged : s.waiting = t.waiting.update j true := by
          rw [mirrors.waiting]
          apply Table.ext
          intro k
          rw [Table.get_update]
          split
          · rename_i same
            rw [← same, waits]
          · rfl
        rw [if_pos (mirrors.waiting ▸ waits)]
        refine .ok ⟨mirrors.row, denotes_update j label_value mirrors.column, rfl, unchanged, ?_⟩
        simp [Search.lowered, waits, mirrors.queue]
      · rw [if_neg (mirrors.waiting ▸ waits)]
        refine .ok ⟨mirrors.row, denotes_update j label_value mirrors.column, rfl, ?_, ?_⟩
        · rw [mirrors.waiting]
          rfl
        · simp [Search.lowered, waits, mirrors.queue]
    · rw [if_pos (by omega), if_neg few]
      exact .error notOptimal
  · simp only [better, decide_false, if_false, Bool.false_eq_true]
    exact .ok mirrors

end Steps

/-! ### The whole search -/

section Search

variable (entries : ∀ i j, (entry cost i j).Denotes (entry square i j))
  (modest : Modest square most)

theorem most_le_reach {t : Search n Int} (bounded : t.Bounded most) :
    most ≤ (t.improved + 1) * most := by
  have := bounded.most_nonneg
  have share : 0 ≤ (t.improved : Int) * most := mul_nonneg (Int.natCast_nonneg _) this
  linarith

include modest

/-- Everything up to the greatest label is small. -/
theorem small_of_reach {t : Search n Int} (bounded : t.Bounded most) {x : Int}
    (below : -((t.improved + 1) * most) ≤ x) (above : x ≤ (t.improved + 1) * most) :
    Number.Small x := by
  have reach := bounded.reach_le modest
  unfold Number.Small
  omega

include entries

theorem relaxAll_alike {i : Fin n} {due : List (Fin n)} {s : Search n Number} {t : Search n Int}
    {reach : Number} {r : Int} (sound : t.Sound square rowOf most i due) (mirrors : Mirrors s t)
    (label : t.rowPotential.get i = r) (value : reach.Denotes r) :
    Alike Mirrors (due.foldlM (relax (.real Binary64.zero) (cost.get i) reach) s)
      (due.foldlM (relax (.real Binary64.zero) (square.get i) r) t) := by
  induction due generalizing s t with
  | nil => exact .ok mirrors
  | cons j due ih =>
    have bounded := sound.bounded
    have far := most_le_reach bounded
    have nonneg := modest.nonneg i j
    have le_most := modest.le_most i j
    have row_nonpos := bounded.row_nonpos i
    have le_row := bounded.le_row i
    rw [label] at row_nonpos le_row
    rw [List.foldlM_cons, List.foldlM_cons]
    have small_reach : Number.Small r := small_of_reach modest bounded le_row (by omega)
    have small_cost : Number.Small (entry square i j) :=
      small_of_reach modest bounded (by omega) (by omega)
    have small_label : Number.Small (r + entry square i j) :=
      small_of_reach modest bounded (by omega) (by omega)
    refine (relax_alike mirrors value (entries i j) small_reach small_cost small_label
      (bounded.column_exact modest j)).bind fun s' t' mirrors' ok => ?_
    obtain ⟨sound', same⟩ := relax_sound modest sound (by rw [label]; exact ok)
    exact ih sound' mirrors' (by rw [same]; exact label)

theorem visit_alike {i k : Fin n} {rest : List (Fin n)} {s : Search n Number} {t : Search n Int}
    (sound : t.Sound square rowOf most i []) (mirrors : Mirrors s t) (first : t.queue = k :: rest) :
    Alike Mirrors (visit (.real Binary64.zero) cost rowOf k { s with queue := rest })
      (visit (.real Binary64.zero) square rowOf k { t with queue := rest }) := by
  have bounded := sound.bounded
  have far := most_le_reach bounded
  have nonneg := modest.nonneg (rowOf.get k) k
  have le_most := modest.le_most (rowOf.get k) k
  have column_le := bounded.column_le k
  have le_column := bounded.le_column k
  obtain ⟨reach, subtracted, value⟩ := Number.sub_exact (mirrors.column k) (entries (rowOf.get k) k)
    (bounded.column_exact modest k)
    (small_of_reach modest bounded (by omega) (by omega))
    (small_of_reach modest bounded (by linarith) (by omega))
  have compared := improves_mixed value (mirrors.row (rowOf.get k))
    (bounded.row_exact modest (rowOf.get k))
  have reach_ok : Failure.arith (Quantity.sub (s.columnPotential.get k)
      (entry cost (rowOf.get k) k)) = .ok reach := arith_eq_ok_iff.mpr subtracted
  have compared_ok := arith_eq_ok_iff.mpr compared
  rw [visit_eq (s := { t with queue := rest }) (bounded.row_exact modest _)]
  unfold visit
  simp only [reach_ok, compared_ok, bind, Except.bind, mirrors.waiting]
  by_cases better : t.columnPotential.get k - entry square (rowOf.get k) k <
      t.rowPotential.get (rowOf.get k)
  · simp only [better, decide_true, if_true]
    refine relaxAll_alike entries modest (sound.lowerRow modest first better) ?_
      (by rw [Table.get_update, if_pos rfl]) value
    exact ⟨denotes_update _ value mirrors.row, mirrors.column, mirrors.improvements, rfl, rfl⟩
  · simp only [better, decide_false, if_false, Bool.false_eq_true]
    exact .ok ⟨mirrors.row, mirrors.column, mirrors.improvements, rfl, rfl⟩

theorem settle_alike (fuel : Nat) {i : Fin n} {s : Search n Number} {t : Search n Int}
    (sound : t.Sound square rowOf most i []) (mirrors : Mirrors s t) :
    Alike (fun s t => Mirrors s t ∧ ∃ i, t.Sound square rowOf most i [])
      (settle (.real Binary64.zero) cost rowOf fuel s).outcome
      (settle (.real Binary64.zero) square rowOf fuel t).outcome := by
  induction fuel generalizing s t i with
  | zero =>
    unfold settle
    rw [mirrors.queue]
    cases t.queue with
    | nil => exact .ok ⟨mirrors, i, sound⟩
    | cons k rest => exact .error Failure.endless
  | succ fuel ih =>
    unfold settle
    rw [mirrors.queue]
    cases queue : t.queue with
    | nil => exact .ok ⟨mirrors, i, sound⟩
    | cons k rest =>
      simp only
      rw [Run.outcome_bind_of_ok Run.outcome_tick, Run.outcome_bind_of_ok Run.outcome_tick,
        Run.outcome_bind, Run.outcome_bind]
      refine (visit_alike entries modest sound mirrors queue).bind fun s' t' mirrors' ok => ?_
      exact ih (visit_sound modest sound queue ok) mirrors'

/-! ### Beginning and end -/

omit modest in
theorem leastOfColumn_denotes (j : Fin n) :
    (leastOfColumn cost j).Denotes (leastOfColumn square j) := by
  have fold : ∀ (rows : List (Fin n)) (best : Number) (best' : Int), best.Denotes best' →
      (rows.foldl (fun best i => if Quantity.less (entry cost i j) best then entry cost i j
        else best) best).Denotes
      (rows.foldl (fun best i => if Quantity.less (entry square i j) best then entry square i j
        else best) best') := by
    intro rows
    induction rows with
    | nil => exact fun _ _ value => value
    | cons i rows ih =>
      intro best best' value
      rw [List.foldl_cons, List.foldl_cons]
      apply ih
      have compared : Quantity.less (entry cost i j) best = Quantity.less (entry square i j) best' :=
        Number.less_exact (entries i j) value
      rw [compared]
      split
      · exact entries i j
      · exact value
  unfold leastOfColumn
  cases List.finRange n with
  | nil => exact entries j j
  | cons i rest => exact fold rest _ _ (entries i j)

theorem settle_start_alike (fuel : Nat) :
    Alike (fun s t => Mirrors s t ∧ (Fin n → ∃ i, t.Sound square rowOf most i []))
      (settle (.real Binary64.zero) cost rowOf fuel (Search.start cost)).outcome
      (settle (.real Binary64.zero) square rowOf fuel (Search.start square)).outcome := by
  have mirrors : Mirrors (Search.start cost) (Search.start square) := by
    refine ⟨fun i => ?_, fun j => ?_, rfl, rfl, rfl⟩
    · simp only [Search.start, Table.get_fill]
      exact Number.denotes_zero
    · simp only [Search.start, Table.get_tabulate]
      exact leastOfColumn_denotes entries j
  rcases Nat.eq_zero_or_pos n with rfl | positive
  · unfold settle
    exact .ok ⟨mirrors, fun i => i.elim0⟩
  · have alike := settle_alike entries modest fuel
      (start_sound modest rowOf ⟨0, positive⟩) mirrors
    exact alike.mono fun s t related => ⟨related.1, fun _ => related.2⟩

theorem tightColumns_mixed {s : Search n Number} {t : Search n Int} {slack : Number} {k : Int}
    {i i' : Fin n} (mirrors : Mirrors s t) (sound : t.Sound square rowOf most i' [])
    (exact : Number.mul (.real Binary64.zero) (.int k) = .ok slack) :
    tightColumns cost s slack i = tightColumns square t slack i := by
  rw [tightColumns_eq exact fun j => sound.feasible_all i j, ← filterM_ok]
  refine congrArg (fun test => (List.finRange n).filterM test) (funext fun j => ?_)
  have bounded := sound.bounded
  have far := most_le_reach bounded
  have nonneg := modest.nonneg i j
  have le_most := modest.le_most i j
  have row_nonpos := bounded.row_nonpos i
  have le_row := bounded.le_row i
  have column_le := bounded.column_le j
  have le_column := bounded.le_column j
  have feasible := sound.feasible_all i j
  obtain ⟨part, added, part_value⟩ := Number.add_exact (entries i j) (mirrors.row i)
    (small_of_reach modest bounded (by omega) (by omega)) (bounded.row_exact modest i)
    (small_of_reach modest bounded (by omega) (by omega))
  obtain ⟨reduced, subtracted, value⟩ := Number.sub_exact part_value (mirrors.column j)
    (small_of_reach modest bounded (by omega) (by omega)) (bounded.column_exact modest j)
    (small_of_reach modest bounded (by omega) (by linarith))
  have added_ok : Quantity.add (entry cost i j) (s.rowPotential.get i) = .ok part := added
  have subtracted_ok : Quantity.sub part (s.columnPotential.get j) = .ok reduced := subtracted
  simp only [added_ok, subtracted_ok, bind, Except.bind]
  refine congrArg Except.ok ((Number.atMost_exact value (Number.denotes_zero_mul exact)).trans ?_)
  exact decide_eq_decide.mpr (by omega)

theorem tightTable_mixed (m : Matching n) :
    (tightTable cost m (.real Binary64.zero)).outcome =
      (tightTable square m (.real Binary64.zero)).outcome := by
  apply Alike.eq
  unfold tightTable
  rw [Run.outcome_bind, Run.outcome_bind]
  refine (settle_start_alike entries modest _).bind fun s t ⟨mirrors, sound⟩ _ => ?_
  rw [Run.outcome_bind, Run.outcome_bind, Run.outcome_arith]
  refine (Alike.refl _).bind fun slack _ same multiplied => ?_
  subst same
  have each : tightColumns cost s slack = tightColumns square t slack := funext fun i => by
    obtain ⟨i', sound⟩ := sound i
    exact tightColumns_mixed entries modest mirrors sound (arith_eq_ok_iff.mp multiplied)
  rw [each]
  exact Alike.refl _

/-- What comes of an assignment in mixed numbers is what comes of it in integers. -/
theorem solveIn_mixed (columnOf : Table n (Fin n)) :
    (solveIn cost columnOf (.real Binary64.zero)).outcome =
      (solveIn square columnOf (.real Binary64.zero)).outcome := by
  unfold solveIn
  rw [Run.outcome_bind, Run.outcome_bind, tightTable_mixed entries modest]

end Search

end Optima.Assignment.Lexicographic
