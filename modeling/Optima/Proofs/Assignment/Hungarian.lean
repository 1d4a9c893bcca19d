import Mathlib.Data.Fintype.Card
import Optima.Assignment.Hungarian
import Optima.Proofs.Run

/-!
The Hungarian method gives a different column to each row. Growing a tree leaves the rows where they
are and ends at a free column (`grow_free`). Along the path back, one column at a time is left to be
filled, and every row that has entered holds a column other than that one, whatever the parents are
(`shift_holds`).
-/

namespace Optima.Assignment.Hungarian

variable {α : Type} [Quantity α] {n : Nat}

/-- Each of the rows holds a column. -/
def Holds (rows : List (Fin n)) (rowOf : Table n (Option (Fin n))) : Prop :=
  ∀ r ∈ rows, ∃ j, rowOf.get j = some r

theorem raiseColumn_rowOf {delta : α} {s s' : State n α} {t t' : Tree n α} {j : Fin n}
    (ok : raiseColumn delta (s, t) j = .ok (s', t')) : s'.rowOf = s.rowOf := by
  unfold raiseColumn at ok
  simp only at ok
  split at ok
  · obtain ⟨column, _, ok⟩ := bind_eq_ok_iff.mp ok
    split at ok
    · obtain ⟨raised, _, ok⟩ := bind_eq_ok_iff.mp ok
      cases ok
      rfl
    · cases ok
      rfl
  · obtain ⟨label, _, ok⟩ := bind_eq_ok_iff.mp ok
    cases ok
    rfl

theorem raise_rowOf {i : Fin n} {delta : α} {s s' : State n α} {t t' : Tree n α}
    (ok : raise i delta s t = .ok (s', t')) : s'.rowOf = s.rowOf := by
  unfold raise at ok
  obtain ⟨root, _, ok⟩ := bind_eq_ok_iff.mp ok
  obtain ⟨raised, _, ok⟩ := bind_eq_ok_iff.mp ok
  refine foldlM_keeps (P := fun st => st.1.rowOf = s.rowOf) ?_ ?_ ok
  · intro st j st' same stepped
    exact (raiseColumn_rowOf stepped).trans same
  · rfl

/-- A tree grows to a column that no row holds, and leaves the rows where they are. -/
theorem grow_free {cost : Square n α} {i j : Fin n} {fuel : Nat} {source : Option (Fin n)}
    {s s' : State n α} {t t' : Tree n α} (ok : grow cost i fuel source s t = .ok (s', t', j)) :
    s'.rowOf = s.rowOf ∧ s.rowOf.get j = none := by
  induction fuel generalizing source s t with
  | zero => cases ok
  | succ fuel ih =>
    unfold grow at ok
    obtain ⟨looked, _, ok⟩ := bind_eq_ok_iff.mp ok
    split at ok
    · cases ok
    · obtain ⟨⟨s₁, t₁⟩, raised, ok⟩ := bind_eq_ok_iff.mp ok
      have same := raise_rowOf (arith_eq_ok_iff.mp raised)
      change s₁.rowOf = s.rowOf at same
      simp only at ok
      split at ok
      · rename_i free
        cases ok
        rw [same] at free
        exact ⟨same, Option.isNone_iff_eq_none.mp free⟩
      · obtain ⟨kept, free⟩ := ih ok
        rw [same] at kept free
        exact ⟨kept, free⟩

/-- Filling one column after the other along a path. -/
theorem shift_holds {i j : Fin n} {parent : Table n (Option (Fin n))} {fuel : Nat}
    {rowOf rowOf' : Table n (Option (Fin n))} {rows : List (Fin n)}
    (elsewhere : ∀ r ∈ rows, ∃ c, c ≠ j ∧ rowOf.get c = some r)
    (ok : shift i parent fuel j rowOf = .ok rowOf') : Holds (rows ++ [i]) rowOf' := by
  induction fuel generalizing j rowOf with
  | zero => cases ok
  | succ fuel ih =>
    unfold shift at ok
    cases before : parent.get j with
    | none =>
      rw [before] at ok
      cases ok
      intro r member
      rcases List.mem_append.mp member with old | new
      · obtain ⟨c, other, holds⟩ := elsewhere r old
        exact ⟨c, by rw [Table.get_update, if_neg other.symm]; exact holds⟩
      · obtain rfl := List.mem_singleton.mp new
        exact ⟨j, by rw [Table.get_update, if_pos rfl]⟩
    | some k =>
      rw [before] at ok
      refine ih (fun r member => ?_) ok
      obtain ⟨c, other, holds⟩ := elsewhere r member
      by_cases moved : c = k
      · subst moved
        exact ⟨j, other.symm, by rw [Table.get_update, if_pos rfl]; exact holds⟩
      · exact ⟨c, moved, by rw [Table.get_update, if_neg other.symm]; exact holds⟩

theorem enter_holds {cost : Square n α} {s s' : State n α} {i : Fin n} {rows : List (Fin n)}
    (holds : Holds rows s.rowOf) (ok : enter cost s i = .ok s') :
    Holds (rows ++ [i]) s'.rowOf := by
  unfold enter at ok
  obtain ⟨⟨s₁, t, j⟩, grown, ok⟩ := bind_eq_ok_iff.mp ok
  obtain ⟨rowOf, shifted, ok⟩ := bind_eq_ok_iff.mp ok
  cases ok
  obtain ⟨same, free⟩ := grow_free grown
  refine shift_holds (fun r member => ?_) shifted
  obtain ⟨c, held⟩ := holds r member
  refine ⟨c, fun equal => ?_, by rw [same]; exact held⟩
  rw [equal, free] at held
  cases held

theorem enterAll_holds {cost : Square n α} {s : State n α}
    (ok : (enterAll cost).outcome = .ok s) : Holds (List.finRange n) s.rowOf := by
  have entering : ∀ (rest done : List (Fin n)) (s s' : State n α), Holds done s.rowOf →
      (rest.foldlM (fun s i => do
        Run.check
        Run.ofExcept (enter cost s i)) s).outcome = .ok s' → Holds (done ++ rest) s'.rowOf := by
    intro rest
    induction rest with
    | nil =>
      intro done s s' holds ok
      cases ok
      rw [List.append_nil]
      exact holds
    | cons i rest ih =>
      intro done s s' holds ok
      rw [List.foldlM_cons, Run.outcome_bind_eq_ok_iff] at ok
      obtain ⟨next, entered, more⟩ := ok
      rw [Run.outcome_bind_of_ok Run.outcome_check] at entered
      have all := ih (done ++ [i]) next s' (enter_holds holds entered) more
      rwa [List.append_assoc, List.singleton_append] at all
  have none : Holds [] (State.start : State n α).rowOf := by
    intro r member
    cases member
  exact entering (List.finRange n) [] _ s none ok

/-- The column of a row is one that it holds. -/
theorem rowOf_columns {rowOf : Table n (Option (Fin n))} (holds : Holds (List.finRange n) rowOf)
    (i : Fin n) : rowOf.get ((columns rowOf).get i) = some i := by
  obtain ⟨j, holder⟩ := holds i (List.mem_finRange i)
  have member : j ∈ (List.finRange n).filter fun j => rowOf.get j = some i :=
    List.mem_filter.mpr ⟨List.mem_finRange j, decide_eq_true holder⟩
  obtain ⟨last, eq⟩ := Option.ne_none_iff_exists'.mp
    (mt List.getLast?_eq_none_iff.mp (List.ne_nil_of_mem member))
  have known := List.mem_of_getLast? eq
  rw [columns, Table.get_tabulate, eq]
  exact of_decide_eq_true (List.mem_filter.mp known).2

/-- The columns that rows hold are different ones. -/
theorem columns_injective {rowOf : Table n (Option (Fin n))}
    (holds : Holds (List.finRange n) rowOf) : Function.Injective (columns rowOf).get := by
  intro i k same
  have rows := rowOf_columns holds k
  rw [← same, rowOf_columns holds i] at rows
  exact Option.some.inj rows

/-- The Hungarian method gives a different column to each row. -/
theorem solveIn_injective {cost : Square n α} {columnOf : Table n (Fin n)} {scans : Nat}
    (ok : (solveIn cost).outcome = .ok (columnOf, scans)) : Function.Injective columnOf.get := by
  unfold solveIn at ok
  rw [Run.outcome_bind_eq_ok_iff] at ok
  obtain ⟨s, entered, ok⟩ := ok
  cases ok
  exact columns_injective (enterAll_holds entered)

end Optima.Assignment.Hungarian
