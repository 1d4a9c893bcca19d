import Mathlib.Data.Fintype.EquivFin
import Optima.Assignment.Auction
import Optima.Proofs.Run

/-!
What an auction hands out: it ends only with a column of its own for each row.
-/

namespace Optima.Assignment.Auction

variable {n : Nat}

/-- If every column is among those held, the rows have different ones. -/
theorem perfect?_injective {held : Table n (Option (Fin n))} {columnOf : Table n (Fin n)}
    (perfect : perfect? held = some columnOf) : Function.Injective columnOf.get := by
  apply Finite.injective_iff_surjective.mpr
  intro j
  unfold perfect? at perfect
  split at perfect
  · rename_i tests
    cases perfect
    have listed := List.all_eq_true.mp (Bool.and_eq_true_iff.mp tests).2 j (List.mem_finRange j)
    obtain ⟨i, _, holds⟩ := List.mem_map.mp (List.contains_iff_mem.mp listed)
    refine ⟨i, ?_⟩
    rw [Table.get_tabulate, holds]
    rfl
  · cases perfect

/-- An auction gives a different column to each row. -/
theorem solve_injective {cost : Square n Int} {outside : List Int} {columnOf : Table n (Fin n)}
    {bids : Nat} (ok : (solve cost outside).outcome = .ok (columnOf, bids)) :
    Function.Injective columnOf.get := by
  unfold solve at ok
  by_cases none : n = 0
  · rw [if_pos none] at ok
    cases ok
  · rw [if_neg none] at ok
    by_cases single : n = 1
    · rw [if_pos single] at ok
      cases ok
      intro i k same
      rwa [Table.get_tabulate, Table.get_tabulate] at same
    · rw [if_neg single] at ok
      simp only at ok
      rw [Run.outcome_bind_eq_ok_iff] at ok
      obtain ⟨m, _, ok⟩ := ok
      cases perfect : perfect? m.columnOf with
      | none =>
        rw [perfect] at ok
        cases ok
      | some found =>
        rw [perfect] at ok
        cases ok
        exact perfect?_injective perfect

end Optima.Assignment.Auction
