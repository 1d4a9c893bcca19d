import Mathlib.Algebra.BigOperators.Fin
import Mathlib.Algebra.BigOperators.Group.Finset.Piecewise
import Mathlib.Data.Fintype.EquivFin
import Mathlib.Tactic.Abel
import Optima.Lists
import Optima.Table

/-!
Sums and counts over tables: a change at one index changes one term, and the values listed in the
order of the indices have the sums and counts of the table. In a table of rows that hold columns no
more than one each, some column is left as long as some row holds none (`Apart.exists_free`).
-/

namespace Optima

/-- The total of a list is its sum. -/
theorem total_eq_sum (xs : List Int) : total xs = xs.sum := by
  induction xs with
  | nil => rfl
  | cons x xs ih => rw [total_cons, List.sum_cons, ih]

/-- The greatest of values is below a bound if all of them are. -/
theorem foldl_max_le_iff {xs : List Int} {x k : Int} :
    xs.foldl max x ≤ k ↔ x ≤ k ∧ ∀ y ∈ xs, y ≤ k := by
  induction xs generalizing x with
  | nil => simp
  | cons y ys ih => rw [List.foldl_cons, ih, max_le_iff, List.forall_mem_cons, and_assoc]

/-- The least of values is above a bound if all of them are. -/
theorem le_foldl_min_int_iff {xs : List Int} {x k : Int} :
    k ≤ xs.foldl min x ↔ k ≤ x ∧ ∀ y ∈ xs, k ≤ y := by
  induction xs generalizing x with
  | nil => simp
  | cons y ys ih => rw [List.foldl_cons, ih, le_min_iff, List.forall_mem_cons, and_assoc]

namespace Table

variable {n : Nat} {α : Type}

/-- After a change at one index the sum differs in that term only. -/
theorem sum_update {M : Type} [AddCommMonoid M] (t : Table n α) (v : Fin n) (a : α)
    (g : Fin n → α → M) :
    ∑ w, g w ((t.update v a).get w) + g v (t.get v) = ∑ w, g w (t.get w) + g v a := by
  rw [← Finset.add_sum_erase _ _ (Finset.mem_univ v),
    ← Finset.add_sum_erase (a := v) _ (fun w => g w (t.get w)) (Finset.mem_univ v)]
  have rest : ∑ w ∈ Finset.univ.erase v, g w ((t.update v a).get w) =
      ∑ w ∈ Finset.univ.erase v, g w (t.get w) := by
    apply Finset.sum_congr rfl
    intro w other
    have apart : v ≠ w := (Finset.ne_of_mem_erase other).symm
    rw [get_update, if_neg apart]
  rw [rest, get_update, if_pos rfl]
  abel

theorem values_eq_ofFn (t : Table n α) : t.values = List.ofFn t.get := by
  rw [values, List.ofFn_eq_map]

/-- The sum over the values that pass a test. -/
theorem total_filter_values (t : Table n α) (p : α → Bool) (g : α → Int) :
    total ((t.values.filter p).map g) = ∑ v, if p (t.get v) then g (t.get v) else 0 := by
  have split : ∀ xs : List α,
      total ((xs.filter p).map g) = (xs.map fun x => if p x then g x else 0).sum := by
    intro xs
    induction xs with
    | nil => rfl
    | cons x xs ih => by_cases keep : p x <;> simp [keep, ih]
  rw [split, values, List.map_map, Fin.sum_univ_def]
  rfl

theorem count_values [DecidableEq α] (t : Table n α) (a : α) :
    t.values.count a = (Finset.univ.filter fun v => t.get v = a).card := by
  have listed : (Finset.univ.filter fun v => t.get v = a).card =
      ((List.finRange n).filter fun v => t.get v = a).length := rfl
  rw [listed, values, List.count, List.countP_map, List.countP_eq_length_filter]
  rfl

end Table

namespace Assignment

variable {n : Nat} {i : Fin n} {rowOf : Table n (Option (Fin n))}

/-- Rows that hold columns hold one each, and the row `i` holds none. -/
structure Apart (i : Fin n) (rowOf : Table n (Option (Fin n))) : Prop where
  distinct : ∀ {j j' k}, rowOf.get j = some k → rowOf.get j' = some k → j = j'
  idle : ∀ j, rowOf.get j ≠ some i

/-- As long as some row holds no column, some column is held by no row. -/
theorem Apart.exists_free (apart : Apart i rowOf) : ∃ j, rowOf.get j = none := by
  by_contra none_free
  have all : ∀ j, ∃ k, rowOf.get j = some k := fun j =>
    Option.ne_none_iff_exists'.mp (not_exists.mp none_free j)
  choose holder holds using all
  have injective : Function.Injective holder := fun j j' same =>
    apart.distinct (holds j) (same ▸ holds j')
  obtain ⟨j, same⟩ := Finite.surjective_of_injective injective i
  exact apart.idle j (same ▸ holds j)

end Assignment

end Optima
