import Mathlib.Tactic.Ring
import Optima.Proofs.Assignment.Auction
import Optima.Proofs.Assignment.Auction.Phase
import Optima.Proofs.Assignment.Lexicographic

/-!
The auction ends with an assignment of least cost. Whatever the values of `epsilon` before, the last
phase has it at one, so that no row is more than one short of the best column for it. The benefit of
the assignment is then within `n` of the greatest, and benefits are multiples of `n + 1`
(`solve_cheapest`).
-/

namespace Optima.Assignment.Auction

open Lexicographic (price)

variable {n : Nat} {benefit : Square n Int} {m : Market n}

/-- All phases end, and the last leaves each row within one of the best. -/
theorem phases_end (benefit : Square n Int) (epsilon : Nat) {m : Market n}
    (nonneg : ∀ j, 0 ≤ m.price.get j) :
    ∃ m', ((schedule epsilon).foldlM (phase benefit) m).outcome = .ok m' ∧
      Complete benefit 1 m' := by
  induction epsilon using schedule.induct generalizing m with
  | case1 epsilon small =>
    obtain ⟨m', ok, complete⟩ := phase_ends benefit one_pos nonneg
    refine ⟨m', ?_, complete⟩
    rw [schedule, dif_pos small, List.foldlM_cons, Run.outcome_bind_of_ok ok]
    rfl
  | case2 epsilon large ih =>
    obtain ⟨m₁, ok, complete⟩ :=
      phase_ends benefit (show 0 < epsilon by omega) nonneg
    obtain ⟨m', more, last⟩ := ih complete.nonneg
    refine ⟨m', ?_, last⟩
    rw [schedule, dif_neg large, List.foldlM_cons, Run.outcome_bind_of_ok ok]
    exact more

/-- When each row holds a column the columns are handed out. -/
theorem Complete.perfect {epsilon : Nat} (complete : Complete benefit epsilon m) :
    ∃ columnOf, perfect? m.columnOf = some columnOf ∧
      ∀ i, m.columnOf.get i = some (columnOf.get i) := by
  choose column holds using complete.all
  have injective : Function.Injective column := by
    intro i k same
    have one := complete.holds.mpr (holds i)
    rw [same, complete.holds.mpr (holds k), Option.some.injEq] at one
    exact one.symm
  have handed : m.columnOf.values.all (·.isSome) = true := by
    rw [List.all_eq_true]
    intro held known
    obtain ⟨i, -, rfl⟩ := List.mem_map.mp known
    rw [holds i]
    rfl
  have onto : ((List.finRange n).all fun j => m.columnOf.values.contains (some j)) = true := by
    rw [List.all_eq_true]
    intro j _
    obtain ⟨i, same⟩ := Finite.surjective_of_injective injective j
    rw [List.contains_iff_mem]
    exact List.mem_map.mpr ⟨i, List.mem_finRange i, by rw [holds i, same]⟩
  refine ⟨Table.tabulate column, ?_, fun i => by rw [holds i, Table.get_tabulate]⟩
  unfold perfect?
  rw [handed, onto, Bool.and_true, if_pos rfl]
  congr 2
  funext i
  rw [holds i]
  rfl

/-- No row is more than `epsilon` short of the best, so together they are at most `n` times that
short of the best. -/
theorem Complete.sum_le {epsilon : Nat} (complete : Complete benefit epsilon m)
    {columnOf : Fin n → Fin n} (holds : ∀ i, m.columnOf.get i = some (columnOf i))
    (own : Function.Injective columnOf) {σ : Fin n → Fin n} (other : Function.Injective σ) :
    ∑ i, (benefit.get i).get (σ i) ≤ ∑ i, (benefit.get i).get (columnOf i) + n * epsilon := by
  have prices : ∀ τ : Fin n → Fin n, Function.Injective τ →
      ∑ i, m.price.get (τ i) = ∑ j, m.price.get j := fun τ injective =>
    (Finite.injective_iff_bijective.mp injective).sum_comp m.price.get
  have each : ∑ i, (m.worth benefit i (σ i) - epsilon) ≤ ∑ i, m.worth benefit i (columnOf i) :=
    Finset.sum_le_sum fun i _ => complete.close (holds i) (σ i)
  simp only [Market.worth, Finset.sum_sub_distrib, Finset.sum_const, Finset.card_univ,
    Fintype.card_fin, nsmul_eq_mul, prices σ other, prices columnOf own] at each
  omega

/-- The auction of at least one row ends with an assignment of least cost. -/
theorem solve_cheapest (cost : Square n Int) (outside : List Int) (some_row : 0 < n) :
    ∃ columnOf bids, (solve cost outside).outcome = .ok (columnOf, bids) ∧
      ∀ σ : Fin n → Fin n, Function.Injective σ → price cost columnOf.get ≤ price cost σ := by
  unfold solve
  rw [if_neg some_row.ne']
  by_cases single : n = 1
  · subst single
    refine ⟨Table.tabulate id, 1, rfl, fun σ _ => ?_⟩
    rw [Subsingleton.elim σ (Table.tabulate id).get]
  · rw [if_neg single]
    obtain ⟨m, traded, complete⟩ := phases_end (benefits cost)
      (firstEpsilon (benefits cost) outside)
      (m := ⟨Table.fill n 0, Table.fill n none, Table.fill n none, [], 0⟩) (by simp)
    obtain ⟨columnOf, perfect, holds⟩ := complete.perfect
    refine ⟨columnOf, m.bids, ?_, fun σ other => ?_⟩
    · simp only
      rw [Run.outcome_bind_of_ok traded, perfect]
      rfl
    · have total : ∀ τ : Fin n → Fin n,
          ∑ i, ((benefits cost).get i).get (τ i) = -(n + 1) * price cost τ := by
        intro τ
        rw [price, Finset.mul_sum]
        refine Finset.sum_congr rfl fun i _ => ?_
        simp only [benefits, benefitOf, Table.get_tabulate]
        ring
      have short := complete.sum_le holds (perfect?_injective perfect) other
      rw [total, total] at short
      push_cast at short
      by_contra dearer
      have gap : price cost σ + 1 ≤ price cost columnOf.get := by omega
      have scaled := mul_le_mul_of_nonneg_left gap (by positivity : (0 : Int) ≤ n + 1)
      linarith

end Optima.Assignment.Auction
