import Optima.Proofs.Number.Exact

/-!
Integers in the range of doubles. Rounding never goes below a grid point (`le_roundToGrid`) and at
most doubles a magnitude (`roundToGrid_le`), so every integer that fits into a machine word has a
double next to it (`exists_toReal`). Multiplying by one does not take a double out of the range.
-/

namespace Optima

theorem le_roundEven (num den : Nat) : num / den ≤ roundEven num den := by
  dsimp only [roundEven]
  split
  · exact le_rfl
  · split
    · exact Nat.le_succ _
    · split
      · exact le_rfl
      · exact Nat.le_succ _

namespace Binary64

/-- Rounding never goes below a grid point that is not above what is rounded. -/
theorem le_roundToGrid {m k : Nat} (grid : OnGrid m) (le : m ≤ k) : m ≤ roundToGrid k 1 := by
  have step_pos : 0 < gridStep k := Nat.two_pow_pos _
  have low : k / gridStep k * gridStep k ≤ roundToGrid k 1 := by
    simp only [roundToGrid, Nat.div_one, Nat.one_mul]
    exact Nat.mul_le_mul_right _ (le_roundEven k (gridStep k))
  refine le_trans ?_ low
  by_cases same : m.log2 = k.log2
  · obtain ⟨q, rfl⟩ : gridStep k ∣ m := by
      rw [gridStep, ← same]
      exact grid
    rw [mul_comm]
    exact Nat.mul_le_mul_right _ ((Nat.le_div_iff_mul_le step_pos).mpr (by rwa [mul_comm]))
  · -- In a lower binade than the sum, the term is below the first point of the sum's own.
    have positive : k ≠ 0 := by
      rintro rfl
      exact same (by rw [Nat.le_zero.mp le])
    have first : 2 ^ k.log2 ≤ k / gridStep k * gridStep k := by
      obtain ⟨q, power⟩ : gridStep k ∣ 2 ^ k.log2 := Nat.pow_dvd_pow 2 (Nat.sub_le _ _)
      have inside : gridStep k * q ≤ k := power ▸ Nat.log2_self_le positive
      rw [power, mul_comm]
      exact Nat.mul_le_mul_right _ ((Nat.le_div_iff_mul_le step_pos).mpr (by rwa [mul_comm]))
    have lower : m.log2 < k.log2 := by
      have le : m.log2 ≤ k.log2 := by
        by_cases zero : m = 0
        · simp [zero]
        · exact (Nat.le_log2 positive).mpr ((Nat.log2_self_le zero).trans le)
      omega
    exact (Nat.lt_log2_self.le.trans (Nat.pow_le_pow_right (by decide) lower)).trans first

theorem roundToGrid_le (m : Nat) : roundToGrid m 1 ≤ 2 * m := by
  by_cases zero : m = 0
  · rw [zero, roundToGrid_zero]
  · have step_le : gridStep m ≤ m :=
      (Nat.pow_le_pow_right (by decide) (Nat.sub_le _ _)).trans (Nat.log2_self_le zero)
    simp only [roundToGrid, Nat.div_one, Nat.one_mul]
    calc roundEven m (gridStep m) * gridStep m
      _ ≤ (m / gridStep m + 1) * gridStep m := Nat.mul_le_mul_right _ (roundEven_le _ _)
      _ = m / gridStep m * gridStep m + gridStep m := Nat.succ_mul _ _
      _ ≤ m + m := Nat.add_le_add (Nat.div_mul_le_self _ _) step_le
      _ = 2 * m := (Nat.two_mul m).symm

theorem two_mul_mul_two_pow_lt {m a b c : Nat} (small : m < Nat.pow 2 a) (room : a + b < c) :
    2 * (m * Nat.pow 2 b) < Nat.pow 2 c :=
  calc 2 * (m * 2 ^ b)
    _ < 2 * (2 ^ a * 2 ^ b) :=
      Nat.mul_lt_mul_of_pos_left (Nat.mul_lt_mul_of_pos_right small (two_pow_pos b)) Nat.two_pos
    _ = 2 ^ (a + b + 1) := by rw [Nat.pow_succ', Nat.pow_add]
    _ ≤ 2 ^ c := Nat.pow_le_pow_right Nat.two_pos room

/-- An integer has a double next to it exactly if rounding its units stays below the limit. -/
theorem ofInt?_isSome_iff {i : Int} :
    (ofInt? i).isSome ↔ roundToGrid (i * unit).natAbs 1 < limit := by
  by_cases zero : i * (unit : Int) = 0
  · have units : (ofUnits false (i * unit)).units? = some 0 := by
      rw [ofUnits, if_pos zero]
      exact units?_ofQuotient_zero false 1
    rw [ofInt?_of_units units, zero, Int.natAbs_zero, roundToGrid_zero]
    exact iff_of_true rfl limit_pos
  · by_cases bounded : roundToGrid (i * unit).natAbs 1 < limit
    · have units := units?_ofQuotient (decide (i * (unit : Int) < 0)) bounded
      have value : ofUnits false (i * unit) = ofQuotient (i * (unit : Int) < 0) _ 1 := if_neg zero
      rw [← value] at units
      rw [ofInt?_of_units units]
      exact iff_of_true rfl bounded
    · have value : ofUnits false (i * unit) = .infinite (i * (unit : Int) < 0) :=
        (if_neg zero).trans (dif_neg bounded)
      rw [ofInt?, value]
      exact iff_of_false Bool.false_ne_true bounded

theorem ofInt?_isSome {i : Int} (small : i.natAbs < Nat.pow 2 64) : (ofInt? i).isSome := by
  refine ofInt?_isSome_iff.mpr ((roundToGrid_le _).trans_lt ?_)
  rw [Int.natAbs_mul, Int.natAbs_natCast]
  unfold unit limit
  exact two_mul_mul_two_pow_lt small (by decide)

/-- What is multiplied up from the grid is not rounded when it is divided again. -/
theorem roundToGrid_mul {den m : Nat} (positive : 0 < den) (grid : OnGrid m) :
    roundToGrid (den * m) den = m := by
  have step_pos : 0 < gridStep m := Nat.two_pow_pos _
  have divides : gridStep m ∣ m := grid
  have rest : den * m % (den * gridStep m) = 0 :=
    Nat.mod_eq_zero_of_dvd (Nat.mul_dvd_mul_left den divides)
  simp only [roundToGrid, Nat.mul_div_cancel_left m positive, roundEven, rest, Nat.mul_zero,
    Nat.mul_pos positive step_pos, if_true]
  rw [Nat.mul_div_mul_left _ _ positive, Nat.div_mul_cancel divides]

/-- One times a double is finite if the double is. -/
theorem units?_one_mul {x : Binary64} {u : Int} (units : x.units? = some u) :
    ∃ w, ((1 : Binary64) * x).units? = some w := by
  have one_units : (1 : Binary64).units? = some (unit : Int) := by
    obtain ⟨grid, fits⟩ := natAbs_mul_unit (i := ((1 : Nat) : Int)) (by decide)
    exact (units?_ofUnits false grid fits).trans (by rw [Nat.cast_one, one_mul])
  cases one : (1 : Binary64) with
  | nan => rw [one] at one_units; cases one_units
  | infinite a => rw [one] at one_units; cases one_units
  | finite a m grid fits =>
    rw [one, units?, Option.some.injEq] at one_units
    have magnitude : m = unit := by split at one_units <;> omega
    subst magnitude
    cases x with
    | nan => cases units
    | infinite b => cases units
    | finite b k grid' fits' =>
      have rounded : roundToGrid (unit * k) unit = k := roundToGrid_mul unit_pos grid'
      exact ⟨_, units?_ofQuotient _ (rounded.trans_lt fits')⟩

end Binary64

namespace Number

theorem exists_toReal {i : Int} (small : i.natAbs < 2 ^ 64) :
    ∃ x, (Number.int i).toReal = .ok x := by
  obtain ⟨x, value⟩ := Option.isSome_iff_exists.mp (Binary64.ofInt?_isSome small)
  exact ⟨x, by rw [toReal, value]⟩

end Number

end Optima
