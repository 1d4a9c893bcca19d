import Mathlib.Algebra.Order.Ring.Int
import Mathlib.Tactic.Ring
import Optima.Number.Basic

/-!
Integers that doubles represent. An integer of at most 53 binary digits lies on the grid, so nothing
is lost when it is turned into a double, and comparing it with a double that was computed from
integers of that size is comparing integers.
-/

namespace Optima

namespace Binary64

theorem two_pow_pos (k : Nat) : 0 < Nat.pow 2 k := Nat.two_pow_pos k

theorem unit_pos : 0 < unit := by
  unfold unit
  exact two_pow_pos _

theorem limit_pos : 0 < limit := by
  unfold limit
  exact two_pow_pos _

/-- The greatest integer up to which all integers are doubles. -/
def exactBound : Nat := 2 ^ 53

/-- On the grid there is nothing to round. -/
theorem roundToGrid_of_onGrid {m : Nat} (grid : OnGrid m) : roundToGrid m 1 = m := by
  have step_pos : 0 < gridStep m := Nat.two_pow_pos _
  have divides : gridStep m ∣ m := grid
  have whole : m % gridStep m = 0 := Nat.mod_eq_zero_of_dvd divides
  simp only [roundToGrid, Nat.div_one, roundEven, Nat.one_mul, whole, Nat.mul_zero, step_pos,
    if_true]
  exact Nat.div_mul_cancel divides

theorem roundToGrid_zero (den : Nat) : roundToGrid 0 den = 0 := by
  have quotient : roundEven 0 (den * gridStep (0 / den)) = 0 := by
    by_cases positive : 0 < den * gridStep (0 / den)
    · simp only [roundEven, Nat.zero_div, Nat.zero_mod, Nat.mul_zero] at positive ⊢
      rw [if_pos positive]
    · simp [roundEven]
  rw [roundToGrid]
  simp only [quotient, Nat.zero_mul]

theorem units?_ofQuotient {num den : Nat} (negative : Bool)
    (bounded : roundToGrid num den < limit) : (ofQuotient negative num den).units? =
      some (if negative then -(roundToGrid num den : Int) else roundToGrid num den) := by
  unfold ofQuotient
  simp only
  rw [dif_pos bounded]
  rfl

theorem units?_ofQuotient_zero (negative : Bool) (den : Nat) :
    (ofQuotient negative 0 den).units? = some 0 := by
  have nothing := roundToGrid_zero den
  rw [units?_ofQuotient negative (by rw [nothing]; exact limit_pos), nothing]
  cases negative <;> rfl

/-- A whole number of units that is representable stays what it is. -/
theorem units?_ofUnits {units : Int} (zeroSign : Bool) (grid : OnGrid units.natAbs)
    (bounded : units.natAbs < limit) : (ofUnits zeroSign units).units? = some units := by
  by_cases zero : units = 0
  · rw [ofUnits, if_pos zero, units?_ofQuotient_zero, zero]
  · have exact := roundToGrid_of_onGrid grid
    rw [ofUnits, if_neg zero, units?_ofQuotient _ (by rwa [exact]), exact]
    by_cases negative : units < 0
    · rw [if_pos (decide_eq_true negative), Int.ofNat_natAbs_of_nonpos negative.le, neg_neg]
    · rw [if_neg (by simpa using negative), Int.natAbs_of_nonneg (not_lt.mp negative)]

theorem mul_two_pow_lt {m a b : Nat} (small : m ≤ exactBound) (room : 53 + a < b) :
    m * Nat.pow 2 a < Nat.pow 2 b :=
  calc m * 2 ^ a ≤ 2 ^ 53 * 2 ^ a := Nat.mul_le_mul_right _ small
    _ = 2 ^ (53 + a) := (Nat.pow_add 2 53 a).symm
    _ < 2 ^ b := Nat.pow_lt_pow_right (by decide) room

theorem natAbs_mul_unit {i : Int} (small : i.natAbs ≤ exactBound) :
    OnGrid (i * unit).natAbs ∧ (i * unit).natAbs < limit := by
  rw [Int.natAbs_mul, Int.natAbs_natCast]
  unfold unit
  constructor
  · exact onGrid_mul_two_pow small
  · unfold limit
    exact mul_two_pow_lt small (by decide)

/-- An integer has a double next to it if rounding its units stays finite. -/
theorem ofInt?_of_units {i u : Int} (units : (ofUnits false (i * unit)).units? = some u) :
    ofInt? i = some (ofUnits false (i * unit)) := by
  cases value : ofUnits false (i * unit) with
  | infinite negative =>
    rw [value] at units
    cases units
  | nan => rw [ofInt?, value]
  | finite negative magnitude onGrid bounded => rw [ofInt?, value]

/-- An integer of at most 53 binary digits is a double. -/
theorem exists_ofInt? {i : Int} (small : i.natAbs ≤ exactBound) :
    ∃ x, ofInt? i = some x ∧ x.units? = some (i * unit) := by
  obtain ⟨grid, bounded⟩ := natAbs_mul_unit small
  have units := units?_ofUnits false grid bounded
  exact ⟨_, ofInt?_of_units units, units⟩

theorem units?_zero : zero.units? = some 0 := by
  rw [zero, ofUnits, if_pos rfl]
  exact units?_ofQuotient_zero false 1

theorem units?_neg {x : Binary64} {u : Int} (units : x.units? = some u) :
    (-x).units? = some (-u) := by
  cases x with
  | nan => cases units
  | infinite a => cases units
  | finite negative m g b =>
    simp only [units?, Option.some.injEq] at units
    change (Binary64.neg (.finite negative m g b)).units? = some (-u)
    simp only [Binary64.neg, units?, ← units]
    cases negative <;> simp

/-- The sum of finite doubles is what is nearest to the sum of their units. -/
theorem add_eq_ofUnits {x y : Binary64} {u w : Int} (hx : x.units? = some u)
    (hy : y.units? = some w) : ∃ zeroSign, x + y = ofUnits zeroSign (u + w) := by
  cases x with
  | nan => cases hx
  | infinite a => cases hx
  | finite a m g b =>
    cases y with
    | nan => cases hy
    | infinite a => cases hy
    | finite c k h d =>
      refine ⟨a && c, ?_⟩
      change ofUnits (a && c) _ = _
      rw [hx, hy]
      rfl

/-- A sum of doubles that is representable is not rounded. -/
theorem units?_add {x y : Binary64} {u w : Int} (hx : x.units? = some u) (hy : y.units? = some w)
    (grid : OnGrid (u + w).natAbs) (bounded : (u + w).natAbs < limit) :
    (x + y).units? = some (u + w) := by
  obtain ⟨zeroSign, sum⟩ := add_eq_ofUnits hx hy
  rw [sum]
  exact units?_ofUnits zeroSign grid bounded

/-- Nothing times a double is nothing. -/
theorem units?_zero_mul {x : Binary64} {u : Int} (hx : x.units? = some u) :
    (zero * x).units? = some 0 := by
  have isZero := units?_zero
  cases value : zero with
  | nan => rw [value] at isZero; cases isZero
  | infinite a => rw [value] at isZero; cases isZero
  | finite a m g b =>
    rw [value, units?, Option.some.injEq] at isZero
    have nothing : m = 0 := by split at isZero <;> omega
    cases x with
    | nan => cases hx
    | infinite a => cases hx
    | finite c k h d =>
      change (ofQuotient _ (m * k) unit).units? = _
      rw [nothing, Nat.zero_mul]
      exact units?_ofQuotient_zero _ _

theorem units?_of_ofInt? {i : Int} {x : Binary64} (value : ofInt? i = some x) :
    ∃ u, x.units? = some u := by
  have quotient : ∀ (negative : Bool) (num den : Nat),
      ofQuotient negative num den = .infinite negative ∨
        ∃ u, (ofQuotient negative num den).units? = some u := by
    intro negative num den
    by_cases bounded : roundToGrid num den < limit
    · exact .inr ⟨_, units?_ofQuotient negative bounded⟩
    · exact .inl (dif_neg bounded)
  have rounded : (∃ negative, ofUnits false (i * unit) = .infinite negative) ∨
      ∃ u, (ofUnits false (i * unit)).units? = some u := by
    rw [ofUnits]
    split
    · exact (quotient false 0 1).imp_left fun infinite => ⟨_, infinite⟩
    · exact (quotient _ _ 1).imp_left fun infinite => ⟨_, infinite⟩
  rcases rounded with ⟨negative, infinite⟩ | ⟨u, units⟩
  · rw [ofInt?, infinite] at value
    cases value
  · cases same : ofUnits false (i * unit) with
    | infinite negative =>
      rw [same] at units
      cases units
    | nan =>
      rw [same] at units
      cases units
    | finite negative m g b =>
      rw [ofInt?, same] at value
      cases value
      exact ⟨_, rfl⟩

end Binary64

namespace Number

open Binary64

/-- An integer is compared with a double in units. -/
theorem less_units {i u : Int} {y : Binary64} (units : y.units? = some u) :
    (Number.int i).less (.real y) = decide (i * (unit : Int) < u) := by
  cases y with
  | nan => cases units
  | infinite a => cases units
  | finite a m g b =>
    change decide (i * (unit : Int) < ((Binary64.finite a m g b).units?).getD 0) = _
    rw [units, Option.getD_some]

theorem units_less {u j : Int} {x : Binary64} (units : x.units? = some u) :
    (Number.real x).less (.int j) = decide (u < j * (unit : Int)) := by
  cases x with
  | nan => cases units
  | infinite a => cases units
  | finite a m g b =>
    change decide (((Binary64.finite a m g b).units?).getD 0 < j * (unit : Int)) = _
    rw [units, Option.getD_some]

/-- Comparing an integer with a double that is the value of an integer. -/
theorem less_real {i j : Int} {y : Binary64} (value : y.units? = some (j * unit)) :
    (Number.int i).less (.real y) = decide (i < j) := by
  have unit_pos : (0 : Int) < unit := by exact_mod_cast Binary64.unit_pos
  rw [less_units value]
  exact decide_eq_decide.mpr (mul_lt_mul_iff_left₀ unit_pos)

theorem same_real {i j : Int} {y : Binary64} (value : y.units? = some (j * unit)) :
    (Number.int i).same (.real y) = decide (i = j) := by
  have unit_pos : (0 : Int) < unit := by exact_mod_cast Binary64.unit_pos
  simp only [same, units?, value]
  exact decide_eq_decide.mpr (mul_left_inj' unit_pos.ne')

theorem atMost_real {i j : Int} {y : Binary64} (value : y.units? = some (j * unit)) :
    (Number.int i).atMost (.real y) = decide (i ≤ j) := by
  rw [atMost, less_real value, same_real value, Bool.eq_iff_iff]
  simp only [Bool.or_eq_true, decide_eq_true_eq]
  exact Int.le_iff_lt_or_eq.symm

/-- A small integer is unchanged when a zero of doubles is taken from it. -/
theorem sub_zero_exact {i : Int} (small : i.natAbs ≤ exactBound) :
    ∃ y, Number.sub (.int i) (.real zero) = .ok (.real y) ∧ y.units? = some (i * unit) := by
  obtain ⟨x, converted, units⟩ := exists_ofInt? small
  refine ⟨x - zero, ?_, ?_⟩
  · simp only [Number.sub, combine, toReal, converted]
    rfl
  · obtain ⟨grid, bounded⟩ := natAbs_mul_unit small
    have sum := units?_add (u := i * unit) (w := -0) units (units?_neg units?_zero)
      (by rwa [neg_zero, add_zero]) (by rwa [neg_zero, add_zero])
    rwa [neg_zero, add_zero] at sum

/-- Multiplying a double with an integer fails only where the integer is not one that doubles are
sure to represent. -/
theorem mul_int_cases (z : Binary64) (k : Int) : (∃ y, Number.mul (.real z) (.int k) = .ok y) ∨
    Number.mul (.real z) (.int k) = .error .tooLarge ∧ exactBound < k.natAbs := by
  cases value : ofInt? k with
  | some x =>
    left
    refine ⟨.real (z * x), ?_⟩
    simp only [Number.mul, combine, toReal, value]
    rfl
  | none =>
    right
    constructor
    · simp only [Number.mul, combine, toReal, value]
      rfl
    · by_contra small
      obtain ⟨x, known, _⟩ := exists_ofInt? (Nat.le_of_not_lt small)
      rw [value] at known
      cases known

/-- Being at most a multiple of zero is being at most zero. -/
theorem atMost_zero_mul {i k : Int} {slack : Number}
    (value : Number.mul (.real zero) (.int k) = .ok slack) :
    (Number.int i).atMost slack = decide (i ≤ 0) := by
  simp only [Number.mul, combine, toReal] at value
  cases converted : ofInt? k with
  | none =>
    rw [converted] at value
    cases value
  | some x =>
    rw [converted] at value
    cases value
    obtain ⟨u, units⟩ := units?_of_ofInt? converted
    apply atMost_real (j := 0)
    rw [units?_zero_mul units, zero_mul]

end Number

end Optima
