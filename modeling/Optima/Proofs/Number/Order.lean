import Mathlib
import Optima.Problem.Defect
import Optima.Proofs.Number.Range

/-!
Order and sums of numbers from zero on, integers and doubles alike. Numbers are compared by their
exact values (`less_iff_value`), and a sum of doubles is never below its terms, since what is
rounded is at least a term and a term is on the grid (`value_le_add`). Turning an integer into a
double can round it down; it does not up to `2 ^ 53` (`exists_toReal_of_small`).
-/

namespace Optima

namespace Binary64

/-- A double from zero on: a finite one, or the infinite one above all. -/
inductive FromZero : Binary64 → Prop
  | infinite : FromZero (.infinite false)
  | finite {x : Binary64} {u : Int} : x.units? = some u → 0 ≤ u → FromZero x

/-- Nothing is above infinity. -/
theorem FromZero.infinite_less {x : Binary64} (counts : x.FromZero) :
    (Binary64.infinite false).less x = false := by
  cases counts with
  | infinite => rfl
  | finite units _ =>
    cases x with
    | nan => rfl
    | infinite a => cases units
    | finite => rfl

theorem less_infinite {x : Binary64} {u : Int} (units : x.units? = some u) :
    x.less (.infinite false) = true := by
  cases x with
  | nan => cases units
  | infinite a => cases units
  | finite => rfl

theorem FromZero.infinite_add {x : Binary64} (counts : x.FromZero) :
    Binary64.infinite false + x = .infinite false := by
  cases counts with
  | infinite => rfl
  | finite units _ =>
    cases x with
    | nan => cases units
    | infinite a => cases units
    | finite => rfl

theorem add_infinite {x : Binary64} {u : Int} (units : x.units? = some u) :
    x + Binary64.infinite false = .infinite false := by
  cases x with
  | nan => cases units
  | infinite a => cases units
  | finite => rfl

theorem onGrid_of_units? {x : Binary64} {u : Int} (units : x.units? = some u) :
    OnGrid u.natAbs := by
  cases x with
  | nan => cases units
  | infinite a => cases units
  | finite negative m grid bounded =>
    rw [units?, Option.some.injEq] at units
    have magnitude : u.natAbs = m := by
      rw [← units]
      split <;> simp
    rwa [magnitude]

/-- Units from zero on are rounded to a double that is at least every double up to them. -/
theorem ofUnits_cases {units : Int} (zeroSign : Bool) (nonneg : 0 ≤ units) :
    ofUnits zeroSign units = .infinite false ∨ ∃ s, (ofUnits zeroSign units).units? = some s ∧
      0 ≤ s ∧ ∀ m : Nat, OnGrid m → (m : Int) ≤ units → (m : Int) ≤ s := by
  by_cases zero : units = 0
  · right
    refine ⟨0, ?_, le_rfl, fun m _ le => zero ▸ le⟩
    rw [ofUnits, if_pos zero]
    exact units?_ofQuotient_zero zeroSign 1
  · have sign : decide (units < 0) = false := decide_eq_false (not_lt.mpr nonneg)
    rw [ofUnits, if_neg zero, sign]
    by_cases bounded : roundToGrid units.natAbs 1 < limit
    · right
      refine ⟨_, units?_ofQuotient false bounded, Int.natCast_nonneg _, fun m grid le => ?_⟩
      exact Int.ofNat_le.mpr (le_roundToGrid grid (by omega))
    · exact .inl (dif_neg bounded)

theorem fromZero_of_ofInt? {i : Int} {x : Binary64} (nonneg : 0 ≤ i) (value : ofInt? i = some x) :
    FromZero x := by
  have units_nonneg : 0 ≤ i * (unit : Int) := mul_nonneg nonneg (Int.natCast_nonneg _)
  rcases ofUnits_cases false units_nonneg with infinite | ⟨s, units, nonneg, _⟩
  · rw [ofInt?, infinite] at value
    cases value
  · rw [ofInt?] at value
    split at value
    · cases value
    · cases value
      exact .finite units nonneg

end Binary64

namespace Number

open Binary64 (FromZero unit exactBound)

/-! ### Values -/

/-- The exact value in units, above all integers for what has none. -/
def value (a : Number) : WithTop Int := a.units?.elim ⊤ fun u => (u : WithTop Int)

theorem value_int (i : Int) : value (.int i) = (i * unit : Int) := rfl

theorem value_real {x : Binary64} {u : Int} (units : x.units? = some u) : value (.real x) = u := by
  rw [value, units?, units]
  rfl

/-- Integers compare as their values. -/
theorem value_int_lt {i j : Int} : value (.int i) < value (.int j) ↔ i < j := by
  have unit_pos : (0 : Int) < unit := by exact_mod_cast Binary64.unit_pos
  rw [value_int, value_int, WithTop.coe_lt_coe]
  exact mul_lt_mul_iff_left₀ unit_pos

theorem value_int_le {i j : Int} (le : i ≤ j) : value (.int i) ≤ value (.int j) := by
  rw [value_int, value_int, WithTop.coe_le_coe]
  exact mul_le_mul_of_nonneg_right le (Int.natCast_nonneg _)

/-- An integer from zero on, or such a double. -/
def Counts : Number → Prop
  | .int i => 0 ≤ i
  | .real x => x.FromZero

theorem value_nonneg {a : Number} (counts : Counts a) : value (.int 0) ≤ value a := by
  cases a with
  | int i => exact value_int_le counts
  | real x =>
    cases counts with
    | infinite => exact le_top
    | finite units nonneg =>
      rw [value_int, value_real units, zero_mul, WithTop.coe_le_coe]
      exact nonneg

theorem value_real_lt_top {x : Binary64} {u : Int} (units : x.units? = some u) :
    value (.real x) < ⊤ := by
  rw [value_real units]
  exact WithTop.coe_lt_top u

/-- Comparing numbers compares their values, whichever way they are written. -/
theorem less_iff_value {a b : Number} (first : Counts a) (second : Counts b) :
    a.less b = true ↔ value a < value b := by
  cases a with
  | int i =>
    cases b with
    | int j => exact decide_eq_true_iff.trans value_int_lt.symm
    | real y =>
      cases second with
      | infinite => exact iff_of_true rfl (WithTop.coe_lt_top _)
      | finite units _ =>
        rw [less_units units, value_int, value_real units, WithTop.coe_lt_coe, decide_eq_true_iff]
  | real x =>
    cases b with
    | int j =>
      cases first with
      | infinite => exact iff_of_false Bool.false_ne_true not_top_lt
      | finite units _ =>
        rw [units_less units, value_int, value_real units, WithTop.coe_lt_coe, decide_eq_true_iff]
    | real y =>
      change x.less y = true ↔ _
      cases first with
      | infinite => exact iff_of_false (by simp [second.infinite_less]) not_top_lt
      | finite units _ =>
        cases second with
        | infinite =>
          exact iff_of_true (Binary64.less_infinite units) (value_real_lt_top units)
        | finite units' _ =>
          rw [Binary64.less_eq_units units units', value_real units, value_real units',
            WithTop.coe_lt_coe, decide_eq_true_iff]

/-! ### Sums -/

/-- A sum of doubles from zero on is such a double, and not below its first term. -/
theorem value_le_add {x y : Binary64} (first : x.FromZero) (second : y.FromZero) :
    (x + y).FromZero ∧ value (.real x) ≤ value (.real (x + y)) := by
  have infinite_sum : x + y = .infinite false →
      (x + y).FromZero ∧ value (.real x) ≤ value (.real (x + y)) := by
    intro sum
    rw [sum]
    exact ⟨.infinite, le_top⟩
  cases first with
  | infinite => exact infinite_sum second.infinite_add
  | @finite _ u units nonneg =>
    cases second with
    | infinite => exact infinite_sum (Binary64.add_infinite units)
    | @finite _ w units' nonneg' =>
      obtain ⟨zeroSign, sum⟩ := Binary64.add_eq_ofUnits units units'
      rcases Binary64.ofUnits_cases zeroSign (add_nonneg nonneg nonneg') with
        infinite | ⟨s, rounded, positive, above⟩
      · exact infinite_sum (sum.trans infinite)
      · rw [← sum] at rounded
        have le := above u.natAbs (Binary64.onGrid_of_units? units) (by omega)
        refine ⟨.finite rounded positive, ?_⟩
        rw [value_real units, value_real rounded, WithTop.coe_le_coe]
        omega

/-- An integer of at most 53 binary digits has its own value as a double. -/
theorem exists_toReal_of_small {i : Int} (nonneg : 0 ≤ i) (small : i ≤ 2 ^ 53) :
    ∃ x, (Number.int i).toReal = .ok x ∧ x.FromZero ∧ value (.real x) = value (.int i) := by
  have bound : i.natAbs ≤ exactBound := by
    rw [exactBound]
    omega
  obtain ⟨x, converted, units⟩ := Binary64.exists_ofInt? bound
  refine ⟨x, ?_, Binary64.fromZero_of_ofInt? nonneg converted, value_real units⟩
  rw [toReal, converted]

theorem add_real_left {x y : Binary64} {b : Number} (converted : b.toReal = .ok y) :
    Number.add (.real x) b = .ok (.real (x + y)) := by
  cases b <;> simp only [Number.add, combine, converted] <;> rfl

theorem add_real_right {x y : Binary64} {a : Number} (converted : a.toReal = .ok x) :
    Number.add a (.real y) = .ok (.real (x + y)) := by
  cases a <;> simp only [Number.add, combine, converted] <;> rfl

/-! ### Numbers without a flaw -/

theorem finite_of_no_flaw {a : Number} (fine : a.flaw? = none) :
    ∃ x, a.toReal = .ok x ∧ x.isFinite = true ∧ a.isNegative = false := by
  rw [flaw?] at fine
  cases converted : a.toReal with
  | error fault =>
    rw [converted] at fine
    cases fine
  | ok x =>
    simp only [converted] at fine
    cases finite : x.isFinite with
    | false => simp [finite] at fine
    | true =>
      cases negative : a.isNegative with
      | true => simp [finite, negative] at fine
      | false => exact ⟨x, rfl, finite, rfl⟩

/-- A number without a flaw is from zero on, and so is the double that it can be turned into. -/
theorem counts_of_no_flaw {a : Number} (fine : a.flaw? = none) :
    Counts a ∧ ∃ x, a.toReal = .ok x ∧ x.FromZero := by
  obtain ⟨x, converted, finite, negative⟩ := finite_of_no_flaw fine
  cases a with
  | int i =>
    have nonneg : 0 ≤ i := not_lt.mp (of_decide_eq_false negative)
    refine ⟨nonneg, x, converted, ?_⟩
    rw [toReal] at converted
    split at converted
    · next value =>
      cases converted
      exact Binary64.fromZero_of_ofInt? nonneg value
    · cases converted
  | real y =>
    cases converted
    have counts : x.FromZero := by
      cases x with
      | nan => cases finite
      | infinite a => cases finite
      | finite sign m grid bounded =>
        have above := units_less (x := .finite sign m grid bounded) (j := 0) rfl
        rw [isNegative, above, decide_eq_false_iff_not, zero_mul, not_lt] at negative
        exact .finite rfl negative
    exact ⟨counts, x, rfl, counts⟩

end Number

end Optima
