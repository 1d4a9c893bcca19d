import Optima.Problem.Defect
import Optima.Proofs.Number.Range

/-!
Where the range of doubles ends. The greatest double has 53 binary digits one, and what lies half a
step above it is a tie that goes to the even neighbour, which is infinite. So integers have doubles
next to them up to `2 ^ 1024 - 2 ^ 970`, and none from there on (`ofInt?_isSome_iff`); that decides
which numbers can be costs or lengths (`flaw?_eq_none_iff`).
-/

namespace Optima

/-- A quotient below an even number is rounded up to it from half a unit below it. -/
theorem roundEven_lt_iff {m half k : Nat} (half_pos : 0 < half) (below : m < 2 * k * (2 * half)) :
    roundEven m (2 * half) < 2 * k ↔ m < 2 * k * (2 * half) - half := by
  have split := Nat.div_add_mod m (2 * half)
  have rest := Nat.mod_lt m (by omega : 0 < 2 * half)
  have steps : m / (2 * half) < 2 * k := Nat.div_lt_of_lt_mul (by rwa [Nat.mul_comm])
  by_cases last : m / (2 * half) + 1 = 2 * k
  · -- The last step is odd, so that a tie leaves it.
    have whole := congrArg (2 * half * ·) last
    simp only [Nat.mul_add, Nat.mul_one] at whole
    rw [Nat.mul_comm (2 * half) (2 * k)] at whole
    dsimp only [roundEven]
    split_ifs <;> omega
  · have near := roundEven_le m (2 * half)
    have under := Nat.mul_le_mul_left (2 * half) (by omega : m / (2 * half) + 2 ≤ 2 * k)
    rw [Nat.mul_comm (2 * half) (2 * k), Nat.mul_add] at under
    exact iff_of_true (by omega) (by omega)

namespace Binary64

/-- Rounding takes to the next power of two what is at most half a step below it. -/
theorem roundToGrid_lt_iff (m : Nat) {e k : Nat} (wide : k = e + 54) :
    roundToGrid m 1 < Nat.pow 2 k ↔ m < Nat.pow 2 k - Nat.pow 2 e := by
  subst wide
  change roundToGrid m 1 < 2 ^ (e + 54) ↔ m < 2 ^ (e + 54) - 2 ^ e
  have half_pos : 0 < 2 ^ e := Nat.two_pow_pos e
  have top : 2 ^ (e + 54) = 9007199254740992 * (2 * 2 ^ e) := by
    rw [Nat.pow_add]
    omega
  have bottom : 2 ^ (e + 53) = 9007199254740992 * 2 ^ e := by
    rw [Nat.pow_add]
    omega
  by_cases above : 2 ^ (e + 54) ≤ m
  · have grid : OnGrid (2 ^ (e + 54)) := by
      have grid := onGrid_mul_two_pow (r := 1) (e := e + 54) (by decide)
      rwa [Nat.one_mul] at grid
    have := le_roundToGrid grid above
    omega
  · by_cases below : m < 2 ^ (e + 53)
    · have := roundToGrid_le m
      omega
    · -- The binade below the power: its steps are of `2 * 2 ^ e`, and there are `2 ^ 53` of them.
      have positive : m ≠ 0 := by omega
      have binade : m.log2 = e + 53 := by
        have low := (Nat.le_log2 positive).mpr (not_lt.mp below)
        have high := (Nat.log2_lt positive).mpr (not_le.mp above)
        omega
      have step : gridStep m = 2 * 2 ^ e := by
        rw [gridStep, binade, ← Nat.pow_succ']
        exact congrArg (Nat.pow 2) (by omega)
      have value : roundToGrid m 1 = roundEven m (2 * 2 ^ e) * (2 * 2 ^ e) := by
        simp only [roundToGrid, Nat.div_one, Nat.one_mul, step]
      rw [value, top, Nat.mul_lt_mul_right (Nat.mul_pos Nat.two_pos half_pos)]
      exact roundEven_lt_iff (k := 4503599627370496) half_pos (by omega)

theorem unit_eq : unit = Nat.pow 2 1074 := by
  unfold unit
  rfl

theorem limit_eq : limit = Nat.pow 2 2098 := by
  unfold limit
  rfl

/-- From here on integers have no double next to them. -/
@[irreducible] def rangeEnd : Nat := Nat.pow 2 1024 - Nat.pow 2 970

theorem rangeEnd_eq : rangeEnd = Nat.pow 2 1024 - Nat.pow 2 970 := by
  unfold rangeEnd
  rfl

/-- Rounding units, where powers of two are given by their exponents. -/
theorem roundToGrid_mul_lt_iff (x : Nat) {a b k u one top last : Nat} (one_eq : one = Nat.pow 2 u)
    (top_eq : top = Nat.pow 2 k) (last_eq : last = Nat.pow 2 a - Nat.pow 2 b)
    (wide : a = b + 54) (scaled : a + u = k) :
    roundToGrid (x * one) 1 < top ↔ x < last := by
  have split : ∀ c, Nat.pow 2 (c + u) = Nat.pow 2 c * one := by
    intro c
    rw [one_eq]
    exact Nat.pow_add 2 c u
  subst scaled
  rw [top_eq]
  refine (roundToGrid_lt_iff (x * one) (by omega : a + u = b + u + 54)).trans ?_
  rw [split, split, ← Nat.sub_mul, ← last_eq]
  exact Nat.mul_lt_mul_right (one_eq ▸ two_pow_pos u)

/-- Integers have doubles next to them as far as the range of doubles goes. -/
theorem ofInt?_isSome_iff_lt {i : Int} (nonneg : 0 ≤ i) : (ofInt? i).isSome ↔ i < rangeEnd := by
  have ends := roundToGrid_mul_lt_iff i.natAbs unit_eq limit_eq rangeEnd_eq
    (by decide) (by decide)
  rw [ofInt?_isSome_iff, Int.natAbs_mul, Int.natAbs_natCast, ends]
  omega

end Binary64

namespace Number

/-- A cost or a length as it should be: an integer from zero on with a double next to it, or a
finite double from zero on. -/
def IsAmount : Number → Prop
  | .int i => 0 ≤ i ∧ i < Binary64.rangeEnd
  | .real x => ∃ u, x.units? = some u ∧ 0 ≤ u

theorem isAmount_real_iff {x : Binary64} :
    IsAmount (.real x) ↔ x.isFinite = true ∧ isNegative (.real x) = false := by
  cases units : x.units? with
  | none =>
    have infinite : x.isFinite ≠ true := by
      cases x with
      | finite => cases units
      | _ => exact Bool.false_ne_true
    refine iff_of_false ?_ fun fine => infinite fine.1
    rintro ⟨u, known, -⟩
    rw [units] at known
    cases known
  | some u =>
    have finite : x.isFinite = true := by
      cases x with
      | finite => rfl
      | _ => cases units
    have below := units_less (j := 0) units
    rw [isNegative, below, decide_eq_false_iff_not, zero_mul, not_lt, and_iff_right finite]
    constructor
    · rintro ⟨u', known, nonneg⟩
      cases units.symm.trans known
      exact nonneg
    · exact fun nonneg => ⟨u, units, nonneg⟩

/-- A number has no flaw exactly if it is such an amount. -/
theorem flaw?_eq_none_iff {a : Number} : a.flaw? = none ↔ a.IsAmount := by
  have fine {x : Binary64} (converted : a.toReal = .ok x) :
      a.flaw? = none ↔ x.isFinite = true ∧ a.isNegative = false := by
    simp only [flaw?, converted]
    cases x.isFinite <;> cases a.isNegative <;> simp
  cases a with
  | real x => exact (fine rfl).trans isAmount_real_iff.symm
  | int i =>
    have sign : isNegative (.int i) = false ↔ 0 ≤ i := by
      rw [isNegative, less, decide_eq_false_iff_not, not_lt]
    cases double : Binary64.ofInt? i with
    | none =>
      have beyond : flaw? (.int i) = some .outOfRange := by rw [flaw?, toReal, double]
      rw [beyond]
      refine iff_of_false (Option.some_ne_none _) fun amount => ?_
      have some := (Binary64.ofInt?_isSome_iff_lt amount.1).mpr amount.2
      rw [double] at some
      cases some
    | some x =>
      have converted : toReal (.int i) = .ok x := by rw [toReal, double]
      obtain ⟨u, units⟩ := Binary64.units?_of_ofInt? double
      have finite : x.isFinite = true := by
        cases x with
        | finite => rfl
        | _ => cases units
      rw [fine converted, sign, and_iff_right finite]
      refine ⟨fun nonneg => ⟨nonneg, ?_⟩, fun amount => amount.1⟩
      exact (Binary64.ofInt?_isSome_iff_lt nonneg).mp (double ▸ rfl)

end Number

end Optima
