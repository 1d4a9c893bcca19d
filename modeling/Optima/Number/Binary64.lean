/-!
Double precision, exactly. A finite value is a sign and a whole number of units, where a unit
is the least positive value (`2 ^ -1074`), so every operation is a computation on `Nat` followed by
one rounding, and no statement about it needs the machine's own floating point.

A magnitude is representable when it lies on the grid of its binade (`OnGrid`) and below the
overflow threshold. Rounding goes to the nearest grid point and a tie to the even one
(`roundEven`); `onGrid_roundToGrid` says that what it gives is representable again.
-/

namespace Optima

/-! ### Rounding to the grid -/

/-- The quotient rounded to the nearest integer; a tie goes to the even neighbour. -/
def roundEven (num den : Nat) : Nat :=
  let low := num / den
  let twice := 2 * (num % den)
  if twice < den then low
  else if den < twice then low + 1
  else if low % 2 = 0 then low else low + 1

theorem roundEven_le (num den : Nat) : roundEven num den ≤ num / den + 1 := by
  dsimp only [roundEven]
  split
  · omega
  · split
    · omega
    · split <;> omega

namespace Binary64

/-- The number of units in one. -/
@[irreducible] def unit : Nat := Nat.pow 2 1074

/-- Magnitudes from here on round to infinity. -/
@[irreducible] def limit : Nat := Nat.pow 2 2098

/-- The distance between neighbouring grid points in the binade of `m`: a magnitude keeps 53 binary
digits. -/
def gridStep (m : Nat) : Nat := Nat.pow 2 (m.log2 - 52)

/-- The magnitude `m` lies on the grid. -/
def OnGrid (m : Nat) : Prop := gridStep m ∣ m

instance (m : Nat) : Decidable (OnGrid m) := by unfold OnGrid; infer_instance

/-- The grid point nearest to `num / den` units. -/
def roundToGrid (num den : Nat) : Nat :=
  let step := gridStep (num / den)
  roundEven num (den * step) * step

theorem onGrid_mul_two_pow {r e : Nat} (small : r ≤ Nat.pow 2 53) :
    OnGrid (r * Nat.pow 2 e) := by
  change r ≤ 2 ^ 53 at small
  change 2 ^ ((r * 2 ^ e).log2 - 52) ∣ r * 2 ^ e
  by_cases zero : r = 0
  · simp [zero]
  · have value : r * 2 ^ e ≠ 0 := Nat.mul_ne_zero zero (Nat.pos_iff_ne_zero.mp (Nat.two_pow_pos e))
    rcases Nat.lt_or_eq_of_le small with below | rfl
    · have bound : (r * 2 ^ e).log2 < 53 + e := (Nat.log2_lt value).mpr (by
        rw [Nat.pow_add]; exact Nat.mul_lt_mul_of_pos_right below (Nat.two_pow_pos e))
      exact Nat.dvd_trans (Nat.pow_dvd_pow 2 (by omega)) (Nat.dvd_mul_left _ _)
    · rw [← Nat.pow_add, Nat.log2_two_pow]
      exact Nat.pow_dvd_pow 2 (by omega)

/-- Rounding gives a grid point. -/
theorem onGrid_roundToGrid (num den : Nat) : OnGrid (roundToGrid num den) := by
  unfold roundToGrid
  refine onGrid_mul_two_pow ?_
  refine Nat.le_trans (roundEven_le _ _) (Nat.succ_le_of_lt ?_)
  rw [← Nat.div_div_eq_div_mul]
  refine Nat.div_lt_of_lt_mul (Nat.lt_of_lt_of_le (Nat.lt_log2_self (n := num / den)) ?_)
  change 2 ^ ((num / den).log2 + 1) ≤ 2 ^ ((num / den).log2 - 52) * 2 ^ 53
  rw [← Nat.pow_add]
  exact Nat.pow_le_pow_right (by decide) (by omega)

end Binary64

/-- A double-precision value. -/
inductive Binary64 where
  | nan
  | infinite (negative : Bool)
  | finite (negative : Bool) (magnitude : Nat) (onGrid : Binary64.OnGrid magnitude)
      (bounded : magnitude < Binary64.limit)
  deriving DecidableEq

namespace Binary64

/-- The value nearest to `num / den` units with the given sign; past the largest value it is
infinite. -/
def ofQuotient (negative : Bool) (num den : Nat) : Binary64 :=
  let magnitude := roundToGrid num den
  if bounded : magnitude < limit then
    .finite negative magnitude (onGrid_roundToGrid num den) bounded
  else .infinite negative

/-- The value nearest to a whole number of units; `zeroSign` is the sign of an exact zero. -/
def ofUnits (zeroSign : Bool) (units : Int) : Binary64 :=
  if units = 0 then ofQuotient zeroSign 0 1 else ofQuotient (units < 0) units.natAbs 1

/-- Positive zero. -/
def zero : Binary64 := ofUnits false 0

/-- The double nearest to an integer; none where it would be infinite. -/
def ofInt? (i : Int) : Option Binary64 :=
  match ofUnits false (i * unit) with
  | .infinite _ => none
  | value => some value

/-- The double nearest to an integer that lies well inside the range. -/
def ofNat (n : Nat) : Binary64 := ofUnits false (n * unit)

instance : Zero Binary64 := ⟨zero⟩
instance : One Binary64 := ⟨ofNat 1⟩
instance : Inhabited Binary64 := ⟨zero⟩

/-- Positive infinity. -/
def infinity : Binary64 := .infinite false

/-! ### Reading a value -/

/-- The exact value of a finite double in units. -/
def units? : Binary64 → Option Int
  | .finite negative magnitude _ _ => some (if negative then -magnitude else magnitude)
  | _ => none

/-- Neither infinite nor `nan`. -/
def isFinite : Binary64 → Bool
  | .finite .. => true
  | _ => false

/-- Finite and without a fractional part. -/
def isInteger (x : Binary64) : Bool :=
  match x with
  | .finite _ magnitude _ _ => magnitude % unit = 0
  | _ => false

/-- The integer part, toward zero, of a finite value. -/
def truncate? (x : Binary64) : Option Int :=
  x.units?.map (·.tdiv unit)

/-! ### Order

Comparisons are of exact values; both zeros are equal, and `nan` compares with nothing. -/

/-- `x < y`. -/
def less : Binary64 → Binary64 → Bool
  | .nan, _ | _, .nan => false
  | .infinite a, .infinite b => a && !b
  | .infinite a, .finite .. => a
  | .finite .., .infinite b => !b
  | .finite false m _ _, .finite false k _ _ => m < k
  | .finite true m _ _, .finite true k _ _ => k < m
  | .finite true m _ _, .finite false k _ _ => 0 < m || 0 < k
  | .finite false .., .finite true .. => false

/-- Of finite values, the one with fewer units is the lesser. -/
theorem less_eq_units {x y : Binary64} {i j : Int} (hx : x.units? = some i)
    (hy : y.units? = some j) : x.less y = decide (i < j) := by
  cases x with
  | nan => cases hx
  | infinite a => cases hx
  | finite a m g b =>
    cases y with
    | nan => cases hy
    | infinite a => cases hy
    | finite c k h d =>
      simp only [units?, Option.some.injEq] at hx hy
      rw [← hx, ← hy, Bool.eq_iff_iff]
      cases a <;> cases c <;> simp [less] <;> omega

/-- `x = y` as numbers. -/
def same : Binary64 → Binary64 → Bool
  | .nan, _ | _, .nan => false
  | .infinite a, .infinite b => a == b
  | .infinite _, .finite .. | .finite .., .infinite _ => false
  | x@(.finite ..), y@(.finite ..) => x.units? == y.units?

/-- `x ≤ y`. -/
def atMost (x y : Binary64) : Bool := x.less y || x.same y

/-! ### Arithmetic -/

protected def neg : Binary64 → Binary64
  | .nan => .nan
  | .infinite a => .infinite (!a)
  | .finite a m g b => .finite (!a) m g b

/-- The magnitude with a plus sign. -/
def abs : Binary64 → Binary64
  | .nan => .nan
  | .infinite _ => .infinite false
  | .finite _ m g b => .finite false m g b

/-- The exact sum, rounded. A zero sum is negative only if both terms are. -/
protected def add : Binary64 → Binary64 → Binary64
  | .nan, _ | _, .nan => .nan
  | .infinite a, .infinite b => if a = b then .infinite a else .nan
  | .infinite a, .finite .. => .infinite a
  | .finite .., .infinite b => .infinite b
  | x@(.finite a _ _ _), y@(.finite b _ _ _) =>
      ofUnits (a && b) (x.units?.getD 0 + y.units?.getD 0)

/-- The exact product, rounded. -/
protected def mul : Binary64 → Binary64 → Binary64
  | .nan, _ | _, .nan => .nan
  | .infinite a, .infinite b => .infinite (a != b)
  | .infinite a, .finite b m _ _ | .finite b m _ _, .infinite a =>
      if m = 0 then .nan else .infinite (a != b)
  | .finite a m _ _, .finite b k _ _ => ofQuotient (a != b) (m * k) unit

/-- The exact quotient, rounded. -/
protected def div : Binary64 → Binary64 → Binary64
  | .nan, _ | _, .nan => .nan
  | .infinite _, .infinite _ => .nan
  | .infinite a, .finite b _ _ _ => .infinite (a != b)
  | .finite a _ _ _, .infinite b => ofQuotient (a != b) 0 1
  | .finite a m _ _, .finite b k _ _ =>
      if k = 0 then (if m = 0 then .nan else .infinite (a != b))
      else ofQuotient (a != b) (m * unit) k

instance : Neg Binary64 := ⟨Binary64.neg⟩
instance : Add Binary64 := ⟨Binary64.add⟩
instance : Sub Binary64 := ⟨fun x y => x + -y⟩
instance : Mul Binary64 := ⟨Binary64.mul⟩
instance : Div Binary64 := ⟨Binary64.div⟩

end Binary64

end Optima
