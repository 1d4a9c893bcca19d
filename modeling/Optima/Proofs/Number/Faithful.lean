import Optima.Proofs.Number.Exact

/-!
Quantities that stand for integers. Integers stand for themselves, whatever their size. A number of
a problem stands for the integer that is its value, and then computing with it is exact as long as
nothing leaves the integers that doubles represent (`Number.faithful`). An algorithm that is proved
right for faithful quantities is right for integers of any size, and for whole numbers in any
writing as long as they are small enough.
-/

namespace Optima

/-- Computing with quantities is computing with the integers that they denote, where these are
within a range. -/
structure Quantity.Faithful {α : Type} [Quantity α] (denotes : α → Int → Prop)
    (within : Int → Prop) : Prop where
  nought : denotes Quantity.nought 0
  add {a b : α} {i j : Int} : denotes a i → denotes b j → within i → within j → within (i + j) →
    ∃ c, Quantity.add a b = .ok c ∧ denotes c (i + j)
  sub {a b : α} {i j : Int} : denotes a i → denotes b j → within i → within j → within (i - j) →
    ∃ c, Quantity.sub a b = .ok c ∧ denotes c (i - j)
  less {a b : α} {i j : Int} : denotes a i → denotes b j → Quantity.less a b = decide (i < j)
  bounded {a : α} {i : Int} : denotes a i → Quantity.bounded a = true
  lowered {a : α} {i : Int} : denotes a i → within i → Quantity.lowered a = .ok none

/-- Integers denote themselves. -/
theorem Quantity.faithful_int : Quantity.Faithful (fun i j : Int => i = j) fun _ => True where
  nought := rfl
  add := by
    rintro i j _ _ rfl rfl _ _ _
    exact ⟨i + j, rfl, rfl⟩
  sub := by
    rintro i j _ _ rfl rfl _ _ _
    exact ⟨i - j, rfl, rfl⟩
  less := by
    rintro i j _ _ rfl rfl
    rfl
  bounded _ := rfl
  lowered _ _ := rfl

namespace Number

open Binary64 (unit exactBound)

/-- A number has the value of an integer, whichever way it is written. -/
def Denotes (a : Number) (i : Int) : Prop := a.units? = some (i * unit)

instance (a : Number) (i : Int) : Decidable (Denotes a i) :=
  inferInstanceAs (Decidable (a.units? = some (i * unit)))

/-- Integers up to which all integers are doubles. -/
def Small (i : Int) : Prop := i.natAbs ≤ exactBound

theorem denotes_int (i : Int) : Denotes (.int i) i := rfl

theorem denotes_zero : Denotes (.int 0) 0 := rfl

/-- A number stands for one integer only. -/
theorem Denotes.unique {a : Number} {i j : Int} (one : Denotes a i) (two : Denotes a j) :
    i = j := by
  have unit_pos : (0 : Int) < unit := by exact_mod_cast Binary64.unit_pos
  rw [Denotes] at one two
  rw [one, Option.some.injEq] at two
  exact Int.eq_of_mul_eq_mul_right unit_pos.ne' two

theorem Denotes.int_eq {i j : Int} (value : Denotes (.int i) j) : i = j :=
  (denotes_int i).unique value

/-- A number that stands for a small integer is turned into a double without loss. -/
theorem Denotes.toReal {a : Number} {i : Int} (value : Denotes a i) (small : Small i) :
    ∃ x, a.toReal = .ok x ∧ x.units? = some (i * unit) := by
  cases a with
  | int k =>
    obtain rfl := value.int_eq
    obtain ⟨x, converted, units⟩ := Binary64.exists_ofInt? small
    exact ⟨x, by rw [Number.toReal, converted], units⟩
  | real x => exact ⟨x, rfl, value⟩

/-- An operation of doubles that is exact wherever the result is on the grid. -/
theorem combine_exact {exact : Int → Int → Int} {rounded : Binary64 → Binary64 → Binary64}
    {a b : Number} {i j : Int} (first : Denotes a i) (second : Denotes b j) (small_i : Small i)
    (small_j : Small j) (doubles : ∀ x y : Binary64, x.units? = some (i * unit) →
      y.units? = some (j * unit) → (rounded x y).units? = some (exact i j * unit)) :
    ∃ c, combine exact rounded a b = .ok c ∧ Denotes c (exact i j) := by
  obtain ⟨x, convert_a, units_x⟩ := first.toReal small_i
  obtain ⟨y, convert_b, units_y⟩ := second.toReal small_j
  cases a with
  | int k =>
    cases b with
    | int l =>
      obtain rfl := first.int_eq
      obtain rfl := second.int_eq
      exact ⟨_, rfl, rfl⟩
    | real z =>
      refine ⟨.real (rounded x y), ?_, doubles x y units_x units_y⟩
      simp only [combine, convert_a, convert_b]
      rfl
  | real w =>
    refine ⟨.real (rounded x y), ?_, doubles x y units_x units_y⟩
    cases b <;> simp only [combine, convert_a, convert_b] <;> rfl

theorem add_exact {a b : Number} {i j : Int} (first : Denotes a i) (second : Denotes b j)
    (small_i : Small i) (small_j : Small j) (small : Small (i + j)) :
    ∃ c, Number.add a b = .ok c ∧ Denotes c (i + j) := by
  refine combine_exact first second small_i small_j fun x y units_x units_y => ?_
  obtain ⟨grid, bounded⟩ := Binary64.natAbs_mul_unit small
  rw [add_mul] at grid bounded ⊢
  exact Binary64.units?_add units_x units_y grid bounded

theorem sub_exact {a b : Number} {i j : Int} (first : Denotes a i) (second : Denotes b j)
    (small_i : Small i) (small_j : Small j) (small : Small (i - j)) :
    ∃ c, Number.sub a b = .ok c ∧ Denotes c (i - j) := by
  refine combine_exact first second small_i small_j fun x y units_x units_y => ?_
  obtain ⟨grid, bounded⟩ := Binary64.natAbs_mul_unit small
  rw [sub_mul, sub_eq_add_neg] at grid bounded ⊢
  exact Binary64.units?_add units_x (Binary64.units?_neg units_y) grid bounded

/-- Comparing numbers that stand for integers is comparing the integers. -/
theorem less_exact {a b : Number} {i j : Int} (first : Denotes a i) (second : Denotes b j) :
    a.less b = decide (i < j) := by
  have unit_pos : (0 : Int) < unit := by exact_mod_cast Binary64.unit_pos
  have scaled : i * (unit : Int) < j * unit ↔ i < j := mul_lt_mul_iff_left₀ unit_pos
  cases a with
  | int k =>
    obtain rfl := first.int_eq
    cases b with
    | int l =>
      obtain rfl := second.int_eq
      rfl
    | real y => exact less_real second
  | real x =>
    cases b with
    | int l =>
      obtain rfl := second.int_eq
      rw [units_less first]
      exact decide_eq_decide.mpr scaled
    | real y =>
      rw [show (Number.real x).less (.real y) = x.less y from rfl,
        Binary64.less_eq_units first second]
      exact decide_eq_decide.mpr scaled

/-- Numbers that stand for integers are the same if the integers are. -/
theorem same_exact {a b : Number} {i j : Int} (first : Denotes a i) (second : Denotes b j) :
    a.same b = decide (i = j) := by
  have unit_pos : (0 : Int) < unit := by exact_mod_cast Binary64.unit_pos
  have scaled : i * (unit : Int) = j * unit ↔ i = j := Int.mul_eq_mul_right_iff unit_pos.ne'
  rw [Denotes] at first second
  have units : a.same b = decide (i * (unit : Int) = j * unit) := by
    cases a with
    | int k => simp only [same, first, second]
    | real x =>
      cases b with
      | int l => simp only [same, first, second]
      | real y =>
        change x.units? = _ at first
        change y.units? = _ at second
        cases x with
        | nan => cases first
        | infinite => cases first
        | finite =>
          cases y with
          | nan => cases second
          | infinite => cases second
          | finite =>
            rw [Bool.eq_iff_iff]
            simp only [same, Binary64.same, first, second, beq_iff_eq, Option.some.injEq,
              decide_eq_true_eq]
  rw [units]
  exact decide_eq_decide.mpr scaled

theorem atMost_exact {a b : Number} {i j : Int} (first : Denotes a i) (second : Denotes b j) :
    a.atMost b = decide (i ≤ j) := by
  rw [atMost, less_exact first second, same_exact first second, Bool.eq_iff_iff]
  simp [le_iff_lt_or_eq]

/-- A multiple of zero stands for zero. -/
theorem denotes_zero_mul {k : Int} {product : Number}
    (value : Number.mul (.real Binary64.zero) (.int k) = .ok product) : Denotes product 0 := by
  simp only [Number.mul, combine, Number.toReal] at value
  cases converted : Binary64.ofInt? k with
  | none =>
    rw [converted] at value
    cases value
  | some x =>
    rw [converted] at value
    cases value
    obtain ⟨u, units⟩ := Binary64.units?_of_ofInt? converted
    rw [Denotes, zero_mul]
    exact Binary64.units?_zero_mul units

/-- What stands for an integer is whole. -/
theorem isInteger_of_denotes {a : Number} {i : Int} (value : Denotes a i) : a.isInteger = true := by
  cases a with
  | int k => rfl
  | real x =>
    cases x with
    | nan => cases value
    | infinite => cases value
    | finite negative magnitude _ _ =>
      have divides : unit ∣ magnitude := by
        rw [Denotes, units?, Binary64.units?, Option.some.injEq] at value
        rw [← Int.natCast_dvd_natCast]
        cases negative with
        | false => exact ⟨i, by simpa [mul_comm] using value⟩
        | true =>
          rw [if_pos rfl] at value
          exact ⟨-i, by rw [mul_neg, mul_comm, ← value, neg_neg]⟩
      exact decide_eq_true (p := magnitude % unit = 0) (Nat.mod_eq_zero_of_dvd divides)

/-- What is whole stands for an integer. -/
theorem exists_denotes {a : Number} (whole : a.isInteger = true) : ∃ i, a.Denotes i := by
  cases a with
  | int k => exact ⟨k, denotes_int k⟩
  | real x =>
    cases x with
    | nan => cases whole
    | infinite => cases whole
    | finite negative magnitude grid bounded =>
      have rest : magnitude % unit = 0 := of_decide_eq_true whole
      obtain ⟨k, rfl⟩ := Nat.dvd_of_mod_eq_zero rest
      cases negative with
      | false => exact ⟨k, by simp [Denotes, units?, Binary64.units?, mul_comm]⟩
      | true => exact ⟨-k, by simp [Denotes, units?, Binary64.units?, mul_comm]⟩

/-- The integer part of what stands for an integer is the integer. -/
theorem truncate_exact {a : Number} {i : Int} (value : Denotes a i) : a.truncate = .ok i := by
  have unit_pos : (0 : Int) < unit := by exact_mod_cast Binary64.unit_pos
  cases a with
  | int k => rw [value.int_eq, truncate]
  | real x =>
    have whole : x.truncate? = some i := by
      rw [Binary64.truncate?, show x.units? = some (i * unit) from value, Option.map_some,
        Int.mul_tdiv_cancel _ unit_pos.ne']
    unfold truncate
    simp only [whole]

/-- What has a value is below infinity. -/
theorem bounded_of_denotes {a : Number} {i : Int} (value : Denotes a i) :
    a.less (.real Binary64.infinity) = true := by
  cases a with
  | int k => rfl
  | real x =>
    cases x with
    | nan => cases value
    | infinite negative => cases value
    | finite => rfl

/-- Infinity is not lowered by a small integer. -/
theorem lowered_of_denotes {a : Number} {i : Int} (value : Denotes a i) (small : Small i) :
    Quantity.lowered a = .ok none := by
  obtain ⟨x, converted, units⟩ := value.toReal small
  have stays : Binary64.infinity - x = Binary64.infinity := by
    cases x with
    | nan => cases units
    | infinite negative => cases units
    | finite => rfl
  have difference : Number.sub (.real Binary64.infinity) a = .ok (.real Binary64.infinity) := by
    cases a <;> simp only [Number.sub, combine, converted] <;> exact congrArg _ (congrArg _ stays)
  change ((Number.sub (.real Binary64.infinity) a).bind fun left =>
    .ok (if left.same (.real Binary64.infinity) then none else some left)) = _
  rw [difference]
  rfl

/-- Numbers that stand for small integers. -/
theorem faithful : Quantity.Faithful Denotes Small where
  nought := denotes_zero
  add := add_exact
  sub := sub_exact
  less := less_exact
  bounded := bounded_of_denotes
  lowered := lowered_of_denotes

end Number

end Optima
