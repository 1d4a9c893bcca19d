import Mathlib.Algebra.BigOperators.Fin
import Mathlib.Algebra.BigOperators.Ring.Finset
import Mathlib.Algebra.Order.BigOperators.Group.Finset
import Mathlib.Tactic.Linarith
import Mathlib.Tactic.Ring

/-!
What amounts on links bring about at the nodes. Links are given by their two ends, and carry any
integers. Node potentials turn sums over nodes into sums over links (`sum_mul_outflow`); a set of
nodes is the case of a potential of one inside and zero outside (`sum_outflow_mem`), and then only
the links that cross the border of the set are left. Between amounts that send on the same,
potentials do not change the difference in cost, so they can show which are the cheapest
(`sum_mul_le_sum_mul`).
-/

namespace Optima.Flow

section Balance

variable {ι ν : Type} [Fintype ι] [DecidableEq ν] (tail head : ι → ν)

/-- What leaves a node, less what enters it. -/
def outflow (f : ι → Int) (v : ν) : Int :=
  ∑ k, ((if tail k = v then f k else 0) - (if head k = v then f k else 0))

theorem outflow_zero (v : ν) : outflow tail head (fun _ => 0) v = 0 := by
  simp [outflow]

theorem outflow_add (f g : ι → Int) (v : ν) :
    outflow tail head (fun k => f k + g k) v = outflow tail head f v + outflow tail head g v := by
  unfold outflow
  rw [← Finset.sum_add_distrib]
  apply Finset.sum_congr rfl
  intro k _
  split <;> split <;> ring

theorem outflow_mul (c : Int) (f : ι → Int) (v : ν) :
    outflow tail head (fun k => c * f k) v = c * outflow tail head f v := by
  unfold outflow
  rw [Finset.mul_sum]
  apply Finset.sum_congr rfl
  intro k _
  split <;> split <;> ring

theorem outflow_sub (f g : ι → Int) (v : ν) :
    outflow tail head (fun k => f k - g k) v = outflow tail head f v - outflow tail head g v := by
  have joined := outflow_add tail head (fun k => f k - g k) g v
  simp only [sub_add_cancel] at joined
  exact eq_sub_of_add_eq joined.symm

/-- One unit on one link leaves its tail and enters its head. -/
theorem outflow_single [DecidableEq ι] (k : ι) (x : Int) (v : ν) :
    outflow tail head (fun j => if j = k then x else 0) v =
      (if tail k = v then x else 0) - (if head k = v then x else 0) := by
  unfold outflow
  rw [Finset.sum_eq_single k]
  · simp
  · intro j _ other
    simp [other]
  · intro absent
    exact absurd (Finset.mem_univ k) absent

/-- Nodes weighted by potentials, and links by the drop of potential along them. -/
theorem sum_mul_outflow [Fintype ν] (p : ν → Int) (f : ι → Int) :
    ∑ v, p v * outflow tail head f v = ∑ k, f k * (p (tail k) - p (head k)) := by
  unfold outflow
  simp only [Finset.mul_sum]
  rw [Finset.sum_comm]
  apply Finset.sum_congr rfl
  intro k _
  simp only [mul_sub, mul_ite, mul_zero, Finset.sum_sub_distrib, Finset.sum_ite_eq,
    Finset.mem_univ, if_true]
  ring

/-- Amounts that send on the same at the nodes differ in cost as they differ in reduced cost. -/
theorem sum_mul_sub_sum_mul [Fintype ν] (p : ν → Int) (c : ι → Int) {f g : ι → Int}
    (same : ∀ v, outflow tail head f v = outflow tail head g v) :
    ∑ k, f k * c k - ∑ k, g k * c k = ∑ k, (f k - g k) * (c k + p (tail k) - p (head k)) := by
  have balanced : ∑ k, (f k - g k) * (p (tail k) - p (head k)) = 0 := by
    rw [← sum_mul_outflow tail head p fun k => f k - g k]
    refine Finset.sum_eq_zero fun v _ => ?_
    rw [outflow_sub, same, sub_self, mul_zero]
  calc ∑ k, f k * c k - ∑ k, g k * c k
      = ∑ k, (f k - g k) * c k + ∑ k, (f k - g k) * (p (tail k) - p (head k)) := by
        rw [balanced, add_zero, ← Finset.sum_sub_distrib]
        exact Finset.sum_congr rfl fun k _ => (sub_mul _ _ _).symm
    _ = ∑ k, (f k - g k) * (c k + p (tail k) - p (head k)) := by
        rw [← Finset.sum_add_distrib]
        exact Finset.sum_congr rfl fun k _ => by ring

/-- Amounts are cheapest among those that send on the same if the others are greater only on links
with no negative reduced cost, and less only on links with no positive one. -/
theorem sum_mul_le_sum_mul [Fintype ν] (p : ν → Int) (c : ι → Int) {f g : ι → Int}
    (same : ∀ v, outflow tail head g v = outflow tail head f v)
    (more : ∀ k, f k < g k → 0 ≤ c k + p (tail k) - p (head k))
    (less : ∀ k, g k < f k → c k + p (tail k) - p (head k) ≤ 0) :
    ∑ k, f k * c k ≤ ∑ k, g k * c k := by
  have differ := sum_mul_sub_sum_mul tail head p c same
  have nonneg : 0 ≤ ∑ k, (g k - f k) * (c k + p (tail k) - p (head k)) := by
    apply Finset.sum_nonneg
    intro k _
    rcases lt_trichotomy (g k) (f k) with below | equal | above
    · exact mul_nonneg_of_nonpos_of_nonpos (by omega) (less k below)
    · rw [equal, sub_self, zero_mul]
    · exact mul_nonneg (by omega) (more k above)
  omega

/-- Over a set of nodes only the links count that cross its border. -/
theorem sum_outflow_mem [Fintype ν] (inside : ν → Prop) [DecidablePred inside] (f : ι → Int) :
    ∑ v, (if inside v then outflow tail head f v else 0) =
      ∑ k, f k * ((if inside (tail k) then 1 else 0) - (if inside (head k) then 1 else 0)) := by
  rw [← sum_mul_outflow tail head (fun v => if inside v then 1 else 0) f]
  apply Finset.sum_congr rfl
  intro v _
  split <;> simp

/-- All nodes together neither win nor lose. -/
theorem sum_outflow [Fintype ν] (f : ι → Int) : ∑ v, outflow tail head f v = 0 := by
  have balanced := sum_mul_outflow tail head (fun _ => 1) f
  simpa using balanced

end Balance

section Crossing

variable {ι ν : Type} [Fintype ι] (tail head : ι → ν)

/-- What the links that leave a set of nodes carry. -/
def leavingSum (inside : ν → Prop) [DecidablePred inside] (f : ι → Int) : Int :=
  ∑ k, if inside (tail k) ∧ ¬ inside (head k) then f k else 0

/-- What the links that enter a set of nodes carry. -/
def enteringSum (inside : ν → Prop) [DecidablePred inside] (f : ι → Int) : Int :=
  ∑ k, if ¬ inside (tail k) ∧ inside (head k) then f k else 0

variable (inside : ν → Prop) [DecidablePred inside] {f g : ι → Int}

/-- What leaves a set of nodes on balance crosses its border. -/
theorem sum_outflow_eq [Fintype ν] [DecidableEq ν] (f : ι → Int) :
    ∑ v, (if inside v then outflow tail head f v else 0) =
      leavingSum tail head inside f - enteringSum tail head inside f := by
  rw [sum_outflow_mem, leavingSum, enteringSum, ← Finset.sum_sub_distrib]
  apply Finset.sum_congr rfl
  intro k _
  by_cases out : inside (tail k) <;> by_cases in_ : inside (head k) <;> simp [out, in_]

theorem leavingSum_le (le : ∀ k, inside (tail k) → ¬ inside (head k) → f k ≤ g k) :
    leavingSum tail head inside f ≤ leavingSum tail head inside g := by
  apply Finset.sum_le_sum
  intro k _
  split
  · next leaves => exact le k leaves.1 leaves.2
  · exact le_rfl

theorem leavingSum_congr (same : ∀ k, inside (tail k) → ¬ inside (head k) → f k = g k) :
    leavingSum tail head inside f = leavingSum tail head inside g :=
  le_antisymm (leavingSum_le tail head inside fun k out in_ => (same k out in_).le)
    (leavingSum_le tail head inside fun k out in_ => (same k out in_).ge)

theorem leavingSum_le_sum (nonneg : ∀ k, 0 ≤ g k)
    (le : ∀ k, inside (tail k) → ¬ inside (head k) → f k ≤ g k) :
    leavingSum tail head inside f ≤ ∑ k, g k := by
  apply Finset.sum_le_sum
  intro k _
  split
  · next leaves => exact le k leaves.1 leaves.2
  · exact nonneg k

theorem le_leavingSum (nonneg : ∀ k, 0 ≤ f k) {k : ι} (out : inside (tail k))
    (in_ : ¬ inside (head k)) : f k ≤ leavingSum tail head inside f := by
  have term : f k = if inside (tail k) ∧ ¬ inside (head k) then f k else 0 :=
    (if_pos ⟨out, in_⟩).symm
  rw [term]
  refine Finset.single_le_sum (f := fun k => if inside (tail k) ∧ ¬ inside (head k) then f k else 0)
    (fun j _ => ?_) (Finset.mem_univ k)
  split
  · exact nonneg j
  · exact le_rfl

theorem enteringSum_nonneg (nonneg : ∀ k, 0 ≤ f k) : 0 ≤ enteringSum tail head inside f := by
  apply Finset.sum_nonneg
  intro k _
  split
  · exact nonneg k
  · exact le_rfl

theorem enteringSum_eq_zero (zero : ∀ k, ¬ inside (tail k) → inside (head k) → f k = 0) :
    enteringSum tail head inside f = 0 := by
  apply Finset.sum_eq_zero
  intro k _
  split
  · next enters => exact zero k enters.1 enters.2
  · rfl

/-- What enters a set leaves the other nodes. -/
theorem enteringSum_eq_leavingSum :
    enteringSum tail head inside f = leavingSum tail head (fun v => ¬ inside v) f := by
  apply Finset.sum_congr rfl
  intro k _
  simp only [not_not]

theorem le_enteringSum (nonneg : ∀ k, 0 ≤ f k) {k : ι} (out : ¬ inside (tail k))
    (in_ : inside (head k)) : f k ≤ enteringSum tail head inside f := by
  rw [enteringSum_eq_leavingSum]
  exact le_leavingSum tail head _ nonneg out (not_not.mpr in_)

end Crossing

end Optima.Flow
