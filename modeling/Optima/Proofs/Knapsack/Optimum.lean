import Mathlib.Algebra.BigOperators.Group.Finset.Basic
import Mathlib.Algebra.Order.BigOperators.Group.Finset
import Mathlib.Combinatorics.Colex
import Optima.Knapsack

/-!
The greatest value that fits into a capacity, by recursion over the items from the last to the
first, and the items that reach it when each is taken only if it leads to more than leaving it
(`chosen`). No set of items that fits is worth more than the optimum (`worth_le_optimum`), and of
those worth as much `chosen` is the least where sets are compared at the last item in which they
differ (`chosen_colex_le`).

Items are indices, with weights and values as functions of the index.
-/

namespace Optima.Knapsack

variable {weight value : Nat → Int}

/-- The greatest value within a capacity. -/
def optimum (weight value : Nat → Int) : List Nat → Int → Int
  | [], _ => 0
  | i :: rest, c =>
      if weight i ≤ c then
        max (optimum weight value rest c) (optimum weight value rest (c - weight i) + value i)
      else optimum weight value rest c

/-- Taking an item leads to more than leaving it. -/
def Pays (weight value : Nat → Int) (i : Nat) (rest : List Nat) (c : Int) : Prop :=
  weight i ≤ c ∧ optimum weight value rest c < optimum weight value rest (c - weight i) + value i

instance (i : Nat) (rest : List Nat) (c : Int) : Decidable (Pays weight value i rest c) := by
  unfold Pays
  infer_instance

/-- The items that are taken. -/
def chosen (weight value : Nat → Int) : List Nat → Int → List Nat
  | [], _ => []
  | i :: rest, c =>
      if Pays weight value i rest c then i :: chosen weight value rest (c - weight i)
      else chosen weight value rest c

theorem optimum_of_pays {i : Nat} {rest : List Nat} {c : Int} (pays : Pays weight value i rest c) :
    optimum weight value (i :: rest) c =
      optimum weight value rest (c - weight i) + value i := by
  rw [optimum, if_pos pays.1, max_eq_right pays.2.le]

theorem optimum_of_not_pays {i : Nat} {rest : List Nat} {c : Int}
    (leave : ¬ Pays weight value i rest c) :
    optimum weight value (i :: rest) c = optimum weight value rest c := by
  by_cases fits : weight i ≤ c
  · have le := not_lt.mp fun less => leave ⟨fits, less⟩
    rw [optimum, if_pos fits, max_eq_left le]
  · rw [optimum, if_neg fits]

/-! ### The optimum as a function of the capacity -/

/-- More capacity is worth no less. -/
theorem optimum_mono (items : List Nat) {c c' : Int} (le : c ≤ c') :
    optimum weight value items c ≤ optimum weight value items c' := by
  induction items generalizing c c' with
  | nil => exact le_rfl
  | cons i rest ih =>
    rw [optimum, optimum]
    by_cases fits : weight i ≤ c
    · rw [if_pos fits, if_pos (fits.trans le)]
      exact max_le_max (ih le) (by gcongr; exact ih (sub_le_sub_right le _))
    · rw [if_neg fits]
      split
      · exact (ih le).trans (le_max_left _ _)
      · exact ih le

/-- An item without value is left. -/
theorem not_pays_of_worthless {i : Nat} {rest : List Nat} {c : Int} (nonneg : 0 ≤ weight i)
    (worthless : value i = 0) : ¬ Pays weight value i rest c := by
  rintro ⟨_, less⟩
  rw [worthless, add_zero] at less
  exact absurd (optimum_mono rest (sub_le_self c nonneg)) (not_le.mpr less)

theorem optimum_nonneg (items : List Nat) (c : Int) : 0 ≤ optimum weight value items c := by
  induction items generalizing c with
  | nil => exact le_rfl
  | cons i rest ih =>
    rw [optimum]
    split
    · exact (ih c).trans (le_max_left _ _)
    · exact ih c

/-- Nothing is worth more than all items together. -/
theorem optimum_le_total {items : List Nat} (values : ∀ i ∈ items, 0 ≤ value i) (c : Int) :
    optimum weight value items c ≤ total (items.map value) := by
  induction items generalizing c with
  | nil => exact le_rfl
  | cons i rest ih =>
    have ih := ih fun j mem => values j (List.mem_cons_of_mem i mem)
    have nonneg := values i List.mem_cons_self
    have skip := ih c
    have take := ih (c - weight i)
    rw [optimum, List.map_cons, total_cons]
    split
    · exact max_le (by omega) (by omega)
    · omega

/-! ### What is chosen -/

theorem chosen_sublist (items : List Nat) (c : Int) :
    (chosen weight value items c).Sublist items := by
  induction items generalizing c with
  | nil => exact List.Sublist.refl []
  | cons i rest ih =>
    rw [chosen]
    split
    · exact (ih _).cons_cons i
    · exact (ih c).cons i

/-- What is chosen fits. -/
theorem weight_chosen_le (items : List Nat) {c : Int} (nonneg : 0 ≤ c) :
    total ((chosen weight value items c).map weight) ≤ c := by
  induction items generalizing c with
  | nil => exact nonneg
  | cons i rest ih =>
    rw [chosen]
    split
    · next pays =>
      have left := ih (sub_nonneg.mpr pays.1)
      rw [List.map_cons, total_cons]
      omega
    · exact ih nonneg

/-- What is chosen is worth the optimum. -/
theorem value_chosen (items : List Nat) (c : Int) :
    total ((chosen weight value items c).map value) = optimum weight value items c := by
  induction items generalizing c with
  | nil => rfl
  | cons i rest ih =>
    rw [chosen]
    split
    · next pays => rw [optimum_of_pays pays, List.map_cons, total_cons, ih, add_comm]
    · next leave => rw [optimum_of_not_pays leave, ih]

/-! ### All sets of items -/

section Sets

variable {i : Nat} {rest items : List Nat} {c : Int} {S : Finset Nat}

/-- A set of items of which one is taken, without that item. -/
theorem erase_subset_of_mem (inside : S ⊆ (i :: rest).toFinset) : S.erase i ⊆ rest.toFinset := by
  intro j mem
  have known := inside (Finset.mem_of_mem_erase mem)
  rw [List.toFinset_cons, Finset.mem_insert] at known
  exact known.resolve_left (Finset.ne_of_mem_erase mem)

theorem subset_of_notMem (inside : S ⊆ (i :: rest).toFinset) (without : i ∉ S) :
    S ⊆ rest.toFinset := by
  rw [← Finset.erase_eq_of_notMem without]
  exact erase_subset_of_mem inside

/-- The other items of a set that fits, where one is taken, fit into what that one leaves. -/
theorem fits_erase (weights : ∀ j, 0 ≤ weight j) (mem : i ∈ S) (fits : ∑ j ∈ S, weight j ≤ c) :
    weight i ≤ c ∧ ∑ j ∈ S.erase i, weight j ≤ c - weight i := by
  rw [← Finset.add_sum_erase S weight mem] at fits
  have others := Finset.sum_nonneg fun j (_ : j ∈ S.erase i) => weights j
  omega

/-- No set that fits is worth more than the optimum. -/
theorem worth_le_optimum (weights : ∀ j, 0 ≤ weight j) (inside : S ⊆ items.toFinset)
    (fits : ∑ j ∈ S, weight j ≤ c) : ∑ j ∈ S, value j ≤ optimum weight value items c := by
  induction items generalizing S c with
  | nil =>
    rw [List.toFinset_nil, Finset.subset_empty] at inside
    rw [inside, Finset.sum_empty]
    exact le_rfl
  | cons i rest ih =>
    by_cases mem : i ∈ S
    · obtain ⟨light, fits⟩ := fits_erase weights mem fits
      have others := ih (erase_subset_of_mem inside) fits
      rw [optimum, if_pos light, ← Finset.sum_erase_add S value mem]
      exact le_max_of_le_right (add_le_add_left others _)
    · have skip := ih (subset_of_notMem inside mem) fits
      rw [optimum]
      split
      · exact le_max_of_le_left skip
      · exact skip

/-- Of all sets that fit and are worth the optimum, what is chosen is the least: at the last item in
which it differs from another, only the other has the item. -/
theorem chosen_colex_le (weights : ∀ j, 0 ≤ weight j) (falling : items.Pairwise (· > ·))
    (inside : S ⊆ items.toFinset) (fits : ∑ j ∈ S, weight j ≤ c)
    (best : ∑ j ∈ S, value j = optimum weight value items c) :
    toColex (chosen weight value items c).toFinset ≤ toColex S := by
  induction items generalizing S c with
  | nil => exact bot_le
  | cons i rest ih =>
    obtain ⟨first, falling⟩ := List.pairwise_cons.mp falling
    have below : ∀ c', ∀ j ∈ (chosen weight value rest c').toFinset, j < i := by
      intro c' j mem
      exact first j ((chosen_sublist rest c').subset (List.mem_toFinset.mp mem))
    by_cases pays : Pays weight value i rest c
    · -- Without the item nothing reaches the optimum, so the other set has it too.
      have mem : i ∈ S := by
        by_contra without
        have less : ∑ j ∈ S, value j ≤ _ :=
          worth_le_optimum weights (subset_of_notMem inside without) fits
        rw [best, optimum_of_pays pays] at less
        exact absurd pays.2 (not_lt.mpr less)
      obtain ⟨_, fits⟩ := fits_erase weights mem fits
      have rest_best : ∑ j ∈ S.erase i, value j = optimum weight value rest (c - weight i) := by
        rw [optimum_of_pays pays, ← Finset.sum_erase_add S value mem] at best
        exact add_right_cancel best
      have le := ih falling (erase_subset_of_mem inside) fits rest_best
      have fresh : i ∉ (chosen weight value rest (c - weight i)).toFinset :=
        fun again => lt_irrefl i (below _ i again)
      rw [chosen, if_pos pays, List.toFinset_cons, ← Finset.Colex.toColex_sdiff_le_toColex_sdiff
        (Finset.singleton_subset_iff.mpr (Finset.mem_insert_self i _))
        (Finset.singleton_subset_iff.mpr mem), Finset.sdiff_singleton_eq_erase,
        Finset.sdiff_singleton_eq_erase, Finset.erase_insert fresh]
      exact le
    · rw [chosen, if_neg pays]
      by_cases mem : i ∈ S
      · have fresh : i ∉ (chosen weight value rest c).toFinset :=
          fun again => lt_irrefl i (below _ i again)
        rw [Finset.Colex.toColex_le_toColex]
        intro j taken _
        exact ⟨i, mem, fresh, (below _ j taken).le⟩
      · rw [optimum_of_not_pays pays] at best
        exact ih falling (subset_of_notMem inside mem) fits best

end Sets

end Optima.Knapsack
