import Mathlib.Algebra.Order.BigOperators.Group.List
import Optima.Proofs.Knapsack.Optimum
import Optima.Proofs.Run
import Optima.Proofs.Table

/-!
The table of the knapsack and the optimum. Filling the table row by row gives for every capacity the
optimum of the items so far and leaves their decisions behind (`fill_filled`), without any cell
wrapping around as long as the values of all items fit into one (`wrap_of_small`). Reading the
decisions back gives the items that are chosen (`select_of_records`).

Rows follow the items from the first to the last, and the optimum is by recursion from the last item
on, so that the items of a row stand here in reverse.
-/

namespace Optima.Knapsack

variable {weight value : Nat → Int} {n : Nat}

/-- A value from zero on that fits into a cell stays what it is. -/
theorem wrap_of_small {v : Int} (nonneg : 0 ≤ v) (small : v < halfRange) : wrap v = v :=
  if_pos ⟨by omega, small⟩

/-- The item of an index. -/
def itemAt (weight value : Nat → Int) (i : Nat) : Item := ⟨i, weight i, value i⟩

/-- The decisions of the stages are those of the optimum. -/
inductive Records (weight value : Nat → Int) : List Nat → List (Stage n) → Prop
  | nil : Records weight value [] []
  | cons {i : Nat} {rest : List Nat} {stages : List (Stage n)} {take : Table n Bool}
      (decides : ∀ c, take.get c = decide (Pays weight value i rest c.val))
      (later : Records weight value rest stages) :
      Records weight value (i :: rest) (⟨itemAt weight value i, take⟩ :: stages)

/-- The row and the stages that items leave. -/
structure Filled (weight value : Nat → Int) (items : List Nat) (row : Table n Int)
    (stages : List (Stage n)) : Prop where
  row : ∀ c, row.get c = optimum weight value items c.val
  stages : Records weight value items stages

/-- What items can be put into a table: none weighs or is worth less than nothing, and all together
are worth no more than a cell holds. -/
structure Admissible (weight value : Nat → Int) (items : List Nat) : Prop where
  weights : ∀ i, 0 ≤ weight i
  values : ∀ i ∈ items, 0 ≤ value i
  small : total (items.map value) < halfRange

section Row

variable {i : Nat} {items rest : List Nat} {row : Table n Int} {stages : List (Stage n)}

theorem Admissible.sublist (admissible : Admissible weight value items)
    (part : rest.Sublist items) : Admissible weight value rest := by
  refine ⟨admissible.weights, fun i mem => admissible.values i (part.subset mem), ?_⟩
  have le : (rest.map value).sum ≤ (items.map value).sum := by
    apply List.Sublist.sum_le_sum (part.map value)
    intro v mem
    obtain ⟨i, inside, rfl⟩ := List.mem_map.mp mem
    exact admissible.values i inside
  rw [← total_eq_sum, ← total_eq_sum] at le
  exact le.trans_lt admissible.small

/-- No cell of the row is wrapped. -/
theorem Admissible.wrap_optimum (admissible : Admissible weight value items) (c : Int) :
    wrap (optimum weight value items c) = optimum weight value items c :=
  wrap_of_small (optimum_nonneg items c)
    ((optimum_le_total admissible.values c).trans_lt admissible.small)

/-- No sum that an item is taken for is wrapped. -/
theorem Admissible.wrap_sum (admissible : Admissible weight value (i :: rest)) (c : Int) :
    wrap (optimum weight value rest c + value i) = optimum weight value rest c + value i := by
  have first := admissible.values i List.mem_cons_self
  have nonneg : 0 ≤ optimum weight value rest c := optimum_nonneg rest c
  have others := admissible.sublist (List.sublist_cons_self i rest)
  have le : optimum weight value rest c ≤ _ := optimum_le_total others.values c
  have small := admissible.small
  rw [List.map_cons, total_cons] at small
  exact wrap_of_small (by omega) (by omega)

/-- Nothing keeps an item out of the table. -/
theorem Admissible.no_obstacle (admissible : Admissible weight value (i :: rest)) (width : Nat) :
    (itemAt weight value i).obstacle? width = none := by
  have exact_value : wrap (value i) = value i := by
    have alone := admissible.sublist (List.singleton_sublist.mpr List.mem_cons_self)
    have small := alone.small
    rw [List.map_singleton, total_cons, total_nil, add_zero] at small
    exact wrap_of_small (alone.values i (List.mem_singleton_self i)) small
  have fits : misfit? width (itemAt weight value i) = none :=
    if_neg fun light => absurd light.1 (not_lt.mpr (admissible.weights i))
  by_cases worthless : value i = 0
  · exact if_pos worthless
  · change (if value i = 0 then none else if wrap (value i) ≠ value i then some tooValuable
      else misfit? width (itemAt weight value i)) = none
    rw [if_neg worthless, if_neg (not_not.mpr exact_value), fits]

/-- Taking an item leads to more exactly where it pays. -/
theorem gain?_eq (admissible : Admissible weight value (i :: rest))
    (filled : ∀ c, row.get c = optimum weight value rest c.val) (c : Fin n) :
    gain? row (itemAt weight value i) c = if Pays weight value i rest c.val then
      some (optimum weight value rest (c.val - weight i) + value i) else none := by
  have nonneg := admissible.weights i
  by_cases worthless : value i = 0
  · rw [gain?, if_neg fun both => both.1 worthless, if_neg (not_pays_of_worthless nonneg worthless)]
  by_cases fits : weight i ≤ c.val
  · have shifted : (itemAt weight value i).shift ≤ c.val := by
      show (weight i).toNat ≤ c.val
      omega
    have position : ((c.val - (itemAt weight value i).shift : Nat) : Int) = c.val - weight i := by
      rw [Nat.cast_sub shifted]
      show (c.val : Int) - ((weight i).toNat : Int) = _
      rw [Int.toNat_of_nonneg nonneg]
    rw [gain?, if_pos ⟨worthless, shifted⟩]
    simp only [filled, position]
    rw [show (itemAt weight value i).value = value i from rfl, admissible.wrap_sum]
    simp only [Pays, fits, true_and]
  · have heavy : ¬ (itemAt weight value i).shift ≤ c.val := by
      show ¬ (weight i).toNat ≤ c.val
      omega
    rw [gain?, if_neg fun both => heavy both.2, if_neg fun pays => fits pays.1]

/-- A row and the decisions of one more item. -/
theorem Filled.cons (filled : Filled weight value rest row stages)
    (admissible : Admissible weight value (i :: rest)) :
    Filled weight value (i :: rest) (next row (Table.tabulate (gain? row (itemAt weight value i))))
      (⟨itemAt weight value i,
        Table.tabulate fun c => ((Table.tabulate (gain? row (itemAt weight value i))).get c).isSome⟩
        :: stages) := by
  constructor
  · intro c
    rw [next, Table.get_tabulate, Table.get_tabulate, gain?_eq admissible filled.row]
    split
    · next pays => rw [Option.getD_some, optimum_of_pays pays]
    · next leave => rw [Option.getD_none, optimum_of_not_pays leave, filled.row]
  · refine .cons (fun c => ?_) filled.stages
    rw [Table.get_tabulate, Table.get_tabulate, gain?_eq admissible filled.row]
    split
    · next pays => simp [pays]
    · next leave => simp [leave]

end Row

/-- The items by index and weight, from the first to the last. -/
def entries (weight : Nat → Int) (items : List Nat) : List (Nat × Int) :=
  items.reverse.map fun i => (i, weight i)

theorem entries_cons (i : Nat) (rest : List Nat) :
    entries weight (i :: rest) = entries weight rest ++ [(i, weight i)] := by
  simp [entries]

/-- Filling the table leaves the optimum of the items and their decisions. -/
theorem fill_filled {values : List Int} {items : List Nat}
    (known : ∀ i ∈ items, values[i]? = some (value i))
    (admissible : Admissible weight value items) : ∃ row stages,
      (fill (n := n) values (entries weight items)).outcome = .ok (row, stages) ∧
        Filled weight value items row stages := by
  induction items with
  | nil => exact ⟨Table.fill n 0, [], rfl, fun c => Table.get_fill 0 c, .nil⟩
  | cons i rest ih =>
    obtain ⟨row, stages, ok, filled⟩ :=
      ih (fun j mem => known j (List.mem_cons_of_mem i mem))
        (admissible.sublist (List.sublist_cons_self i rest))
    refine ⟨_, _, ?_, filled.cons admissible⟩
    have first := known i List.mem_cons_self
    have free := admissible.no_obstacle n
    rw [fill, entries_cons, List.foldlM_append]
    change (fill values (entries weight rest) >>= _).outcome = _
    rw [Run.outcome_bind_of_ok ok]
    simp only [List.foldlM_cons, List.foldlM_nil, bind_pure]
    rw [Run.outcome_bind_of_ok Run.outcome_check]
    rw [itemAt] at free
    simp only [first, free]
    rfl

/-- Reading the decisions back gives the items that are chosen. -/
theorem select_of_records {items : List Nat} {stages : List (Stage n)}
    (weights : ∀ i, 0 ≤ weight i) (records : Records weight value items stages) {c : Int}
    (nonneg : 0 ≤ c) (inside : c.toNat < n) :
    select stages c = .ok ((chosen weight value items c).map (itemAt weight value)) := by
  induction records generalizing c with
  | nil => rfl
  | @cons i rest stages take decides later ih =>
    have position : ((c.toNat : Nat) : Int) = c := Int.toNat_of_nonneg nonneg
    have decided := decides ⟨c.toNat, inside⟩
    rw [select, dif_pos ⟨nonneg, inside⟩, decided, chosen]
    simp only [position, decide_eq_true_eq]
    by_cases pays : Pays weight value i rest c
    · have lighter := weights i
      have fits := pays.1
      rw [if_pos pays, if_pos pays, List.map_cons]
      change (itemAt weight value i :: ·) <$> select stages (c - weight i) = _
      rw [ih (by omega) (by omega)]
      rfl
    · rw [if_neg pays, if_neg pays]
      exact ih nonneg inside

end Optima.Knapsack
