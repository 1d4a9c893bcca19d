import Optima.Flow.LeastCost
import Optima.Proofs.Flow.Balance
import Optima.Proofs.Table

/-!
What it is to route a demand over links. A link without a capacity carries any amount here
(`Fits`); the ceiling that the solver gives it is no part of the problem. The ceiling exceeds all
finite capacities and all that is asked for together (`ceiling_eq`), and more than is asked for
never crosses the border of a set of nodes on balance (`Admitted.sum_balance_le`).
-/

namespace Optima.Flow.LeastCost

variable {n : Nat}

section Links

variable (links : List (Link n))

/-- Amounts on the links that keep to their capacities. -/
def Fits (f : Fin links.length → Int) : Prop :=
  ∀ k, 0 ≤ f k ∧ ∀ c ∈ (links.get k).capacity, f k ≤ c

/-- What leaves a node, less what enters it. -/
def netOut (f : Fin links.length → Int) (v : Fin n) : Int :=
  outflow (fun k => (links.get k).tail) (fun k => (links.get k).head) f v

/-- Amounts that fit and send on at each node what it supplies. -/
structure Routes (supply : Fin n → Int) (f : Fin links.length → Int) : Prop where
  fits : Fits links f
  balanced : ∀ v, netOut links f v = supply v

/-- What the amounts on the links cost. -/
def cost (f : Fin links.length → Int) : Int := ∑ k, f k * (links.get k).cost

/-- A value that goes from a source to a sink. -/
def transfer (source sink : Fin n) (value : Int) (v : Fin n) : Int :=
  (if v = source then value else 0) - (if v = sink then value else 0)

/-- Amounts that meet a demand, and the value of the flow that they are. -/
def Meets (demand : Demand n) (value : Int) (f : Fin links.length → Int) : Prop :=
  match demand with
  | .amount source sink asked => value = asked ∧ Routes links (transfer source sink value) f
  | .maximum source sink => Routes links (transfer source sink value) f ∧
      ∀ g w, Routes links (transfer source sink w) g → w ≤ value
  | .supplies supply => value = ∑ v, max (supply.get v) 0 ∧ Routes links supply.get f

/-- Finite capacities are not negative. -/
def Capacitated : Prop := ∀ link ∈ links, ∀ c ∈ link.capacity, 0 ≤ c

end Links

/-- The demands that make sense: from a source to another node, or with supplies that make up for
each other. -/
def Admitted : Demand n → Prop
  | .amount source sink value => source ≠ sink ∧ 0 ≤ value
  | .maximum source sink => source ≠ sink
  | .supplies supply => ∑ v, supply.get v = 0

variable {links : List (Link n)} {demand : Demand n}

/-! ### Sums over links -/

/-- What the links that lead out of a set of nodes carry. -/
def outOf (links : List (Link n)) (inside : Fin n → Prop) [DecidablePred inside]
    (f : Fin links.length → Int) : Int :=
  leavingSum (fun k => (links.get k).tail) (fun k => (links.get k).head) inside f

/-- What the links that lead into a set of nodes carry. -/
def into (links : List (Link n)) (inside : Fin n → Prop) [DecidablePred inside]
    (f : Fin links.length → Int) : Int :=
  enteringSum (fun k => (links.get k).tail) (fun k => (links.get k).head) inside f

/-- All nodes together send on nothing. -/
theorem sum_netOut_eq_zero (f : Fin links.length → Int) : ∑ v, netOut links f v = 0 :=
  sum_outflow _ _ f

section Border

variable (inside : Fin n → Prop) [DecidablePred inside] {f g : Fin links.length → Int}

/-- What a set of nodes sends on crosses its border. -/
theorem sum_netOut (f : Fin links.length → Int) :
    ∑ v, (if inside v then netOut links f v else 0) = outOf links inside f - into links inside f :=
  sum_outflow_eq _ _ inside f

theorem outOf_le (le : ∀ k : Fin links.length, inside (links.get k).tail →
    ¬ inside (links.get k).head → f k ≤ g k) : outOf links inside f ≤ outOf links inside g :=
  leavingSum_le _ _ inside le

theorem le_outOf (nonneg : ∀ k, 0 ≤ f k) {k : Fin links.length} (out : inside (links.get k).tail)
    (in_ : ¬ inside (links.get k).head) : f k ≤ outOf links inside f :=
  le_leavingSum _ _ inside nonneg out in_

theorem into_nonneg (nonneg : ∀ k, 0 ≤ f k) : 0 ≤ into links inside f :=
  enteringSum_nonneg _ _ inside nonneg

theorem into_eq_zero (zero : ∀ k : Fin links.length, ¬ inside (links.get k).tail →
    inside (links.get k).head → f k = 0) : into links inside f = 0 :=
  enteringSum_eq_zero _ _ inside zero

theorem le_into (nonneg : ∀ k, 0 ≤ f k) {k : Fin links.length} (out : ¬ inside (links.get k).tail)
    (in_ : inside (links.get k).head) : f k ≤ into links inside f :=
  le_enteringSum _ _ inside nonneg out in_

end Border

theorem sum_links (links : List (Link n)) (g : Link n → Int) :
    ∑ k : Fin links.length, g (links.get k) = (links.map g).sum :=
  Fin.sum_univ_fun_getElem links g

theorem zip_ofFn {α β : Type} (xs : List α) (f : Fin xs.length → β) :
    xs.zip (List.ofFn f) = List.ofFn fun k => (xs.get k, f k) := by
  apply List.ext_getElem (by simp)
  intro i _ _
  simp

theorem total_zip_ofFn {α β : Type} (xs : List α) (f : Fin xs.length → β) (g : α × β → Int) :
    total ((xs.zip (List.ofFn f)).map g) = ∑ k, g (xs.get k, f k) := by
  rw [total_eq_sum, zip_ofFn, List.map_ofFn, List.sum_ofFn]
  rfl

/-- The finite capacities together. -/
theorem total_capacity (links : List (Link n)) :
    total (links.filterMap (·.capacity)) =
      ∑ k : Fin links.length, (links.get k).capacity.getD 0 := by
  rw [total_eq_sum, sum_links links fun link => link.capacity.getD 0]
  induction links with
  | nil => rfl
  | cons link links ih =>
    cases capacity : link.capacity <;> simp [capacity, ih]

/-! ### What is asked for -/

/-- All that is asked for. -/
def asked : Demand n → Int
  | .amount _ _ value => value
  | .maximum .. => 0
  | .supplies supply => total (supply.values.filter (0 < ·))

theorem ceiling_eq (links : List (Link n)) (demand : Demand n) :
    ceiling links demand =
      ∑ k : Fin links.length, (links.get k).capacity.getD 0 + asked demand + 1 := by
  rw [← total_capacity]
  cases demand <;> rfl

theorem total_pos_eq (supply : Table n Int) :
    total (supply.values.filter (0 < ·)) = ∑ v, max (supply.get v) 0 := by
  have listed := Table.total_filter_values supply (0 < ·) id
  rw [List.map_id] at listed
  rw [listed]
  apply Finset.sum_congr rfl
  intro v _
  by_cases pos : 0 < supply.get v
  · simp [pos, pos.le]
  · simp [pos, not_lt.mp pos]

theorem sum_transfer (source sink : Fin n) (value : Int) (inside : Fin n → Prop)
    [DecidablePred inside] :
    ∑ v, (if inside v then transfer source sink value v else 0) =
      (if inside source then value else 0) - (if inside sink then value else 0) := by
  have parts : ∀ v, (if inside v then transfer source sink value v else 0) =
      (if v = source then (if inside source then value else 0) else 0) -
        (if v = sink then (if inside sink then value else 0) else 0) := by
    intro v
    unfold transfer
    by_cases first : v = source
    · subst first
      by_cases second : v = sink
      · subst second
        by_cases mem : inside v <;> simp [mem]
      · by_cases mem : inside v <;> simp [mem, second]
    · by_cases second : v = sink
      · subst second
        by_cases mem : inside v <;> simp [mem, first]
      · simp [first, second]
  simp only [parts, Finset.sum_sub_distrib, Finset.sum_ite_eq', Finset.mem_univ, if_true]

theorem Admitted.sum_balance (admitted : Admitted demand) : ∑ v, demand.balance v = 0 := by
  cases demand with
  | amount source sink value =>
    have whole := sum_transfer source sink value fun _ => True
    simp only [if_true, sub_self] at whole
    exact whole
  | maximum => exact Finset.sum_const_zero
  | supplies supply => exact admitted

theorem Admitted.asked_nonneg (admitted : Admitted demand) : 0 ≤ asked demand := by
  cases demand with
  | amount => exact admitted.2
  | maximum => exact le_rfl
  | supplies supply =>
    rw [asked, total_pos_eq]
    exact Finset.sum_nonneg fun v _ => le_max_right _ _

/-- No set of nodes supplies more than is asked for. -/
theorem Admitted.sum_balance_le (admitted : Admitted demand) (inside : Fin n → Prop)
    [DecidablePred inside] :
    ∑ v, (if inside v then demand.balance v else 0) ≤ asked demand := by
  cases demand with
  | amount source sink value =>
    have whole := sum_transfer source sink value inside
    have nonneg : 0 ≤ value := admitted.2
    show ∑ v, (if inside v then transfer source sink value v else 0) ≤ value
    rw [whole]
    split <;> split <;> omega
  | maximum =>
    refine (Finset.sum_eq_zero fun v _ => ?_).le
    split <;> rfl
  | supplies supply =>
    rw [asked, total_pos_eq]
    apply Finset.sum_le_sum
    intro v _
    split
    · exact le_max_left _ _
    · exact le_max_right _ _

/-- Nor does it demand more. -/
theorem Admitted.neg_le_sum_balance (admitted : Admitted demand) (inside : Fin n → Prop)
    [DecidablePred inside] :
    -asked demand ≤ ∑ v, (if inside v then demand.balance v else 0) := by
  have others := admitted.sum_balance_le fun v => ¬ inside v
  have whole : ∑ v, (if inside v then demand.balance v else 0) +
      ∑ v, (if ¬ inside v then demand.balance v else 0) = 0 := by
    rw [← Finset.sum_add_distrib]
    refine Eq.trans ?_ admitted.sum_balance
    apply Finset.sum_congr rfl
    intro v _
    by_cases mem : inside v <;> simp [mem]
  omega

/-! ### Rooms and first flows -/

theorem room_nonneg (capacitated : Capacitated links) {big : Int} (nonneg : 0 ≤ big)
    {link : Link n} (mem : link ∈ links) : 0 ≤ link.room big := by
  unfold Link.room
  cases capacity : link.capacity with
  | none => exact nonneg
  | some c => exact capacitated link mem c capacity

/-- A link starts empty, or full if that saves cost. -/
theorem initial_eq (link : Link n) {big : Int} (nonneg : 0 ≤ link.room big) :
    link.initial big = if link.cost < 0 then link.room big else 0 := by
  unfold Link.initial
  by_cases saves : link.cost < 0
  · by_cases pos : 0 < link.room big
    · simp [saves, pos]
    · have := not_lt.mp pos
      simp [saves, pos]
      omega
  · simp [saves]

/-- What the balances ask of a node is what is requested of it and not sent on at first. -/
theorem balances_eq (links : List (Link n)) (big : Int) (demand : Demand n) (v : Fin n) :
    (balances links big demand).get v =
      demand.balance v - netOut links (fun k => (links.get k).initial big) v := by
  have start : ∀ (rest : List (Link n)) (table : Table n Int),
      (rest.foldl (fun (balance : Table n Int) link =>
        let amount := link.initial big
        let balance := balance.update link.head (balance.get link.head + amount)
        balance.update link.tail (balance.get link.tail - amount)) table).get v =
      table.get v - (rest.map fun link => (if link.tail = v then link.initial big else 0) -
        (if link.head = v then link.initial big else 0)).sum := by
    intro rest
    induction rest with
    | nil => intro table; simp
    | cons link rest ih =>
      intro table
      rw [List.foldl_cons, ih, List.map_cons, List.sum_cons]
      simp only [Table.get_update]
      by_cases tail : link.tail = v <;> by_cases head : link.head = v <;>
        simp [tail, head] <;> omega
  rw [balances, Table.get_tabulate, start, Table.get_fill, ← sum_links]
  unfold netOut outflow
  dsimp only
  omega

end Optima.Flow.LeastCost
