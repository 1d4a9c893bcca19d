import Mathlib.Algebra.Order.BigOperators.Group.Finset
import Mathlib.Tactic.Linarith
import Optima.Assignment.Auction
import Optima.Proofs.Run
import Optima.Proofs.Table

/-!
A phase of the auction. A bid leaves its row within `epsilon` of the best column at the new prices,
and what others hold stays within `epsilon` of their best (`Trading.bid`). While some row waits some
column was never bid for, and this bounds all prices (`Trading.price_le`); since each bid raises the
sum of prices, a phase ends before its fuel does, with a column for each row (`phase_ends`).
-/

namespace Optima.Assignment.Auction

variable {n : Nat}

/-! ### The best offer -/

section Offer

variable {value : Fin n → Int}

/-- An offer is the best among the columns seen so far. -/
structure Offer.Leads (value : Fin n → Int) (seen : List (Fin n)) (o : Offer n) : Prop where
  best_eq : o.best = value o.column
  le_best : ∀ j ∈ seen, value j ≤ o.best
  le_second : ∀ j ∈ seen, j ≠ o.column → ∃ w, o.second = some w ∧ value j ≤ w
  second_le : ∀ w, o.second = some w → w ≤ o.best

/-- No offer without columns, and else the best. -/
def Chosen (value : Fin n → Int) (seen : List (Fin n)) : Option (Offer n) → Prop
  | none => seen = []
  | some o => o.Leads value seen

theorem Offer.Leads.next {seen : List (Fin n)} {o : Offer n} (leads : o.Leads value seen)
    (j : Fin n) : Chosen value (seen ++ [j]) (Offer.consider value (some o) j) := by
  obtain ⟨best_eq, le_best, le_second, second_le⟩ := leads
  have last : ∀ {k}, k ∈ seen ++ [j] → k ∈ seen ∨ k = j := by simp
  unfold Offer.consider
  simp only
  by_cases better : o.best < value j
  · rw [if_pos better]
    refine ⟨rfl, fun k known => ?_, fun k known other => ⟨_, rfl, ?_⟩, fun w same => ?_⟩
    · rcases last known with old | rfl
      · exact (le_best k old).trans better.le
      · exact le_rfl
    · rcases last known with old | rfl
      · exact le_best k old
      · exact absurd rfl other
    · cases same
      exact better.le
  · rw [if_neg better]
    have le_old : ∀ k ∈ seen ++ [j], value k ≤ o.best := by
      intro k known
      rcases last known with old | rfl
      · exact le_best k old
      · exact not_lt.mp better
    cases second : o.second with
    | none =>
      refine ⟨best_eq, le_old, fun k known other => ⟨_, rfl, ?_⟩, fun w same => ?_⟩
      · rcases last known with old | rfl
        · obtain ⟨w, found, -⟩ := le_second k old other
          rw [second] at found
          cases found
        · exact le_rfl
      · cases same
        exact not_lt.mp better
    | some w =>
      dsimp only
      by_cases higher : w < value j
      · rw [if_pos higher]
        refine ⟨best_eq, le_old, fun k known other => ⟨_, rfl, ?_⟩, fun w' same => ?_⟩
        · rcases last known with old | rfl
          · obtain ⟨w', found, le⟩ := le_second k old other
            rw [second, Option.some.injEq] at found
            omega
          · exact le_rfl
        · cases same
          exact not_lt.mp better
      · rw [if_neg higher]
        refine ⟨best_eq, le_old, fun k known other => ?_, second_le⟩
        rcases last known with old | rfl
        · exact le_second k old other
        · exact ⟨w, second, not_lt.mp higher⟩

/-- The best offer has the greatest value, and all other columns are worth no more than the second
best value. -/
theorem exists_bestOffer (value : Fin n → Int) (i : Fin n) :
    ∃ o, bestOffer value = some o ∧ o.best = value o.column ∧
      o.second.getD o.best ≤ o.best ∧ ∀ j ≠ o.column, value j ≤ o.second.getD o.best := by
  have chosen : Chosen value (List.finRange n) (bestOffer value) := by
    refine foldl_brings (Chosen value) (List.nodup_finRange n) rfl fun seen j offer _ chosen => ?_
    cases offer with
    | none =>
      obtain rfl : seen = [] := chosen
      refine ⟨rfl, ?_, ?_, ?_⟩ <;> simp
    | some o => exact Offer.Leads.next chosen j
  cases found : bestOffer value with
  | none =>
    rw [found] at chosen
    exact absurd (List.mem_finRange i) (chosen ▸ List.not_mem_nil)
  | some o =>
    rw [found] at chosen
    obtain ⟨best_eq, -, le_second, second_le⟩ := chosen
    refine ⟨o, rfl, best_eq, ?_, fun j other => ?_⟩
    · cases second : o.second with
      | none => exact le_rfl
      | some w => exact second_le w second
    · obtain ⟨w, second, le⟩ := le_second j (List.mem_finRange j) other
      rw [second]
      exact le

end Offer

/-! ### The spread of values -/

theorem sub_le_spread {xs : List Int} {a b : Int} (first : a ∈ xs) (second : b ∈ xs) :
    a - b ≤ spread xs := by
  cases xs with
  | nil => cases first
  | cons x rest =>
    have below : ∀ y ∈ x :: rest, y ≤ rest.foldl max x :=
      List.forall_mem_cons.mpr (foldl_max_le_iff.mp le_rfl)
    have above : ∀ y ∈ x :: rest, rest.foldl min x ≤ y :=
      List.forall_mem_cons.mpr (le_foldl_min_int_iff.mp le_rfl)
    have := below a first
    have := above b second
    rw [spread]
    omega

theorem mem_allValues (t : Square n Int) (i j : Fin n) : (t.get i).get j ∈ allValues t := by
  refine List.mem_flatMap.mpr ⟨t.get i, ?_, ?_⟩
  · exact List.mem_map.mpr ⟨i, List.mem_finRange i, rfl⟩
  · exact List.mem_map.mpr ⟨j, List.mem_finRange j, rfl⟩

/-! ### Bids -/

section Bids

variable {benefit : Square n Int} {epsilon : Nat} {start : Table n Int} {m : Market n} {i : Fin n}

/-- What a column is worth to a row at the prices of a market. -/
def Market.worth (m : Market n) (benefit : Square n Int) (i j : Fin n) : Int :=
  (benefit.get i).get j - m.price.get j

/-- The state of a phase that began at the prices `start`, apart from who waits: no row is more than
`epsilon` short of the best column for it. -/
structure Trading (benefit : Square n Int) (epsilon : Nat) (start : Table n Int) (m : Market n) :
    Prop where
  holds : ∀ {i j}, m.rowOf.get j = some i ↔ m.columnOf.get i = some j
  close : ∀ {i j}, m.rowOf.get j = some i → ∀ k, m.worth benefit i k - epsilon ≤ m.worth benefit i j
  fresh : ∀ {j}, m.rowOf.get j = none → m.price.get j = start.get j
  nonneg : ∀ j, 0 ≤ m.price.get j

/-- The rows that wait are those without a column. -/
structure Waiting (m : Market n) (queue : List (Fin n)) : Prop where
  mem_iff : ∀ {i}, i ∈ queue ↔ m.columnOf.get i = none
  nodup : queue.Nodup

theorem Trading.apart (trading : Trading benefit epsilon start m) (waits : m.columnOf.get i = none) :
    Apart i m.rowOf where
  distinct one two := by
    have := trading.holds.mp one
    rw [trading.holds.mp two, Option.some.injEq] at this
    exact this.symm
  idle j held := by
    rw [trading.holds.mp held] at waits
    cases waits

/-- While some row waits no price is far above those at the beginning of the phase. -/
theorem Trading.price_le (trading : Trading benefit epsilon start m)
    (waits : m.columnOf.get i = none) {top : Int} (start_le : ∀ j, start.get j ≤ top) (j : Fin n) :
    m.price.get j ≤ top + spread (allValues benefit) + epsilon := by
  cases held : m.rowOf.get j with
  | none =>
    have := start_le j
    have := trading.fresh held
    omega
  | some k =>
    obtain ⟨j', free⟩ := (trading.apart waits).exists_free
    have close := trading.close held j'
    have := sub_le_spread (mem_allValues benefit k j) (mem_allValues benefit k j')
    have := start_le j'
    have := trading.fresh free
    unfold Market.worth at close
    omega

/-- What a bid of the row `i` changes: it gets the column `j`, and whoever held that has to wait. -/
structure Sold (benefit : Square n Int) (epsilon : Nat) (i j : Fin n) (rest : List (Fin n))
    (m m' : Market n) : Prop where
  rowOf : ∀ c, m'.rowOf.get c = if j = c then some i else m.rowOf.get c
  columnOf : ∀ r, m'.columnOf.get r =
    if m.rowOf.get j = some r then none else if i = r then some j else m.columnOf.get r
  queue : m'.queue = rest ++ (m.rowOf.get j).toList
  unchanged : ∀ c, c ≠ j → m'.price.get c = m.price.get c
  raised : m.price.get j + epsilon ≤ m'.price.get j
  close : ∀ c, m'.worth benefit i c - epsilon ≤ m'.worth benefit i j

theorem bid_sold (benefit : Square n Int) (epsilon : Nat) (i : Fin n) (rest : List (Fin n))
    (m : Market n) :
    ∃ j, Sold benefit epsilon i j rest m (bid benefit epsilon i { m with queue := rest }) := by
  obtain ⟨o, offered, best_eq, second_le, le_second⟩ := exists_bestOffer (m.worth benefit i) i
  change bestOffer (fun j => (benefit.get i).get j - m.price.get j) = some o at offered
  have lead_nonneg : 0 ≤ o.best - o.second.getD o.best := by omega
  refine ⟨o.column, ?_⟩
  unfold bid
  simp only [offered]
  constructor
  · exact fun c => Table.get_update ..
  · intro r
    cases before : m.rowOf.get o.column with
    | none => simp
    | some k => simp
  · rfl
  · intro c other
    rw [Table.get_update, if_neg other.symm]
  · rw [Table.get_update, if_pos rfl]
    omega
  · intro c
    by_cases same : o.column = c
    · rw [same]
      omega
    · have le := le_second c (Ne.symm same)
      unfold Market.worth at le best_eq ⊢
      simp only [Table.get_update, if_pos, if_neg same]
      omega

/-- A bid of a row that waits. -/
theorem Trading.bid (trading : Trading benefit epsilon start m) {rest : List (Fin n)}
    (waiting : Waiting m (i :: rest)) {j : Fin n} {m' : Market n}
    (sold : Sold benefit epsilon i j rest m m') :
    Trading benefit epsilon start m' ∧ Waiting m' m'.queue := by
  have waits : m.columnOf.get i = none := waiting.mem_iff.mp List.mem_cons_self
  have idle : ∀ c, m.rowOf.get c ≠ some i := (trading.apart waits).idle
  have distinct := @(trading.apart waits).distinct
  obtain ⟨rowOf, columnOf, queue, unchanged, raised, close⟩ := sold
  have price_le : ∀ c, m.price.get c ≤ m'.price.get c := by
    intro c
    by_cases same : c = j
    · subst same
      omega
    · exact (unchanged c same).ge
  refine ⟨⟨fun {r c} => ?_, fun {r c} held k => ?_, fun {c} free => ?_, fun c => ?_⟩, ?_, ?_⟩
  · have := @trading.holds r c
    have := @trading.holds r j
    rw [rowOf, columnOf]
    grind
  · rw [rowOf] at held
    by_cases same : j = c
    · rw [if_pos same, Option.some.injEq] at held
      rw [← held, ← same]
      exact close k
    · rw [if_neg same] at held
      have before := trading.close held k
      have := price_le k
      have := unchanged c (Ne.symm same)
      unfold Market.worth at before ⊢
      omega
  · rw [rowOf] at free
    by_cases same : j = c
    · rw [if_pos same] at free
      cases free
    · rw [if_neg same] at free
      rw [unchanged c (Ne.symm same)]
      exact trading.fresh free
  · exact (trading.nonneg c).trans (price_le c)
  · intro r
    have := @waiting.mem_iff r
    have := @trading.holds r j
    have := (List.nodup_cons.mp waiting.nodup).1
    rw [queue, columnOf]
    grind
  · rw [queue]
    refine (List.nodup_cons.mp waiting.nodup).2.append ?_ ?_
    · cases m.rowOf.get j <;> simp
    · intro r known again
      have held : m.rowOf.get j = some r := by simpa using again
      have idle_r := waiting.mem_iff.mp (List.mem_cons_of_mem i known)
      rw [trading.holds.mp held] at idle_r
      cases idle_r

/-- A bid raises the sum of prices. -/
theorem Sold.sum_le {j : Fin n} {rest : List (Fin n)} {m' : Market n}
    (sold : Sold benefit epsilon i j rest m m') :
    ∑ c, m.price.get c + epsilon ≤ ∑ c, m'.price.get c := by
  rw [← Finset.add_sum_erase _ _ (Finset.mem_univ j),
    ← Finset.add_sum_erase _ (fun c => m'.price.get c) (Finset.mem_univ j)]
  have rest_eq : ∑ c ∈ Finset.univ.erase j, m'.price.get c =
      ∑ c ∈ Finset.univ.erase j, m.price.get c :=
    Finset.sum_congr rfl fun c other => sold.unchanged c (Finset.ne_of_mem_erase other)
  have := sold.raised
  rw [rest_eq]
  omega

end Bids

/-! ### A whole phase -/

section Phase

variable {benefit : Square n Int} {epsilon : Nat} {start : Table n Int}

/-- Every row holds a column, and no row is more than `epsilon` short of the best column for it. -/
structure Complete (benefit : Square n Int) (epsilon : Nat) (m : Market n) : Prop where
  holds : ∀ {i j}, m.rowOf.get j = some i ↔ m.columnOf.get i = some j
  all : ∀ i, ∃ j, m.columnOf.get i = some j
  close : ∀ {i j}, m.columnOf.get i = some j →
    ∀ k, m.worth benefit i k - epsilon ≤ m.worth benefit i j
  nonneg : ∀ j, 0 ≤ m.price.get j

theorem Trading.complete {m : Market n} (trading : Trading benefit epsilon start m)
    (waiting : Waiting m []) : Complete benefit epsilon m where
  holds := trading.holds
  all i := by
    apply Option.ne_none_iff_exists'.mp
    rw [ne_eq, ← waiting.mem_iff]
    exact List.not_mem_nil
  close held := trading.close (trading.holds.mpr held)
  nonneg := trading.nonneg

/-- When nobody waits bidding is over. -/
theorem trade_nil (fuel : Nat) {m : Market n} (queue : m.queue = []) :
    trade benefit epsilon fuel m = pure m := by
  unfold trade
  rw [queue]

/-- Bidding ends: the fuel that is left and the sum of prices together stay above what prices can
sum up to while some row waits. -/
theorem trade_ends (positive : 0 < epsilon) {top : Int} (start_le : ∀ j, start.get j ≤ top)
    {fuel : Nat} {m : Market n} (trading : Trading benefit epsilon start m)
    (waiting : Waiting m m.queue)
    (enough : n * (top + spread (allValues benefit) + epsilon) < fuel + ∑ j, m.price.get j) :
    ∃ m', (trade benefit epsilon fuel m).outcome = .ok m' ∧ Complete benefit epsilon m' := by
  induction fuel generalizing m with
  | zero =>
    cases queue : m.queue with
    | nil =>
      rw [queue] at waiting
      exact ⟨m, congrArg Run.outcome (trade_nil _ queue), trading.complete waiting⟩
    | cons i rest =>
      rw [queue] at waiting
      have price_le := trading.price_le (waiting.mem_iff.mp List.mem_cons_self) start_le
      have sum_le := Finset.sum_le_card_nsmul Finset.univ (fun j => m.price.get j) _
        fun j _ => price_le j
      simp only [Finset.card_univ, Fintype.card_fin, nsmul_eq_mul] at sum_le
      omega
  | succ fuel ih =>
    cases queue : m.queue with
    | nil =>
      rw [queue] at waiting
      exact ⟨m, congrArg Run.outcome (trade_nil _ queue), trading.complete waiting⟩
    | cons i rest =>
      rw [queue] at waiting
      obtain ⟨j, sold⟩ := bid_sold benefit epsilon i rest m
      obtain ⟨trading', waiting'⟩ := trading.bid waiting sold
      have sum_le := sold.sum_le
      obtain ⟨m', ok, complete⟩ := ih trading' waiting' (by push_cast at enough; omega)
      refine ⟨m', ?_, complete⟩
      unfold trade
      rw [queue]
      exact (Run.outcome_bind_of_ok rfl _).trans ok

/-- A phase from any prices that are not negative ends with a column for each row. -/
theorem phase_ends (benefit : Square n Int) {epsilon : Nat} (positive : 0 < epsilon)
    {m : Market n} (nonneg : ∀ j, 0 ≤ m.price.get j) :
    ∃ m', (phase benefit m epsilon).outcome = .ok m' ∧ Complete benefit epsilon m' := by
  have start_le : ∀ j, m.price.get j ≤ m.price.values.foldl max 0 := fun j =>
    (foldl_max_le_iff.mp le_rfl).2 _ (List.mem_map.mpr ⟨j, List.mem_finRange j, rfl⟩)
  have top_nonneg : 0 ≤ m.price.values.foldl max 0 := (foldl_max_le_iff.mp le_rfl).1
  have sum_nonneg : 0 ≤ ∑ j, m.price.get j := Finset.sum_nonneg fun j _ => nonneg j
  apply trade_ends positive start_le
  · constructor <;> simp [nonneg]
  · constructor <;> simp [List.nodup_finRange]
  · unfold bidBound
    push_cast
    rw [Int.toNat_of_nonneg top_nonneg]
    have share : 0 ≤ (n : Int) * spread (allValues benefit) := by positivity
    have step : 0 ≤ (n : Int) * epsilon := by positivity
    linarith

end Phase

end Optima.Assignment.Auction
