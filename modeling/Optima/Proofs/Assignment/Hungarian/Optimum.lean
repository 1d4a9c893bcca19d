import Mathlib.Algebra.Order.BigOperators.Group.Finset
import Mathlib.Tactic.Ring
import Optima.Proofs.Assignment.Hungarian
import Optima.Proofs.Assignment.Hungarian.Growth

/-!
The Hungarian method ends with an assignment of least cost. Shifting columns along a path of edges
without slack keeps potentials of a matching (`shift_ends`), and so does each row that enters
(`Entered.enter`). When all rows have entered no slack is negative and pairs have none, which
certifies the assignment (`solveIn_ends`).
-/

namespace Optima.Assignment.Hungarian

variable {n : Nat} {c : Fin n → Fin n → Int} {low high : Int} {i : Fin n}
  {rowOf : Table n (Option (Fin n))} {base : Int} {p : Plan n} {reached : Table n Bool}
  {parent : Table n (Option (Fin n))}

/-! ### Shifting columns -/

/-- A matching while columns are shifted along a path: only the column `j` is still to be filled. -/
structure Hole (c : Fin n → Fin n → Int) (rowOf : Table n (Option (Fin n))) (p : Plan n)
    (rank : Fin n → Nat) (j : Fin n) (now : Table n (Option (Fin n))) : Prop where
  early : ∀ {k}, rank k < rank j → now.get k = rowOf.get k
  distinct : ∀ {a b k}, a ≠ j → b ≠ j → now.get a = some k → now.get b = some k → a = b
  held : ∀ {a k}, a ≠ j → now.get a = some k → p.slack c k a = 0 ∧ ∃ b, rowOf.get b = some k
  free : ∀ {a}, a ≠ j → now.get a = none → rowOf.get a = none

/-- The column before hands its row on. -/
theorem Hole.next {rank : Fin n → Nat} {j k m : Fin n} {now : Table n (Option (Fin n))}
    (hole : Hole c rowOf p rank j now) (lower : rank k < rank j) (holds : rowOf.get k = some m)
    (tight : p.slack c m j = 0) : Hole c rowOf p rank k (now.update j (now.get k)) := by
  have apart : k ≠ j := fun same => lower.ne (congrArg rank same)
  have handed : now.get k = some m := (hole.early lower).trans holds
  constructor
  · intro a earlier
    have other : j ≠ a := fun same => (earlier.trans lower).ne (congrArg rank same.symm)
    rw [Table.get_update, if_neg other]
    exact hole.early (earlier.trans lower)
  · intro a b l other other' one two
    rw [Table.get_update, handed] at one two
    by_cases first : j = a
    · by_cases second : j = b
      · exact first.symm.trans second
      · rw [if_pos first] at one
        rw [if_neg second, ← one, ← handed] at two
        exact absurd (hole.distinct (Ne.symm second) apart (two.trans handed) handed) other'
    · by_cases second : j = b
      · rw [if_pos second] at two
        rw [if_neg first, ← two, ← handed] at one
        exact absurd (hole.distinct (Ne.symm first) apart (one.trans handed) handed) other
      · rw [if_neg first] at one
        rw [if_neg second] at two
        exact hole.distinct (Ne.symm first) (Ne.symm second) one two
  · intro a l other holder
    rw [Table.get_update, handed] at holder
    by_cases first : j = a
    · rw [if_pos first, Option.some.injEq] at holder
      rw [← holder, ← first]
      exact ⟨tight, k, holds⟩
    · rw [if_neg first] at holder
      exact hole.held (Ne.symm first) holder
  · intro a other nobody
    rw [Table.get_update, handed] at nobody
    by_cases first : j = a
    · rw [if_pos first] at nobody
      cases nobody
    · rw [if_neg first] at nobody
      exact hole.free (Ne.symm first) nobody

/-- The row that enters fills the last column. -/
theorem Hole.fill {rank : Fin n → Nat} {j : Fin n} {now : Table n (Option (Fin n))}
    (hole : Hole c rowOf p rank j now) (dual : Dual c rowOf p) (idle : ∀ j, rowOf.get j ≠ some i)
    (entered : ∀ j', 0 ≤ p.slack c i j') (tight : p.slack c i j = 0) :
    Dual c (now.update j (some i)) p ∧
      ∀ a k, (now.update j (some i)).get a = some k → k = i ∨ ∃ b, rowOf.get b = some k := by
  have members : ∀ {a k}, (now.update j (some i)).get a = some k →
      (a = j ∧ k = i) ∨ (a ≠ j ∧ now.get a = some k ∧ p.slack c k a = 0 ∧
        ∃ b, rowOf.get b = some k) := by
    intro a k holds
    rw [Table.get_update] at holds
    by_cases first : j = a
    · rw [if_pos first, Option.some.injEq] at holds
      exact .inl ⟨first.symm, holds.symm⟩
    · rw [if_neg first] at holds
      exact .inr ⟨Ne.symm first, holds, hole.held (Ne.symm first) holds⟩
  refine ⟨⟨?_, ?_, ?_, ?_, dual.column_nonpos⟩, ?_⟩
  · intro a b k one two
    rcases members one with ⟨rfl, rfl⟩ | ⟨other, holds, -, row⟩
    · rcases members two with ⟨rfl, -⟩ | ⟨-, -, -, b, row⟩
      · rfl
      · exact absurd row (idle b)
    · rcases members two with ⟨rfl, rfl⟩ | ⟨other', holds', -⟩
      · obtain ⟨b, row⟩ := row
        exact absurd row (idle b)
      · exact hole.distinct other other' holds holds'
  · intro a k holds
    rcases members holds with ⟨rfl, rfl⟩ | ⟨-, -, own, -⟩
    · exact tight
    · exact own
  · intro a k holds
    rcases members holds with ⟨rfl, rfl⟩ | ⟨-, -, -, b, row⟩
    · exact entered
    · exact dual.feasible row
  · intro a nobody
    rw [Table.get_update] at nobody
    by_cases first : j = a
    · rw [if_pos first] at nobody
      cases nobody
    · rw [if_neg first] at nobody
      exact dual.free (hole.free (Ne.symm first) nobody)
  · intro a k holds
    rcases members holds with ⟨-, same⟩ | ⟨-, -, -, row⟩
    · exact .inl same
    · exact .inr row

/-- Shifting columns along the path to a free column ends, and keeps potentials of the matching. -/
theorem shift_ends (growing : Growing c low high i rowOf base p reached parent)
    (entered : ∀ j', 0 ≤ p.slack c i j') {rank : Fin n → Nat}
    (leads : ∀ j, reached.get j = true → Leads c i rowOf p reached parent rank j) (fuel : Nat)
    {j : Fin n} {now : Table n (Option (Fin n))} (own : Leads c i rowOf p reached parent rank j)
    (below : rank j < fuel) (hole : Hole c rowOf p rank j now) :
    ∃ now', shift i parent fuel j now = .ok now' ∧ Dual c now' p ∧
      ∀ a k, now'.get a = some k → k = i ∨ ∃ b, rowOf.get b = some k := by
  induction fuel generalizing j now with
  | zero => exact absurd below (Nat.not_lt_zero _)
  | succ fuel ih =>
    have tight := own.tight
    unfold shift
    cases before : parent.get j with
    | none =>
      rw [before] at tight
      exact ⟨_, rfl, hole.fill growing.toDual growing.idle entered tight⟩
    | some k =>
      obtain ⟨known, lower⟩ := own.back before
      obtain ⟨m, holds⟩ := growing.held known
      have seen : heldBy i rowOf (some k) = m := by simp [heldBy, holds]
      rw [before, seen] at tight
      exact ih (leads k known) (by omega) (hole.next lower holds tight)

/-! ### Entering -/

section Enter

variable {α : Type} [Quantity α] {denotes : α → Int → Prop} {within : Int → Prop}
  {cost : Square n α}

/-- Some rows have entered. -/
structure Entered (denotes : α → Int → Prop) (c : Fin n → Fin n → Int) (low high : Int)
    (done : List (Fin n)) (s : State n α) (p : Plan n) : Prop where
  shows : Shows denotes s p
  dual : Dual c s.rowOf p
  holds : Holds done s.rowOf
  members : ∀ {j k}, s.rowOf.get j = some k → k ∈ done
  waiting : ∀ {k}, (∀ j, s.rowOf.get j ≠ some k) → p.row k = 0
  root_small : |p.root| ≤ done.length * (high - low)
  le_iterations : done.length ≤ s.iterations
  iterations_le : 2 * s.iterations ≤ done.length * (done.length + 1)

theorem entered_start (faithful : Quantity.Faithful denotes within) :
    Entered denotes c low high [] (State.start : State n α) ⟨fun _ => 0, fun _ => 0, 0⟩ where
  shows := by
    constructor <;> simp [State.start, faithful.nought]
  dual := by
    constructor <;> simp [State.start]
  holds := by
    intro r known
    cases known
  members := by simp [State.start]
  waiting _ := rfl
  root_small := by simp
  le_iterations := Nat.le_refl 0
  iterations_le := Nat.le_refl 0

/-- No more columns are reached than rows have entered. -/
theorem Growing.card_le (growing : Growing c low high i rowOf base p reached parent)
    {done : List (Fin n)} (members : ∀ {j k}, rowOf.get j = some k → k ∈ done) :
    (columnsReached reached).card ≤ done.length := by
  have within_done : ∀ j ∈ columnsReached reached, (rowOf.get j).getD i ∈ done.toFinset := by
    intro j known
    obtain ⟨k, holds⟩ := growing.held (mem_columnsReached.mp known)
    rw [holds, List.mem_toFinset]
    exact members holds
  have injective : Set.InjOn (fun j => (rowOf.get j).getD i) (columnsReached reached) := by
    intro j known j' known' same
    obtain ⟨k, holds⟩ := growing.held (mem_columnsReached.mp known)
    obtain ⟨k', holds'⟩ := growing.held (mem_columnsReached.mp known')
    simp only [holds, holds', Option.getD_some] at same
    exact growing.distinct holds (same ▸ holds')
  exact (Finset.card_le_card_of_injOn _ within_done injective).trans (List.toFinset_card_le done)

/-- One more row enters. -/
theorem Entered.enter (faithful : Quantity.Faithful denotes within)
    (roomy : Roomy n within low high) (between : Between c low high)
    (entries : ∀ k j, denotes (entry cost k j) (c k j)) {done : List (Fin n)} {s : State n α}
    (entered : Entered denotes c low high done s p) (new : i ∉ done) (room : done.length ≤ n) :
    ∃ s' p', Hungarian.enter cost s i = .ok s' ∧
      Entered denotes c low high (done ++ [i]) s' p' := by
  have := between.low_nonpos
  have := between.high_nonneg
  have idle : ∀ j, s.rowOf.get j ≠ some i := fun j holds => new (entered.members holds)
  have row_zero : p.row i = 0 := entered.waiting idle
  have growing : Growing c low high i s.rowOf p.root p (Table.fill n false) (Table.fill n none) := by
    refine ⟨entered.dual, idle, fun _ none_held => entered.waiting none_held, ?_, ?_, ?_, ?_, ?_,
      fun _ => 0, ?_⟩ <;> simp [row_zero, between.low_nonpos, between.high_nonneg]
  have base_small : |p.root| ≤ n * (high - low) :=
    entered.root_small.trans (mul_le_mul_of_nonneg_right (by exact_mod_cast room) (by omega))
  obtain ⟨t₁, length, ok, reached, looked⟩ :=
    look_first faithful roomy between entries entered.shows growing
  obtain ⟨s', t', j, p', grown, ends, rounds⟩ := grow_ends (t := Tree.root) faithful
    roomy between entries base_small (n + 1) none ok looked (by omega)
  obtain ⟨rank, leads⟩ :=
    ends.growing.leads_with (ends.growing.unreached ends.free) ends.tight ends.back
  obtain ⟨below, own⟩ := leads j (.inr rfl)
  have few := ends.growing.card_lt
  obtain ⟨now, shifted, dual, members⟩ := shift_ends ends.growing ends.entered
    (fun a known => (leads a (.inl known)).2) (n + 1) own (by omega)
    ⟨fun _ => rfl, fun _ _ => ends.growing.distinct, fun _ holds =>
      ⟨ends.growing.tight holds, _, holds⟩, fun _ nobody => nobody⟩
  have ok_enter : Hungarian.enter cost s i = .ok { s' with rowOf := now } := by
    unfold Hungarian.enter
    simp only [grown, ends.rowOf_eq, shifted, bind, Except.bind, pure, Except.pure]
  refine ⟨_, p', ok_enter, ?_⟩
  have holds := enter_holds entered.holds ok_enter
  have empty : (columnsReached t₁.reached).card = 0 := by
    simp [reached, columnsReached]
  have reached_le := ends.growing.card_le entered.members
  refine ⟨⟨ends.shows.row, ends.shows.column, ends.shows.root⟩, dual, holds, ?_, ?_, ?_, ?_, ?_⟩
  · intro a k held
    rcases members a k held with rfl | ⟨b, before⟩
    · simp
    · exact List.mem_append_left _ (entered.members before)
  · intro k none_held
    apply ends.growing.waiting
    · rintro rfl
      obtain ⟨a, held⟩ := holds k (by simp)
      exact none_held a held
    · intro a before
      obtain ⟨b, held⟩ := holds k (List.mem_append_left _ (entered.members before))
      exact none_held b held
  · have root_eq := ends.growing.root_eq
    have := ends.growing.low_le
    have := ends.growing.le_high
    have before := abs_le.mp entered.root_small
    rw [List.length_append, List.length_singleton, abs_le]
    push_cast
    constructor <;> linarith
  · rw [List.length_append, List.length_singleton]
    have := entered.le_iterations
    dsimp only
    omega
  · rw [List.length_append, List.length_singleton]
    have := entered.iterations_le
    dsimp only
    nlinarith

/-- All rows enter. -/
theorem enterAll_ends (faithful : Quantity.Faithful denotes within)
    (roomy : Roomy n within low high) (between : Between c low high)
    (entries : ∀ k j, denotes (entry cost k j) (c k j)) :
    ∃ s p, (enterAll cost).outcome = .ok s ∧
      Entered denotes c low high (List.finRange n) s p := by
  have each : ∀ (done : List (Fin n)) (i : Fin n) (s : State n α), i ∉ done →
      (done.Nodup ∧ ∃ p, Entered denotes c low high done s p) →
      ∃ s', (do Run.check; Run.ofExcept (enter cost s i) : Run Failure (State n α)).outcome =
        .ok s' ∧ (done ++ [i]).Nodup ∧ ∃ p, Entered denotes c low high (done ++ [i]) s' p := by
    rintro done i s new ⟨distinct, p, entered⟩
    have room : done.length ≤ n := by
      simpa using distinct.length_le_card
    obtain ⟨s', p', ok, more⟩ := entered.enter faithful roomy between entries new room
    refine ⟨s', ?_, ?_, p', more⟩
    · rw [Run.outcome_bind_of_ok Run.outcome_check]
      exact ok
    · exact distinct.append (List.nodup_singleton i) (List.disjoint_singleton.mpr new)
  obtain ⟨s, ok, -, p, entered⟩ := exists_foldlM _
    (fun done s => done.Nodup ∧ ∃ p, Entered denotes c low high done s p)
    (List.nodup_finRange n) ⟨List.nodup_nil, _, entered_start faithful⟩ each
  exact ⟨s, p, (Run.outcome_foldlM _ _ _).trans ok, entered⟩

/-- Entries lie within the sum of their magnitudes. -/
theorem exists_between (c : Fin n → Fin n → Int) : ∃ low high, Between c low high := by
  have inside (i j : Fin n) : |c i j| ≤ ∑ k, ∑ l, |c k l| :=
    (Finset.single_le_sum (fun l _ => abs_nonneg (c i l)) (Finset.mem_univ j)).trans
      (Finset.single_le_sum (f := fun k => ∑ l, |c k l|)
        (fun k _ => Finset.sum_nonneg fun l _ => abs_nonneg _) (Finset.mem_univ i))
  have nonneg : 0 ≤ ∑ k, ∑ l, |c k l| :=
    Finset.sum_nonneg fun k _ => Finset.sum_nonneg fun l _ => abs_nonneg _
  exact ⟨_, _, neg_nonpos.mpr nonneg, nonneg, fun i j => (abs_le.mp (inside i j)).1,
    fun i j => (abs_le.mp (inside i j)).2⟩

/-- The Hungarian method ends, after `n` to `n * (n + 1) / 2` scans, with an assignment that
potentials certify. -/
theorem solveIn_ends (faithful : Quantity.Faithful denotes within)
    (roomy : Roomy n within low high) (between : Between c low high)
    (entries : ∀ k j, denotes (entry cost k j) (c k j)) :
    ∃ columnOf scans, (solveIn cost).outcome = .ok (columnOf, scans) ∧
      (n ≤ scans ∧ 2 * scans ≤ n * (n + 1)) ∧
      ∃ row column : Fin n → Int, (∀ i j, column j ≤ c i j + row i) ∧
        ∀ i, c i (columnOf.get i) + row i = column (columnOf.get i) := by
  obtain ⟨s, p, ok, entered⟩ := enterAll_ends faithful roomy between entries
  have holds := rowOf_columns entered.holds
  have le_iterations := entered.le_iterations
  have iterations_le := entered.iterations_le
  rw [List.length_finRange] at le_iterations iterations_le
  refine ⟨columns s.rowOf, s.iterations, ?_, ⟨le_iterations, iterations_le⟩, fun i => - p.row i,
    p.column, fun i j => ?_, fun i => ?_⟩
  · unfold solveIn
    rw [Run.outcome_bind_of_ok ok]
    rfl
  · have left := entered.dual.feasible (holds i) j
    unfold Plan.slack at left
    dsimp only
    omega
  · have own := entered.dual.tight (holds i)
    unfold Plan.slack at own
    dsimp only
    omega

end Enter

end Optima.Assignment.Hungarian
