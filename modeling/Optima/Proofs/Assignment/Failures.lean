import Optima.Proofs.Assignment.Agreement
import Optima.Proofs.Failures

/-!
What can keep agents from being paired, whatever numbers their costs are (`Snag`). The search for
the first assignment may refuse what it is given, and numbers may leave the range of doubles. That
the Hungarian method goes on for ever is left open for costs that are not all integers, as it takes
labels that rounding has made infinite; it never does in integers, and neither does the auction or
the search that follows.
-/

namespace Optima.Assignment

open Lexicographic (notOptimal)

variable {α : Type} [Quantity α] {n : Nat}

/-! ### The Hungarian method -/

namespace Hungarian

/-- The failures of the Hungarian method. -/
def Stuck (failure : Failure) : Prop := failure = .fault .tooLarge ∨ failure = .endless

theorem look_onlyTooLarge (mild : Quantity.Mild α) (costs : Table n α) (s : State n α) (row : Fin n)
    (source : Option (Fin n)) (t : Tree n α) (j : Fin n) :
    OnlyTooLarge (look costs s row source t j) := by
  unfold look
  split
  · trivial
  · refine (mild.sub _ _).bind fun _ _ => (mild.sub _ _).bind fun _ _ => ?_
    split <;> trivial

theorem raiseColumn_onlyTooLarge (mild : Quantity.Mild α) (delta : α) (st : State n α × Tree n α)
    (j : Fin n) : OnlyTooLarge (raiseColumn delta st j) := by
  have lowered (label : Option α) : OnlyTooLarge (lowerLabel delta label) := by
    cases label with
    | some label => exact (mild.sub _ _).bind fun _ _ => trivial
    | none => exact mild.lowered _
  unfold raiseColumn
  dsimp only
  split
  · refine (mild.sub _ _).bind fun _ _ => ?_
    split
    · exact (mild.add _ _).bind fun _ _ => trivial
    · trivial
  · exact (lowered _).bind fun _ _ => trivial

theorem raise_onlyTooLarge (mild : Quantity.Mild α) (i : Fin n) (delta : α) (s : State n α)
    (t : Tree n α) : OnlyTooLarge (raise i delta s t) :=
  (mild.sub _ _).bind fun _ _ => (mild.add _ _).bind fun _ _ =>
    FailsOnly.foldlM fun _ _ _ => raiseColumn_onlyTooLarge mild ..

theorem grow_failsOnly (mild : Quantity.Mild α) (cost : Square n α) (i : Fin n) (fuel : Nat)
    (source : Option (Fin n)) (s : State n α) (t : Tree n α) :
    FailsOnly Stuck (grow cost i fuel source s t) := by
  induction fuel generalizing source s t with
  | zero => exact .inr rfl
  | succ fuel ih =>
    unfold grow
    refine Yields.bind (OnlyTooLarge.arith (FailsOnly.foldlM fun _ _ _ =>
      look_onlyTooLarge mild ..) (.inl rfl)) fun t _ => ?_
    split
    · exact .inr rfl
    · refine Yields.bind (OnlyTooLarge.arith (raise_onlyTooLarge mild ..) (.inl rfl)) fun st _ => ?_
      obtain ⟨s, t⟩ := st
      dsimp only
      split
      · trivial
      · exact ih ..

theorem shift_failsOnly (i : Fin n) (parent : Table n (Option (Fin n))) (fuel : Nat) (j : Fin n)
    (rowOf : Table n (Option (Fin n))) : FailsOnly Stuck (shift i parent fuel j rowOf) := by
  induction fuel generalizing j rowOf with
  | zero => exact .inr rfl
  | succ fuel ih =>
    unfold shift
    split
    · trivial
    · exact ih ..

theorem solveIn_failsOnly (mild : Quantity.Mild α) (cost : Square n α) :
    FailsOnly Stuck (solveIn cost).outcome := by
  have all : FailsOnly Stuck (enterAll cost).outcome := by
    unfold enterAll
    rw [Run.outcome_foldlM]
    exact FailsOnly.foldlM fun s i _ => (grow_failsOnly mild ..).bind fun _ _ =>
      (shift_failsOnly ..).bind fun _ _ => trivial
  exact all.outcome_bind fun _ _ => trivial

/-- In integers it always ends with an assignment. -/
theorem solveIn_ok (cost : Square n Int) : ∃ found, (solveIn cost).outcome = .ok found := by
  obtain ⟨low, high, between⟩ := exists_between fun i j => entry cost i j
  obtain ⟨columnOf, scans, ok, -⟩ :=
    solveIn_ends Quantity.faithful_int (fun _ _ => trivial) between fun _ _ => rfl
  exact ⟨_, ok⟩

end Hungarian

/-! ### The search for the first assignment -/

namespace Lexicographic

/-- The failures of the search for the first assignment. -/
def Refused (failure : Failure) : Prop := failure = notOptimal ∨ failure = .fault .tooLarge

theorem improves_onlyTooLarge (tolerance : Number) (label old : α) :
    OnlyTooLarge (improves tolerance label old) :=
  (Number.combine_onlyTooLarge ..).bind fun _ _ => trivial

/-- One label passed on leaves no more columns to be looked at. -/
theorem relax_yields (mild : Quantity.Mild α) (tolerance : Number) (costs : Table n α) (reach : α)
    (s : Search n α) (j : Fin n) :
    Yields (fun s' => s'.visitsLeft ≤ s.visitsLeft) Refused (relax tolerance costs reach s j) := by
  unfold relax
  refine Yields.bind ((mild.add _ _).arith (.inr rfl)) fun label _ => ?_
  refine Yields.bind ((improves_onlyTooLarge ..).arith (.inr rfl)) fun better _ => ?_
  split
  · dsimp only
    split
    · exact .inl rfl
    · have few : s.improvements.get j < n := by omega
      split
      · exact Search.visitsLeft_improved few rfl (Nat.le_succ _)
      · exact Search.visitsLeft_improved few rfl (by simp)
  · exact le_rfl

theorem visit_yields (mild : Quantity.Mild α) (tolerance : Number) (cost : Square n α)
    (rowOf : Table n (Fin n)) (k : Fin n) (s : Search n α) :
    Yields (fun s' => s'.visitsLeft ≤ s.visitsLeft) Refused (visit tolerance cost rowOf k s) := by
  unfold visit
  refine Yields.bind ((mild.sub _ _).arith (.inr rfl)) fun reach _ => ?_
  refine Yields.bind ((improves_onlyTooLarge ..).arith (.inr rfl)) fun better _ => ?_
  split
  · refine Yields.foldlM le_rfl fun s' j _ fewer => ?_
    exact (relax_yields mild ..).mono (fun _ => fewer.trans') fun _ => id
  · exact le_rfl

/-- Every visit uses up one of those that are left. -/
theorem settle_failsOnly (mild : Quantity.Mild α) (tolerance : Number) (cost : Square n α)
    (rowOf : Table n (Fin n)) {fuel : Nat} {s : Search n α} (enough : s.visitsLeft ≤ fuel) :
    FailsOnly Refused (settle tolerance cost rowOf fuel s).outcome := by
  induction fuel generalizing s with
  | zero =>
    have empty : s.queue = [] := by
      unfold Search.visitsLeft at enough
      exact List.eq_nil_of_length_eq_zero (by omega)
    unfold settle
    rw [empty]
    trivial
  | succ fuel ih =>
    unfold settle
    cases queue : s.queue with
    | nil => trivial
    | cons k rest =>
      have fewer : Search.visitsLeft { s with queue := rest } + 1 = s.visitsLeft := by
        unfold Search.visitsLeft
        rw [queue, List.length_cons]
        dsimp only
        omega
      simp only
      rw [Run.outcome_bind_of_ok Run.outcome_tick]
      refine Yields.outcome_bind (visit_yields mild tolerance cost rowOf k { s with queue := rest })
        fun s' left => ih ?_
      omega

theorem tightColumns_onlyTooLarge (mild : Quantity.Mild α) (cost : Square n α) (s : Search n α)
    (slack : Number) (i : Fin n) : OnlyTooLarge (tightColumns cost s slack i) :=
  FailsOnly.filterM fun _ _ => (mild.add _ _).bind fun _ _ => (mild.sub _ _).bind fun _ _ => trivial

theorem solveIn_failsOnly (mild : Quantity.Mild α) (cost : Square n α) (columnOf : Table n (Fin n))
    (tolerance : Number) : FailsOnly Refused (solveIn cost columnOf tolerance).outcome := by
  have tight : FailsOnly Refused
      (tightTable cost (Matching.ofColumns columnOf) tolerance).outcome := by
    refine Yields.outcome_bind (settle_failsOnly mild _ _ _ (Search.start_visitsLeft cost).le)
      fun s _ => ?_
    refine Yields.outcome_bind (OnlyTooLarge.arith (Number.combine_onlyTooLarge ..) (.inr rfl))
      fun slack _ => ?_
    exact Yields.outcome_bind (OnlyTooLarge.arith (FailsOnly.mapM fun i _ =>
      tightColumns_onlyTooLarge mild ..) (.inr rfl)) fun _ _ => trivial
  exact tight.outcome_bind fun _ _ => (FailsOnly.of_ok (settleRows_ok ..)).outcome_bind
    fun _ _ => trivial

end Lexicographic

theorem canonical_failsOnly (cost : Square n Number) (columnOf : Table n (Fin n))
    (tolerance : Number) :
    FailsOnly Lexicographic.Refused (canonical cost columnOf tolerance).outcome := by
  unfold canonical
  split
  · exact Lexicographic.solveIn_failsOnly Quantity.mild_int ..
  · exact Lexicographic.solveIn_failsOnly Quantity.mild_number ..

/-! ### Pairing -/

/-- What can keep the agents of a sound problem from being paired. -/
inductive Snag (costs : List (List Number)) : Failure → Prop
  | refused : Snag costs notOptimal
  | tooLarge : Snag costs (.fault .tooLarge)
  | endless (mixed : ∃ row ∈ costs, ∃ c ∈ row, c.int? = none) : Snag costs .endless

section Pairing

variable {costs : List (List Number)}

theorem Snag.of_refused {failure : Failure} (refused : Lexicographic.Refused failure) :
    Snag costs failure := by
  obtain rfl | rfl := refused
  · exact .refused
  · exact .tooLarge

/-- What an entry of the square is: a cost, or zero. -/
theorem pad_cases (costs : List (List Number)) (size : Nat) (i j : Fin size) :
    entry (pad (.int 0) size costs) i j = .int 0 ∨
      ∃ row ∈ costs, entry (pad (.int 0) size costs) i j ∈ row := by
  simp only [entry, pad, Table.get_tabulate]
  cases found : costs[i.val]?.bind (·[j.val]?) with
  | none => exact .inl rfl
  | some c =>
    obtain ⟨row, first, second⟩ := Option.bind_eq_some_iff.mp found
    exact .inr ⟨row, List.mem_of_getElem? first, List.mem_of_getElem? second⟩

theorem truncated_ok (whole : ∀ row ∈ costs, ∀ c ∈ row, c.isInteger = true) (size : Nat) :
    ∃ square, truncated (pad (.int 0) size costs) = .ok square := by
  have entries (i j : Fin size) : ∃ k, (entry (pad (.int 0) size costs) i j).Denotes k := by
    rcases pad_cases costs size i j with zero | ⟨row, listed, member⟩
    · exact ⟨0, by rw [zero]; exact Number.denotes_zero⟩
    · exact Number.exists_denotes (whole row listed _ member)
  choose square values using entries
  refine ⟨Table.tabulate fun i => Table.tabulate (square i), truncated_eq fun i j => ?_⟩
  rw [entry, entry, Table.get_tabulate, Table.get_tabulate]
  exact values i j

/-- The Hungarian method can be stuck only if some cost is no integer. -/
theorem hungarian_failsOnly (size : Nat) :
    FailsOnly (Snag costs) (hungarian (pad (.int 0) size costs)).outcome := by
  unfold hungarian
  split
  · exact FailsOnly.of_ok (Hungarian.solveIn_ok _)
  · rename_i mixed
    refine (Hungarian.solveIn_failsOnly Quantity.mild_number _).imp ?_
    rintro _ (rfl | rfl)
    · exact .tooLarge
    · refine .endless ?_
      by_contra! ints
      have whole : ∀ i j, (entry (pad (.int 0) size costs) i j).int?.isSome := by
        intro i j
        rcases pad_cases costs size i j with zero | ⟨row, listed, member⟩
        · rw [zero]
          rfl
        · exact Option.isSome_iff_ne_none.mpr (ints row listed _ member)
      unfold ints? at mixed
      rw [if_pos] at mixed
      · cases mixed
      · simpa [Table.values, List.all_eq_true] using whole

/-- Pairs of a rectangular matrix have a total, unless it is too large. -/
theorem totalOf_failsOnly {tasks : Nat} (width : ∀ row ∈ costs, row.length = tasks)
    {pairs : List (Nat × Nat)} (inside : ∀ q ∈ pairs, q.1 < costs.length ∧ q.2 < tasks) :
    FailsOnly (Snag costs) (totalOf costs pairs) := by
  refine FailsOnly.foldlM fun total q known => ?_
  obtain ⟨agent, task⟩ := inside q known
  have column : q.2 < costs[q.1].length := width _ (List.getElem_mem agent) ▸ task
  have found : costs[q.1]?.bind (·[q.2]?) = some costs[q.1][q.2] := by
    rw [List.getElem?_eq_getElem agent, Option.bind_some, List.getElem?_eq_getElem column]
  dsimp only
  rw [found]
  exact OnlyTooLarge.arith (Number.combine_onlyTooLarge ..) .tooLarge

/-- All that keeps agents from being paired is a snag, or that there are no agents or no tasks. -/
theorem solve_failsOnly {tasks : Nat} (width_eq : (costs.head?.map List.length).getD 0 = tasks)
    (width : ∀ row ∈ costs, row.length = tasks) (threshold tolerance : Number) :
    FailsOnly (fun failure => (∃ text, failure = .infeasible text) ∨ Snag costs failure)
      (solve costs threshold tolerance).outcome := by
  have canonical_snag {size : Nat} (cost : Square size Number) (columnOf : Table size (Fin size))
      (tolerance : Number) : FailsOnly (Snag costs) (canonical cost columnOf tolerance).outcome :=
    (canonical_failsOnly ..).imp fun _ => .of_refused
  -- whichever algorithm ran, the pairs of an assignment are added up at the end
  have concluded {size : Nat} (columnOf : Table size (Fin size)) (f : Number → Outcome) :
      FailsOnly (Snag costs) (Run.ofExcept (totalOf costs ((List.finRange size).filterMap fun i =>
        if i.val < costs.length ∧ (columnOf.get i).val < tasks then
          some (i.val, (columnOf.get i).val) else none)) >>= fun total => pure (f total)).outcome := by
    refine Yields.outcome_bind (totalOf_failsOnly width fun q known => ?_) fun _ _ => trivial
    obtain ⟨i, -, pair⟩ := List.mem_filterMap.mp known
    split at pair
    · rename_i inside
      cases pair
      exact inside
    · cases pair
  unfold solve
  dsimp only
  rw [width_eq]
  split
  · exact .inl ⟨_, rfl⟩
  · refine FailsOnly.imp ?_ fun _ => Or.inr
    split
    · rename_i some_row large
      have whole : ∀ row ∈ costs, ∀ c ∈ row, c.isInteger = true := by
        simpa [List.all_eq_true] using (Bool.and_eq_true_iff.mp large).1
      obtain ⟨square, parts⟩ := truncated_ok whole (max costs.length tasks)
      obtain ⟨columnOf, bids, ok, -⟩ := Auction.solve_cheapest square []
        (lt_max_of_lt_left (by omega))
      rw [Run.outcome_bind_of_ok (Run.outcome_arith_of_ok parts),
        beyond_eq_nil fun row known => (width row known).le.trans (le_max_right _ _),
        Run.outcome_bind_of_ok (a := []) rfl, Run.outcome_bind_of_ok ok]
      exact (canonical_snag ..).outcome_bind fun best _ => concluded best _
    · refine (hungarian_failsOnly _).outcome_bind fun found _ => ?_
      split
      · exact (canonical_snag ..).outcome_bind fun best _ => concluded best _
      · exact Yields.outcome_bind (OnlyTooLarge.arith (Number.combine_onlyTooLarge ..) .tooLarge)
          fun scaled _ => (canonical_snag ..).outcome_bind fun best _ => concluded best _

end Pairing

end Optima.Assignment
