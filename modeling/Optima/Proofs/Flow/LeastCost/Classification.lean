import Optima.Proofs.Flow.LeastCost.Outcome

/-!
Which failure the solver ends with. It reports a flow or a cost without bound exactly if there is
one, and that a demand cannot be routed exactly if no flow meets it; nothing else goes wrong
(`solve_classified`). The exception is the wording: it names integers, and integers from
`writtenBound` on cannot be written. The solver then ends with the fault of writing them instead,
as supplies show whose sum is too long while they are not (`not_infeasible_of_longest`).
-/

namespace Optima.Flow.LeastCost

variable {n : Nat} {links : List (Link n)} {demand : Demand n}

/-! ### What can be wrong with a problem -/

/-- As much as possible is asked for, and flows can be as large as one likes. -/
def ValueUnbounded (links : List (Link n)) : Demand n → Prop
  | .maximum source sink => ∀ bound, ∃ g w, bound ≤ w ∧ Routes links (transfer source sink w) g
  | _ => False

/-- Some flow meets the demand, and flows that do can be as cheap as one likes. -/
def CostUnbounded (links : List (Link n)) (demand : Demand n) : Prop :=
  (∃ f value, Meets links demand value f) ∧
    ∀ bound, ∃ g value, Meets links demand value g ∧ cost links g < bound

/-- A value or supplies are requested, and no flow meets them. -/
def Unroutable (links : List (Link n)) : Demand n → Prop
  | .maximum .. => False
  | demand => ¬ ∃ f value, Meets links demand value f

/-- Integers of not too many digits to be written. -/
def Short (i : Int) : Prop := i.natAbs < writtenBound

/-- The integers in the wording for a demand that cannot be routed can be written. -/
def Wordable (links : List (Link n)) : Demand n → Prop
  | .amount _ _ value => Short value
  | .maximum .. => True
  | .supplies supply => Short (needed links (.supplies supply))

/-- Nothing at all meets a request for nothing. -/
theorem routes_zero (capacitated : Capacitated links) :
    Routes links (fun _ => 0) fun _ => 0 :=
  ⟨fun k => ⟨le_rfl, capacitated (links.get k) (List.getElem_mem k.isLt)⟩, outflow_zero _ _⟩

/-! ### Flows without bound -/

/-- Going along links without capacity from the source to the sink takes any value there. -/
theorem valueUnbounded_of_path (capacitated : Capacitated links) {source sink : Fin n}
    (path : Relation.ReflTransGen (Free links) source sink) :
    ValueUnbounded links (.maximum source sink) := by
  intro bound
  obtain ⟨ks, walk⟩ := exists_walk path
  have nonneg : 0 ≤ max bound 0 := le_max_right _ _
  refine ⟨_, max bound 0, le_max_left _ _,
    (routes_zero capacitated).fits.add_loads walk nonneg, fun v => ?_⟩
  rw [netOut_add_loads _ walk, (routes_zero capacitated).balanced, zero_add]

theorem Routes.add_round {supply : Fin n → Int} {f : Fin links.length → Int}
    (routes : Routes links supply f) {ks : List (Fin links.length)} {w : Fin n}
    (round : FreeWalk links ks w w) {times : Int} (nonneg : 0 ≤ times) :
    Routes links supply fun k => f k + times * loads ks k := by
  refine ⟨routes.fits.add_loads round nonneg, fun v => ?_⟩
  rw [netOut_add_loads _ round, routes.balanced, transfer, sub_self, add_zero]

theorem Meets.add_round {value : Int} {f : Fin links.length → Int}
    (meets : Meets links demand value f) {ks : List (Fin links.length)} {w : Fin n}
    (round : FreeWalk links ks w w) {times : Int} (nonneg : 0 ≤ times) :
    Meets links demand value fun k => f k + times * loads ks k := by
  cases demand with
  | amount => exact ⟨meets.1, meets.2.add_round round nonneg⟩
  | maximum => exact ⟨meets.1.add_round round nonneg, meets.2⟩
  | supplies => exact ⟨meets.1, meets.2.add_round round nonneg⟩

/-- Going round where it saves cost makes what meets the demand as cheap as one likes. -/
theorem costUnbounded_of_round {value : Int} {f : Fin links.length → Int}
    (meets : Meets links demand value f) {ks : List (Fin links.length)} {w : Fin n}
    (round : FreeWalk links ks w w) (saves : walkCost links ks < 0) :
    CostUnbounded links demand := by
  refine ⟨⟨f, value, meets⟩, fun bound => ?_⟩
  have pos : 0 ≤ max (cost links f - bound) 0 + 1 := by omega
  refine ⟨_, value, meets.add_round round pos, ?_⟩
  rw [cost_add_loads]
  have step : (max (cost links f - bound) 0 + 1) * walkCost links ks ≤
      (max (cost links f - bound) 0 + 1) * -1 :=
    mul_le_mul_of_nonneg_left (by omega) pos
  omega

/-- Of what was found the cost has no bound just when there is a cycle of negative cost. -/
theorem Found.costUnbounded_iff {value : Int} {x : Fin links.length → Int}
    (found : Found links demand value x) :
    CostUnbounded links demand ↔ negativeCycle links = true := by
  constructor
  · rintro ⟨_, cheap⟩
    by_contra none_
    obtain ⟨g, w, meets, less⟩ := cheap (cost links x)
    have := found.least (Bool.eq_false_iff.mpr none_) meets
    omega
  · intro negative
    obtain ⟨ks, w, round, saves⟩ := exists_negative_walk negative
    exact costUnbounded_of_round found.meets round saves

/-! ### Wordings -/

theorem Short.mono {i j : Int} (short : Short i) (le : j.natAbs ≤ i.natAbs) : Short j :=
  Nat.lt_of_le_of_lt le short

theorem written_of_short {i : Int} (short : Short i) :
    (Number.int i).written = .ok (toString i) := by
  unfold Short at short
  rw [Number.written, Optima.written, if_pos short]

theorem written_of_long {i : Int} (long : ¬ Short i) :
    (Number.int i).written = .error .unwritable := by
  unfold Short at long
  rw [Number.written, Optima.written, if_neg long]

/-- A wording that names one integer. -/
theorem worded_written (kind : ErrorKind) (i : Int) (words : String → String) :
    (Short i → Failure.worded kind ((Number.int i).written >>= fun text =>
      pure (words text)) = .known kind (words (toString i))) ∧
    (¬ Short i → Failure.worded kind ((Number.int i).written >>= fun text =>
      pure (words text)) = .fault .unwritable) := by
  refine ⟨fun short => ?_, fun long => ?_⟩
  · rw [written_of_short short]
    rfl
  · rw [written_of_long long]
    rfl

/-- What is said of a demand that cannot be routed, if it can be said. -/
theorem notRouted_eq {shipped : Int} (nonneg : 0 ≤ shipped) (less : shipped < needed links demand) :
    (Wordable links demand → ∃ text, notRouted demand shipped (needed links demand) =
      .known .infeasible text) ∧
    (¬ Wordable links demand → notRouted demand shipped (needed links demand) =
      .fault .unwritable) := by
  cases demand with
  | amount source sink value =>
    obtain ⟨can, cannot⟩ := worded_written .infeasible value fun text =>
      "requested flow of " ++ text ++ " cannot be routed from source to sink"
    exact ⟨fun short => ⟨_, can short⟩, cannot⟩
  | maximum source sink => exact ⟨fun _ => ⟨_, rfl⟩, fun never => absurd trivial never⟩
  | supplies supply =>
    obtain ⟨can, cannot⟩ := worded_written .infeasible (needed links (.supplies supply)) fun text =>
      "only " ++ toString shipped ++ " of " ++ text ++ " units of supply could be routed"
    by_cases shorter : Short shipped
    · have first : (Number.int shipped).written = pure (toString shipped) :=
        written_of_short shorter
      rw [notRouted, supplyNotRouted, first, pure_bind]
      exact ⟨fun short => ⟨_, can short⟩, cannot⟩
    · have long : ¬ Short (needed links (.supplies supply)) :=
        fun short => shorter (short.mono (by omega))
      rw [notRouted, supplyNotRouted, written_of_long shorter]
      exact ⟨fun short => absurd short long, fun _ => rfl⟩

/-! ### How the solver ends -/

/-- The demand of a problem whose links without capacity lead from the source to the sink. -/
theorem maximum_of_limitless (limitless_ : limitless links demand = true) :
    ∃ source sink, demand = .maximum source sink ∧
      Relation.ReflTransGen (Free links) source sink := by
  cases demand with
  | amount => cases limitless_
  | maximum source sink => exact ⟨source, sink, rfl, (unboundedPath_iff source sink).mp limitless_⟩
  | supplies => cases limitless_

/-- If no amounts at all go with the balances, something that cannot be routed was requested. -/
theorem unroutable_of_not_routes (capacitated : Capacitated links)
    (none_ : ¬ ∃ f, Routes links demand.balance f) :
    Unroutable links demand ∧ ¬ ValueUnbounded links demand ∧ ¬ CostUnbounded links demand := by
  cases demand with
  | amount source sink value =>
    have notMet : ¬ ∃ f value', Meets links (.amount source sink value) value' f := by
      rintro ⟨f, _, rfl, routes⟩
      exact none_ ⟨f, routes⟩
    exact ⟨notMet, id, fun cheap => notMet cheap.1⟩
  | maximum => exact absurd ⟨_, routes_zero capacitated⟩ none_
  | supplies supply =>
    have notMet : ¬ ∃ f value, Meets links (.supplies supply) value f := by
      rintro ⟨f, _, _, routes⟩
      exact none_ ⟨f, routes⟩
    exact ⟨notMet, id, fun cheap => notMet cheap.1⟩

/-- Where something was found, the demand can be routed and values have a bound. -/
theorem Found.routable {value : Int} {x : Fin links.length → Int}
    (found : Found links demand value x) :
    ¬ Unroutable links demand ∧ ¬ ValueUnbounded links demand := by
  have meets := found.meets
  cases demand with
  | amount => exact ⟨fun never => never ⟨x, value, meets⟩, id⟩
  | maximum source sink =>
    refine ⟨id, fun unbounded => ?_⟩
    obtain ⟨g, w, above, routes⟩ := unbounded (value + 1)
    have := meets.2 g w routes
    omega
  | supplies => exact ⟨fun never => never ⟨x, value, meets⟩, id⟩

/-- What is wrong with a problem, and what the solver makes of it. -/
theorem solve_ends (capacitated : Capacitated links) (admitted : Admitted demand) :
    (ValueUnbounded links demand ∧ ¬ Unroutable links demand ∧
      (solve links demand).outcome = .error unboundedFlow) ∨
    (Unroutable links demand ∧ ¬ ValueUnbounded links demand ∧ ¬ CostUnbounded links demand ∧
      ∃ shipped, 0 ≤ shipped ∧ shipped < needed links demand ∧
        (solve links demand).outcome =
          .error (notRouted demand shipped (needed links demand))) ∨
    (CostUnbounded links demand ∧ ¬ Unroutable links demand ∧ ¬ ValueUnbounded links demand ∧
      (solve links demand).outcome = .error unboundedCost) ∨
    (¬ CostUnbounded links demand ∧ ¬ Unroutable links demand ∧ ¬ ValueUnbounded links demand ∧
      ∃ o, (solve links demand).outcome = .ok o) := by
  rcases solve_cases capacitated admitted with
    ⟨limitless_, ended⟩ | ⟨_, none_, ended⟩ | ⟨_, value, x, augmentations, found, ended⟩
  · obtain ⟨source, sink, rfl, path⟩ := maximum_of_limitless limitless_
    exact .inl ⟨valueUnbounded_of_path capacitated path, id, ended⟩
  · obtain ⟨unroutable, values, costs⟩ := unroutable_of_not_routes capacitated none_
    exact .inr (.inl ⟨unroutable, values, costs, ended⟩)
  · obtain ⟨routable, values⟩ := found.routable
    have cheap := found.costUnbounded_iff
    cases negative : negativeCycle links with
    | true =>
      rw [negative, if_pos rfl] at ended
      exact .inr (.inr (.inl ⟨cheap.mpr negative, routable, values, ended⟩))
    | false =>
      rw [negative, if_neg Bool.false_ne_true] at ended
      have bounded : ¬ CostUnbounded links demand := by
        rw [cheap, negative]
        exact Bool.false_ne_true
      exact .inr (.inr (.inr ⟨bounded, routable, values, _, ended⟩))

/-- What is to be said of a demand that nothing meets: that it cannot be routed, as long as the
integers of the wording can be written. -/
def SaysUnroutable (links : List (Link n)) (demand : Demand n)
    (outcome : Except Failure Outcome) : Prop :=
  (Wordable links demand → ∃ text, outcome = .error (.known .infeasible text)) ∧
  (¬ Wordable links demand → outcome = .error (.fault .unwritable))

theorem solve_unroutable (capacitated : Capacitated links) (admitted : Admitted demand)
    (unroutable : Unroutable links demand) :
    SaysUnroutable links demand (solve links demand).outcome := by
  rcases solve_ends capacitated admitted with ⟨_, routable, _⟩ |
    ⟨_, _, _, shipped, nonneg, less, ended⟩ | ⟨_, routable, _⟩ | ⟨_, routable, _⟩
  · exact absurd unroutable routable
  · obtain ⟨can, cannot⟩ := notRouted_eq nonneg less
    rw [SaysUnroutable, ended]
    refine ⟨fun short => ?_, fun long => by rw [cannot long]⟩
    obtain ⟨text, said⟩ := can short
    exact ⟨text, by rw [said]⟩
  · exact absurd unroutable routable
  · exact absurd unroutable routable

/-- The solver reports a flow or a cost without bound, and a demand that cannot be routed, exactly
where they are, as long as it can write what it has to say; in all other cases it returns an
outcome. -/
theorem solve_classified (capacitated : Capacitated links) (admitted : Admitted demand) :
    ((∃ text, (solve links demand).outcome = .error (.known .unbounded text)) ↔
      ValueUnbounded links demand ∨ CostUnbounded links demand) ∧
    ((∃ text, (solve links demand).outcome = .error (.known .infeasible text)) ↔
      Unroutable links demand ∧ Wordable links demand) ∧
    ((solve links demand).outcome = .error (.fault .unwritable) ↔
      Unroutable links demand ∧ ¬ Wordable links demand) ∧
    ((∃ o, (solve links demand).outcome = .ok o) ↔ ¬ ValueUnbounded links demand ∧
      ¬ CostUnbounded links demand ∧ ¬ Unroutable links demand) ∧
    ∀ failure, (solve links demand).outcome = .error failure →
      failure.kind = .internalSolverError → failure = .fault .unwritable := by
  rcases solve_ends capacitated admitted with ⟨values, routable, ended⟩ |
    ⟨unroutable, values, costs, shipped, nonneg, less, ended⟩ |
    ⟨costs, routable, values, ended⟩ | ⟨costs, routable, values, o, ended⟩
  · simp [ended, values, routable, unboundedFlow, Failure.unbounded, Failure.kind]
  · obtain ⟨can, cannot⟩ := notRouted_eq nonneg less
    by_cases wordable : Wordable links demand
    · obtain ⟨text, said⟩ := can wordable
      simp [ended, said, values, costs, unroutable, wordable, Failure.kind]
    · simp [ended, cannot wordable, values, costs, unroutable, wordable]
  · simp [ended, values, costs, routable, unboundedCost, Failure.unbounded, Failure.kind]
  · simp [ended, values, costs, routable]

/-- A link to use, and a way round on which every unit saves cost. -/
def savingRound : List (Link 2) := [⟨0, 1, some 1, 3⟩, ⟨0, 1, none, 1⟩, ⟨1, 0, none, -2⟩]

/-- The solver reports that costs have no bound, and so they have none. -/
theorem costUnbounded_savingRound :
    Capacitated savingRound ∧ Admitted (.amount (0 : Fin 2) 1 1) ∧
      (solve savingRound (.amount 0 1 1)).outcome = .error unboundedCost ∧
      CostUnbounded savingRound (.amount 0 1 1) := by
  have capacitated : Capacitated savingRound := by simp [Capacitated, savingRound]
  have admitted : Admitted (.amount (0 : Fin 2) 1 1) := ⟨by decide, by decide⟩
  have ended : (solve savingRound (.amount 0 1 1)).outcome = .error unboundedCost := by
    decide +kernel
  have classified := solve_classified capacitated admitted
  exact ⟨capacitated, admitted, ended, (classified.1.mp ⟨_, ended⟩).resolve_left id⟩

/-! ### A wording that cannot be written -/

/-- Two supplies and two demands of one amount. -/
def pairedSupplies (a : Int) : Table 4 Int := #v[a, a, -a, -a]

theorem admitted_pairedSupplies (a : Int) : Admitted (.supplies (pairedSupplies a)) := by
  show ∑ v, (pairedSupplies a).get v = 0
  rw [Fin.sum_univ_four]
  show a + a + -a + -a = 0
  omega

/-- Without links they cannot be routed. -/
theorem unroutable_pairedSupplies {a : Int} (pos : 0 < a) :
    Unroutable [] (.supplies (pairedSupplies a)) := by
  rintro ⟨f, _, _, routes⟩
  have supplied : netOut [] f 0 = a := routes.balanced 0
  have level : netOut [] f (0 : Fin 4) = 0 := rfl
  omega

theorem needed_pairedSupplies {a : Int} (pos : 0 < a) :
    needed [] (.supplies (pairedSupplies a)) = 2 * a := by
  have balance : ∀ v, (balances [] (ceiling [] (.supplies (pairedSupplies a)))
      (.supplies (pairedSupplies a))).get v = (pairedSupplies a).get v := by
    intro v
    rw [balances_eq]
    exact sub_zero _
  rw [needed, required, total_pos_eq]
  simp only [balance, Fin.sum_univ_four]
  show max a 0 + max a 0 + max (-a) 0 + max (-a) 0 = 2 * a
  omega

/-- The greatest integer that can be written. -/
def longest : Int := writtenBound - 1

theorem longest_pos : 0 < longest := by
  have two : 2 ≤ writtenBound := by decide +kernel
  unfold longest
  generalize writtenBound = bound at two
  omega

theorem longest_short : Short longest ∧ ¬ Short (2 * longest) := by
  have pos := longest_pos
  unfold Short longest at *
  generalize writtenBound = bound at *
  omega

/-- Nothing can route supplies of this integer, but the solver ends with another failure than
that. -/
theorem not_infeasible_of_longest :
    Capacitated ([] : List (Link 4)) ∧ Admitted (.supplies (pairedSupplies longest)) ∧
      Unroutable [] (.supplies (pairedSupplies longest)) ∧
      (solve [] (.supplies (pairedSupplies longest))).outcome = .error (.fault .unwritable) ∧
      ¬ ∃ text, (solve [] (.supplies (pairedSupplies longest))).outcome =
        .error (.known .infeasible text) := by
  have capacitated : Capacitated ([] : List (Link 4)) := nofun
  have admitted := admitted_pairedSupplies longest
  have unroutable := unroutable_pairedSupplies longest_pos
  have long : ¬ Wordable [] (.supplies (pairedSupplies longest)) := by
    rw [Wordable, needed_pairedSupplies longest_pos]
    exact longest_short.2
  have ended : (solve [] (.supplies (pairedSupplies longest))).outcome =
      .error (.fault .unwritable) :=
    (solve_unroutable capacitated admitted unroutable).2 long
  refine ⟨capacitated, admitted, unroutable, ended, ?_⟩
  rintro ⟨text, said⟩
  rw [ended] at said
  cases said

end Optima.Flow.LeastCost
