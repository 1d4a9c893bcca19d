import Optima.Proofs.Flow.LeastCost.Stages

/-!
What the solver ends with, one of three: a flow can be as large as one likes, the demand cannot be
routed, or there are amounts that meet it. In the last case the amounts are as cheap as can be
unless links without capacity contain a cycle of negative cost (`solve_cases`), and then no
amounts are.
-/

namespace Optima.Flow.LeastCost

variable {n : Nat} {links : List (Link n)} {demand : Demand n}

/-- The network of a problem, its balances supplied. -/
abbrev problemNetwork (links : List (Link n)) (demand : Demand n) :
    Network (n + 2) (edgeCount links (ceiling links demand)
      (balances links (ceiling links demand) demand)) :=
  prepared links (ceiling links demand) (balances links (ceiling links demand) demand)

/-- What the balances require. -/
abbrev needed (links : List (Link n)) (demand : Demand n) : Int :=
  required (balances links (ceiling links demand) demand)

theorem needed_nonneg (links : List (Link n)) (demand : Demand n) : 0 ≤ needed links demand := by
  rw [needed, required, total_pos_eq]
  exact Finset.sum_nonneg fun v _ => le_max_right _ _

theorem Admitted.sum_balances (admitted : Admitted demand) (big : Int) :
    ∑ v, (balances links big demand).get v = 0 := by
  simp only [balances_eq, Finset.sum_sub_distrib, admitted.sum_balance, sum_netOut_eq_zero,
    sub_zero]

/-- The first stage ends, with everything shipped or the drain out of reach. -/
theorem first_stage (capacitated : Capacitated links) (admitted : Admitted demand) :
    ∃ first, (augment (problemNetwork links demand) (Table.fill (n + 2) 0) (hub n) (drain n)
        (some (needed links demand))).outcome = .ok first ∧
      Augmenting (problemNetwork links demand) (hub n) (drain n)
        (some (needed links demand)) first ∧
      (first.shipped = needed links demand ∨ ¬ first.network.Reaches (hub n) (drain n)) := by
  have rooms : ∀ k : Fin links.length, 0 ≤ (links.get k).room (ceiling links demand) := fun k =>
    room_nonneg capacitated (ceiling_pos capacitated admitted).le (List.getElem_mem k.isLt)
  have asked : ∀ x ∈ some (needed links demand), 0 ≤ x := by
    intro x mem
    rw [← Option.some.inj mem]
    exact needed_nonneg links demand
  obtain ⟨first, result, inv, ended⟩ :=
    augment_ends hub_ne_drain (sound_prepared rooms) (dual_prepared rooms) asked
  exact ⟨first, result, inv, ended.imp_left fun full => (Option.some.inj full).symm⟩

/-- Once all that is required has been shipped, links send on what is requested, and what goes from
node to node besides. -/
theorem netOut_of_shipped (admitted : Admitted demand)
    {net : Network (n + 2) (edgeCount links (ceiling links demand)
      (balances links (ceiling links demand) demand))}
    (edges : net.edges = (problemNetwork links demand).edges) (sound : net.Sound)
    (extra : Fin n → Int)
    (hub_eq : net.outflow (hub n) = needed links demand)
    (drain_eq : net.outflow (drain n) = -needed links demand)
    (inner_eq : ∀ v, net.outflow (inner v) =
      netOut links (fun k => (links.get k).initial (ceiling links demand)) v + extra v)
    (v : Fin n) :
    netOut links (linkFlow net) v = demand.balance v + extra v := by
  have full := filled edges sound (admitted.sum_balances _) hub_eq drain_eq
  rw [netOut_eq edges full, inner_eq, balances_eq]
  omega

/-- The balances of the network before anything was augmented. -/
theorem outflow_problem (links : List (Link n)) (demand : Demand n) :
    (problemNetwork links demand).outflow (hub n) = 0 ∧
      (problemNetwork links demand).outflow (drain n) = 0 ∧
      ∀ v, (problemNetwork links demand).outflow (inner v) =
        netOut links (fun k => (links.get k).initial (ceiling links demand)) v := by
  refine ⟨?_, ?_, fun v => ?_⟩
  · rw [outflow_prepared, linksOutflow_hub]
  · rw [outflow_prepared, linksOutflow_drain]
  · rw [outflow_prepared, linksOutflow_inner]

section First

variable {first : State (n + 2) (edgeCount links (ceiling links demand)
    (balances links (ceiling links demand) demand))}
  (inv : Augmenting (problemNetwork links demand) (hub n) (drain n)
    (some (needed links demand)) first)
  (shipped : first.shipped = needed links demand)

include inv shipped

theorem outflow_first :
    first.network.outflow (hub n) = needed links demand ∧
      first.network.outflow (drain n) = -needed links demand ∧
      ∀ v, first.network.outflow (inner v) =
        netOut links (fun k => (links.get k).initial (ceiling links demand)) v := by
  obtain ⟨at_hub, at_drain, at_inner⟩ := outflow_problem links demand
  refine ⟨?_, ?_, fun v => ?_⟩
  · rw [inv.outflow, at_hub, shipped, if_pos rfl, if_neg hub_ne_drain]
    omega
  · rw [inv.outflow, at_drain, shipped, if_neg drain_ne_hub, if_pos rfl]
    omega
  · rw [inv.outflow, at_inner, if_neg (inner_ne_hub v), if_neg (inner_ne_drain v)]
    omega

/-- What is requested is met after the first stage. -/
theorem routes_first (admitted : Admitted demand) :
    Routes links demand.balance (linkFlow first.network) := by
  obtain ⟨at_hub, at_drain, at_inner⟩ := outflow_first inv shipped
  refine ⟨(slack_of_dual inv.edges inv.sound inv.dual).fits, fun v => ?_⟩
  rw [netOut_of_shipped admitted inv.edges inv.sound (fun _ => 0) at_hub at_drain
    fun v => (at_inner v).trans (add_zero _).symm, add_zero]

/-- A demand of fixed supplies is met by what the first stage ends with. -/
theorem found_first (capacitated : Capacitated links) (admitted : Admitted demand) {value : Int}
    (meets : Meets links demand value (linkFlow first.network)) :
    Found links demand value (linkFlow first.network) := by
  have slack := slack_of_dual inv.edges inv.sound inv.dual
  have routes := routes_first inv shipped admitted
  refine ⟨meets, ⟨_, slack⟩, returns_of_sum_le capacitated slack.nonneg
    (fun k => (slack.fits k).2) (asked demand) (ceiling_eq links demand) fun inside => ?_⟩
  classical
  have demands := admitted.neg_le_sum_balance inside
  convert demands using 4 with v
  exact routes.balanced v

end First

/-- The second stage ends with a flow of the greatest value. -/
theorem second_stage {source sink : Fin n} (capacitated : Capacitated links) (apart : source ≠ sink)
    (no_path : ¬ Relation.ReflTransGen (Free links) source sink)
    {first : State (n + 2) (edgeCount links (ceiling links (.maximum source sink))
      (balances links (ceiling links (.maximum source sink)) (.maximum source sink)))}
    (inv : Augmenting (problemNetwork links (.maximum source sink)) (hub n) (drain n)
      (some (needed links (.maximum source sink))) first)
    (shipped : first.shipped = needed links (.maximum source sink)) :
    ∃ last, (augment first.network first.potential (inner source) (inner sink) none).outcome =
        .ok last ∧
      Found links (.maximum source sink) last.shipped (linkFlow last.network) := by
  have unlimited : ∀ x ∈ (none : Option Int), 0 ≤ x := nofun
  have admitted : Admitted (.maximum source sink) := apart
  obtain ⟨last, result, inv', ended⟩ :=
    augment_ends (inner_inj.not.mpr apart) inv.sound inv.dual unlimited
  have stuck : ¬ last.network.Reaches (inner source) (inner sink) := ended.resolve_left nofun
  have edges := inv'.edges.trans inv.edges
  have slack := slack_of_dual edges inv'.sound inv'.dual
  obtain ⟨at_hub, at_drain, at_inner⟩ := outflow_first inv shipped
  have sends : ∀ v, netOut links (linkFlow last.network) v =
      transfer source sink last.shipped v := by
    intro v
    rw [netOut_of_shipped admitted edges inv'.sound (transfer source sink last.shipped)]
    · exact zero_add _
    · rw [inv'.outflow, at_hub, if_neg (hub_ne_inner source), if_neg (hub_ne_inner sink)]
      omega
    · rw [inv'.outflow, at_drain, if_neg (drain_ne_inner source), if_neg (drain_ne_inner sink)]
      omega
    · intro v
      rw [inv'.outflow, at_inner]
      simp only [inner_inj, transfer]
      omega
  have big_eq : ceiling links (.maximum source sink) =
      ∑ k : Fin links.length, (links.get k).capacity.getD 0 + 1 := by
    rw [ceiling_eq, asked, add_zero]
  refine ⟨last, result, ⟨⟨slack.fits, sends⟩, fun g w routes => ?_⟩, ⟨_, slack⟩, ?_⟩
  · exact value_le_shipped capacitated edges inv'.sound slack.fits sends stuck no_path big_eq routes
  · exact returns_of_no_path capacitated slack.nonneg (fun k => (slack.fits k).2) big_eq sends
      inv'.nonneg no_path

/-! ### The three ways to end -/

/-- What is still to be done when the first stage has shipped everything. -/
def remainder (links : List (Link n)) (demand : Demand n)
    (first : State (n + 2) (edgeCount links (ceiling links demand)
      (balances links (ceiling links demand) demand))) : Run Failure Outcome := do
  let last ← match demand with
    | .maximum source sink =>
        augment first.network first.potential (inner source) (inner sink) none
    | _ => pure { first with augmentations := 0 }
  if negativeCycle links then
    Run.fail unboundedCost
  else
    let flows := last.network.flow.values.take links.length
    let cost := total ((links.zip flows).map fun (link, f) => f * link.cost)
    return ⟨delivered links flows demand, cost, flows,
      first.augmentations + last.augmentations⟩

theorem solve_eq (links : List (Link n)) (demand : Demand n) :
    solve links demand = if limitless links demand then Run.fail unboundedFlow
      else (do
        let first ← augment (problemNetwork links demand) (Table.fill (n + 2) 0) (hub n) (drain n)
          (some (needed links demand))
        if first.shipped < needed links demand then
          Run.fail (notRouted demand first.shipped (needed links demand))
        else remainder links demand first) := by
  cases demand <;> rfl

/-- The remainder ends with amounts that meet the demand, unless their cost has no bound. -/
theorem remainder_ends (capacitated : Capacitated links) (admitted : Admitted demand)
    (limited : limitless links demand = false)
    {first : State (n + 2) (edgeCount links (ceiling links demand)
      (balances links (ceiling links demand) demand))}
    (inv : Augmenting (problemNetwork links demand) (hub n) (drain n)
      (some (needed links demand)) first)
    (shipped : first.shipped = needed links demand) :
    ∃ value x augmentations, Found links demand value x ∧
      (remainder links demand first).outcome = if negativeCycle links then .error unboundedCost
        else .ok ⟨value, cost links x, List.ofFn x, augmentations⟩ := by
  have ended : ∀ {value} (last : State (n + 2) (edgeCount links (ceiling links demand)
      (balances links (ceiling links demand) demand))),
      Found links demand value (linkFlow last.network) →
      (if negativeCycle links then Run.fail unboundedCost else pure (Outcome.mk
        (delivered links (last.network.flow.values.take links.length) demand)
        (total ((links.zip (last.network.flow.values.take links.length)).map
          fun (link, f) => f * link.cost))
        (last.network.flow.values.take links.length)
        (first.augmentations + last.augmentations))).outcome =
      if negativeCycle links then .error unboundedCost
        else .ok ⟨value, cost links (linkFlow last.network), List.ofFn (linkFlow last.network),
          first.augmentations + last.augmentations⟩ := by
    intro value last found
    rw [take_values, delivered_eq admitted found.meets, total_zip_ofFn]
    split <;> rfl
  have routes := routes_first inv shipped admitted
  cases demand with
  | amount source sink value =>
    have found := found_first inv shipped capacitated admitted ⟨rfl, routes⟩
    exact ⟨value, _, _, found, ended { first with augmentations := 0 } found⟩
  | supplies supply =>
    have found := found_first inv shipped capacitated admitted ⟨rfl, routes⟩
    exact ⟨_, _, _, found, ended { first with augmentations := 0 } found⟩
  | maximum source sink =>
    have no_path : ¬ Relation.ReflTransGen (Free links) source sink := by
      rw [← unboundedPath_iff]
      exact Bool.eq_false_iff.mp limited
    obtain ⟨last, result, found⟩ := second_stage capacitated admitted no_path inv shipped
    refine ⟨last.shipped, _, first.augmentations + last.augmentations, found, ?_⟩
    rw [remainder, Run.outcome_bind_of_ok result]
    exact ended last found

/-- The solver ends in one of three ways. -/
theorem solve_cases (capacitated : Capacitated links) (admitted : Admitted demand) :
    (limitless links demand = true ∧ (solve links demand).outcome = .error unboundedFlow) ∨
    (limitless links demand = false ∧ (¬ ∃ f, Routes links demand.balance f) ∧
      ∃ shipped, 0 ≤ shipped ∧ shipped < needed links demand ∧
        (solve links demand).outcome =
          .error (notRouted demand shipped (needed links demand))) ∨
    (limitless links demand = false ∧ ∃ value x augmentations, Found links demand value x ∧
      (solve links demand).outcome = if negativeCycle links then .error unboundedCost
        else .ok ⟨value, cost links x, List.ofFn x, augmentations⟩) := by
  rw [solve_eq]
  cases limited : limitless links demand with
  | true => exact .inl ⟨rfl, rfl⟩
  | false =>
    obtain ⟨first, result, inv, ended⟩ := first_stage capacitated admitted
    have le : first.shipped ≤ needed links demand := inv.within _ rfl
    rw [if_neg Bool.false_ne_true, Run.outcome_bind_of_ok result]
    by_cases less : first.shipped < needed links demand
    · have stuck := ended.resolve_left less.ne
      refine .inr (.inl ⟨rfl, ?_, first.shipped, inv.nonneg, less, ?_⟩)
      · exact not_routable capacitated admitted inv.edges inv.sound inv.outflow stuck less
      · rw [if_pos less]
        rfl
    · rw [if_neg less]
      exact .inr (.inr ⟨rfl, remainder_ends capacitated admitted limited inv
        (le_antisymm le (not_lt.mp less))⟩)

/-- Where links without capacity contain no cycle of negative cost, what was found costs least. -/
theorem Found.least {value : Int} {x : Fin links.length → Int} (found : Found links demand value x)
    (none_ : negativeCycle links = false) {g : Fin links.length → Int} {w : Int}
    (meets : Meets links demand w g) : cost links x ≤ cost links g := by
  obtain ⟨p, slack⟩ := found.slack
  obtain ⟨h, potentials⟩ := exists_potentials none_
  have free := slack.free_nonneg found.returns potentials
  have own := found.meets
  cases demand with
  | amount source sink asked =>
    obtain ⟨rfl, own⟩ := own
    obtain ⟨rfl, meets⟩ := meets
    exact slack.least free meets.fits fun v => (meets.balanced v).trans (own.balanced v).symm
  | maximum source sink =>
    have same : w = value := le_antisymm (own.2 g w meets.1) (meets.2 x value own.1)
    subst same
    exact slack.least free meets.1.fits fun v => (meets.1.balanced v).trans (own.1.balanced v).symm
  | supplies supply =>
    exact slack.least free meets.2.fits fun v =>
      (meets.2.balanced v).trans (own.2.balanced v).symm

/-- What the solver returns meets the demand, with links without capacity unlimited, and nothing
that meets it costs less. -/
theorem solve_least (capacitated : Capacitated links) (admitted : Admitted demand) {o : Outcome}
    (returned : (solve links demand).outcome = .ok o) :
    ∃ f : Fin links.length → Int, o.edgeFlows = List.ofFn f ∧ Meets links demand o.flowValue f ∧
      o.totalCost = cost links f ∧ ∀ g w, Meets links demand w g → o.totalCost ≤ cost links g := by
  rcases solve_cases capacitated admitted with
    ⟨_, ended⟩ | ⟨_, _, _, _, _, ended⟩ | ⟨_, value, x, augmentations, found, ended⟩
  · rw [ended] at returned
    cases returned
  · rw [ended] at returned
    cases returned
  · rw [ended] at returned
    cases negative : negativeCycle links with
    | true =>
      rw [negative, if_pos rfl] at returned
      cases returned
    | false =>
      rw [negative, if_neg Bool.false_ne_true] at returned
      obtain rfl := Except.ok.inj returned
      exact ⟨x, rfl, found.meets, rfl, fun g w meets => found.least negative meets⟩

deriving instance DecidableEq for Outcome

/-- Links with parallel ways, a loop that saves cost, and links without capacity. -/
def parallelWays : List (Link 3) :=
  [⟨0, 1, some 2, 1⟩, ⟨0, 2, none, 5⟩, ⟨1, 2, none, -1⟩, ⟨2, 2, some 1, -2⟩]

/-- Three units over the parallel ways. -/
theorem solve_least_parallelWays :
    Capacitated parallelWays ∧ Admitted (.amount (0 : Fin 3) 2 3) ∧
      (solve parallelWays (.amount 0 2 3)).outcome = .ok ⟨3, 3, [2, 1, 2, 1], 3⟩ ∧
      ∃ f : Fin parallelWays.length → Int, [2, 1, 2, 1] = List.ofFn f ∧
        Meets parallelWays (.amount 0 2 3) 3 f ∧ 3 = cost parallelWays f ∧
        ∀ g w, Meets parallelWays (.amount 0 2 3) w g → 3 ≤ cost parallelWays g := by
  have capacitated : Capacitated parallelWays := by simp [Capacitated, parallelWays]
  have admitted : Admitted (.amount (0 : Fin 3) 2 3) := ⟨by decide, by decide⟩
  have returned : (solve parallelWays (.amount 0 2 3)).outcome = .ok ⟨3, 3, [2, 1, 2, 1], 3⟩ := by
    decide +kernel
  exact ⟨capacitated, admitted, returned, solve_least capacitated admitted returned⟩

end Optima.Flow.LeastCost
