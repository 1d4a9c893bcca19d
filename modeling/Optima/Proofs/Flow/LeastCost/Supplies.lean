import Optima.Proofs.Flow.LeastCost.Classification

/-!
An amount from a source to a sink, written as supplies. What is asked for in all and what is asked of
each node are the same in both writings (`asked_oneWay`, `balance_oneWay`), and from there on a
demand of fixed supplies enters only into the wording of a failure and into the value that is
reported (`sendFixed`). The value that leaves the source is the one that is supplied, so the outcomes
are the same (`solve_oneWay`).

The wordings are not. One names the amount, the other what the network is to ship in all, with the
first flows of links that save cost, and each can be too long to be written while the other is not
(`solve_oneWay_differs`).
-/

namespace Optima.Flow.LeastCost

variable {n : Nat} {links : List (Link n)} {source sink : Fin n} {value : Int}

/-! ### An amount as supplies -/

/-- Supplies that send an amount from a source to a sink. -/
def oneWay (source sink : Fin n) (value : Int) : Table n Int :=
  Table.tabulate fun v => if v = source then value else if v = sink then -value else 0

theorem get_oneWay (apart : source ≠ sink) (value : Int) :
    (oneWay source sink value).get = transfer source sink value := by
  funext v
  rw [oneWay, Table.get_tabulate, transfer]
  by_cases first : v = source
  · have other : v ≠ sink := fun same => apart (first.symm.trans same)
    rw [if_pos first, if_pos first, if_neg other, sub_zero]
  · rw [if_neg first, if_neg first, zero_sub, apply_ite Neg.neg, neg_zero]

theorem sum_max_oneWay (apart : source ≠ sink) (nonneg : 0 ≤ value) :
    ∑ v, max ((oneWay source sink value).get v) 0 = value := by
  have parts : ∀ v, max ((oneWay source sink value).get v) 0 = if v = source then value else 0 := by
    intro v
    rw [get_oneWay apart, transfer]
    split <;> split <;> omega
  simp only [parts, Finset.sum_ite_eq', Finset.mem_univ, if_true]

/-- Both writings ask for as much in all. -/
theorem asked_oneWay (apart : source ≠ sink) (nonneg : 0 ≤ value) :
    asked (.supplies (oneWay source sink value)) = asked (.amount source sink value) :=
  (total_pos_eq _).trans (sum_max_oneWay apart nonneg)

/-- Both writings ask the same of each node. -/
theorem balance_oneWay (apart : source ≠ sink) (value : Int) :
    (Demand.supplies (oneWay source sink value)).balance =
      (Demand.amount source sink value).balance :=
  get_oneWay apart value

theorem ceiling_oneWay (apart : source ≠ sink) (nonneg : 0 ≤ value) :
    ceiling links (.supplies (oneWay source sink value)) =
      ceiling links (.amount source sink value) := by
  rw [ceiling_eq, ceiling_eq, asked_oneWay apart nonneg]

theorem balances_oneWay (apart : source ≠ sink) (big : Int) :
    balances links big (.supplies (oneWay source sink value)) =
      balances links big (.amount source sink value) := by
  refine Table.ext fun v => ?_
  rw [balances_eq, balances_eq, balance_oneWay apart]

theorem admitted_oneWay (apart : source ≠ sink) (nonneg : 0 ≤ value) :
    Admitted (.supplies (oneWay source sink value)) := by
  have admitted : Admitted (.amount source sink value) := ⟨apart, nonneg⟩
  have sum := admitted.sum_balance
  rwa [← balance_oneWay apart] at sum

/-- What meets one of them meets the other. -/
theorem meets_oneWay (apart : source ≠ sink) (nonneg : 0 ≤ value) {w : Int}
    {f : Fin links.length → Int} :
    Meets links (.supplies (oneWay source sink value)) w f ↔
      Meets links (.amount source sink value) w f := by
  unfold Meets
  dsimp only
  rw [sum_max_oneWay apart nonneg, get_oneWay apart]
  constructor
  · rintro ⟨rfl, routes⟩
    exact ⟨rfl, routes⟩
  · rintro ⟨rfl, routes⟩
    exact ⟨rfl, routes⟩

theorem unroutable_oneWay (apart : source ≠ sink) (nonneg : 0 ≤ value) :
    Unroutable links (.supplies (oneWay source sink value)) ↔
      Unroutable links (.amount source sink value) := by
  unfold Unroutable
  simp only [meets_oneWay apart nonneg]

/-! ### Fixed supplies -/

/-- The solver on a demand of fixed supplies. The demand enters into the wording for what is not
shipped and into the value of the flows, and beyond that through the ceiling and the balances. -/
def sendFixed (links : List (Link n)) (big : Int) (balance : Table n Int)
    (wording : Int → Failure) (worth : List Int → Int) : Run Failure Outcome := do
  let first ← augment (prepared links big balance) (Table.fill (n + 2) 0) (hub n) (drain n)
    (some (required balance))
  if first.shipped < required balance then Run.fail (wording first.shipped)
  else if negativeCycle links then Run.fail unboundedCost
  else
    let flows := first.network.flow.values.take links.length
    let cost := total ((links.zip flows).map fun (link, f) => f * link.cost)
    return ⟨worth flows, cost, flows, first.augmentations⟩

theorem solve_amount (links : List (Link n)) (source sink : Fin n) (value : Int) :
    solve links (.amount source sink value) =
      sendFixed links (ceiling links (.amount source sink value))
        (balances links (ceiling links (.amount source sink value)) (.amount source sink value))
        (notRouted (.amount source sink value) · (needed links (.amount source sink value)))
        (delivered links · (.amount source sink value)) := rfl

/-- The supplies are sent over the network of the amount. -/
theorem solve_supplies_oneWay (links : List (Link n)) (apart : source ≠ sink) (nonneg : 0 ≤ value) :
    solve links (.supplies (oneWay source sink value)) =
      sendFixed links (ceiling links (.amount source sink value))
        (balances links (ceiling links (.amount source sink value)) (.amount source sink value))
        (notRouted (.supplies (oneWay source sink value)) ·
          (needed links (.supplies (oneWay source sink value))))
        (delivered links · (.supplies (oneWay source sink value))) := by
  rw [← ceiling_oneWay apart nonneg, ← balances_oneWay apart]
  rfl

/-- What comes of it once all that is required was shipped. -/
theorem sendFixed_of_shipped {big : Int} {balance : Table n Int}
    {first : State (n + 2) (edgeCount links big balance)}
    (result : (augment (prepared links big balance) (Table.fill (n + 2) 0) (hub n) (drain n)
      (some (required balance))).outcome = .ok first)
    (enough : ¬ first.shipped < required balance) (wording : Int → Failure)
    (worth : List Int → Int) :
    (sendFixed links big balance wording worth).outcome =
      if negativeCycle links then .error unboundedCost
      else .ok ⟨worth (List.ofFn (linkFlow first.network)), cost links (linkFlow first.network),
        List.ofFn (linkFlow first.network), first.augmentations⟩ := by
  rw [sendFixed, Run.outcome_bind_of_ok result, if_neg enough]
  dsimp only
  rw [take_values, total_zip_ofFn]
  split <;> rfl

/-! ### Both writings -/

/-- An amount and the supplies that send it come to the same: one outcome, with the amount as its
value; a cost without bound; or nothing meets either, and each says so, as long as the integers of
its own wording can be written. -/
theorem solve_oneWay (capacitated : Capacitated links) (apart : source ≠ sink)
    (nonneg : 0 ≤ value) :
    let amount : Demand n := .amount source sink value
    let supplies : Demand n := .supplies (oneWay source sink value)
    (∃ o, (solve links amount).outcome = .ok o ∧ (solve links supplies).outcome = .ok o ∧
      o.flowValue = value) ∨
    ((solve links amount).outcome = .error unboundedCost ∧
      (solve links supplies).outcome = .error unboundedCost) ∨
    (Unroutable links amount ∧ SaysUnroutable links amount (solve links amount).outcome ∧
      SaysUnroutable links supplies (solve links supplies).outcome) := by
  intro amount supplies
  have admitted : Admitted amount := ⟨apart, nonneg⟩
  have admitted' : Admitted supplies := admitted_oneWay apart nonneg
  obtain ⟨first, result, inv, ended⟩ := first_stage capacitated admitted
  have le : first.shipped ≤ needed links amount := inv.within _ rfl
  by_cases less : first.shipped < needed links amount
  · right
    right
    have stuck := ended.resolve_left less.ne
    have unroutable := (unroutable_of_not_routes capacitated
      (not_routable capacitated admitted inv.edges inv.sound inv.outflow stuck less)).1
    exact ⟨unroutable, solve_unroutable capacitated admitted unroutable,
      solve_unroutable capacitated admitted' ((unroutable_oneWay apart nonneg).mpr unroutable)⟩
  · have shipped := le_antisymm le (not_lt.mp less)
    have meets : Meets links amount value (linkFlow first.network) :=
      ⟨rfl, routes_first inv shipped admitted⟩
    have meets' := (meets_oneWay apart nonneg).mpr meets
    have direct := sendFixed_of_shipped result less
      (notRouted amount · (needed links amount)) (delivered links · amount)
    have supplied := sendFixed_of_shipped result less
      (notRouted supplies · (needed links supplies)) (delivered links · supplies)
    rw [← solve_amount, delivered_eq admitted meets] at direct
    rw [← solve_supplies_oneWay links apart nonneg, delivered_eq admitted' meets'] at supplied
    cases negative : negativeCycle links with
    | true =>
      rw [negative, if_pos rfl] at direct supplied
      exact .inr (.inl ⟨direct, supplied⟩)
    | false =>
      rw [negative, if_neg Bool.false_ne_true] at direct supplied
      exact .inl ⟨_, direct, supplied, rfl⟩

/-- Links with a way back into the source and a loop, both of which save cost. -/
def detour (source middle sink : Fin n) : List (Link n) :=
  [⟨source, middle, some 2, 1⟩, ⟨middle, source, some 1, -2⟩, ⟨middle, sink, none, 3⟩,
    ⟨sink, sink, some 1, -1⟩, ⟨source, sink, some 1, 5⟩]

/-- Two units, asked for as an amount, are sent alike when they are supplied. -/
theorem solve_oneWay_detour :
    Capacitated (detour (0 : Fin 3) 1 2) ∧ (0 : Fin 3) ≠ 2 ∧
      (solve (detour (0 : Fin 3) 1 2) (.amount 0 2 2)).outcome =
        .ok ⟨2, 7, [2, 1, 1, 1, 1], 3⟩ ∧
      (solve (detour (0 : Fin 3) 1 2) (.supplies (oneWay 0 2 2))).outcome =
        .ok ⟨2, 7, [2, 1, 1, 1, 1], 3⟩ := by
  have capacitated : Capacitated (detour (0 : Fin 3) 1 2) := by simp [Capacitated, detour]
  have apart : (0 : Fin 3) ≠ 2 := by decide
  have sent : (solve (detour (0 : Fin 3) 1 2) (.amount 0 2 2)).outcome =
      .ok ⟨2, 7, [2, 1, 1, 1, 1], 3⟩ := by
    decide +kernel
  have short : Wordable (detour (0 : Fin 3) 1 2) (.amount 0 2 2) := by
    show (2 : Int).natAbs < writtenBound
    decide +kernel
  refine ⟨capacitated, apart, sent, ?_⟩
  rcases solve_oneWay capacitated apart (by decide : (0 : Int) ≤ 2) with
    ⟨o, direct, supplied, -⟩ | ⟨failed, -⟩ | ⟨-, reported, -⟩
  · rw [sent] at direct
    cases direct
    exact supplied
  · rw [sent] at failed
    cases failed
  · obtain ⟨text, failed⟩ := reported.1 short
    rw [sent] at failed
    cases failed

/-! ### Wordings of different length -/

theorem longest_succ_long : ¬ Short (longest + 1) := by
  have pos := longest_pos
  unfold Short longest at *
  generalize writtenBound = bound at *
  omega

/-- A link against the way. It saves cost, so it is full at first. -/
def againstTheWay (source sink : Fin n) : List (Link n) := [⟨sink, source, some longest, -1⟩]

theorem capacitated_againstTheWay : Capacitated (againstTheWay source sink) := by
  have pos := longest_pos
  simp [Capacitated, againstTheWay, pos.le]

theorem netOut_againstTheWay (f : Fin (againstTheWay source sink).length → Int) (v : Fin n) :
    netOut (againstTheWay source sink) f v =
      (if sink = v then f ⟨0, Nat.one_pos⟩ else 0) -
        (if source = v then f ⟨0, Nat.one_pos⟩ else 0) := by
  unfold netOut outflow
  exact Fin.sum_univ_one fun k : Fin 1 => _

/-- It takes nothing there. -/
theorem unroutable_againstTheWay (apart : source ≠ sink) :
    Unroutable (againstTheWay source sink) (.amount source sink 1) := by
  rintro ⟨f, _, rfl, routes⟩
  have sent := routes.balanced source
  have nonneg := (routes.fits ⟨0, Nat.one_pos⟩).1
  rw [netOut_againstTheWay, if_neg apart.symm, if_pos rfl, transfer, if_pos rfl, if_neg apart]
    at sent
  omega

/-- What is to be shipped in all is the unit that is asked for and all that the link carries. -/
theorem needed_againstTheWay (apart : source ≠ sink) :
    needed (againstTheWay source sink) (.supplies (oneWay source sink 1)) = longest + 1 := by
  have pos := longest_pos
  have full : ∀ big k, ((againstTheWay source sink).get k).initial big = longest := by
    intro big k
    rw [List.mem_singleton.mp (List.get_mem (againstTheWay source sink) k)]
    simp [Link.initial, Link.room, pos]
  have parts : ∀ big v, max ((balances (againstTheWay source sink) big
      (.supplies (oneWay source sink 1))).get v) 0 = if v = source then longest + 1 else 0 := by
    intro big v
    rw [balances_eq, netOut_againstTheWay, full, Demand.balance, get_oneWay apart, transfer]
    simp only [eq_comm (b := v)]
    split <;> split <;> omega
  rw [needed, required, total_pos_eq]
  simp only [parts, Finset.sum_ite_eq', Finset.mem_univ, if_true]

/-- Nothing takes the unit to the sink. As an amount it is reported so; as supplies it is not, as
what is to be shipped in all is too long to be written. -/
theorem solve_oneWay_differs :
    Capacitated (againstTheWay (0 : Fin 2) 1) ∧
      Unroutable (againstTheWay (0 : Fin 2) 1) (.amount 0 1 1) ∧
      (∃ text, (solve (againstTheWay (0 : Fin 2) 1) (.amount 0 1 1)).outcome =
        .error (.known .infeasible text)) ∧
      (solve (againstTheWay (0 : Fin 2) 1) (.supplies (oneWay 0 1 1))).outcome =
        .error (.fault .unwritable) := by
  have capacitated : Capacitated (againstTheWay (0 : Fin 2) 1) := capacitated_againstTheWay
  have apart : (0 : Fin 2) ≠ 1 := by decide
  have nonneg : (0 : Int) ≤ 1 := by decide
  have admitted : Admitted (.amount (0 : Fin 2) 1 1) := ⟨apart, nonneg⟩
  have unroutable := unroutable_againstTheWay apart
  have short : Wordable (againstTheWay (0 : Fin 2) 1) (.amount 0 1 1) := by
    show (1 : Int).natAbs < writtenBound
    decide +kernel
  have long : ¬ Wordable (againstTheWay (0 : Fin 2) 1) (.supplies (oneWay 0 1 1)) := by
    rw [Wordable, needed_againstTheWay apart]
    exact longest_succ_long
  exact ⟨capacitated, unroutable, (solve_unroutable capacitated admitted unroutable).1 short,
    (solve_unroutable capacitated (admitted_oneWay apart nonneg)
      ((unroutable_oneWay apart nonneg).mpr unroutable)).2 long⟩

end Optima.Flow.LeastCost
