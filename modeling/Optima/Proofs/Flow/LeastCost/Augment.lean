import Optima.Proofs.Flow.LeastCost.Trail

/-!
Augmenting along shortest paths. Every augmentation ships something along a path whose arcs become
tight when the potentials move, so that neither they nor their reverses get a negative reduced cost
(`dual_movePotentials`). It uses up what the source can still send, and therefore this comes to an
end: either all that was asked for is shipped, or no path is left (`augment_ends`).
-/

namespace Optima.Flow.LeastCost

open Optima.Graph

variable {n m : Nat} {net : Network n m} {potential : Table n Int} {s t : Fin n}
  {time : Fin n → Nat} {found : Search.State n (Arc m) Int} {limit : Option Int}

/-! ### Potentials -/

theorem le_furthest {v : Fin n} {d : Int} {distance : Table n (Option Int)}
    (label : distance.get v = some d) : d ≤ (distance.values.filterMap id).foldl max 0 := by
  have mem : d ∈ distance.values.filterMap id := by
    refine List.mem_filterMap.mpr ⟨some d, ?_, rfl⟩
    exact List.mem_map.mpr ⟨v, List.mem_finRange v, label⟩
  exact (foldl_max_le_iff.mp le_rfl).2 d mem

/-- Once the potentials have moved, arcs that could carry something still have no negative reduced
cost, and arcs on which labels are tight have none at all. -/
theorem reducedCost_movePotentials
    (tree : Search.Tree (reducedSteps net net.leaving potential) s time found) (a : Arc m)
    (room : 0 < net.residual a) (nonneg : 0 ≤ reducedCost net potential.get a) :
    0 ≤ reducedCost net (movePotentials potential found.distance).get a := by
  have moved : ∀ v, (movePotentials potential found.distance).get v = potential.get v +
      (found.distance.get v).getD ((found.distance.values.filterMap id).foldl max 0) := by
    intro v
    exact Table.get_tabulate _ v
  unfold reducedCost at nonneg ⊢
  rw [moved, moved]
  cases tail : found.distance.get (net.tail a) with
  | some d =>
    obtain ⟨new, le, head⟩ := tree.relaxed tail _ (mem_reducedSteps.mpr ⟨a, rfl, room, rfl⟩)
    dsimp only [reducedCost] at le head
    rw [head]
    dsimp only [Option.getD_some]
    omega
  | none =>
    cases head : found.distance.get (net.head a) with
    | some d =>
      have := le_furthest head
      dsimp only [Option.getD_some, Option.getD_none]
      omega
    | none =>
      dsimp only [Option.getD_none]
      omega

theorem reducedCost_reverse (net : Network n m) (p : Fin n → Int) (a : Arc m) :
    reducedCost net p a.reverse = -reducedCost net p a := by
  simp only [reducedCost, Network.cost_reverse, Network.tail_reverse, Network.head_reverse]
  ring

theorem reducedCost_pushAll (net : Network n m) (path : List (Arc m)) (amount : Int)
    (p : Fin n → Int) (a : Arc m) :
    reducedCost (net.pushAll path amount) p a = reducedCost net p a := by
  simp only [reducedCost, Network.cost, Network.tail, Network.head, Network.edges_pushAll]

/-- The potentials that a search moved fit the network after the push along its path. -/
theorem dual_movePotentials
    (tree : Search.Tree (reducedSteps net net.leaving potential) s time found)
    (dual : Dual net potential.get) {d : Int} (label : found.distance.get t = some d)
    (amount : Int) :
    Dual (net.pushAll (pathArcs found.parent n t) amount)
      (movePotentials potential found.distance).get := by
  have enough := tree.time_lt label
  intro a room
  rw [reducedCost_pushAll]
  rw [Network.residual_pushAll net _ amount (pathArcs_nodup tree n label enough)] at room
  by_cases before : 0 < net.residual a
  · exact reducedCost_movePotentials tree a before (dual a before)
  · -- Only the reverse of an arc of the path can have become able to carry something.
    have mem : a.reverse ∈ pathArcs found.parent n t := by
      by_contra absent
      rw [if_neg absent] at room
      by_cases inside : a ∈ pathArcs found.parent n t
      · exact before ((pathArcs_trail tree n label enough).2 a inside).1
      · rw [if_neg inside] at room
        omega
    obtain ⟨_, ⟨du, tail, head⟩, _, _⟩ := (pathArcs_trail tree n label enough).2 _ mem
    have moved : ∀ v, (movePotentials potential found.distance).get v = potential.get v +
        (found.distance.get v).getD ((found.distance.values.filterMap id).foldl max 0) :=
      fun v => Table.get_tabulate _ v
    have tight : reducedCost net (movePotentials potential found.distance).get a.reverse = 0 := by
      unfold reducedCost
      rw [moved, moved, tail, head]
      simp only [Option.getD_some, reducedCost]
      ring
    rw [reducedCost_reverse] at tight
    omega

/-! ### One augmentation -/

/-- What holds of the state between two augmentations of a network from `s` to `t`. -/
structure Augmenting (net : Network n m) (s t : Fin n) (limit : Option Int) (st : State n m) :
    Prop where
  edges : st.network.edges = net.edges
  sound : st.network.Sound
  dual : Dual st.network st.potential.get
  outflow : ∀ v, st.network.outflow v =
    net.outflow v + (if v = s then st.shipped else 0) - (if v = t then st.shipped else 0)
  nonneg : 0 ≤ st.shipped
  within : ∀ x ∈ limit, st.shipped ≤ x

/-- The state after an augmentation along the path that a search found. -/
def augmented (limit : Option Int) (t : Fin n) (st : State n m)
    (found : Search.State n (Arc m) Int) : State n m :=
  let path := pathArcs found.parent n t
  let amount := bottleneck st.network (limit.map (· - st.shipped)) path
  { network := st.network.pushAll path amount
    potential := movePotentials st.potential found.distance
    shipped := st.shipped + amount
    augmentations := st.augmentations + 1 }

variable {st : State n m}

/-- Augmenting along a shortest path ships something and keeps what holds between
augmentations. -/
theorem Augmenting.augment (inv : Augmenting net s t limit st) (apart : s ≠ t)
    (open_ : limit.any (· ≤ st.shipped) = false)
    (tree : Search.Tree (reducedSteps st.network st.network.leaving st.potential) s time found)
    {d : Int} (label : found.distance.get t = some d) :
    Augmenting net s t limit (augmented limit t st found) ∧
      st.shipped < (augmented limit t st found).shipped := by
  have enough := tree.time_lt label
  obtain ⟨trail, arcs⟩ := pathArcs_trail tree n label enough
  have nodup := pathArcs_nodup tree n label enough
  set path := pathArcs found.parent n t with path_eq
  set amount := bottleneck st.network (limit.map (· - st.shipped)) path with amount_eq
  have nonempty : path ≠ [] := by
    intro empty
    rw [empty] at trail
    cases trail
    exact apart rfl
  obtain ⟨le_wanted, le_room, attained⟩ :=
    bottleneck_spec st.network (limit.map (· - st.shipped)) nonempty
  rw [← amount_eq] at le_wanted le_room attained
  have pos : 0 < amount := by
    rcases attained with wanted | ⟨a, mem, same⟩
    · cases limit with
      | none => cases wanted
      | some x =>
        have same : x - st.shipped = amount := Option.some.inj wanted
        have more : ¬ x ≤ st.shipped := of_decide_eq_false open_
        omega
    · have := (arcs a mem).1
      omega
  refine ⟨⟨?_, ?_, ?_, fun v => ?_, ?_, fun x mem => ?_⟩, ?_⟩
  · exact (Network.edges_pushAll st.network path amount).trans inv.edges
  · exact inv.sound.pushAll nodup pos.le le_room
  · exact dual_movePotentials tree inv.dual label amount
  · show (st.network.pushAll path amount).outflow v = net.outflow v +
      (if v = s then st.shipped + amount else 0) - (if v = t then st.shipped + amount else 0)
    rw [Network.outflow_pushAll trail, inv.outflow]
    split <;> split <;> omega
  · exact add_nonneg inv.nonneg pos.le
  · have := le_wanted (x - st.shipped) (Option.mem_map.mpr ⟨x, mem, rfl⟩)
    show st.shipped + amount ≤ x
    omega
  · exact lt_add_of_pos_right _ pos

/-! ### All augmentations -/

/-- Where a search does not lead there is no residual path to. -/
theorem not_reaches (tree : Search.Tree (reducedSteps net net.leaving potential) s time found)
    (unlabelled : found.distance.get t = none) : ¬ net.Reaches s t := by
  intro path
  have label : ∀ {v}, net.Reaches s v → ∃ d, found.distance.get v = some d := by
    intro v path
    induction path with
    | refl => exact ⟨0, tree.source_label⟩
    | tail _ leads ih =>
      obtain ⟨a, room, rfl, rfl⟩ := leads
      obtain ⟨d, label⟩ := ih
      obtain ⟨new, _, head⟩ := tree.relaxed label _ (mem_reducedSteps.mpr ⟨a, rfl, room, rfl⟩)
      exact ⟨new, head⟩
  obtain ⟨d, label⟩ := label path
  rw [unlabelled] at label
  cases label

/-- What the source can still send on. -/
theorem supplyOf_eq (sound : net.Sound) (s : Fin n) :
    (supplyOf net net.leaving s : Int) =
      ∑ e, (if (net.edges.get e).tail = s then (net.edges.get e).capacity else 0) -
        net.outflow s := by
  have listed : ∀ arcs : List (Arc m),
      ((arcs.foldr (fun a others => (net.residual a).toNat + others) 0 : Nat) : Int) =
        (arcs.map net.residual).sum := by
    intro arcs
    induction arcs with
    | nil => rfl
    | cons a arcs ih =>
      have := sound a
      rw [List.foldr_cons, List.map_cons, List.sum_cons, ← ih]
      omega
  rw [← Network.sum_residual, ← Finset.sum_filter, supplyOf, listed,
    ← List.sum_toFinset net.residual (net.nodup_leaving s)]
  refine Finset.sum_congr ?_ fun a _ => rfl
  ext a
  simp

/-- An augmentation leaves the source with less to send on. -/
theorem Augmenting.supplyOf_lt {st' : State n m} (inv : Augmenting net s t limit st)
    (inv' : Augmenting net s t limit st') (apart : s ≠ t) (more : st.shipped < st'.shipped) :
    supplyOf st'.network st'.network.leaving s < supplyOf st.network st.network.leaving s := by
  have before := supplyOf_eq inv.sound s
  have after := supplyOf_eq inv'.sound s
  rw [inv.outflow, inv.edges, if_pos rfl, if_neg apart] at before
  rw [inv'.outflow, inv'.edges, if_pos rfl, if_neg apart] at after
  omega

/-- The augmentations end with everything shipped or without a path that is left. -/
theorem augmentFrom_ends (apart : s ≠ t) (fuel : Nat) (inv : Augmenting net s t limit st)
    (enough : supplyOf st.network st.network.leaving s < fuel) :
    ∃ last, (augmentFrom st.network.leaving s t limit fuel st).outcome = .ok last ∧
      Augmenting net s t limit last ∧
      (limit = some last.shipped ∨ ¬ last.network.Reaches s t) := by
  induction fuel generalizing st with
  | zero => exact absurd enough (Nat.not_lt_zero _)
  | succ fuel ih =>
    by_cases full : limit.any (· ≤ st.shipped) = true
    · refine ⟨st, ?_, inv, .inl ?_⟩
      · simp [augmentFrom.eq_def, full]
      · cases limit with
        | none => cases full
        | some x => rw [le_antisymm (of_decide_eq_true full) (inv.within x rfl)]
    · have open_ : limit.any (· ≤ st.shipped) = false := by simpa using full
      have lengths : ∀ u, ∀ step ∈ reducedSteps st.network st.network.leaving st.potential u,
          0 ≤ step.length := by
        intro u step mem
        obtain ⟨a, _, room, rfl⟩ := mem_reducedSteps.mp mem
        exact inv.dual a room
      have passes : (pure () : Run Failure Unit).outcome = .ok () := rfl
      obtain ⟨found, time, searched, tree⟩ := Search.run_ends
        (fun a reduced => negativeReduced a.number (.int reduced)) passes lengths s
      rw [augmentFrom.eq_def]
      simp only [open_, Bool.false_eq_true, if_false]
      rw [Run.outcome_bind_of_ok Run.outcome_check, Run.outcome_bind_of_ok searched]
      cases label : found.distance.get t with
      | none => exact ⟨st, rfl, inv, .inr (not_reaches tree label)⟩
      | some d =>
        obtain ⟨inv', more⟩ := inv.augment apart open_ tree label
        have edges := inv'.edges.trans inv.edges.symm
        have leaving := Network.leaving_congr edges
        have fewer := inv.supplyOf_lt inv' apart more
        obtain ⟨last, result, inv'', ended⟩ := ih inv' (by omega)
        rw [leaving] at result
        exact ⟨last, result, inv'', ended⟩

/-- Augmenting a sound network with fitting potentials ends: everything is shipped that was asked
for, or no path is left from `s` to `t`. -/
theorem augment_ends (apart : s ≠ t) (sound : net.Sound) (dual : Dual net potential.get)
    (limit_nonneg : ∀ x ∈ limit, 0 ≤ x) :
    ∃ last, (augment net potential s t limit).outcome = .ok last ∧
      Augmenting net s t limit last ∧
      (limit = some last.shipped ∨ ¬ last.network.Reaches s t) := by
  have inv : Augmenting net s t limit ⟨net, potential, 0, 0⟩ :=
    ⟨rfl, sound, dual, fun v => by simp, le_rfl, limit_nonneg⟩
  exact augmentFrom_ends apart _ inv (Nat.lt_succ_self _)

end Optima.Flow.LeastCost
