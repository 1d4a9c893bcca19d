import Optima.Proofs.Flow.LeastCost.Cycle
import Optima.Proofs.Flow.LeastCost.Hub

/-!
The two stages of the solver. The first one ships what the balances require, and if it cannot, no
amounts on the links route the demand (`not_routable`). The second one, for a flow that is to be as
large as possible, leaves the edges of the balances full, and ends with a cut that no flow gets
more across (`value_le_shipped`). What the links carry in the end has a reduced cost that fits
(`slack_of_dual`), and carries the ceiling on no link that is not led back to.
-/

namespace Optima.Flow.LeastCost

variable {n : Nat} {links : List (Link n)} {demand : Demand n}

/-! ### The network to begin with -/

theorem ceiling_pos (capacitated : Capacitated links) (admitted : Admitted demand) :
    0 < ceiling links demand := by
  have finite : 0 ≤ ∑ k : Fin links.length, (links.get k).capacity.getD 0 :=
    Finset.sum_nonneg fun k _ => capacity_nonneg capacitated k
  have asked := admitted.asked_nonneg
  rw [ceiling_eq]
  omega

section Begin

variable {big : Int} {balance : Table n Int}

/-- Every edge is that of a link or that of a balance. -/
theorem edge_cases (e : Fin (edgeCount links big balance)) :
    (∃ k, e = linkIndex links big balance k) ∨ ∃ j, e = balanceIndex links big balance j := by
  by_cases link : e.val < links.length
  · exact .inl ⟨⟨e.val, link⟩, rfl⟩
  · have length : edgeCount links big balance = links.length + (balanceEdges balance).length := by
      rw [edgeCount, List.length_append, length_linkEdges]
    have := e.isLt
    refine .inr ⟨⟨e.val - links.length, by omega⟩, Fin.ext ?_⟩
    show e.val = links.length + (e.val - links.length)
    omega

theorem sound_prepared (rooms : ∀ k : Fin links.length, 0 ≤ (links.get k).room big) :
    (prepared links big balance).Sound := by
  rw [Network.sound_iff]
  intro e
  rcases edge_cases e with ⟨k, rfl⟩ | ⟨j, rfl⟩
  · rw [edge_linkIndex, flow_linkIndex, initial_eq _ (rooms k)]
    have := rooms k
    dsimp only [linkEdge]
    split <;> omega
  · rw [edge_balanceIndex, flow_balanceIndex]
    obtain ⟨v, ⟨sign, same⟩ | ⟨sign, same⟩⟩ := balanceEdge_cases balance j
    all_goals
      rw [same]
      dsimp only
      omega

/-- Links that would save cost are full and the others are empty, so no potentials are needed. -/
theorem dual_prepared
    (rooms : ∀ k : Fin links.length, 0 ≤ (links.get k).room big) :
    Dual (prepared links big balance) (Table.fill (n + 2) 0).get := by
  intro a room
  obtain ⟨e, backward⟩ := a
  have level : reducedCost (prepared links big balance) (Table.fill (n + 2) 0).get ⟨e, backward⟩ =
      (prepared links big balance).cost ⟨e, backward⟩ := by
    simp [reducedCost]
  rw [level]
  unfold Network.residual at room
  unfold Network.cost
  rcases edge_cases e with ⟨k, rfl⟩ | ⟨j, rfl⟩
  · rw [edge_linkIndex, flow_linkIndex, initial_eq _ (rooms k)] at room
    rw [edge_linkIndex]
    cases backward
    all_goals
      simp only [linkEdge, Bool.false_eq_true, if_false, if_true] at room ⊢
      split at room <;> omega
  · rw [edge_balanceIndex]
    obtain ⟨v, ⟨_, same⟩ | ⟨_, same⟩⟩ := balanceEdge_cases balance j
    all_goals
      rw [same]
      cases backward <;> simp

variable {net : Network (n + 2) (edgeCount links big balance)}

/-- Reduced costs that fit a network fit the links. -/
theorem slack_of_dual (edges : net.edges = (prepared links big balance).edges) (sound : net.Sound)
    {potential : Fin (n + 2) → Int} (dual : Dual net potential) :
    Slack links big (fun v => potential (inner v)) (linkFlow net) := by
  have edge : ∀ k, net.edges.get (linkIndex links big balance k) = linkEdge big (links.get k) := by
    intro k
    rw [edges, edge_linkIndex]
  refine ⟨fun k => sound.flow_nonneg _, fun k => ?_, fun k room => ?_, fun k loaded => ?_⟩
  · have le := sound.flow_le (linkIndex links big balance k)
    rwa [edge] at le
  · have fits := dual ⟨linkIndex links big balance k, false⟩
    simp only [Network.residual, reducedCost, Network.cost, Network.tail, Network.head, edge,
      linkEdge, Bool.false_eq_true, if_false] at fits
    exact fits (sub_pos.mpr room)
  · have fits := dual ⟨linkIndex links big balance k, true⟩
    simp only [Network.residual, reducedCost, Network.cost, Network.tail, Network.head, edge,
      linkEdge, if_true] at fits
    have nonneg := fits loaded
    dsimp only [excess]
    omega

end Begin

/-! ### The first stage -/

section First

open Classical

variable {net : Network (n + 2)
  (edgeCount links (ceiling links demand) (balances links (ceiling links demand) demand))}

/-- If something is left over, no amounts on the links route what is asked for. -/
theorem not_routable (capacitated : Capacitated links) (admitted : Admitted demand)
    (edges : net.edges = (prepared links (ceiling links demand)
      (balances links (ceiling links demand) demand)).edges) (sound : net.Sound) {shipped : Int}
    (outflow_eq : ∀ w, net.outflow w = (prepared links (ceiling links demand)
      (balances links (ceiling links demand) demand)).outflow w +
        (if w = hub n then shipped else 0) - (if w = drain n then shipped else 0))
    (stuck : ¬ net.Reaches (hub n) (drain n))
    (less : shipped < required (balances links (ceiling links demand) demand)) :
    ¬ ∃ f, Routes links demand.balance f := by
  rintro ⟨g, routes⟩
  let inside := fun v => net.Reaches (hub n) (inner v)
  have deficit : required (balances links (ceiling links demand) demand) - shipped =
      ∑ v, (if inside v then demand.balance v else 0) -
        outOf links inside fun k => (links.get k).room (ceiling links demand) :=
    deficit_eq edges sound (balances_eq links _ demand) outflow_eq stuck
  have bound := admitted.sum_balance_le inside
  have sent := sum_netOut inside g
  simp only [routes.balanced] at sent
  have back := into_nonneg inside fun k => (routes.fits k).1
  have rooms : ∀ k : Fin links.length, 0 ≤ (links.get k).room (ceiling links demand) := fun k =>
    room_nonneg capacitated (ceiling_pos capacitated admitted).le (List.getElem_mem k.isLt)
  have at_most : outOf links inside g ≤
      outOf links inside fun k => (links.get k).room (ceiling links demand) := by
    apply outOf_le inside
    intro k out in_
    cases capacity : (links.get k).capacity with
    | some c =>
      rw [Link.room, capacity]
      exact (routes.fits k).2 c capacity
    | none =>
      -- A link without capacity that leads out is wide enough for all that is asked for.
      have wide := le_outOf inside rooms out in_
      have finite : 0 ≤ ∑ k : Fin links.length, (links.get k).capacity.getD 0 :=
        Finset.sum_nonneg fun k _ => capacity_nonneg capacitated k
      have big : (links.get k).room (ceiling links demand) =
          ∑ k : Fin links.length, (links.get k).capacity.getD 0 + asked demand + 1 := by
        rw [Link.room, capacity, Option.getD_none, ceiling_eq]
      omega
  omega

end First

/-! ### The second stage -/

section Second

open Classical

variable {source sink : Fin n} {value : Int} {x : Fin links.length → Int}

/-- The value of a flow is what crosses any cut, less what flows back. -/
theorem value_eq (sends : ∀ v, netOut links x v = transfer source sink value v)
    (inside : Fin n → Prop) (from_source : inside source) (not_sink : ¬ inside sink) :
    value = outOf links inside x - into links inside x := by
  have sum := sum_transfer source sink value inside
  rw [if_pos from_source, if_neg not_sink, sub_zero] at sum
  rw [← sum_netOut, ← sum]
  simp only [sends]

/-- Where no links without capacity lead to the sink, no flow is greater than the finite
capacities. -/
theorem value_le_capacity (capacitated : Capacitated links) (fits : Fits links x)
    (sends : ∀ v, netOut links x v = transfer source sink value v)
    (no_path : ¬ Relation.ReflTransGen (Free links) source sink) :
    value ≤ ∑ k : Fin links.length, (links.get k).capacity.getD 0 := by
  let inside := fun v => Relation.ReflTransGen (Free links) source v
  have cut := value_eq sends inside .refl no_path
  have out := outOf_le_capacity capacitated (fun k => (fits k).2) inside fun k free out in_ =>
    absurd (out.tail ⟨k, free, rfl, rfl⟩) in_
  have back := into_nonneg inside fun k => (fits k).1
  omega

variable {big : Int} {balance : Table n Int}
  {net : Network (n + 2) (edgeCount links big balance)}

/-- When the sink is out of reach, no flow has a greater value. -/
theorem value_le_shipped (capacitated : Capacitated links)
    (edges : net.edges = (prepared links big balance).edges) (sound : net.Sound)
    (fits : Fits links (linkFlow net))
    (sends : ∀ v, netOut links (linkFlow net) v = transfer source sink value v)
    (stuck : ¬ net.Reaches (inner source) (inner sink))
    (no_path : ¬ Relation.ReflTransGen (Free links) source sink)
    (big_eq : big = ∑ k : Fin links.length, (links.get k).capacity.getD 0 + 1)
    {g : Fin links.length → Int} {w : Int} (routes : Routes links (transfer source sink w) g) :
    w ≤ value := by
  let inside := fun v => net.Reaches (inner source) (inner v)
  have edge : ∀ k, net.edges.get (linkIndex links big balance k) = linkEdge big (links.get k) := by
    intro k
    rw [edges, edge_linkIndex]
  have full : ∀ k : Fin links.length, inside (links.get k).tail → ¬ inside (links.get k).head →
      linkFlow net k = (links.get k).room big := by
    intro k out in_
    have border := (sound.border (inner source) (linkIndex links big balance k)).1
    rw [edge] at border
    exact border out in_
  have empty : into links inside (linkFlow net) = 0 := by
    apply into_eq_zero inside
    intro k out in_
    have border := (sound.border (inner source) (linkIndex links big balance k)).2
    rw [edge] at border
    exact border out in_
  have own := value_eq sends inside .refl stuck
  have other := value_eq routes.balanced inside .refl stuck
  have back := into_nonneg inside fun k => (routes.fits k).1
  have at_most : outOf links inside g ≤ outOf links inside (linkFlow net) := by
    apply outOf_le inside
    intro k out in_
    rw [full k out in_]
    cases capacity : (links.get k).capacity with
    | some c =>
      rw [Link.room, capacity]
      exact (routes.fits k).2 c capacity
    | none =>
      -- Such a link would carry the ceiling, which is more than the value can be.
      have small := value_le_capacity capacitated fits sends no_path
      have wide := le_outOf inside (fun k => (fits k).1) out in_
      rw [full k out in_, Link.room, capacity, Option.getD_none] at wide
      omega
  omega

end Second

/-! ### The outcome -/

/-- What a solver ends with that has shipped everything: amounts that meet the demand and fit
potentials. -/
structure Found (links : List (Link n)) (demand : Demand n) (value : Int)
    (x : Fin links.length → Int) : Prop where
  meets : Meets links demand value x
  slack : ∃ p, Slack links (ceiling links demand) p x
  returns : Returns links (ceiling links demand) x

theorem take_values {big : Int} {balance : Table n Int}
    (net : Network (n + 2) (edgeCount links big balance)) :
    net.flow.values.take links.length = List.ofFn (linkFlow net) := by
  have length : links.length ≤ edgeCount links big balance := by
    rw [edgeCount, List.length_append, length_linkEdges]
    exact Nat.le_add_right _ _
  refine List.ext_getElem ?_ fun i _ _ => ?_
  · rw [List.length_take, Table.values, List.length_map, List.length_finRange, List.length_ofFn,
      Nat.min_eq_left length]
  · simp [Table.values, linkFlow, linkIndex]

/-- The value that is reported is that of the flow. -/
theorem delivered_eq {value : Int} {x : Fin links.length → Int} (admitted : Admitted demand)
    (meets : Meets links demand value x) : delivered links (List.ofFn x) demand = value := by
  have sent : ∀ source sink : Fin n, source ≠ sink →
      (∀ v, netOut links x v = transfer source sink value v) →
      total ((links.zip (List.ofFn x)).map fun entry =>
        (if entry.1.tail = source then entry.2 else 0) -
          (if entry.1.head = source then entry.2 else 0)) = value := by
    intro source sink apart sends
    rw [total_zip_ofFn]
    refine (sends source).trans ?_
    rw [transfer, if_pos rfl, if_neg apart, sub_zero]
  cases demand with
  | amount source sink asked => exact sent source sink admitted.1 meets.2.balanced
  | maximum source sink => exact sent source sink admitted meets.1.balanced
  | supplies supply => exact (total_pos_eq supply).trans meets.1.symm

end Optima.Flow.LeastCost
