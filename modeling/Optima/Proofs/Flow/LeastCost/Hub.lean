import Mathlib.Tactic.Linarith
import Optima.Proofs.Flow.LeastCost.Augment
import Optima.Proofs.Flow.LeastCost.Problem

/-!
The network in which the balances are supplied. Its edges are those of the links and one for each
node that has something to send on or is to receive something. When the hub has sent all that is
required, all of the latter are full, and what the links carry is what each node is asked for
(`filled`, `netOut_eq`). When it has not, what the hub still reaches is a set of nodes that the
links out of it are too narrow for (`deficit_eq`).
-/

namespace Optima.Flow.LeastCost

variable {n : Nat}

/-! ### Edges -/

@[simp] theorem inner_inj {v w : Fin n} : inner v = inner w ↔ v = w := by
  simp [inner, Fin.ext_iff]

@[simp] theorem inner_ne_hub (v : Fin n) : inner v ≠ hub n := by
  simp only [inner, hub, Ne, Fin.mk.injEq]
  omega

@[simp] theorem inner_ne_drain (v : Fin n) : inner v ≠ drain n := by
  simp only [inner, drain, Ne, Fin.mk.injEq]
  omega

@[simp] theorem hub_ne_inner (v : Fin n) : hub n ≠ inner v := (inner_ne_hub v).symm

@[simp] theorem drain_ne_inner (v : Fin n) : drain n ≠ inner v := (inner_ne_drain v).symm

@[simp] theorem hub_ne_drain : hub n ≠ drain n := by
  simp [hub, drain]

@[simp] theorem drain_ne_hub : drain n ≠ hub n := hub_ne_drain.symm

/-- A sum over all nodes, with the two that were added. -/
theorem sum_nodes (F : Fin (n + 2) → Int) :
    ∑ v, F v = ∑ v : Fin n, F (inner v) + F (hub n) + F (drain n) := by
  rw [Fin.sum_univ_castSucc, Fin.sum_univ_castSucc]
  rfl

variable (links : List (Link n)) (big : Int) (balance : Table n Int)

/-- The edge of a link. -/
def linkEdge (big : Int) (link : Link n) : Edge (n + 2) :=
  ⟨inner link.tail, inner link.head, link.room big, link.cost⟩

/-- The edge of a balance. -/
def balanceEdge (j : Fin (balanceEdges balance).length) : Edge (n + 2) :=
  ((balanceEdges balance).get j).1

/-- How many edges there are. -/
abbrev edgeCount : Nat := (linkEdges links big ++ balanceEdges balance).length

/-- The network before anything was augmented. -/
def prepared : Network (n + 2) (edgeCount links big balance) :=
  Network.ofList (linkEdges links big ++ balanceEdges balance)

theorem length_linkEdges : (linkEdges links big).length = links.length := List.length_map _

/-- Where the edge of a link stands. -/
def linkIndex (k : Fin links.length) : Fin (edgeCount links big balance) :=
  ⟨k.val, by rw [edgeCount, List.length_append, length_linkEdges]; omega⟩

/-- Where the edge of a balance stands. -/
def balanceIndex (j : Fin (balanceEdges balance).length) : Fin (edgeCount links big balance) :=
  ⟨links.length + j.val, by rw [edgeCount, List.length_append, length_linkEdges]; omega⟩

theorem sum_edges (F : Fin (edgeCount links big balance) → Int) :
    ∑ e, F e = ∑ k, F (linkIndex links big balance k) +
      ∑ j, F (balanceIndex links big balance j) := by
  have length : links.length + (balanceEdges balance).length = edgeCount links big balance := by
    rw [edgeCount, List.length_append, length_linkEdges]
  rw [← Fin.sum_congr' F length, Fin.sum_univ_add]
  rfl

theorem getElem_linkIndex (k : Fin links.length) :
    (linkEdges links big ++ balanceEdges balance).get (linkIndex links big balance k) =
      (linkEdge big (links.get k), (links.get k).initial big) := by
  have inside : k.val < (linkEdges links big).length := by
    rw [length_linkEdges]
    exact k.isLt
  refine (List.getElem_append_left inside).trans ?_
  exact List.getElem_map _

theorem getElem_balanceIndex (j : Fin (balanceEdges balance).length) :
    (linkEdges links big ++ balanceEdges balance).get (balanceIndex links big balance j) =
      (balanceEdges balance).get j := by
  have outside : (linkEdges links big).length ≤ links.length + j.val := by
    rw [length_linkEdges]
    exact Nat.le_add_right _ _
  refine (List.getElem_append_right outside).trans ?_
  simp [length_linkEdges]

theorem edge_linkIndex (k : Fin links.length) :
    (prepared links big balance).edges.get (linkIndex links big balance k) =
      linkEdge big (links.get k) :=
  (Table.get_tabulate _ _).trans (congrArg Prod.fst (getElem_linkIndex links big balance k))

theorem flow_linkIndex (k : Fin links.length) :
    (prepared links big balance).flow.get (linkIndex links big balance k) =
      (links.get k).initial big :=
  (Table.get_tabulate _ _).trans (congrArg Prod.snd (getElem_linkIndex links big balance k))

theorem edge_balanceIndex (j : Fin (balanceEdges balance).length) :
    (prepared links big balance).edges.get (balanceIndex links big balance j) =
      balanceEdge balance j :=
  (Table.get_tabulate _ _).trans (congrArg Prod.fst (getElem_balanceIndex links big balance j))

/-- The edge of a balance supplies a node or takes from one, and is empty at first. -/
theorem get_balanceEdges (j : Fin (balanceEdges balance).length) :
    ∃ v, (0 < balance.get v ∧
        (balanceEdges balance).get j = (⟨hub n, inner v, balance.get v, 0⟩, 0)) ∨
      (balance.get v < 0 ∧
        (balanceEdges balance).get j = (⟨inner v, drain n, -balance.get v, 0⟩, 0)) := by
  obtain ⟨v, _, same⟩ := List.mem_filterMap.mp (List.getElem_mem j.isLt)
  refine ⟨v, ?_⟩
  dsimp only at same
  split at same
  · next pos => exact .inl ⟨pos, (Option.some.inj same).symm⟩
  · split at same
    · next neg => exact .inr ⟨neg, (Option.some.inj same).symm⟩
    · cases same

theorem balanceEdge_cases (j : Fin (balanceEdges balance).length) :
    ∃ v, (0 < balance.get v ∧ balanceEdge balance j = ⟨hub n, inner v, balance.get v, 0⟩) ∨
      (balance.get v < 0 ∧ balanceEdge balance j = ⟨inner v, drain n, -balance.get v, 0⟩) := by
  obtain ⟨v, ⟨pos, same⟩ | ⟨neg, same⟩⟩ := get_balanceEdges balance j
  · exact ⟨v, .inl ⟨pos, congrArg Prod.fst same⟩⟩
  · exact ⟨v, .inr ⟨neg, congrArg Prod.fst same⟩⟩

theorem flow_balanceIndex (j : Fin (balanceEdges balance).length) :
    (prepared links big balance).flow.get (balanceIndex links big balance j) = 0 := by
  refine (Table.get_tabulate _ _).trans
    ((congrArg Prod.snd (getElem_balanceIndex links big balance j)).trans ?_)
  obtain ⟨v, ⟨_, same⟩ | ⟨_, same⟩⟩ := get_balanceEdges balance j
  · exact congrArg Prod.snd same
  · exact congrArg Prod.snd same

/-- What depends on the edges of the balances only is summed up node by node. -/
theorem sum_balanceEdges (G : Edge (n + 2) → Int) :
    ∑ j : Fin (balanceEdges balance).length, G (balanceEdge balance j) =
      ∑ v, if 0 < balance.get v then G ⟨hub n, inner v, balance.get v, 0⟩
        else if balance.get v < 0 then G ⟨inner v, drain n, -balance.get v, 0⟩ else 0 := by
  have listed := Fin.sum_univ_fun_getElem (balanceEdges balance) fun edge => G edge.1
  refine listed.trans ?_
  rw [Fin.sum_univ_def, balanceEdges]
  induction List.finRange n with
  | nil => rfl
  | cons v vs ih =>
    rw [List.filterMap_cons, List.map_cons, List.sum_cons, ← ih]
    by_cases pos : 0 < balance.get v
    · simp [pos]
    · by_cases neg : balance.get v < 0
      · simp [pos, neg]
      · simp [pos, neg]

/-! ### What the edges carry -/

variable {links big balance} {net : Network (n + 2) (edgeCount links big balance)}

/-- What a network carries on the edges of the links. -/
def linkFlow (net : Network (n + 2) (edgeCount links big balance)) (k : Fin links.length) : Int :=
  net.flow.get (linkIndex links big balance k)

/-- What a network carries on the edges of the balances. -/
def balanceFlow (net : Network (n + 2) (edgeCount links big balance))
    (j : Fin (balanceEdges balance).length) : Int :=
  net.flow.get (balanceIndex links big balance j)

/-- What amounts on the links make a node of the network send on. -/
def linksOutflow (links : List (Link n)) (f : Fin links.length → Int) (w : Fin (n + 2)) : Int :=
  outflow (fun k => inner (links.get k).tail) (fun k => inner (links.get k).head) f w

/-- What amounts on the edges of the balances make it send on. -/
def balancesOutflow (balance : Table n Int) (f : Fin (balanceEdges balance).length → Int)
    (w : Fin (n + 2)) : Int :=
  outflow (fun j => (balanceEdge balance j).tail) (fun j => (balanceEdge balance j).head) f w

theorem outflow_eq (edges : net.edges = (prepared links big balance).edges) (w : Fin (n + 2)) :
    net.outflow w =
      linksOutflow links (linkFlow net) w + balancesOutflow balance (balanceFlow net) w := by
  unfold Network.outflow linksOutflow balancesOutflow outflow
  rw [sum_edges, edges]
  simp only [edge_linkIndex, edge_balanceIndex, linkFlow, balanceFlow, linkEdge]

@[simp] theorem linksOutflow_inner (f : Fin links.length → Int) (v : Fin n) :
    linksOutflow links f (inner v) = netOut links f v := by
  simp only [linksOutflow, netOut, outflow, inner_inj]

@[simp] theorem linksOutflow_hub (f : Fin links.length → Int) :
    linksOutflow links f (hub n) = 0 := by
  simp [linksOutflow, outflow]

@[simp] theorem linksOutflow_drain (f : Fin links.length → Int) :
    linksOutflow links f (drain n) = 0 := by
  simp [linksOutflow, outflow]

/-- Only the first amounts on the links flow at first. -/
theorem outflow_prepared (w : Fin (n + 2)) : (prepared links big balance).outflow w =
    linksOutflow links (fun k => (links.get k).initial big) w := by
  have carried : linkFlow (prepared links big balance) = fun k => (links.get k).initial big :=
    funext fun k => flow_linkIndex links big balance k
  have empty : balanceFlow (prepared links big balance) = fun _ => 0 :=
    funext fun j => flow_balanceIndex links big balance j
  rw [outflow_eq rfl, carried, empty, balancesOutflow, outflow_zero, add_zero]

/-! ### When everything is shipped -/

theorem sum_abs_eq (sum : ∑ v, balance.get v = 0) :
    (∑ v, if 0 < balance.get v then balance.get v
      else if balance.get v < 0 then -balance.get v else 0) = 2 * required balance := by
  have parts : ∀ v, (if 0 < balance.get v then balance.get v
      else if balance.get v < 0 then -balance.get v else 0) =
        2 * max (balance.get v) 0 - balance.get v := by
    intro v
    split
    · omega
    · split <;> omega
  rw [required, total_pos_eq, Finset.mul_sum]
  simp only [parts, Finset.sum_sub_distrib]
  omega

/-- Once the hub has sent all that is required, the edges of the balances are full. -/
theorem filled (edges : net.edges = (prepared links big balance).edges) (sound : net.Sound)
    (sum : ∑ v, balance.get v = 0) (sent : net.outflow (hub n) = required balance)
    (received : net.outflow (drain n) = -required balance)
    (j : Fin (balanceEdges balance).length) :
    balanceFlow net j = (balanceEdge balance j).capacity := by
  have carried : ∑ j, balanceFlow net j = net.outflow (hub n) - net.outflow (drain n) := by
    rw [outflow_eq edges, outflow_eq edges, linksOutflow_hub, linksOutflow_drain]
    simp only [balancesOutflow, outflow, zero_add]
    rw [← Finset.sum_sub_distrib]
    apply Finset.sum_congr rfl
    intro j _
    obtain ⟨v, ⟨_, same⟩ | ⟨_, same⟩⟩ :=
      balanceEdge_cases balance j
    all_goals
      simp only [same]
      simp
  have capacities := sum_balanceEdges balance Edge.capacity
  dsimp only at capacities
  rw [sum_abs_eq sum] at capacities
  have room : ∀ j, 0 ≤ (balanceEdge balance j).capacity - balanceFlow net j := by
    intro j
    have le := sound.flow_le (balanceIndex links big balance j)
    rw [edges, edge_balanceIndex] at le
    exact sub_nonneg.mpr le
  have none_left : ∑ j, ((balanceEdge balance j).capacity - balanceFlow net j) = 0 := by
    rw [Finset.sum_sub_distrib]
    omega
  have zero := (Finset.sum_eq_zero_iff_of_nonneg fun j _ => room j).mp none_left j
    (Finset.mem_univ j)
  omega

/-- Full edges of the balances take from every node what its balance adds. -/
theorem netOut_eq (edges : net.edges = (prepared links big balance).edges)
    (full : ∀ j, balanceFlow net j = (balanceEdge balance j).capacity) (v : Fin n) :
    netOut links (linkFlow net) v = net.outflow (inner v) + balance.get v := by
  have supplied : balancesOutflow balance (balanceFlow net) (inner v) = -balance.get v := by
    rw [funext full]
    refine (sum_balanceEdges balance fun edge =>
      (if edge.tail = inner v then edge.capacity else 0) -
        (if edge.head = inner v then edge.capacity else 0)).trans ?_
    rw [Finset.sum_eq_single v]
    · simp only [hub_ne_inner, drain_ne_inner, if_false, if_true]
      split
      · omega
      · split <;> omega
    · intro w _ other
      simp [other]
    · exact fun absent => absurd (Finset.mem_univ v) absent
  rw [outflow_eq edges, linksOutflow_inner, supplied]
  omega

/-! ### When something is left over -/

open Classical in
/-- The edges of the balances that lead out of a set with the hub and without the drain. -/
theorem sum_balances_leaving (inside : Fin (n + 2) → Prop) (from_hub : inside (hub n))
    (not_drain : ¬ inside (drain n)) :
    ∑ j : Fin (balanceEdges balance).length,
        (if inside (balanceEdge balance j).tail ∧ ¬ inside (balanceEdge balance j).head
          then (balanceEdge balance j).capacity else 0) =
      required balance - ∑ v, if inside (inner v) then balance.get v else 0 := by
  refine (sum_balanceEdges balance fun edge =>
    if inside edge.tail ∧ ¬ inside edge.head then edge.capacity else 0).trans ?_
  rw [required, total_pos_eq, ← Finset.sum_sub_distrib]
  apply Finset.sum_congr rfl
  intro v _
  by_cases mem : inside (inner v)
  · simp only [mem, from_hub, not_drain, not_true_eq_false, not_false_eq_true, and_false, and_self,
      if_true, if_false]
    split
    · omega
    · split <;> omega
  · simp only [mem, from_hub, not_drain, not_false_eq_true, and_self, if_true, if_false,
      and_true]
    split
    · omega
    · split <;> omega

open Classical in
/-- When the drain is out of reach, the links that lead out of what the hub reaches fall short of
what is supplied there by what was not shipped. -/
theorem deficit_eq (edges : net.edges = (prepared links big balance).edges) (sound : net.Sound)
    {supply : Fin n → Int} {shipped : Int}
    (balance_eq : ∀ v, balance.get v =
      supply v - netOut links (fun k => (links.get k).initial big) v)
    (outflow_eq : ∀ w, net.outflow w = (prepared links big balance).outflow w +
      (if w = hub n then shipped else 0) - (if w = drain n then shipped else 0))
    (stuck : ¬ net.Reaches (hub n) (drain n)) :
    required balance - shipped =
      ∑ v, (if net.Reaches (hub n) (inner v) then supply v else 0) -
        outOf links (fun v => net.Reaches (hub n) (inner v)) (fun k => (links.get k).room big) := by
  have border := sound.sum_outflow_reached (hub n)
  have inside : net.Reaches (hub n) (hub n) := .refl
  have sent : ∀ v, net.outflow (inner v) = supply v - balance.get v := by
    intro v
    rw [outflow_eq, outflow_prepared, linksOutflow_inner, if_neg (inner_ne_hub v),
      if_neg (inner_ne_drain v), balance_eq]
    omega
  have sent_hub : net.outflow (hub n) = shipped := by
    rw [outflow_eq, outflow_prepared, linksOutflow_hub, if_pos rfl, if_neg hub_ne_drain]
    omega
  have left : ∑ v, (if net.Reaches (hub n) v then net.outflow v else 0) =
      ∑ v, (if net.Reaches (hub n) (inner v) then supply v else 0) -
        ∑ v, (if net.Reaches (hub n) (inner v) then balance.get v else 0) + shipped := by
    rw [sum_nodes, if_pos inside, if_neg stuck, sent_hub, add_zero, ← Finset.sum_sub_distrib]
    refine congrArg (· + shipped) (Finset.sum_congr rfl fun v _ => ?_)
    rw [sent]
    split
    · rfl
    · rfl
  have right : leavingSum (fun e => (net.edges.get e).tail) (fun e => (net.edges.get e).head)
      (net.Reaches (hub n)) (fun e => (net.edges.get e).capacity) =
      outOf links (fun v => net.Reaches (hub n) (inner v)) (fun k => (links.get k).room big) +
        (required balance - ∑ v, if net.Reaches (hub n) (inner v) then balance.get v else 0) := by
    unfold outOf leavingSum
    rw [sum_edges, edges, ← sum_balances_leaving (net.Reaches (hub n)) inside stuck]
    simp only [edge_linkIndex, edge_balanceIndex, linkEdge]
  rw [left, right] at border
  omega

end Optima.Flow.LeastCost
