import Optima.Proofs.Failures
import Optima.Proofs.Flow.LeastCost.Classification
import Optima.Proofs.Solver.Placement

/-!
Flows of least cost in the terms of a problem. The edges of a sound problem are links between
positions, and what it asks for is a demand that makes sense (`exists_links`, `exists_demand`), so
the solver can end in five ways (`FlowEnds`): with a flow; with one of the two reports that there is
none of least cost; or with a fault, where a report is too long to be written or the cost is no
double.
-/

namespace Optima

open Flow.LeastCost (Link Demand Capacitated Admitted Meets Unroutable Wordable cost)

namespace Problem.MinCostFlow

/-- What a sound problem asks for: supplies that make up for each other, or something that goes from
a source to a sink. -/
inductive Asks (p : MinCostFlow) : Prop
  | supplies {supplies : List NodeSupply} (given : p.supplies = some supplies)
      (declared : ∀ s ∈ supplies, s.node ∈ p.nodes)
      (distinct : (supplies.map (·.node)).Nodup) (even : total (supplies.map (·.supply)) = 0)
  | transfer {source sink : NodeId} (no_supplies : p.supplies = none)
      (starts : p.source = some source) (ends : p.sink = some sink) (source_mem : source ∈ p.nodes)
      (sink_mem : sink ∈ p.nodes) (apart : source ≠ sink)
      (nonneg : ∀ value, p.flowValue = some value → 0 ≤ value)

/-- What a problem without a defect guarantees. -/
structure Sound (p : MinCostFlow) : Prop where
  distinct : p.nodes.Nodup
  ends : ∀ e ∈ p.edges, e.tail ∈ p.nodes ∧ e.head ∈ p.nodes
  capacities : ∀ e ∈ p.edges, ∀ c ∈ e.capacity, 0 ≤ c
  asks : p.Asks

theorem sound_of_no_defect {p : MinCostFlow} (accepted : p.defect? = none) : p.Sound := by
  have well := defect?_eq_none_iff.mp accepted
  refine ⟨well.nodes, well.ends, well.capacities, ?_⟩
  rcases well.request with ⟨supplies, asked⟩ | ⟨source, sink, asked⟩
  · refine .supplies asked.given asked.declared asked.distinct ?_
    rw [total_eq_sum]
    exact asked.even
  · exact .transfer asked.alone asked.starts asked.stops asked.source_mem asked.sink_mem
      asked.apart asked.value

end Problem.MinCostFlow

namespace Solver

open Problem (MinCostFlow NodeSupply CostEdge)

/-! ### Links and demands by names -/

/-- A link as an edge of the problem. -/
def namedLink {nodes : List NodeId} (link : Link nodes.length) : CostEdge :=
  ⟨nameOf nodes link.tail, nameOf nodes link.head, link.capacity, link.cost⟩

/-- What is supplied at a node. -/
def suppliedAt (supplies : List NodeSupply) (x : NodeId) : Int :=
  total ((supplies.filter (·.node = x)).map (·.supply))

/-- A demand between positions that is what the problem asks for. -/
def AskedFor (p : MinCostFlow) : Demand p.nodes.length → Prop
  | .supplies supply => ∃ supplies, p.supplies = some supplies ∧
      ∀ v, supply.get v = suppliedAt supplies (nameOf p.nodes v)
  | .amount source sink value => p.supplies = none ∧ p.source = some (nameOf p.nodes source) ∧
      p.sink = some (nameOf p.nodes sink) ∧ p.flowValue = some value
  | .maximum source sink => p.supplies = none ∧ p.source = some (nameOf p.nodes source) ∧
      p.sink = some (nameOf p.nodes sink) ∧ p.flowValue = none

/-- Links and a demand that are a problem's edges and what it asks for, by positions. -/
structure Placed (p : MinCostFlow) (links : List (Link p.nodes.length))
    (demand : Demand p.nodes.length) : Prop where
  links : links.map namedLink = p.edges
  demand : AskedFor p demand

variable {p : MinCostFlow}

theorem exists_links (sound : p.Sound) : ∃ links : List (Link p.nodes.length),
    (p.edges.mapM fun e => do
      return Link.mk (← position p.nodes e.tail) (← position p.nodes e.head) e.capacity e.cost :
        Run Failure _) = pure links ∧ links.map namedLink = p.edges := by
  obtain ⟨distinct, ends, -, -⟩ := sound
  cases edges : p.edges with
  | nil => exact ⟨[], rfl, rfl⟩
  | cons e rest =>
    rw [edges] at ends
    obtain ⟨place, named⟩ := exists_positions (ends e List.mem_cons_self).1
    have placed := mapM_position distinct named
      (fun (e : CostEdge) tail head => Link.mk tail head e.capacity e.cost) ends
    refine ⟨_, placed, ?_⟩
    rw [List.map_map]
    refine (List.map_congr_left fun e' known => ?_).trans (List.map_id _)
    obtain ⟨tail, head⟩ := ends e' known
    simp [namedLink, named _ tail, named _ head]

/-- Entering supplies of different nodes into a table adds them up. -/
theorem enterSupplies {nodes : List NodeId} (distinct : nodes.Nodup) {supplies : List NodeSupply}
    (declared : ∀ s ∈ supplies, s.node ∈ nodes) (different : (supplies.map (·.node)).Nodup)
    {t : Table nodes.length Int}
    (fresh : ∀ s ∈ supplies, ∀ v, nameOf nodes v = s.node → t.get v = 0) :
    ∃ t', (supplies.foldlM (fun (t : Table nodes.length Int) s => do
        return t.update (← position nodes s.node) s.supply : _ → _ → Run Failure _) t) = pure t' ∧
      ∀ v, t'.get v = t.get v + suppliedAt supplies (nameOf nodes v) := by
  induction supplies generalizing t with
  | nil => exact ⟨t, rfl, fun v => (add_zero _).symm⟩
  | cons s rest ih =>
    obtain ⟨others, different⟩ := List.nodup_cons.mp different
    obtain ⟨i, name⟩ := exists_nameOf (declared s List.mem_cons_self)
    have fresh' : ∀ s' ∈ rest, ∀ v, nameOf nodes v = s'.node → (t.update i s.supply).get v = 0 := by
      intro s' known v name'
      rw [Table.get_update, if_neg, fresh s' (.tail _ known) v name']
      rintro rfl
      exact others (List.mem_map.mpr ⟨s', known, name'.symm.trans name⟩)
    obtain ⟨t', entered, sums⟩ := ih (fun s' known => declared s' (.tail _ known)) different fresh'
    refine ⟨t', ?_, fun v => ?_⟩
    · rw [List.foldlM_cons, ← name, position_nameOf distinct]
      exact entered
    · rw [sums v, Table.get_update]
      by_cases here : i = v
      · subst here
        rw [if_pos rfl, fresh s List.mem_cons_self i name]
        simp [suppliedAt, name, total_cons]
      · have apart : s.node ≠ nameOf nodes v := fun same =>
          here (nameOf_injective distinct (name.trans same))
        rw [if_neg here]
        simp [suppliedAt, apart]

/-- What is supplied at all nodes together is what is supplied. -/
theorem sum_suppliedAt {nodes : List NodeId} (distinct : nodes.Nodup) {supplies : List NodeSupply}
    (declared : ∀ s ∈ supplies, s.node ∈ nodes) :
    ∑ v, suppliedAt supplies (nameOf nodes v) = total (supplies.map (·.supply)) := by
  induction supplies with
  | nil => simp [suppliedAt, total_eq_sum]
  | cons s rest ih =>
    obtain ⟨i, name⟩ := exists_nameOf (declared s List.mem_cons_self)
    have split (v : Fin nodes.length) : suppliedAt (s :: rest) (nameOf nodes v) =
        (if v = i then s.supply else 0) + suppliedAt rest (nameOf nodes v) := by
      by_cases here : v = i
      · subst here
        simp [suppliedAt, name, total_cons]
      · have apart : s.node ≠ nameOf nodes v := fun same =>
          here (nameOf_injective distinct (name.trans same)).symm
        simp [suppliedAt, apart, here]
    simp only [split, Finset.sum_add_distrib, Finset.sum_ite_eq', Finset.mem_univ, if_true,
      List.map_cons, total_cons]
    rw [ih fun s' known => declared s' (.tail _ known)]

theorem exists_demand (sound : p.Sound) : ∃ asked : Demand p.nodes.length,
    demand p = pure asked ∧ AskedFor p asked ∧ Admitted asked := by
  obtain ⟨distinct, -, -, asks⟩ := sound
  cases asks with
  | @supplies supplies given declared different even =>
    obtain ⟨t, entered, sums⟩ := enterSupplies (t := Table.fill _ 0) distinct declared different
      fun _ _ _ _ => Table.get_fill ..
    have sums (v : Fin p.nodes.length) : t.get v = suppliedAt supplies (nameOf p.nodes v) := by
      rw [sums v, Table.get_fill, zero_add]
    refine ⟨.supplies t, ?_, ⟨supplies, given, sums⟩, ?_⟩
    · simp only [demand, given]
      rw [entered, pure_bind]
    · show ∑ v, t.get v = 0
      rw [Finset.sum_congr rfl fun v _ => sums v, sum_suppliedAt distinct declared, even]
  | @transfer source sink no_supplies starts ends source_mem sink_mem apart nonneg =>
    obtain ⟨i, rfl⟩ := exists_nameOf source_mem
    obtain ⟨j, rfl⟩ := exists_nameOf sink_mem
    have apart : i ≠ j := fun same => apart (congrArg _ same)
    cases amount : p.flowValue with
    | some value =>
      refine ⟨.amount i j value, ?_, ⟨no_supplies, starts, ends, amount⟩, apart, nonneg _ amount⟩
      simp only [demand, no_supplies, starts, ends, position_nameOf distinct, pure_bind, amount]
    | none =>
      refine ⟨.maximum i j, ?_, ⟨no_supplies, starts, ends, amount⟩, apart⟩
      simp only [demand, no_supplies, starts, ends, position_nameOf distinct, pure_bind, amount]

/-! ### How the solver ends -/

/-- The least cost of a flow that meets a demand. -/
def IsLeastCost {n : Nat} (links : List (Link n)) (demand : Demand n) (c : Int) : Prop :=
  (∃ f value, Meets links demand value f ∧ cost links f = c) ∧
    ∀ g value, Meets links demand value g → c ≤ cost links g

/-- How the solver can end on a problem that has these links and this demand. -/
inductive FlowEnds {n : Nat} (links : List (Link n)) (demand : Demand n) :
    Except Failure Finding → Prop
  | found (finding : Finding) : FlowEnds links demand (.ok finding)
  | unbounded (text : String) : FlowEnds links demand (.error (.known .unbounded text))
  | infeasible (text : String) : FlowEnds links demand (.error (.known .infeasible text))
  | unwritable : Unroutable links demand → ¬ Wordable links demand →
      FlowEnds links demand (.error (.fault .unwritable))
  | tooLarge (c : Int) : IsLeastCost links demand c → (Number.int c).toReal = .error .tooLarge →
      FlowEnds links demand (.error (.fault .tooLarge))

/-- The solver's answer to a sound problem is a flow, or a report that there is none of least cost,
unless the report is too long or the cost too large. -/
theorem solveMinCostFlow_ends (sound : p.Sound) : ∃ links demand, Placed p links demand ∧
    FlowEnds links demand (solveMinCostFlow p).outcome := by
  obtain ⟨links, linked, names⟩ := exists_links sound
  obtain ⟨asked, demanded, askedFor, admitted⟩ := exists_demand sound
  have capacitated : Capacitated links := by
    intro link known c given
    refine sound.capacities (namedLink link) ?_ c given
    rw [← names]
    exact List.mem_map_of_mem known
  refine ⟨links, asked, ⟨names, askedFor⟩, ?_⟩
  rw [solveMinCostFlow, linked, pure_bind, demanded, pure_bind]
  rcases Flow.LeastCost.solve_cases capacitated admitted with
    ⟨-, ended⟩ | ⟨-, none_, shipped, nonneg, less, ended⟩ |
    ⟨-, value, x, augmentations, found, ended⟩
  · rw [Run.outcome_bind_of_error ended]
    exact .unbounded _
  · obtain ⟨unroutable, -⟩ := Flow.LeastCost.unroutable_of_not_routes capacitated none_
    obtain ⟨can, cannot⟩ := Flow.LeastCost.notRouted_eq nonneg less
    rw [Run.outcome_bind_of_error ended]
    by_cases wordable : Wordable links asked
    · obtain ⟨text, said⟩ := can wordable
      rw [said]
      exact .infeasible text
    · rw [cannot wordable]
      exact .unwritable unroutable wordable
  · split at ended
    · rw [Run.outcome_bind_of_error ended]
      exact .unbounded _
    · rename_i none_
      rw [Run.outcome_bind_of_ok ended]
      have least : IsLeastCost links asked (cost links x) :=
        ⟨⟨x, value, found.meets, rfl⟩, fun g w => found.least (Bool.eq_false_iff.mpr none_)⟩
      cases converted : (Number.int (cost links x)).toReal with
      | ok objective => exact .found _
      | error fault =>
        obtain rfl := (Number.toReal_onlyTooLarge _).allowed_of_error converted
        exact .tooLarge _ least converted

end Solver

end Optima
