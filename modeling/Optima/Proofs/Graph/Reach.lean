import Mathlib.Logic.Relation
import Optima.Proofs.Graph.ShortestPath
import Optima.Proofs.Number.Order

/-!
Which nodes a search for shortest paths labels: exactly those that steps lead to from the source,
and all of them but the source have a parent (`run_labelled_iff`, `run_parent_iff`). This holds of
every search that ends, also where sums of lengths are rounded and labels need not be distances. All
it takes is that no label is below the source's own, so that the source never gets a parent.
-/

namespace Optima.Graph

namespace Search

variable {μ α : Type} [Quantity α] {n : Nat} {steps : Fin n → List (Step n μ α)} {fits : α → Prop}
  {source u : Fin n} {d : α} {s s' : State n μ α}

/-- A step leads from one node to the other. -/
def Leads (steps : Fin n → List (Step n μ α)) (u v : Fin n) : Prop :=
  ∃ step ∈ steps u, step.head = v

/-- Steps lead from the source to a node. -/
abbrev Reachable (steps : Fin n → List (Step n μ α)) (source v : Fin n) : Prop :=
  Relation.ReflTransGen (Leads steps) source v

/-- Labels that are not below that of the source, and stay so along steps. -/
structure FromNought (steps : Fin n → List (Step n μ α)) (fits : α → Prop) : Prop where
  nought : fits Quantity.nought
  not_less : ∀ {d}, fits d → Quantity.less d Quantity.nought = false
  add : ∀ {d u c}, fits d → ∀ step ∈ steps u, Quantity.add d step.length = .ok c → fits c

/-- What holds of a search while the steps in `owed` are still to be relaxed, each from the node
beside it: labels lie on nodes that can be reached, and go on to the heads of all other steps of
nodes that are done. -/
structure Reaching (steps : Fin n → List (Step n μ α)) (fits : α → Prop) (source : Fin n)
    (owed : List (Fin n × Step n μ α)) (s : State n μ α) : Prop where
  source_label : s.distance.get source = some Quantity.nought
  source_parent : s.parent.get source = none
  parent_iff : ∀ {v}, v ≠ source → ((s.parent.get v).isSome ↔ (s.distance.get v).isSome)
  reached : ∀ {v}, (s.distance.get v).isSome → Reachable steps source v
  entered : ∀ x ∈ s.frontier, fits x.1 ∧ (s.distance.get x.2).isSome
  waits : ∀ {v}, (s.distance.get v).isSome → s.done.get v = false → ∃ d, (d, v) ∈ s.frontier
  spread : ∀ {u}, s.done.get u = true → ∀ step ∈ steps u,
    (u, step) ∈ owed ∨ (s.distance.get step.head).isSome

theorem Reaching.start (low : FromNought steps fits) (source : Fin n) :
    Reaching steps fits source [] (State.start source) where
  source_label := by simp [State.start]
  source_parent := by simp [State.start]
  parent_iff apart := by simp [State.start, apart.symm]
  reached {v} labelled := by
    have same : source = v := by
      by_contra apart
      simp [State.start, apart] at labelled
    exact same ▸ .refl
  entered x mem := by
    rw [List.mem_singleton.mp mem]
    exact ⟨low.nought, by simp [State.start]⟩
  waits {v} labelled _ := by
    have same : source = v := by
      by_contra apart
      simp [State.start, apart] at labelled
    exact ⟨Quantity.nought, List.mem_singleton.mpr (by rw [same])⟩
  spread done := by simp [State.start] at done

/-! ### One step -/

/-- All that relaxing a step can do: nothing, where the head has a label already, or label the
head. -/
theorem relax_cases {refuse : μ → α → Failure} {step : Step n μ α}
    (ok : relax refuse u d s step = .ok s') :
    ∃ c, Quantity.add d step.length = .ok c ∧
      (s' = s ∧ (s.distance.get step.head).isSome ∨
        (∀ old, s.distance.get step.head = some old → Quantity.less c old = true) ∧
        s' = { s with
          distance := s.distance.update step.head (some c)
          parent := s.parent.update step.head (some (u, step.mark))
          frontier := (c, step.head) :: s.frontier }) := by
  unfold relax at ok
  split at ok
  · cases ok
  · obtain ⟨c, sum, ok⟩ := bind_eq_ok_iff.mp ok
    refine ⟨c, arith_eq_ok_iff.mp sum, ?_⟩
    cases label : s.distance.get step.head with
    | none =>
      simp only [label, if_true] at ok
      cases ok
      exact .inr ⟨nofun, rfl⟩
    | some old =>
      simp only [label] at ok
      split at ok
      · rename_i less
        cases ok
        exact .inr ⟨fun _ same => Option.some.inj same ▸ less, rfl⟩
      · cases ok
        exact .inl ⟨rfl, rfl⟩

/-- Relaxing a step from a labelled node pays it off, and takes no label away. -/
theorem Reaching.relax (low : FromNought steps fits) {refuse : μ → α → Failure}
    {step : Step n μ α} {owed : List (Fin n × Step n μ α)}
    (inv : Reaching steps fits source ((u, step) :: owed) s) (fit : fits d)
    (labelled : (s.distance.get u).isSome) (known : step ∈ steps u)
    (ok : Search.relax refuse u d s step = .ok s') :
    Reaching steps fits source owed s' ∧
      ∀ v, (s.distance.get v).isSome → (s'.distance.get v).isSome := by
  obtain ⟨c, sum, ⟨rfl, head⟩ | ⟨lower, rfl⟩⟩ := relax_cases ok
  · refine ⟨⟨inv.source_label, inv.source_parent, inv.parent_iff, inv.reached, inv.entered,
      inv.waits, fun done step' mem => ?_⟩, fun _ => id⟩
    rcases inv.spread done step' mem with debt | paid
    · rcases List.mem_cons.mp debt with same | rest
      · cases same
        exact .inr head
      · exact .inl rest
    · exact .inr paid
  · have fit_c := low.add fit step known sum
    -- the source is no head, since its label cannot be lowered
    have apart : step.head ≠ source := by
      intro same
      have less := lower _ (same ▸ inv.source_label)
      rw [low.not_less fit_c] at less
      cases less
    have kept : ∀ v, (s.distance.get v).isSome →
        ((s.distance.update step.head (some c)).get v).isSome := by
      intro v old
      rw [Table.get_update]
      split
      · rfl
      · exact old
    refine ⟨⟨?_, ?_, fun {v} other => ?_, fun {v} label => ?_, fun x mem => ?_,
      fun {v} label waiting => ?_, fun done step' mem => ?_⟩, kept⟩
    · rw [Table.get_update, if_neg apart, inv.source_label]
    · rw [Table.get_update, if_neg apart, inv.source_parent]
    · simp only [Table.get_update]
      split
      · simp
      · exact inv.parent_iff other
    · rw [Table.get_update] at label
      split at label
      · rename_i same
        exact .tail (inv.reached labelled) ⟨step, known, same⟩
      · exact inv.reached label
    · rcases List.mem_cons.mp mem with rfl | old
      · exact ⟨fit_c, by simp⟩
      · exact ⟨(inv.entered x old).1, kept _ (inv.entered x old).2⟩
    · by_cases same : step.head = v
      · exact ⟨c, same ▸ List.mem_cons_self⟩
      · rw [Table.get_update, if_neg same] at label
        obtain ⟨e, mem⟩ := inv.waits label waiting
        exact ⟨e, List.mem_cons_of_mem _ mem⟩
    · rcases inv.spread done step' mem with debt | paid
      · rcases List.mem_cons.mp debt with same | rest
        · cases same
          exact .inr (by simp)
        · exact .inl rest
      · exact .inr (kept _ paid)

/-- Relaxing all steps that are owed leaves none. -/
theorem Reaching.foldlM_relax (low : FromNought steps fits) {refuse : μ → α → Failure}
    {due : List (Step n μ α)} (inv : Reaching steps fits source (due.map (u, ·)) s)
    (fit : fits d) (labelled : (s.distance.get u).isSome) (part : due ⊆ steps u)
    (ok : due.foldlM (Search.relax refuse u d) s = .ok s') :
    Reaching steps fits source [] s' := by
  induction due generalizing s with
  | nil =>
    cases ok
    exact inv
  | cons step due ih =>
    rw [List.foldlM_cons] at ok
    obtain ⟨next, relaxed, ok⟩ := bind_eq_ok_iff.mp ok
    obtain ⟨inv', kept⟩ := inv.relax low fit labelled (part List.mem_cons_self) relaxed
    exact ih inv' (kept u labelled) (fun _ mem => part (List.mem_cons_of_mem _ mem)) ok

/-! ### Nodes that leave the frontier -/

/-- A node that leaves the frontier is settled, if it was not settled before. -/
theorem Reaching.settle (low : FromNought steps fits) {refuse : μ → α → Failure}
    {others : List (α × Fin n)} (inv : Reaching steps fits source [] s)
    (leaves : ((d, u) :: others).Perm s.frontier)
    (ok : Search.settle steps refuse d u { s with frontier := others } = .ok s') :
    Reaching steps fits source [] s' := by
  have kept : ∀ x ∈ others, x ∈ s.frontier :=
    fun x mem => leaves.mem_iff.mp (List.mem_cons_of_mem _ mem)
  have remains : ∀ {v}, v ≠ u → (s.distance.get v).isSome → s.done.get v = false →
      ∃ e, (e, v) ∈ others := by
    intro v other label waiting
    obtain ⟨e, mem⟩ := inv.waits label waiting
    rcases List.mem_cons.mp (leaves.mem_iff.mpr mem) with same | mem
    · exact absurd (Prod.mk.inj same).2 other
    · exact ⟨e, mem⟩
  obtain ⟨fit, labelled⟩ := inv.entered _ (leaves.mem_iff.mp List.mem_cons_self)
  unfold Search.settle at ok
  split at ok
  · rename_i done
    cases ok
    refine ⟨inv.source_label, inv.source_parent, inv.parent_iff, inv.reached,
      fun x mem => inv.entered x (kept x mem), fun {v} label waiting => ?_, inv.spread⟩
    refine remains (fun same => ?_) label waiting
    subst same
    rw [show s.done.get v = false from waiting] at done
    cases done
  · have owing : Reaching steps fits source ((steps u).map (u, ·))
        { s with frontier := others, done := s.done.update u true, settled := s.settled + 1 } := by
      refine ⟨inv.source_label, inv.source_parent, inv.parent_iff, inv.reached,
        fun x mem => inv.entered x (kept x mem), fun {v} label waiting => ?_,
        fun {v} done step mem => ?_⟩
      · rw [Table.get_update] at waiting
        split at waiting
        · cases waiting
        · rename_i apart
          exact remains (Ne.symm apart) label waiting
      · rw [Table.get_update] at done
        split at done
        · rename_i same
          subst same
          exact .inl (List.mem_map_of_mem mem)
        · exact .inr ((inv.spread done step mem).resolve_left List.not_mem_nil)
    exact owing.foldlM_relax low fit labelled (List.Subset.refl _) ok

/-- A search that ends has emptied its frontier. -/
theorem explore_reaching (low : FromNought steps fits) {refuse : μ → α → Failure}
    {point : Run Failure Unit} (passes : point.outcome = .ok ()) {fuel : Nat}
    (inv : Reaching steps fits source [] s)
    (ok : (explore steps refuse point fuel s).outcome = .ok s') :
    Reaching steps fits source [] s' ∧ s'.frontier = [] := by
  induction fuel generalizing s with
  | zero =>
    cases frontier : s.frontier with
    | nil =>
      simp only [explore, frontier, Run.outcome_pure] at ok
      cases ok
      exact ⟨inv, frontier⟩
    | cons x rest =>
      rw [explore.eq_def] at ok
      simp only [frontier] at ok
      cases ok
  | succ fuel ih =>
    cases frontier : s.frontier with
    | nil =>
      simp only [explore, frontier, Run.outcome_pure] at ok
      cases ok
      exact ⟨inv, frontier⟩
    | cons x rest =>
      rw [explore.eq_def] at ok
      simp only [frontier, Run.outcome_bind_of_ok passes] at ok
      have leaves := takeLeast_perm x rest
      rcases taken : takeLeast x rest with ⟨⟨d, u⟩, others⟩
      rw [taken, ← frontier] at leaves
      rw [taken] at ok
      obtain ⟨next, settled, ok⟩ := Run.outcome_bind_eq_ok_iff.mp ok
      exact ih (inv.settle low leaves settled) ok

section Run

variable {refuse : μ → α → Failure} {point : Run Failure Unit}

/-- Labelled are the nodes that can be reached. -/
theorem run_labelled_iff (low : FromNought steps fits) (passes : point.outcome = .ok ())
    (ok : (run steps refuse point source).outcome = .ok s) (v : Fin n) :
    (s.distance.get v).isSome ↔ Reachable steps source v := by
  obtain ⟨inv, empty⟩ := explore_reaching low passes (.start low source) ok
  refine ⟨inv.reached, fun reachable => ?_⟩
  induction reachable with
  | refl => simp [inv.source_label]
  | @tail u v _ leads ih =>
    obtain ⟨step, mem, rfl⟩ := leads
    have done : s.done.get u = true := by
      by_contra waiting
      obtain ⟨d, entry⟩ := inv.waits ih (by simpa using waiting)
      rw [empty] at entry
      cases entry
    exact (inv.spread done step mem).resolve_left List.not_mem_nil

/-- Parents have the nodes that can be reached, the source apart. -/
theorem run_parent_iff (low : FromNought steps fits) (passes : point.outcome = .ok ())
    (ok : (run steps refuse point source).outcome = .ok s) (v : Fin n) :
    (s.parent.get v).isSome ↔ Reachable steps source v ∧ v ≠ source := by
  obtain ⟨inv, _⟩ := explore_reaching low passes (.start low source) ok
  rw [← run_labelled_iff low passes ok v]
  by_cases same : v = source
  · subst same
    simp [inv.source_parent]
  · simp [inv.parent_iff same, same]

end Run

/-! ### Integers, and numbers of both kinds -/

theorem fromNought_int {steps : Fin n → List (Step n μ Int)}
    (lengths : ∀ u, ∀ step ∈ steps u, 0 ≤ step.length) :
    FromNought steps fun d : Int => 0 ≤ d where
  nought := le_rfl
  not_less nonneg := decide_eq_false (not_lt.mpr nonneg)
  add {_ u _} nonneg step mem sum := by
    cases sum
    exact add_nonneg nonneg (lengths u step mem)

end Search

end Optima.Graph

namespace Optima.Number

open Binary64 (FromZero)

theorem Counts.toReal {a : Number} {x : Binary64} (counts : Counts a)
    (converted : a.toReal = .ok x) : x.FromZero := by
  cases a with
  | int i =>
    rw [Number.toReal] at converted
    split at converted
    · rename_i value
      cases converted
      exact Binary64.fromZero_of_ofInt? counts value
    · cases converted
  | real y =>
    cases converted
    exact counts

/-- Sums of numbers from zero on are such numbers. -/
theorem Counts.add {a b c : Number} (first : Counts a) (second : Counts b)
    (sum : Number.add a b = .ok c) : Counts c := by
  have mixed : (do return .real ((← a.toReal) + (← b.toReal)) : Except Fault Number) = .ok c →
      Counts c := by
    intro sum
    obtain ⟨x, left, sum⟩ := bind_eq_ok_iff.mp sum
    obtain ⟨y, right, sum⟩ := bind_eq_ok_iff.mp sum
    cases sum
    exact (value_le_add (first.toReal left) (second.toReal right)).1
  cases a with
  | int i =>
    cases b with
    | int j =>
      cases sum
      exact add_nonneg first second
    | real y => exact mixed sum
  | real x => exact mixed sum

end Optima.Number

namespace Optima.Graph

theorem Search.fromNought_number {μ : Type} {n : Nat} {steps : Fin n → List (Step n μ Number)}
    (lengths : ∀ u, ∀ step ∈ steps u, step.length.Counts) :
    Search.FromNought steps Number.Counts where
  nought := le_rfl
  not_less counts := by
    rw [← Bool.not_eq_true]
    exact fun less => absurd ((Number.less_iff_value counts le_rfl).mp less)
      (not_lt.mpr (Number.value_nonneg counts))
  add {_ u _} counts step mem sum := counts.add (lengths u step mem) sum

/-! ### Trees -/

namespace ShortestPath

variable {n : Nat}

/-- A tree over the nodes that can be reached: they have distances, and all but the source have
predecessors. -/
structure Tree.Spans (t : Tree n) (leads : Fin n → Fin n → Prop) (source : Fin n) : Prop where
  distance : ∀ v, (t.distance.get v).isSome ↔ Relation.ReflTransGen leads source v
  predecessor : ∀ v, (t.predecessor.get v).isSome ↔
    Relation.ReflTransGen leads source v ∧ v ≠ source

theorem leads_stepsOf {α : Type} (adjacency : Adjacency n α) :
    Search.Leads (stepsOf adjacency) = fun u v => ∃ w, (v, w) ∈ adjacency.get u := by
  funext u v
  refine propext ⟨?_, ?_⟩
  · rintro ⟨step, mem, rfl⟩
    exact ⟨step.length, mem_stepsOf.mp mem⟩
  · rintro ⟨w, mem⟩
    exact ⟨⟨v, (), w⟩, mem_stepsOf.mpr mem, rfl⟩

theorem treeIn_spans {α : Type} [Quantity α] {adjacency : Adjacency n α} {fits : α → Prop}
    {source : Fin n} {t : Tree n} (low : Search.FromNought (stepsOf adjacency) fits)
    (ok : (treeIn adjacency source).outcome = .ok t) :
    t.Spans (fun u v => ∃ w, (v, w) ∈ adjacency.get u) source := by
  obtain ⟨s, found, ok⟩ := Run.outcome_bind_eq_ok_iff.mp ok
  cases ok
  rw [← leads_stepsOf]
  refine ⟨fun v => ?_, fun v => ?_⟩
  · rw [Table.get_tabulate, Option.isSome_map]
    exact Search.run_labelled_iff low Run.outcome_tick found v
  · rw [Table.get_tabulate, Option.isSome_map]
    exact Search.run_parent_iff low Run.outcome_tick found v

/-- A search over lengths from zero on that ends leaves a tree over the nodes that can be
reached. -/
theorem tree_spans {adjacency : Adjacency n Number} {source : Fin n} {t : Tree n}
    (lengths : ∀ u, ∀ e ∈ adjacency.get u, e.2.Counts)
    (ok : (tree adjacency source).outcome = .ok t) :
    t.Spans (fun u v => ∃ w, (v, w) ∈ adjacency.get u) source := by
  by_cases whole : ∀ u, ∀ e ∈ adjacency.get u, ∃ w, e.2 = .int w
  · obtain ⟨ints, found, mem_ints⟩ := ints?_of_whole whole
    rw [tree, found] at ok
    have nonneg : ∀ u, ∀ step ∈ stepsOf ints u, 0 ≤ step.length := fun u step mem =>
      lengths u _ (mem_ints.mp (mem_stepsOf.mp mem))
    have same : (fun u v => ∃ w, (v, w) ∈ adjacency.get u) =
        fun u v => ∃ w, (v, w) ∈ ints.get u := by
      funext u v
      refine propext ⟨?_, ?_⟩
      · rintro ⟨w, mem⟩
        obtain ⟨i, rfl⟩ := whole u _ mem
        exact ⟨i, mem_ints.mpr mem⟩
      · rintro ⟨i, mem⟩
        exact ⟨.int i, mem_ints.mp mem⟩
    rw [same]
    exact treeIn_spans (Search.fromNought_int nonneg) ok
  · rw [tree, ints?_of_not_whole whole] at ok
    exact treeIn_spans (Search.fromNought_number fun u step mem =>
      lengths u _ (mem_stepsOf.mp mem)) ok

end ShortestPath

end Optima.Graph
