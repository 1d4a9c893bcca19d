import Optima.Proofs.Graph.ShortestPath

/-!
Which predecessor a node gets where several would do. Keys of frontier entries that go up in the
order in which entries leave the frontier, and along steps (`Rising`), go up in the order in which
nodes are settled; so the parent of a node, which was the first to lead to its label, has the least
key of all nodes that lead to it (`Ranked.parent_le`). The values of labels are such keys, and where
every step adds to a value, so are values and indices together.

In integers, then, the predecessor is a nearest one of the nodes from which the distance of a node
is reached, and among several of these the first, if no edge has length zero. The tree is then fixed
by which edges there are, in whatever order a node lists them (`tree_nearestPredecessor`).
-/

namespace Optima.Graph

variable {n : Nat}

/-! ### The order of settling -/

namespace Search

section Ranked

variable {μ α V W : Type} [LinearOrder V] [Preorder W] [Quantity α]

/-- Keys of entries that go up in the order in which entries leave the frontier, and along steps. -/
structure Rising (steps : Fin n → List (Step n μ α)) (value : α → V) (fits : Nat → α → Prop)
    (key : α × Fin n → W) : Prop where
  of_rank : ∀ {x y}, rank value x ≤ rank value y → key x ≤ key y
  step : ∀ {k d u}, k < n → fits k d → ∀ step ∈ steps u, ∀ {c},
    Quantity.add d step.length = .ok c → key (d, u) ≤ key (c, step.head)

/-- Settled nodes have keys of at most those in the frontier, and the parent of a node has a key of
at most that of any settled node from which its label can be reached. -/
structure Ranked (steps : Fin n → List (Step n μ α)) (value : α → V) (key : α × Fin n → W)
    (s : State n μ α) : Prop where
  settled_le : ∀ {v d}, s.done.get v = true → s.distance.get v = some d →
    ∀ x ∈ s.frontier, key (d, v) ≤ key x
  parent_le : ∀ {v d u mark du}, s.distance.get v = some d → s.parent.get v = some (u, mark) →
    s.distance.get u = some du → ∀ {w dw}, s.done.get w = true → s.distance.get w = some dw →
    ∀ step ∈ steps w, step.head = v → ∀ {c}, Quantity.add dw step.length = .ok c →
      value c ≤ value d → key (du, u) ≤ key (dw, w)

variable {steps : Fin n → List (Step n μ α)} {value : α → V} {fits : Nat → α → Prop}
  {key : α × Fin n → W} {source : Fin n} {time : Fin n → Nat} {s s' : State n μ α}

/-- The value of a label goes up along steps. -/
theorem Steady.rising_value (steady : Steady steps value fits) :
    Rising steps value fits fun x => value x.1 where
  of_rank le := value_le_of_rank_le le
  step room fit step mem c sum := by
    obtain ⟨c', sum', _, le⟩ := steady.add room fit step mem
    rw [sum] at sum'
    cases sum'
    exact le

/-- Where every step adds to a value, values and indices together go up along steps. -/
theorem rising_rank (adds : ∀ {u d}, ∀ step ∈ steps u, ∀ {c},
    Quantity.add d step.length = .ok c → value d < value c) :
    Rising steps value fits (rank value) where
  of_rank le := le
  step _ _ step mem _ sum := Prod.Lex.toLex_le_toLex.mpr (.inl (adds step mem sum))

theorem Ranked.start (source : Fin n) : Ranked steps value key (State.start source) :=
  ⟨fun settled => by simp [State.start] at settled, fun _ parent => by simp [State.start] at parent⟩

section Settle

variable {d : α} {u : Fin n} {others : List (α × Fin n)}

/-- What is settled once the nearest node is, has the label it had before, with a key of at most
that of the nearest node, and was settled before or is that node. -/
theorem Ranked.settled_before (ranked : Ranked steps value key s) (steady : Steady steps value fits)
    (inv : Exploring steps value fits source time s) (leaves : ((d, u) :: others).Perm s.frontier)
    (least : ∀ x ∈ s.frontier, rank value (d, u) ≤ rank value x) (fresh : s.done.get u = false)
    (relaxed : Relaxed value (steps u) u d { s with
      frontier := others, done := s.done.update u true, settled := s.settled + 1 } s')
    {v : Fin n} {e : α} (done : s'.done.get v = true) (label : s'.distance.get v = some e) :
    s.distance.get v = some e ∧ key (e, v) ≤ key (d, u) ∧
      (s.done.get v = true ∨ (e, v) = (d, u)) := by
  have leaving := leaves.mem_iff.mp List.mem_cons_self
  have nearest : ∀ x ∈ s.frontier, value d ≤ value x.1 :=
    fun x mem => value_le_of_rank_le (least x mem)
  obtain ⟨e', -, old, new⟩ := inv.settled_label steady leaves nearest fresh relaxed done
  obtain rfl := Option.some.inj (new.symm.trans label)
  rcases (done_iff_of_relaxed relaxed v).mp done with rfl | done
  · obtain rfl := Option.some.inj ((inv.label_eq leaving nearest fresh).symm.trans old)
    exact ⟨old, le_rfl, .inr rfl⟩
  · exact ⟨old, ranked.settled_le done old _ leaving, .inl done⟩

/-- Settling the nearest node keeps the order of keys. -/
theorem Ranked.settle (ranked : Ranked steps value key s) (rising : Rising steps value fits key)
    (steady : Steady steps value fits) (inv : Exploring steps value fits source time s)
    (leaves : ((d, u) :: others).Perm s.frontier)
    (least : ∀ x ∈ s.frontier, rank value (d, u) ≤ rank value x) (fresh : s.done.get u = false)
    (relaxed : Relaxed value (steps u) u d { s with
      frontier := others, done := s.done.update u true, settled := s.settled + 1 } s') :
    Ranked steps value key s' := by
  have leaving := leaves.mem_iff.mp List.mem_cons_self
  have done_iff := done_iff_of_relaxed relaxed
  have before {v : Fin n} {e : α} (done : s'.done.get v = true)
      (label : s'.distance.get v = some e) :=
    ranked.settled_before steady inv leaves least fresh relaxed done label
  refine ⟨fun {v e} done label x mem => ?_,
    fun {v e p mark dp} label parent known {w dw} done label' step mem head {c} sum le => ?_⟩
  · refine (before done label).2.1.trans ?_
    rcases relaxed.entered x mem with old | ⟨step, inside, head, sum, _⟩
    · exact rising.of_rank (least x (leaves.mem_iff.mp (List.mem_cons_of_mem _ old)))
    · have up := rising.step (inv.settled_lt fresh) (inv.entry_fits _ leaving) step inside sum
      rwa [head] at up
  · obtain ⟨old', -, either⟩ := before done label'
    rcases relaxed.label v with
      ⟨same, kept⟩ | ⟨_, inside, c', sum', head', now, parent', _, lower⟩
    · -- The label stays, and with it the parent, which was settled before.
      have old : s.distance.get v = some e := same.symm.trans label
      have parent : s.parent.get v = some (p, mark) := kept.symm.trans parent
      have apart : v ≠ source := by
        rintro rfl
        rw [inv.source_parent] at parent
        cases parent
      obtain ⟨p', _, _, parent', _, _, _, _, settled, _⟩ := inv.parent apart old
      obtain rfl : p' = p := by
        rw [parent] at parent'
        cases parent'
        rfl
      obtain ⟨known, first, -⟩ := before ((done_iff p').mpr (.inr settled)) known
      rcases either with done | same
      · exact ranked.parent_le old parent known done old' step mem head sum le
      · rwa [same]
    · -- The label changes, to one that no node led to before.
      obtain rfl := Option.some.inj (now.symm.trans label)
      rw [parent'] at parent
      cases parent
      obtain ⟨-, first, -⟩ := before ((done_iff u).mpr (.inl rfl)) known
      rcases either with done | same
      · obtain ⟨c'', sum'', new, labelled, above⟩ := inv.relaxed done old' step mem
        rw [sum] at sum''
        cases sum''
        rw [head] at labelled
        exact absurd (above.trans le) (not_le.mpr (lower new labelled))
      · rwa [same]

end Settle

/-- Every departure from the frontier keeps the order of keys. -/
theorem Ranked.departs (ranked : Ranked steps value key s) (rising : Rising steps value fits key)
    (steady : Steady steps value fits) (inv : Exploring steps value fits source time s)
    (departs : Departs steps value s s') : Ranked steps value key s' := by
  cases departs with
  | skip leaves _ =>
    exact ⟨fun done label x mem =>
      ranked.settled_le done label x (leaves.mem_iff.mp (List.mem_cons_of_mem _ mem)),
      ranked.parent_le⟩
  | settle leaves least fresh relaxed =>
    exact ranked.settle rising steady inv leaves least fresh relaxed

/-- A search over steady labels ends with a tree that keeps the order of any keys that rise. -/
theorem Steady.run_ranked (steady : Steady steps value fits) (refuse : μ → α → Failure)
    {point : Run Failure Unit} (passes : point.outcome = .ok ()) (source : Fin n) :
    ∃ s time, (run steps refuse point source).outcome = .ok s ∧
      (∀ {v d}, s.distance.get v = some d → s.done.get v = true) ∧
      Grown steps value fits source time s ∧
      ∀ (W : Type) [Preorder W] (key : α × Fin n → W), Rising steps value fits key →
        Ranked steps value key s :=
  steady.run_keeps refuse passes source
    (fun inv departs ranked W _ key rising =>
      (ranked W key rising).departs rising steady inv departs)
    fun _ _ _ _ => .start source

end Ranked

end Search

/-! ### Predecessors in integers -/

namespace ShortestPath

variable {adjacency other : Adjacency n Number} {source u v : Fin n} {d : Int} {t t' : Tree n}
  {time : Fin n → Nat} {label label' : Fin n → Option Int}

/-- An edge from a node at some distance leads to another node at its distance. -/
def Tree.Tight (t : Tree n) (adjacency : Adjacency n Number) (u : Fin n) (d : Int) (v : Fin n) :
    Prop :=
  t.distance.get u = some (.int d) ∧
    ∃ w, (v, .int w) ∈ adjacency.get u ∧ t.distance.get v = some (.int (d + w))

/-- All lengths are integers and above zero. -/
def Positive (adjacency : Adjacency n Number) : Prop :=
  ∀ u, ∀ e ∈ adjacency.get u, ∃ w : Int, 0 < w ∧ e.2 = .int w

/-- The node is a nearest one of those from which a node's distance is reached, and the first of
these if all lengths are above zero. -/
structure Tree.Chosen (t : Tree n) (adjacency : Adjacency n Number) (u : Fin n) (d : Int)
    (v : Fin n) : Prop where
  tight : t.Tight adjacency u d v
  nearest : ∀ {w e}, t.Tight adjacency w e v → d ≤ e
  first : Positive adjacency → ∀ {w}, t.Tight adjacency w d v → u ≤ w

theorem Tree.Exact.distance_eq_iff (exact : t.Exact adjacency source label) :
    t.distance.get v = some (.int d) ↔ label v = some d := by
  rw [exact.distance]
  cases label v <;> simp

theorem Tree.Exact.tight_iff (exact : t.Exact adjacency source label) :
    t.Tight adjacency u d v ↔
      label u = some d ∧ ∃ w, (v, .int w) ∈ adjacency.get u ∧ label v = some (d + w) := by
  simp only [Tree.Tight, exact.distance_eq_iff]

/-- A predecessor is one of the nodes from which the distance of its node is reached. -/
theorem Tree.Exact.exists_tight (exact : t.Exact adjacency source label) (apart : v ≠ source)
    (labelled : (t.distance.get v).isSome) :
    ∃ u d, t.predecessor.get v = some u ∧ t.Tight adjacency u d v := by
  rw [exact.distance, Option.isSome_map] at labelled
  obtain ⟨e, label_v⟩ := Option.isSome_iff_exists.mp labelled
  obtain ⟨u, d, w, predecessor, label_u, edge, rfl⟩ := exact.predecessor apart label_v
  exact ⟨u, d, predecessor, exact.tight_iff.mpr ⟨label_u, w, edge, label_v⟩⟩

/-- No edge can be relaxed, so a label is no greater than the length of the path to its node in any
tree over some of the edges. -/
theorem Tree.Exact.exists_le (exact : t.Exact adjacency source label)
    (back : t.LeadsBack source time) (exact' : t'.Exact other source label')
    (edges : ∀ u e, e ∈ adjacency.get u → e ∈ other.get u) {path : List (Fin n)}
    (trace : Trace t.predecessor source v path) (known : label v = some d) :
    ∃ d' ≤ d, label' v = some d' := by
  induction trace generalizing d with
  | source _ =>
    rw [exact.source_label] at known
    cases known
    exact ⟨0, le_rfl, exact'.source_label⟩
  | @step u v path _ predecessor ih =>
    obtain ⟨u', e, w, predecessor', known', edge, rfl⟩ :=
      exact.predecessor (back.reached predecessor).1 known
    obtain rfl : u = u' := Option.some.inj (predecessor.symm.trans predecessor')
    obtain ⟨e', le, there⟩ := ih known'
    obtain ⟨new, below, label_v⟩ := exact'.relaxed there (edges u _ edge)
    exact ⟨new, below.trans (by omega), label_v⟩

/-- Distances do not depend on the order of edges. -/
theorem Tree.Exact.label_eq {time' : Fin n → Nat} (exact : t.Exact adjacency source label)
    (back : t.LeadsBack source time) (exact' : t'.Exact other source label')
    (back' : t'.LeadsBack source time')
    (edges : ∀ u, (other.get u).Perm (adjacency.get u)) : label = label' := by
  have trace {t : Tree n} {adjacency : Adjacency n Number} {label : Fin n → Option Int}
      {time : Fin n → Nat} (exact : t.Exact adjacency source label)
      (back : t.LeadsBack source time) {v : Fin n} {d : Int} (known : label v = some d) :
      ∃ path, Trace t.predecessor source v path := by
    obtain ⟨path, -, trace, -⟩ := back.pathTo (v := v) (by simp [exact.distance, known])
    exact ⟨path, trace⟩
  funext v
  have forth {d : Int} (known : label v = some d) : ∃ d' ≤ d, label' v = some d' := by
    obtain ⟨path, trace⟩ := trace exact back known
    exact exact.exists_le back exact' (fun u e => (edges u).mem_iff.mpr) trace known
  have back {d : Int} (known : label' v = some d) : ∃ d' ≤ d, label v = some d' := by
    obtain ⟨path, trace⟩ := trace exact' back' known
    exact exact'.exists_le back' exact (fun u e => (edges u).mem_iff.mp) trace known
  cases there : label v with
  | none =>
    cases here : label' v with
    | none => rfl
    | some d =>
      obtain ⟨_, -, known⟩ := back here
      rw [there] at known
      cases known
  | some d =>
    obtain ⟨d', le, here⟩ := forth there
    obtain ⟨d'', le', again⟩ := back here
    obtain rfl := Option.some.inj (there.symm.trans again)
    rw [here, le_antisymm le le']

/-- Trees with the same ways to reach distances have the same predecessors, if all lengths are above
zero. -/
theorem Tree.Chosen.eq {u' : Fin n} {d' : Int} (one : t.Chosen adjacency u d v)
    (two : t'.Chosen other u' d' v) (positive : Positive adjacency) (positive' : Positive other)
    (tight_iff : ∀ {w e}, t'.Tight other w e v ↔ t.Tight adjacency w e v) : u = u' := by
  obtain rfl : d = d' := le_antisymm (one.nearest (tight_iff.mp two.tight))
    (two.nearest (tight_iff.mpr one.tight))
  exact le_antisymm (one.first positive (tight_iff.mp two.tight))
    (two.first positive' (tight_iff.mpr one.tight))

/-- The tree over lengths that are integers and not negative, with the predecessors that it has. -/
theorem tree_chosen (whole : ∀ u, ∀ e ∈ adjacency.get u, ∃ w : Int, 0 ≤ w ∧ e.2 = .int w)
    (source : Fin n) : ∃ t time label, (tree adjacency source).outcome = .ok t ∧
      t.LeadsBack source time ∧ t.Exact adjacency source label ∧
      ∀ {u v}, t.predecessor.get v = some u → ∃ d, t.Chosen adjacency u d v := by
  obtain ⟨ints, found, mem_ints, steady⟩ := exists_steps whole
  obtain ⟨s, time, ok, done, grown, ranked⟩ :=
    steady.run_ranked (fun _ _ => refusal) Run.outcome_tick source
  have exact := exact_of_grown mem_ints grown
  have back := leadsBack_of_grown grown
  refine ⟨treeOf s, time, s.distance.get, ?_, back, exact, fun {u v} predecessor => ?_⟩
  · rw [tree, found]
    exact Run.outcome_bind_of_ok ok _
  · obtain ⟨apart, labelled⟩ := back.reached predecessor
    obtain ⟨u', d, predecessor', tight⟩ := exact.exists_tight apart labelled
    obtain rfl : u = u' := Option.some.inj (predecessor.symm.trans predecessor')
    obtain ⟨label_u, _, -, label_v⟩ := exact.tight_iff.mp tight
    obtain ⟨mark, parent⟩ : ∃ mark, s.parent.get v = some (u, mark) := by
      simpa [treeOf] using predecessor
    -- Nodes that lead to the distance of `v` have no lower key, whatever keys are looked at.
    have least {W : Type} [Preorder W] {key : Int × Fin n → W}
        (rising : Search.Rising (stepsOf ints) id (fun _ d => 0 ≤ d) key) {w : Fin n} {e : Int}
        (tight : (treeOf s).Tight adjacency w e v) : key (d, u) ≤ key (e, w) := by
      obtain ⟨label_w, length, edge, label_v'⟩ := exact.tight_iff.mp tight
      refine (ranked W key rising).parent_le label_v parent label_u (done label_w) label_w
        ⟨v, (), length⟩ (mem_stepsOf.mpr (mem_ints.mpr edge)) rfl rfl ?_
      exact (Option.some.inj (label_v.symm.trans label_v')).ge
    refine ⟨d, tight, fun tight' => least steady.rising_value tight', fun positive w tight' => ?_⟩
    have adds : ∀ {u d}, ∀ step ∈ stepsOf ints u, ∀ {c},
        Quantity.add d step.length = .ok c → (id d : Int) < id c := by
      intro u d step mem c sum
      obtain ⟨length, above, same⟩ := positive u _ (mem_ints.mp (mem_stepsOf.mp mem))
      cases same
      cases sum
      exact lt_add_of_pos_right d above
    have rank_le := Prod.Lex.toLex_le_toLex.mp (least (Search.rising_rank adds) tight')
    exact (rank_le.resolve_left (lt_irrefl _)).2

/-- The predecessor of a node is a nearest one of the nodes from which its distance is reached, and
if all lengths are above zero it is the first of these, so that the order in which nodes list their
edges shows neither in distances nor in predecessors. -/
theorem tree_nearestPredecessor
    (whole : ∀ u, ∀ e ∈ adjacency.get u, ∃ w : Int, 0 ≤ w ∧ e.2 = .int w) (source : Fin n) :
    ∃ t, (tree adjacency source).outcome = .ok t ∧
      (∀ v, v ≠ source → (t.distance.get v).isSome →
        ∃ u d, t.predecessor.get v = some u ∧ t.Chosen adjacency u d v) ∧
      (Positive adjacency → ∀ other : Adjacency n Number,
        (∀ u, (other.get u).Perm (adjacency.get u)) →
        ∃ t', (tree other source).outcome = .ok t' ∧ t'.distance = t.distance ∧
          t'.predecessor = t.predecessor) := by
  obtain ⟨t, time, label, ok, back, exact, chosen⟩ := tree_chosen whole source
  refine ⟨t, ok, fun v apart labelled => ?_, fun positive other edges => ?_⟩
  · obtain ⟨u, -, predecessor, -⟩ := exact.exists_tight apart labelled
    obtain ⟨d, chosen⟩ := chosen predecessor
    exact ⟨u, d, predecessor, chosen⟩
  · have whole' : ∀ u, ∀ e ∈ other.get u, ∃ w : Int, 0 ≤ w ∧ e.2 = .int w :=
      fun u e mem => whole u e ((edges u).mem_iff.mp mem)
    obtain ⟨t', time', label', ok', back', exact', chosen'⟩ := tree_chosen whole' source
    have labels := exact.label_eq back exact' back' edges
    have positive' : Positive other := fun u e mem => positive u e ((edges u).mem_iff.mp mem)
    have tight_iff {u v : Fin n} {d : Int} : t'.Tight other u d v ↔ t.Tight adjacency u d v := by
      rw [exact.tight_iff, exact'.tight_iff, labels]
      simp only [(edges u).mem_iff]
    have isSome_eq (v : Fin n) : (t'.distance.get v).isSome = (t.distance.get v).isSome := by
      rw [exact.distance, exact'.distance, labels]
    refine ⟨t', ok', Table.ext fun v => ?_, Table.ext fun v => ?_⟩
    · rw [exact.distance, exact'.distance, labels]
    · by_cases reached : v ≠ source ∧ (t.distance.get v).isSome
      · obtain ⟨u, -, predecessor, -⟩ := exact.exists_tight reached.1 reached.2
        obtain ⟨u', -, predecessor', -⟩ :=
          exact'.exists_tight reached.1 ((isSome_eq v).trans reached.2)
        obtain ⟨d, one⟩ := chosen predecessor
        obtain ⟨d', two⟩ := chosen' predecessor'
        rw [predecessor, predecessor', one.eq two positive positive' tight_iff]
      · rw [back.predecessor_eq_none reached, back'.predecessor_eq_none (by rwa [isSome_eq])]

/-- Two ways of equal length to node 3, and nodes at equal distance on both; no way to node 4. -/
def evenWays : Adjacency 5 Number :=
  #v[[(2, .int 1), (1, .int 1)], [(3, .int 2)], [(3, .int 2)], [(0, .int 1)], [(3, .int 1)]]

/-- The same edges in another order. -/
def evenWaysTurned : Adjacency 5 Number :=
  #v[[(1, .int 1), (2, .int 1)], [(3, .int 2)], [(3, .int 2)], [(0, .int 1)], [(3, .int 1)]]

theorem tree_nearestPredecessor_evenWays :
    (∀ u, ∀ e ∈ evenWays.get u, ∃ w : Int, 0 ≤ w ∧ e.2 = .int w) ∧ Positive evenWays ∧
    (∀ u, (evenWaysTurned.get u).Perm (evenWays.get u)) ∧
    ∃ t, (tree evenWays 0).outcome = .ok t ∧
      (∃ u d, t.predecessor.get 3 = some u ∧ t.Chosen evenWays u d 3) ∧
      ∃ t', (tree evenWaysTurned 0).outcome = .ok t' ∧ t'.distance = t.distance ∧
        t'.predecessor = t.predecessor := by
  have listed : ∀ u, ∀ e ∈ evenWays.get u, e.2 = .int 1 ∨ e.2 = .int 2 := by decide
  have positive : Positive evenWays := fun u e mem =>
    (listed u e mem).elim (fun one => ⟨1, by decide, one⟩) fun two => ⟨2, by decide, two⟩
  have whole : ∀ u, ∀ e ∈ evenWays.get u, ∃ w : Int, 0 ≤ w ∧ e.2 = .int w := fun u e mem =>
    let ⟨w, above, length⟩ := positive u e mem
    ⟨w, above.le, length⟩
  have edges : ∀ u, (evenWaysTurned.get u).Perm (evenWays.get u) := by decide
  have reached : (tree evenWays 0).outcome.toOption.map (fun t => (t.distance.get 3).isSome) =
      some true := by decide +kernel
  obtain ⟨t, ok, chosen, turned⟩ := tree_nearestPredecessor whole 0
  rw [ok] at reached
  exact ⟨whole, positive, edges, t, ok, chosen 3 (by decide) (Option.some.inj reached),
    turned positive evenWaysTurned edges⟩

/-- Both ways are as long, and the node in the middle that comes first is taken. -/
example : (tree evenWaysTurned 0).outcome.toOption.map (fun t => t.predecessor.values) =
    some [none, some 0, some 0, some 1, none] := by decide +kernel

end ShortestPath

end Optima.Graph
