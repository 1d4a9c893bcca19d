import Optima.Proofs.Flow.Maximum.Invariant

/-!
Heights only rise. Whatever changes heights in a run (`Raised`) leaves flow, excess and queue alone,
raises nodes or leaves them, and lets a node that it raises look at all its arcs again. Lifting a
node (`lift_raised`), closing the gap that it leaves, and computing all heights afresh
(`relabelAll_raised`) are of this kind, and each keeps the heights valid.
-/

namespace Optima.Flow.Maximum

variable {n m : Nat} {setting : Setting n m} {s s' s'' : State n m}

/-- Heights rose and nothing else changed, apart from what goes with heights. -/
structure Raised (setting : Setting n m) (s s' : State n m) : Prop where
  network : s'.network = s.network
  excess : s'.excess = s.excess
  queued : s'.queued = s.queued
  active : s'.active = s.active
  height_le : ∀ v, s.height.get v ≤ s'.height.get v
  pending : ∀ v, s'.pending.get v = setting.leaving.get v ∨
    (s'.pending.get v = s.pending.get v ∧ s'.height.get v = s.height.get v)

theorem Raised.refl (setting : Setting n m) (s : State n m) : Raised setting s s :=
  ⟨rfl, rfl, rfl, rfl, fun _ => le_rfl, fun _ => .inr ⟨rfl, rfl⟩⟩

theorem Raised.trans (first : Raised setting s s') (second : Raised setting s' s'') :
    Raised setting s s'' := by
  refine ⟨second.network.trans first.network, second.excess.trans first.excess,
    second.queued.trans first.queued, second.active.trans first.active,
    fun v => (first.height_le v).trans (second.height_le v), fun v => ?_⟩
  rcases second.pending v with again | ⟨same, level⟩
  · exact .inl again
  · rcases first.pending v with again | ⟨same', level'⟩
    · exact .inl (same.trans again)
    · exact .inr ⟨same.trans same', level.trans level'⟩

/-- What is left to show of raised heights. -/
theorem Raised.labelled (raised : Raised setting s s')
    (leaving : setting.leaving = s.network.leaving)
    (lab : Labelled setting s.network s.height s.pending s.population)
    (sink : s'.height.get setting.sink = 0) (source : s'.height.get setting.source = n)
    (bounded : ∀ v, s'.height.get v ≤ 2 * n) (valid : Valid s.network s'.height)
    (counted : Counted s'.height s'.population) :
    Labelled setting s'.network s'.height s'.pending s'.population := by
  rw [raised.network]
  refine ⟨sink, source, bounded, valid, counted, fun a room gone => ?_, fun v => ?_⟩
  · rcases raised.pending (s.network.tail a) with again | ⟨same, level⟩
    · rw [again, leaving] at gone
      exact absurd (s.network.mem_leaving.mpr rfl) gone
    · rw [same] at gone
      rw [level]
      exact (lab.passed a room gone).trans (raised.height_le _)
  · rcases raised.pending v with again | ⟨same, _⟩
    · rw [again]
    · rw [same]
      exact lab.suffix v

/-- Raised heights that are in order keep the invariant. -/
theorem Inv.raise {busy : Option (Fin n)} (inv : Inv setting busy s) (raised : Raised setting s s')
    (labelled : Labelled setting s'.network s'.height s'.pending s'.population) :
    Inv setting busy s' := by
  refine ⟨?_, labelled, ?_, ?_, ?_⟩
  · rw [raised.network, raised.excess]
    exact inv.balanced
  · rw [raised.excess, raised.queued, raised.active]
    exact inv.queue
  · rw [raised.excess, raised.active]
    exact inv.waiting
  · rw [raised.active]
    exact inv.busy

/-! ### Heights computed afresh -/

theorem relabelAll_labelled {excess : Table n Int} (bal : Balanced setting s.network excess)
    (cut : ¬ s.network.Reaches setting.source setting.sink) :
    Labelled setting (relabelAll setting s).network (relabelAll setting s).height
      (relabelAll setting s).pending (relabelAll setting s).population := by
  refine ⟨exactHeights_sink bal.apart, exactHeights_source bal.apart, exactHeights_le bal.apart,
    valid_exactHeights bal.leaving bal.apart cut, fun h => ?_, fun a _ gone => ?_,
    fun v => List.suffix_rfl⟩
  · simp only [relabelAll, Table.get_tabulate]
    exact Table.count_values _ _
  · refine absurd ?_ gone
    show a ∈ setting.leaving.get (s.network.tail a)
    rw [bal.leaving]
    exact s.network.mem_leaving.mpr rfl

/-- The source is above the sink by the number of nodes, so no residual path connects them. -/
theorem Labelled.cut {net : Network n m} {height : Table n Nat} {pending : Table n (List (Arc m))}
    {population : Table (2 * n + 2) Nat} (lab : Labelled setting net height pending population) :
    ¬ net.Reaches setting.source setting.sink := by
  intro path
  have := lab.valid.descent_lt path
  rw [lab.source, lab.sink] at this
  omega

theorem relabelAll_raised {excess : Table n Int} (bal : Balanced setting s.network excess)
    (lab : Labelled setting s.network s.height s.pending s.population) :
    Raised setting s (relabelAll setting s) :=
  ⟨rfl, rfl, rfl, rfl,
    le_exactHeights bal.leaving bal.apart lab.valid lab.sink lab.source lab.bounded,
    fun _ => .inl rfl⟩

/-! ### Closing a gap -/

/-- Where a height goes when a gap below it is closed. -/
def overGap (n gap h : Nat) : Nat := if gap < h ∧ h < n then n + 1 else h

/-- One node's part in closing a gap. -/
def liftOver (setting : Setting n m) (gap : Nat) (s : State n m) (v : Fin n) : State n m :=
  let h := s.height.get v
  if gap < h ∧ h < n then
    { s with
      population := migrate s.population h (n + 1)
      height := s.height.update v (n + 1)
      pending := s.pending.update v (setting.leaving.get v) }
  else s

theorem liftOver_raised (gap : Nat) (v : Fin n) : Raised setting s (liftOver setting gap s v) := by
  unfold liftOver
  simp only
  split
  · next inGap =>
    refine ⟨rfl, rfl, rfl, rfl, fun w => ?_, fun w => ?_⟩
    · rw [Table.get_update]
      split
      · next same =>
        subst same
        omega
      · exact le_rfl
    · simp only [Table.get_update]
      by_cases same : v = w
      · exact .inl (by simp [same])
      · exact .inr (by simp [same])
  · exact .refl setting s

theorem liftOver_height (gap : Nat) (v w : Fin n) :
    (liftOver setting gap s v).height.get w =
      if v = w then overGap n gap (s.height.get w) else s.height.get w := by
  unfold liftOver overGap
  simp only
  by_cases same : v = w
  · subst same
    split <;> simp
  · split <;> simp [same]

theorem liftOver_counted (gap : Nat) (v : Fin n) (counted : Counted s.height s.population)
    (bounded : ∀ w, s.height.get w ≤ 2 * n) :
    Counted (liftOver setting gap s v).height (liftOver setting gap s v).population := by
  unfold liftOver
  simp only
  split
  · exact counted.migrate (Nat.le_succ_of_le (bounded v)) (by omega)
  · exact counted

/-- Closing a gap raises the nodes in it over the source and counts them there. -/
theorem closeGap_spec (setting : Setting n m) (gap : Nat) (counted : Counted s.height s.population)
    (bounded : ∀ w, s.height.get w ≤ 2 * n) :
    Raised setting s (closeGap setting gap s) ∧
      (∀ w, (closeGap setting gap s).height.get w = overGap n gap (s.height.get w)) ∧
      Counted (closeGap setting gap s).height (closeGap setting gap s).population := by
  -- Each node is visited once, so nodes still to come are at their old heights.
  suffices visited : ∀ (vs : List (Fin n)) (s : State n m), vs.Nodup →
      Counted s.height s.population → (∀ w, s.height.get w ≤ 2 * n) →
      Raised setting s (vs.foldl (liftOver setting gap) s) ∧
        (∀ w, (vs.foldl (liftOver setting gap) s).height.get w =
          if w ∈ vs then overGap n gap (s.height.get w) else s.height.get w) ∧
        Counted (vs.foldl (liftOver setting gap) s).height
          (vs.foldl (liftOver setting gap) s).population by
    obtain ⟨raised, heights, counts⟩ :=
      visited (List.finRange n) s (List.nodup_finRange n) counted bounded
    exact ⟨raised, fun w => (heights w).trans (if_pos (List.mem_finRange w)), counts⟩
  intro vs
  induction vs with
  | nil => exact fun s _ counted _ => ⟨.refl setting s, fun w => by simp, counted⟩
  | cons v vs ih =>
    intro s nodup counted bounded
    obtain ⟨absent, nodup⟩ := List.nodup_cons.mp nodup
    have bounded' : ∀ w, (liftOver setting gap s v).height.get w ≤ 2 * n := by
      intro w
      have := bounded w
      have := w.pos
      rw [liftOver_height]
      split
      · unfold overGap
        split <;> omega
      · omega
    obtain ⟨raised, heights, counts⟩ := ih (liftOver setting gap s v) nodup
      (liftOver_counted gap v counted bounded) bounded'
    refine ⟨(liftOver_raised gap v).trans raised, fun w => ?_, counts⟩
    rw [List.foldl_cons, heights, liftOver_height]
    by_cases same : v = w
    · subst same
      simp [absent]
    · have other : ¬ w = v := fun h => same h.symm
      simp [same, other]

/-! ### Lifting a node -/

theorem le_foldl_min_iff {α : Type} (xs : List α) (f : α → Nat) (start k : Nat) :
    k ≤ xs.foldl (fun least a => min least (f a)) start ↔ k ≤ start ∧ ∀ a ∈ xs, k ≤ f a := by
  induction xs generalizing start with
  | nil => simp
  | cons x xs ih =>
    rw [List.foldl_cons, ih, Nat.le_min]
    simp only [List.mem_cons, forall_eq_or_imp]
    tauto

theorem le_lowestNeighbour_iff (leaving : setting.leaving = s.network.leaving) {u : Fin n}
    {k : Nat} : k ≤ lowestNeighbour setting s u ↔
      k ≤ 2 * n ∧ ∀ a, s.network.tail a = u → 0 < s.network.residual a →
        k ≤ s.height.get (s.network.head a) := by
  unfold lowestNeighbour
  rw [le_foldl_min_iff, leaving]
  simp only [List.mem_filter, Network.mem_leaving, decide_eq_true_eq, and_imp]

/-- The state in which a node stands at its new height and no gap has been closed. -/
def risen (setting : Setting n m) (u : Fin n) (s : State n m) : State n m :=
  let new := min (lowestNeighbour setting s u + 1) (2 * n)
  { s with
    population := migrate s.population (s.height.get u) new
    height := s.height.update u new
    pending := s.pending.update u (setting.leaving.get u)
    lifts := s.lifts + 1 }

theorem lift_eq (u : Fin n) :
    lift setting u s =
      if (risen setting u s).population.get (level (s.height.get u)) = 0 ∧
          0 < s.height.get u ∧ s.height.get u < n then
        closeGap setting (s.height.get u) (risen setting u s)
      else risen setting u s := rfl

section Lift

variable {excess : Table n Int} {u : Fin n} (bal : Balanced setting s.network excess)
  (lab : Labelled setting s.network s.height s.pending s.population)
  (inner : u ≠ setting.source ∧ u ≠ setting.sink) (low : s.height.get u < 2 * n)
  (passed : s.pending.get u = [])

include bal lab low passed in
/-- A node that passed by all its arcs rises by at least one. -/
theorem height_lt_risen :
    s.height.get u < min (lowestNeighbour setting s u + 1) (2 * n) := by
  refine Nat.lt_min.mpr ⟨Nat.lt_succ_of_le ?_, low⟩
  refine (le_lowestNeighbour_iff bal.leaving).mpr ⟨low.le, fun a tail room => ?_⟩
  rw [← tail]
  exact lab.passed a room (by simp [tail, passed])

include bal lab low passed in
theorem risen_raised : Raised setting s (risen setting u s) := by
  refine ⟨rfl, rfl, rfl, rfl, fun v => ?_, fun v => ?_⟩
  · have := height_lt_risen bal lab low passed
    simp only [risen, Table.get_update]
    split
    · next same =>
      subst same
      omega
    · exact le_rfl
  · by_cases same : u = v
    · exact .inl (by simp [risen, same])
    · exact .inr (by simp [risen, same])

include bal lab inner low passed in
theorem risen_labelled :
    Labelled setting (risen setting u s).network (risen setting u s).height
      (risen setting u s).pending (risen setting u s).population := by
  have rose := height_lt_risen bal lab low passed
  have reach := (le_lowestNeighbour_iff (s := s) (u := u) bal.leaving).mp le_rfl
  refine (risen_raised bal lab low passed).labelled bal.leaving lab ?_ ?_ (fun v => ?_)
    (fun a room => ?_) (lab.counted.migrate (Nat.le_succ_of_le (lab.bounded u)) (by omega))
  · simp [risen, inner.2, lab.sink]
  · simp [risen, inner.1, lab.source]
  · have := lab.bounded v
    simp only [risen, Table.get_update]
    split <;> omega
  · have gentle := lab.valid a room
    simp only [risen, Table.get_update]
    by_cases tail : u = s.network.tail a
    · by_cases head : u = s.network.head a
      · rw [if_pos tail, if_pos head]
        omega
      · have := reach.2 a tail.symm room
        rw [if_pos tail, if_neg head]
        omega
    · by_cases head : u = s.network.head a
      · rw [← head] at gentle
        rw [if_neg tail, if_pos head]
        omega
      · rwa [if_neg tail, if_neg head]

include bal lab inner low passed in
/-- A lift raises its node, whatever else it raises, and keeps heights in order. -/
theorem lift_raised :
    Raised setting s (lift setting u s) ∧ s.height.get u < (lift setting u s).height.get u ∧
      Labelled setting (lift setting u s).network (lift setting u s).height
        (lift setting u s).pending (lift setting u s).population := by
  have raised := risen_raised bal lab low passed
  have labelled := risen_labelled bal lab inner low passed
  have rose : s.height.get u < (risen setting u s).height.get u := by
    simpa [risen] using height_lt_risen bal lab low passed
  rw [lift_eq]
  split
  · next gap =>
    obtain ⟨empty, above, below⟩ := gap
    obtain ⟨closed, heights, counted⟩ := closeGap_spec setting (s.height.get u)
      labelled.counted labelled.bounded
    refine ⟨raised.trans closed, rose.trans_le (closed.height_le u), ?_⟩
    have deserted : ∀ v, (risen setting u s).height.get v ≠ s.height.get u := by
      intro v here
      rw [labelled.counted, level_val (by omega)] at empty
      exact Finset.notMem_empty v (Finset.card_eq_zero.mp empty ▸ by simpa using here)
    refine closed.labelled bal.leaving labelled ?_ ?_ (fun v => ?_) (fun a room => ?_) counted
    · rw [heights, labelled.sink]
      unfold overGap
      split <;> omega
    · rw [heights, labelled.source]
      unfold overGap
      split <;> omega
    · have := labelled.bounded v
      rw [heights]
      unfold overGap
      split <;> omega
    · have gentle := labelled.valid a room
      have tail := deserted ((risen setting u s).network.tail a)
      have head := deserted ((risen setting u s).network.head a)
      rw [heights, heights]
      unfold overGap
      split <;> split <;> omega
  · exact ⟨raised, rose, labelled⟩

end Lift

end Optima.Flow.Maximum
