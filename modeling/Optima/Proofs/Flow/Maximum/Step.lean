import Optima.Proofs.Flow.Maximum.Raising

/-!
One step with a node that has excess. It keeps the invariant (`Inv.step`), and it is paid for twice:
within a discharge by what is left to do at the node (`stepsLeft_step`), and within the whole run by
a potential that no step raises and every push lowers (`potential_step`).

The potential of an arc is the room above its head while it can carry something, and above its tail
once it cannot: a saturated arc only carries something again after its head was lifted over its
tail, so an arc cannot be saturated more often than there are heights. A node counts as much as a
node at the bottom while it has excess, and with the room above it otherwise; a push that does not
saturate moves this from a node to one below it.
-/

namespace Optima.Flow.Maximum

variable {n m : Nat} {setting : Setting n m} {s s' : State n m} {u : Fin n} {a : Arc m}
  {rest : List (Arc m)} {amount : Int}

/-! ### Frames -/

@[simp] theorem enqueue_network (v : Fin n) : (enqueue setting v s).network = s.network := by
  unfold enqueue
  split <;> rfl

@[simp] theorem enqueue_height (v : Fin n) : (enqueue setting v s).height = s.height := by
  unfold enqueue
  split <;> rfl

@[simp] theorem enqueue_excess (v : Fin n) : (enqueue setting v s).excess = s.excess := by
  unfold enqueue
  split <;> rfl

@[simp] theorem enqueue_pending (v : Fin n) : (enqueue setting v s).pending = s.pending := by
  unfold enqueue
  split <;> rfl

@[simp] theorem enqueue_population (v : Fin n) :
    (enqueue setting v s).population = s.population := by
  unfold enqueue
  split <;> rfl

theorem transfer_excess (apart : u ≠ s.network.head a) (amount : Int) (v : Fin n) :
    (transfer u a amount s).excess.get v =
      if v = u then s.excess.get u - amount
      else if v = s.network.head a then s.excess.get v + amount else s.excess.get v := by
  simp only [transfer, Table.get_update, if_neg apart]
  by_cases tail : v = u
  · subst tail
    simp [apart.symm]
  · have other : ¬ u = v := fun h => tail h.symm
    by_cases head : v = s.network.head a
    · simp [← head, tail]
    · have away : ¬ s.network.head a = v := fun h => head h.symm
      simp [tail, other, head, away]

/-! ### Kinds of steps -/

/-- The arc that a node looks at leads downhill by one and can carry something. -/
structure Admissible (s : State n m) (u : Fin n) (a : Arc m) : Prop where
  tail : s.network.tail a = u
  room : 0 < s.network.residual a
  downhill : s.height.get u = s.height.get (s.network.head a) + 1

theorem Admissible.apart (adm : Admissible s u a) : u ≠ s.network.head a := by
  intro loop
  have := adm.downhill
  rw [← loop] at this
  omega

/-- What is pushed along an arc. -/
def pushed (s : State n m) (u : Fin n) (a : Arc m) : Int :=
  min (s.excess.get u) (s.network.residual a)

/-- A step lifts the node, pushes along its next arc, or passes the arc by. -/
theorem step_cases (inv : Inv setting (some u) s) :
    (s.pending.get u = [] ∧ step setting u s = lift setting u s) ∨
    (∃ a rest, s.pending.get u = a :: rest ∧ s.network.tail a = u ∧
      ((Admissible s u a ∧ step setting u s =
          enqueue setting (s.network.head a) (transfer u a (pushed s u a) s)) ∨
        (¬ (0 < s.network.residual a ∧
            s.height.get u = s.height.get (s.network.head a) + 1) ∧
          step setting u s = { s with pending := s.pending.update u rest }))) := by
  cases next : s.pending.get u with
  | nil => exact .inl ⟨rfl, by simp only [step, next]⟩
  | cons a rest =>
    have tail : s.network.tail a = u := by
      have leaves : a ∈ setting.leaving.get u :=
        (inv.labelled.suffix u).subset (next ▸ List.mem_cons_self ..)
      rw [inv.balanced.leaving] at leaves
      exact s.network.mem_leaving.mp leaves
    refine .inr ⟨a, rest, rfl, tail, ?_⟩
    by_cases adm : 0 < s.network.residual a ∧ s.height.get u = s.height.get (s.network.head a) + 1
    · exact .inl ⟨⟨tail, adm.1, adm.2⟩, by simp only [step, next, if_pos adm]; rfl⟩
    · exact .inr ⟨adm, by simp only [step, next, if_neg adm]⟩

/-! ### The invariant -/

theorem Labelled.push (lab : Labelled setting s.network s.height s.pending s.population)
    (adm : Admissible s u a) (nonneg : 0 ≤ amount) :
    Labelled setting (s.network.push a amount) s.height s.pending s.population := by
  -- Only the reverse of the arc gains residual capacity, and it leads uphill.
  have old : ∀ b, 0 < (s.network.push a amount).residual b → b = a.reverse ∨
      0 < s.network.residual b := by
    intro b room
    by_cases back : b = a.reverse
    · exact .inl back
    · rw [Network.residual_push, if_neg back] at room
      refine .inr ?_
      split at room <;> omega
  have uphill : s.height.get (s.network.tail a.reverse) <
      s.height.get (s.network.head a.reverse) := by
    have := adm.downhill
    rw [Network.tail_reverse, Network.head_reverse, adm.tail]
    omega
  refine ⟨lab.sink, lab.source, lab.bounded, fun b room => ?_, lab.counted, fun b room gone => ?_,
    lab.suffix⟩
  · rcases old b room with rfl | before
    · exact uphill.le.trans (Nat.le_succ _)
    · exact lab.valid b before
  · rcases old b room with rfl | before
    · exact uphill.le
    · exact lab.passed b before gone

theorem Inv.push (inv : Inv setting (some u) s) (adm : Admissible s u a)
    (pos : 0 < s.excess.get u) :
    Inv setting (some u)
      (enqueue setting (s.network.head a) (transfer u a (pushed s u a) s)) := by
  obtain ⟨source, sink, absent⟩ := inv.busy u rfl
  have nonneg : 0 ≤ pushed s u a := le_min pos.le adm.room.le
  have balanced := inv.balanced.push (a := a) nonneg (min_le_right _ _)
    (.inr (by rw [adm.tail]; exact min_le_left _ _))
  rw [adm.tail] at balanced
  have excess := transfer_excess adm.apart (pushed s u a)
  have queue : Queue setting (transfer u a (pushed s u a) s).excess
      (transfer u a (pushed s u a) s).queued (transfer u a (pushed s u a) s).active := by
    refine ⟨inv.queue.queued_iff, inv.queue.nodup, inv.queue.inner, fun v mem => ?_⟩
    have other : v ≠ u := fun same => absent (same ▸ mem)
    have := inv.queue.pos v mem
    rw [excess, if_neg other]
    split <;> omega
  obtain ⟨queue', mem_active⟩ := queue.enqueue (s.network.head a)
  refine ⟨?_, ?_, ?_, fun v inner_source inner_sink more => ?_, fun w same => ?_⟩
  · simpa [transfer] using balanced
  · simpa [transfer] using inv.labelled.push adm nonneg
  · simpa using queue'
  · rw [mem_active]
    rw [enqueue_excess] at more
    by_cases head : v = s.network.head a
    · exact .inl (.inr ⟨head, head ▸ inner_source, head ▸ inner_sink, head ▸ more⟩)
    · by_cases tail : v = u
      · exact .inr (by rw [tail])
      · rw [excess, if_neg tail, if_neg head] at more
        rcases inv.waiting v inner_source inner_sink more with active | busy
        · exact .inl (.inl active)
        · exact .inr busy
  · obtain rfl : u = w := Option.some.inj same
    refine ⟨source, sink, fun mem => ?_⟩
    rcases (mem_active u).mp mem with old | ⟨head, _⟩
    · exact absent old
    · exact adm.apart head

theorem Inv.pass (inv : Inv setting (some u) s) (next : s.pending.get u = a :: rest)
    (tail : s.network.tail a = u)
    (closed : ¬ (0 < s.network.residual a ∧ s.height.get u = s.height.get (s.network.head a) + 1)) :
    Inv setting (some u) { s with pending := s.pending.update u rest } := by
  refine ⟨inv.balanced, ?_, inv.queue, inv.waiting, inv.busy⟩
  have lab := inv.labelled
  refine ⟨lab.sink, lab.source, lab.bounded, lab.valid, lab.counted, fun b room gone => ?_,
    fun v => ?_⟩
  · show s.height.get (s.network.tail b) ≤ s.height.get (s.network.head b)
    change 0 < s.network.residual b at room
    change b ∉ (s.pending.update u rest).get (s.network.tail b) at gone
    rw [Table.get_update] at gone
    by_cases at_u : u = s.network.tail b
    · rw [if_pos at_u] at gone
      by_cases same : b = a
      · subst same
        have := lab.valid b room
        have uphill : ¬ s.height.get u = s.height.get (s.network.head b) + 1 := fun h =>
          closed ⟨room, h⟩
        rw [← at_u] at this ⊢
        omega
      · apply lab.passed b room
        intro mem
        rw [← at_u, next] at mem
        exact (List.mem_cons.mp mem).elim same gone
    · rw [if_neg at_u] at gone
      exact lab.passed b room gone
  · simp only [Table.get_update]
    split
    · next same =>
      subst same
      exact (List.suffix_cons a rest).trans (next ▸ lab.suffix u)
    · exact lab.suffix v

theorem Inv.lift (inv : Inv setting (some u) s) (pos : 0 < s.excess.get u)
    (passed : s.pending.get u = []) :
    Raised setting s (lift setting u s) ∧ s.height.get u < (lift setting u s).height.get u ∧
      Inv setting (some u) (Maximum.lift setting u s) := by
  obtain ⟨source, sink, _⟩ := inv.busy u rfl
  obtain ⟨raised, rose, labelled⟩ := lift_raised inv.balanced inv.labelled ⟨source, sink⟩
    (inv.height_lt pos) passed
  exact ⟨raised, rose, inv.raise raised labelled⟩

/-- Every step keeps the invariant. -/
theorem Inv.step (inv : Inv setting (some u) s) (pos : 0 < s.excess.get u) :
    Inv setting (some u) (step setting u s) := by
  rcases step_cases inv with
    ⟨passed, lifts⟩ | ⟨a, rest, next, tail, ⟨adm, pushes⟩ | ⟨closed, passes⟩⟩
  · rw [lifts]
    exact (inv.lift pos passed).2.2
  · rw [pushes]
    exact inv.push adm pos
  · rw [passes]
    exact inv.pass next tail closed

/-- A step never changes the edges themselves. -/
theorem step_edges (inv : Inv setting (some u) s) (pos : 0 < s.excess.get u) :
    (step setting u s).network.edges = s.network.edges := by
  rcases step_cases inv with ⟨passed, lifts⟩ | ⟨a, rest, next, tail, ⟨adm, pushes⟩ | ⟨_, passes⟩⟩
  · rw [lifts, (inv.lift pos passed).1.network]
  · rw [pushes, enqueue_network]
    rfl
  · rw [passes]

/-! ### What is left to do at a node -/

/-- Arcs still to look at count once, and once more while they can carry something; a lift lets a
node look at all of its arcs again. -/
def stepsLeft (setting : Setting n m) (u : Fin n) (s : State n m) : Nat :=
  (2 * n - s.height.get u) * (2 * (setting.leaving.get u).length + 1) +
    (s.pending.get u).length + (s.pending.get u).countP fun a => 0 < s.network.residual a

theorem stepsLeft_lt_dischargeBound (inv : Inv setting (some u) s) :
    stepsLeft setting u s < dischargeBound setting u := by
  have shorter := (inv.labelled.suffix u).length_le
  have fewer := List.countP_le_length (p := fun a => decide (0 < s.network.residual a))
    (l := s.pending.get u)
  have rounds := Nat.mul_le_mul_right (2 * (setting.leaving.get u).length + 1)
    (Nat.sub_le (2 * n) (s.height.get u))
  unfold stepsLeft dischargeBound
  nlinarith

theorem stepsLeft_step (inv : Inv setting (some u) s) (pos : 0 < s.excess.get u)
    (more : 0 < (step setting u s).excess.get u) :
    stepsLeft setting u (step setting u s) < stepsLeft setting u s := by
  rcases step_cases inv with
    ⟨passed, lifts⟩ | ⟨a, rest, next, tail, ⟨adm, pushes⟩ | ⟨closed, passes⟩⟩
  · obtain ⟨raised, rose, inv'⟩ := inv.lift pos passed
    rw [lifts]
    have shorter := (inv'.labelled.suffix u).length_le
    have fewer := List.countP_le_length
      (p := fun a => decide (0 < (lift setting u s).network.residual a))
      (l := (lift setting u s).pending.get u)
    have bounded := inv'.labelled.bounded u
    have round : 2 * n - (lift setting u s).height.get u + 1 ≤ 2 * n - s.height.get u := by omega
    have rounds := Nat.mul_le_mul_right (2 * (setting.leaving.get u).length + 1) round
    unfold stepsLeft
    rw [passed]
    simp only [List.length_nil, List.countP_nil, Nat.add_zero]
    rw [Nat.add_mul, Nat.one_mul] at rounds
    omega
  · rw [pushes] at more ⊢
    -- With excess left over, the arc is saturated, and no other arc of the node gains anything.
    have saturating : pushed s u a = s.network.residual a := by
      rw [enqueue_excess, transfer_excess adm.apart, if_pos rfl] at more
      unfold pushed at more ⊢
      omega
    have emptied : (s.network.push a (pushed s u a)).residual a = 0 := by
      rw [Network.residual_push_self, saturating]
      omega
    have kept : ∀ b ∈ s.pending.get u, 0 < (s.network.push a (pushed s u a)).residual b →
        0 < s.network.residual b := by
      intro b mem room
      have leaves := (inv.labelled.suffix u).subset mem
      rw [inv.balanced.leaving, Network.mem_leaving] at leaves
      have away : b ≠ a.reverse := by
        rintro rfl
        exact adm.apart (by simpa using leaves.symm)
      rw [Network.residual_push, if_neg away] at room
      have nonneg : 0 ≤ pushed s u a := le_min pos.le adm.room.le
      split at room <;> omega
    have fewer : ((s.pending.get u).countP fun b =>
        0 < (s.network.push a (pushed s u a)).residual b) <
        (s.pending.get u).countP fun b => 0 < s.network.residual b := by
      rw [next] at kept ⊢
      rw [List.countP_cons_of_neg (by simp [emptied]),
        List.countP_cons_of_pos (by simpa using adm.room)]
      refine Nat.lt_succ_of_le (List.countP_mono_left fun b mem room => ?_)
      simpa using kept b (List.mem_cons_of_mem a mem) (by simpa using room)
    simp only [stepsLeft, enqueue_height, enqueue_pending, enqueue_network]
    exact Nat.add_lt_add_left fewer _
  · rw [passes]
    have fewer : (rest.countP fun b => decide (0 < s.network.residual b)) ≤
        (a :: rest).countP fun b => decide (0 < s.network.residual b) :=
      (List.sublist_cons_self a rest).countP_le
    simp only [stepsLeft, Table.get_update, if_pos, next, List.length_cons]
    omega

/-! ### The potential -/

/-- The room above an arc's head while it can carry something, and above its tail otherwise. -/
def arcSlack (net : Network n m) (height : Table n Nat) (a : Arc m) : Nat :=
  2 * n - height.get (if net.residual a = 0 then net.tail a else net.head a)

/-- The room above a node; all of it while the node has excess to pass on. -/
def nodeSlack (setting : Setting n m) (height : Table n Nat) (excess : Table n Int) (v : Fin n) :
    Nat :=
  if v ≠ setting.source ∧ v ≠ setting.sink ∧ 0 < excess.get v then 2 * n
  else 2 * n - height.get v

/-- What no step raises and every push lowers. -/
def potential (setting : Setting n m) (s : State n m) : Nat :=
  (2 * n + 1) * ∑ a, arcSlack s.network s.height a +
    ∑ v, nodeSlack setting s.height s.excess v

theorem Raised.potential_le (raised : Raised setting s s') :
    potential setting s' ≤ potential setting s := by
  unfold potential
  rw [raised.network, raised.excess]
  refine Nat.add_le_add (Nat.mul_le_mul_left _ (Finset.sum_le_sum fun a _ => ?_))
    (Finset.sum_le_sum fun v _ => ?_)
  · exact Nat.sub_le_sub_left (raised.height_le _) _
  · unfold nodeSlack
    split
    · exact le_rfl
    · exact Nat.sub_le_sub_left (raised.height_le _) _

/-- No arc gains by a push downhill, and an arc that is saturated loses. -/
theorem arcSlack_push (sound : s.network.Sound) (adm : Admissible s u a)
    (bounded : ∀ v, s.height.get v ≤ 2 * n) (pos : 0 < amount)
    (fits : amount ≤ s.network.residual a) :
    (∀ b, arcSlack (s.network.push a amount) s.height b ≤ arcSlack s.network s.height b) ∧
      (amount = s.network.residual a →
        arcSlack (s.network.push a amount) s.height a < arcSlack s.network s.height a) := by
  have downhill := adm.downhill
  rw [← adm.tail] at downhill
  have low := bounded (s.network.tail a)
  have room := adm.room
  constructor
  · intro b
    unfold arcSlack
    by_cases same : b = a
    · subst same
      rw [Network.residual_push_self, Network.tail_push, Network.head_push]
      split <;> split <;> omega
    · by_cases back : b = a.reverse
      · subst back
        have before := sound a.reverse
        rw [Network.residual_push_reverse, Network.tail_push, Network.head_push,
          Network.tail_reverse, Network.head_reverse]
        split <;> split <;> omega
      · rw [Network.residual_push_of_ne _ _ _ same back, Network.tail_push, Network.head_push]
  · intro saturating
    unfold arcSlack
    rw [Network.residual_push_self, Network.tail_push, Network.head_push]
    split <;> split <;> omega

/-- What the two ends of a push downhill lose and gain together. -/
theorem sum_nodeSlack_push (inv : Inv setting (some u) s) (adm : Admissible s u a)
    (pos : 0 < s.excess.get u) (amount : Int) :
    ∑ v, nodeSlack setting s.height (transfer u a amount s).excess v +
        (if amount < s.excess.get u then 0 else 1) ≤
      ∑ v, nodeSlack setting s.height s.excess v +
        if amount < s.excess.get u then 2 * n else 0 := by
  obtain ⟨source, sink, _⟩ := inv.busy u rfl
  have excess := transfer_excess adm.apart amount
  have head_ne : s.network.head a ≠ u := adm.apart.symm
  have downhill := adm.downhill
  have low := inv.labelled.bounded u
  rw [← Finset.add_sum_erase _ _ (Finset.mem_univ u),
    ← Finset.add_sum_erase _ (nodeSlack setting s.height s.excess) (Finset.mem_univ u),
    ← Finset.add_sum_erase _ _ (Finset.mem_erase.mpr ⟨head_ne, Finset.mem_univ _⟩),
    ← Finset.add_sum_erase _ (nodeSlack setting s.height s.excess)
      (Finset.mem_erase.mpr ⟨head_ne, Finset.mem_univ _⟩)]
  have others : ∑ v ∈ (Finset.univ.erase u).erase (s.network.head a),
      nodeSlack setting s.height (transfer u a amount s).excess v =
      ∑ v ∈ (Finset.univ.erase u).erase (s.network.head a),
        nodeSlack setting s.height s.excess v := by
    apply Finset.sum_congr rfl
    intro v mem
    obtain ⟨head, rest⟩ := Finset.mem_erase.mp mem
    unfold nodeSlack
    rw [excess, if_neg (Finset.ne_of_mem_erase rest), if_neg head]
  have before : nodeSlack setting s.height s.excess u = 2 * n := if_pos ⟨source, sink, pos⟩
  have head_high : nodeSlack setting s.height (transfer u a amount s).excess (s.network.head a) ≤
      2 * n := by
    unfold nodeSlack
    split <;> omega
  have head_low : 2 * n - s.height.get (s.network.head a) ≤
      nodeSlack setting s.height s.excess (s.network.head a) := by
    unfold nodeSlack
    split <;> omega
  rw [others, before]
  split
  · have after : nodeSlack setting s.height (transfer u a amount s).excess u ≤ 2 * n := by
      unfold nodeSlack
      split <;> omega
    omega
  · next all =>
    have after : nodeSlack setting s.height (transfer u a amount s).excess u =
        2 * n - s.height.get u := by
      apply if_neg
      intro active
      have := active.2.2
      rw [excess, if_pos rfl] at this
      omega
    omega

/-- Every push lowers the potential. -/
theorem potential_push (inv : Inv setting (some u) s) (adm : Admissible s u a)
    (pos : 0 < s.excess.get u) :
    potential setting (enqueue setting (s.network.head a) (transfer u a (pushed s u a) s)) <
      potential setting s := by
  have sent : 0 < pushed s u a := lt_min pos adm.room
  obtain ⟨arcs, saturated⟩ := arcSlack_push inv.balanced.sound adm inv.labelled.bounded sent
    (min_le_right _ _)
  have nodes := sum_nodeSlack_push inv adm pos (pushed s u a)
  unfold potential
  rw [enqueue_network, enqueue_height, enqueue_excess]
  change (2 * n + 1) * ∑ b, arcSlack (s.network.push a (pushed s u a)) s.height b +
    ∑ v, nodeSlack setting s.height (transfer u a (pushed s u a) s).excess v < _
  by_cases left : pushed s u a < s.excess.get u
  · have full : pushed s u a = s.network.residual a := by
      unfold pushed at left ⊢
      omega
    have fewer : ∑ b, arcSlack (s.network.push a (pushed s u a)) s.height b <
        ∑ b, arcSlack s.network s.height b :=
      Finset.sum_lt_sum (fun b _ => arcs b) ⟨a, Finset.mem_univ a, saturated full⟩
    have weighted := Nat.mul_le_mul_left (2 * n + 1) (Nat.succ_le_of_lt fewer)
    rw [if_pos left, if_pos left] at nodes
    rw [Nat.mul_succ] at weighted
    omega
  · have fewer : ∑ b, arcSlack (s.network.push a (pushed s u a)) s.height b ≤
        ∑ b, arcSlack s.network s.height b :=
      Finset.sum_le_sum fun b _ => arcs b
    have weighted := Nat.mul_le_mul_left (2 * n + 1) fewer
    rw [if_neg left, if_neg left] at nodes
    omega

/-- A step does not raise the potential, and it lowers it unless the node keeps its excess. -/
theorem potential_step (inv : Inv setting (some u) s) (pos : 0 < s.excess.get u) :
    potential setting (step setting u s) < potential setting s ∨
      (potential setting (step setting u s) ≤ potential setting s ∧
        (step setting u s).excess = s.excess) := by
  rcases step_cases inv with ⟨passed, lifts⟩ | ⟨a, rest, next, tail, ⟨adm, pushes⟩ | ⟨_, passes⟩⟩
  · obtain ⟨raised, _⟩ := inv.lift pos passed
    rw [lifts]
    exact .inr ⟨raised.potential_le, raised.excess⟩
  · rw [pushes]
    exact .inl (potential_push inv adm pos)
  · rw [passes]
    exact .inr ⟨le_rfl, rfl⟩

end Optima.Flow.Maximum
