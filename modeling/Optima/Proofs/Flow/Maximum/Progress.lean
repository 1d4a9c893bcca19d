import Optima.Proofs.Flow.Maximum.Step
import Optima.Proofs.Run

/-!
Push-relabel comes to its end. A discharge ends because its node has ever less left to do
(`discharge_ends`), and the run ends because every discharge lowers the potential, which starts
below the number of discharges that are allowed (`work_ends`, `potential_start`). Both keep the
invariant, which holds when the first node is discharged (`start_inv`).
-/

namespace Optima.Flow.Maximum

variable {n m : Nat} {setting : Setting n m} {s : State n m} {u : Fin n}

/-! ### Discharging -/

/-- A discharge ends without excess, and if there was any it lowered the potential. -/
theorem discharge_ends (fuel : Nat) (inv : Inv setting (some u) s)
    (enough : stepsLeft setting u s < fuel) :
    ∃ s', discharge setting u fuel s = .ok s' ∧ Inv setting (some u) s' ∧
      s'.excess.get u ≤ 0 ∧ s'.network.edges = s.network.edges ∧
      potential setting s' ≤ potential setting s ∧
      (0 < s.excess.get u → potential setting s' < potential setting s) := by
  induction fuel generalizing s with
  | zero => exact absurd enough (Nat.not_lt_zero _)
  | succ fuel ih =>
    rw [discharge]
    by_cases empty : s.excess.get u ≤ 0
    · exact ⟨s, if_pos empty, inv, empty, rfl, le_rfl, fun pos => absurd pos (by omega)⟩
    · have pos : 0 < s.excess.get u := by omega
      rw [if_neg empty]
      by_cases more : 0 < (step setting u s).excess.get u
      · have fewer := stepsLeft_step inv pos more
        obtain ⟨s', result, inv', done, edges, le, lt⟩ := ih (inv.step pos) (by omega)
        refine ⟨s', result, inv', done, edges.trans (step_edges inv pos), ?_⟩
        have := lt more
        rcases potential_step inv pos with lower | ⟨same, _⟩ <;> omega
      · have stops : discharge setting u fuel (step setting u s) = .ok (step setting u s) := by
          rw [discharge.eq_def]
          exact if_pos (by omega)
        refine ⟨step setting u s, stops, inv.step pos, by omega, step_edges inv pos, ?_⟩
        rcases potential_step inv pos with lower | ⟨_, excess⟩
        · omega
        · rw [excess] at more
          exact absurd pos more

/-! ### The run -/

/-- The first node of the queue is taken out to be discharged. -/
theorem Inv.take {rest : List (Fin n)} (inv : Inv setting none s) (first : s.active = u :: rest) :
    Inv setting (some u) { s with active := rest, queued := s.queued.update u false } := by
  have mem_u : u ∈ s.active := first ▸ List.mem_cons_self ..
  obtain ⟨source, sink⟩ := inv.queue.inner u mem_u
  have nodup := inv.queue.nodup
  rw [first, List.nodup_cons] at nodup
  have mem_active : ∀ v, v ∈ s.active ↔ v = u ∨ v ∈ rest := by simp [first]
  refine ⟨inv.balanced, inv.labelled, ⟨fun v => ?_, nodup.2, fun v mem => ?_, fun v mem => ?_⟩,
    fun v inner_source inner_sink pos => ?_, fun w same => ?_⟩
  · show (s.queued.update u false).get v = true ↔ v ∈ rest
    rw [Table.get_update]
    by_cases same : u = v
    · subst same
      simp [nodup.1]
    · have other : ¬ v = u := fun h => same h.symm
      simp [same, other, inv.queue.queued_iff, mem_active]
  · exact inv.queue.inner v ((mem_active v).mpr (.inr mem))
  · exact inv.queue.pos v ((mem_active v).mpr (.inr mem))
  · rcases inv.waiting v inner_source inner_sink pos with active | busy
    · exact ((mem_active v).mp active).elim (fun same => .inr (by rw [same])) .inl
    · cases busy
  · obtain rfl : u = w := Option.some.inj same
    exact ⟨source, sink, nodup.1⟩

/-- A node without excess is done with. -/
theorem Inv.release (inv : Inv setting (some u) s) (done : s.excess.get u ≤ 0) :
    Inv setting none s := by
  refine ⟨inv.balanced, inv.labelled, inv.queue, fun v source sink pos => ?_, nofun⟩
  rcases inv.waiting v source sink pos with active | busy
  · exact .inl active
  · obtain rfl : u = v := Option.some.inj busy
    omega

/-- The run ends with an empty queue. -/
theorem work_ends (threshold fuel discharges relabels : Nat) (inv : Inv setting none s)
    (enough : potential setting s < fuel) :
    ∃ s' discharges' relabels',
      (work setting threshold fuel discharges relabels s).outcome =
          .ok (s', discharges', relabels') ∧
        Inv setting none s' ∧ s'.active = [] ∧ s'.network.edges = s.network.edges := by
  induction fuel generalizing s discharges relabels with
  | zero => exact absurd enough (Nat.not_lt_zero _)
  | succ fuel ih =>
    cases queue : s.active with
    | nil => exact ⟨s, discharges, relabels, by simp [work, queue], inv, queue, rfl⟩
    | cons u rest =>
      have pos : 0 < s.excess.get u := inv.queue.pos u (queue ▸ List.mem_cons_self ..)
      have taken := inv.take queue
      obtain ⟨s', result, inv', done, edges, _, lower⟩ :=
        discharge_ends (dischargeBound setting u) taken (stepsLeft_lt_dischargeBound taken)
      have lower : potential setting s' < potential setting s := lower pos
      change s'.network.edges = s.network.edges at edges
      have inv' := inv'.release done
      rw [work.eq_def]
      simp only [queue, Run.outcome_pause]
      rw [result]
      dsimp only
      split
      · have raised := relabelAll_raised inv'.balanced inv'.labelled
        have le := raised.potential_le
        obtain ⟨s'', discharges', relabels', outcome, inv'', empty, kept⟩ :=
          ih (discharges + 1) (relabels + 1) (inv'.raise raised
            (relabelAll_labelled inv'.balanced inv'.labelled.cut)) (by omega)
        exact ⟨s'', discharges', relabels', outcome, inv'', empty, kept.trans edges⟩
      · obtain ⟨s'', discharges', relabels', outcome, inv'', empty, kept⟩ :=
          ih (discharges + 1) relabels inv' (by omega)
        exact ⟨s'', discharges', relabels', outcome, inv'', empty, kept.trans edges⟩

/-! ### The beginning -/

/-- Nothing flows in, and what the arcs of the source carry has been sent. -/
structure Saturated (setting : Setting n m) (arcs : List (Arc m)) (s : State n m) : Prop where
  balanced : Balanced setting s.network s.excess
  queued : s.queued = Table.fill n false
  active : s.active = []
  full : ∀ a ∈ arcs, s.network.tail a = setting.source → s.network.head a ≠ setting.source →
    s.network.residual a = 0

theorem Saturated.add {arcs : List (Arc m)} (sat : Saturated setting arcs s) {a : Arc m}
    (tail : s.network.tail a = setting.source) :
    Saturated setting (arcs ++ [a]) (if 0 < s.network.residual a then
      transfer setting.source a (s.network.residual a) s else s) := by
  have room := sat.balanced.sound a
  split
  · have balanced := sat.balanced.push (a := a) room le_rfl (.inl tail)
    rw [tail] at balanced
    refine ⟨balanced, sat.queued, sat.active, fun b mem source other => ?_⟩
    show (s.network.push a (s.network.residual a)).residual b = 0
    have away : b ≠ a.reverse := by
      rintro rfl
      exact other (by simpa [transfer] using tail)
    rw [Network.residual_push, if_neg away]
    rcases List.mem_append.mp mem with old | new
    · have := sat.full b old source other
      split
      · next same =>
        subst same
        omega
      · omega
    · rw [List.mem_singleton.mp new, if_pos rfl]
      omega
  · refine ⟨sat.balanced, sat.queued, sat.active, fun b mem source other => ?_⟩
    rcases List.mem_append.mp mem with old | new
    · exact sat.full b old source other
    · rw [List.mem_singleton.mp new]
      omega

theorem transfer_tail (u : Fin n) (a : Arc m) (amount : Int) (s : State n m) (b : Arc m) :
    (transfer u a amount s).network.tail b = s.network.tail b := rfl

theorem saturate_saturated (sat : Saturated setting [] s) :
    Saturated setting (setting.leaving.get setting.source) (saturate setting s) := by
  suffices sent : ∀ (arcs before : List (Arc m)) (s : State n m), Saturated setting before s →
      (∀ a ∈ arcs, s.network.tail a = setting.source) →
      Saturated setting (before ++ arcs) (arcs.foldl (fun s a =>
        if 0 < s.network.residual a then
          transfer setting.source a (s.network.residual a) s else s) s) by
    apply sent _ [] s sat
    intro a mem
    rw [sat.balanced.leaving] at mem
    exact s.network.mem_leaving.mp mem
  intro arcs
  induction arcs with
  | nil => exact fun before s sat _ => by simpa using sat
  | cons a arcs ih =>
    intro before s sat tails
    have next := ih (before ++ [a]) _ (sat.add (tails a (List.mem_cons_self ..)))
      (fun b mem => by
        have := tails b (List.mem_cons_of_mem a mem)
        split
        · rwa [transfer_tail]
        · exact this)
    simpa using next

/-- From a saturated source no residual path leads away. -/
theorem Saturated.cut (sat : Saturated setting (setting.leaving.get setting.source) s) :
    ¬ s.network.Reaches setting.source setting.sink := by
  intro path
  suffices stays : ∀ v, s.network.Reaches setting.source v → v = setting.source from
    sat.balanced.apart (stays _ path).symm
  intro v path
  induction path with
  | refl => rfl
  | tail _ step here =>
    obtain ⟨a, room, tail, rfl⟩ := step
    by_contra away
    have leaves : a ∈ setting.leaving.get setting.source := by
      rw [sat.balanced.leaving, Network.mem_leaving, tail, here]
    have := sat.full a leaves (tail.trans here) away
    omega

/-- All nodes that received something from the source are queued. -/
theorem Saturated.enqueueAll (sat : Saturated setting (setting.leaving.get setting.source) s) :
    Inv setting none
      ((List.finRange n).foldl (fun s v => enqueue setting v s) (relabelAll setting s)) := by
  have labelled := relabelAll_labelled sat.balanced sat.cut
  suffices queued : ∀ (vs before : List (Fin n)) (s : State n m),
      Balanced setting s.network s.excess →
      Labelled setting s.network s.height s.pending s.population →
      Queue setting s.excess s.queued s.active →
      (∀ v ∈ before, v ≠ setting.source → v ≠ setting.sink → 0 < s.excess.get v → v ∈ s.active) →
      (∀ v, v ∈ before ∨ v ∈ vs) →
      Inv setting none (vs.foldl (fun s v => enqueue setting v s) s) by
    refine queued _ [] _ sat.balanced labelled ⟨fun v => ?_, ?_, fun v mem => ?_, fun v mem => ?_⟩
      (fun v mem => absurd mem (List.not_mem_nil)) fun v => .inr (List.mem_finRange v)
    · show s.queued.get v = true ↔ v ∈ s.active
      simp [sat.queued, sat.active]
    · show s.active.Nodup
      simp [sat.active]
    · change v ∈ s.active at mem
      simp [sat.active] at mem
    · change v ∈ s.active at mem
      simp [sat.active] at mem
  intro vs
  induction vs with
  | nil =>
    intro before s bal lab queue waiting all
    exact ⟨bal, lab, queue, fun v source sink pos =>
      .inl (waiting v ((all v).resolve_right List.not_mem_nil) source sink pos), nofun⟩
  | cons w vs ih =>
    intro before s bal lab queue waiting all
    obtain ⟨queue', mem_active⟩ := queue.enqueue w
    refine ih (before ++ [w]) _ ?_ ?_ ?_ (fun v mem source sink pos => ?_) fun v => ?_
    · simpa using bal
    · simpa using lab
    · simpa using queue'
    · rw [enqueue_excess] at pos
      rw [mem_active]
      rcases List.mem_append.mp mem with old | new
      · exact .inl (waiting v old source sink pos)
      · have same := List.mem_singleton.mp new
        exact .inr ⟨same, same ▸ source, same ▸ sink, same ▸ pos⟩
    · simp only [List.mem_append, List.mem_singleton, or_assoc]
      simpa using all v

theorem start_edges (setting : Setting n m) (net : Network n m) :
    (start setting net).network.edges = net.edges := by
  have queued : ∀ (vs : List (Fin n)) (s : State n m),
      (vs.foldl (fun s v => enqueue setting v s) s).network = s.network := by
    intro vs s
    exact List.foldlRecOn vs _ (motive := fun s' : State n m => s'.network = s.network) rfl
      fun s' same v _ => (enqueue_network v).trans same
  have saturated : ∀ s : State n m, (saturate setting s).network.edges = s.network.edges := by
    intro s
    refine List.foldlRecOn _ _
      (motive := fun s' : State n m => s'.network.edges = s.network.edges) rfl
      fun s' same a _ => ?_
    dsimp only
    split
    · exact same
    · exact same
  exact (congrArg Network.edges (queued _ _)).trans (saturated _)

section Start

variable {net : Network n m} (leaving : setting.leaving = net.leaving)
  (apart : setting.source ≠ setting.sink) (sound : net.Sound) (level : ∀ v, net.outflow v = 0)

include leaving apart sound level in
/-- On a sound network that is in balance, the run begins within its invariant. -/
theorem start_inv : Inv setting none (start setting net) := by
  refine (saturate_saturated ⟨⟨leaving, apart, sound, fun v => ?_, fun v _ => ?_⟩, rfl, rfl,
    fun a mem => absurd mem List.not_mem_nil⟩).enqueueAll
  · simp [level]
  · simp

include leaving apart sound level in
theorem potential_start : potential setting (start setting net) < bound n m := by
  have inv := start_inv leaving apart sound level
  have arcs : ∑ a, arcSlack (start setting net).network (start setting net).height a ≤
      Fintype.card (Arc m) * (2 * n) := by
    rw [← smul_eq_mul]
    exact Finset.sum_le_card_nsmul _ _ _ fun a _ => Nat.sub_le _ _
  have nodes : ∑ v, nodeSlack setting (start setting net).height (start setting net).excess v ≤
      Fintype.card (Fin n) * (2 * n) := by
    rw [← smul_eq_mul]
    apply Finset.sum_le_card_nsmul _ _ _
    intro v _
    unfold nodeSlack
    split
    · exact le_rfl
    · exact Nat.sub_le _ _
  have count : Fintype.card (Arc m) = m * 2 := by
    rw [Fintype.ofEquiv_card, Fintype.card_prod, Fintype.card_fin, Fintype.card_bool]
  rw [count] at arcs
  rw [Fintype.card_fin] at nodes
  have weighted := Nat.mul_le_mul_left (2 * n + 1) arcs
  unfold potential bound
  nlinarith [Nat.zero_le (n * m), Nat.zero_le (n * n * m), Nat.zero_le (n * n * n * m),
    Nat.zero_le (n * n), Nat.zero_le (n * n * n)]

end Start

end Optima.Flow.Maximum
