import Mathlib.Data.List.Perm.Subperm
import Mathlib.Data.Prod.Lex
import Mathlib.Order.Lattice
import Optima.Graph.Search
import Optima.Proofs.Run
import Optima.Proofs.Table

/-!
What a search for shortest paths finds, in any quantity whose sums are never below their first
term (`Steady`). No step leads to a label that could still be lowered (`Grown.relaxed`), and every
label but the source's is the label of its parent and the length of the step from there
(`Grown.parent`). The order in which nodes are settled goes up along parents, so that following them
ends at the source.

A node that has been settled keeps its label, since nothing that is left in the frontier is nearer
(`Exploring.settled_le`). The fuel of a search is enough because nodes enter the frontier with the
steps of a node that is settled, and each node is settled once (`explore_keeps`).
-/

namespace Optima.Graph.Search

variable {μ α V : Type} [LinearOrder V] {n : Nat}

/-! ### Labels with values -/

/-- A label that was lowered, if at all. -/
def Lowered (value : α → V) (old new : α) : Prop := new = old ∨ value new < value old

theorem Lowered.le {value : α → V} {old new : α} (lowered : Lowered value old new) :
    value new ≤ value old := by
  rcases lowered with rfl | less
  · exact le_rfl
  · exact less.le

theorem Lowered.trans {value : α → V} {a b c : α} (first : Lowered value a b)
    (second : Lowered value b c) : Lowered value a c := by
  rcases second with rfl | less
  · exact first
  · exact .inr (less.trans_le first.le)

variable [Quantity α]

/-- Labels have values by which they are compared. Which labels can occur may depend on how many
nodes are settled, and a step from one of them leads to a label of no lower value. -/
structure Steady (steps : Fin n → List (Step n μ α)) (value : α → V) (fits : Nat → α → Prop) :
    Prop where
  less_iff : ∀ {a b}, fits n a → fits n b → (Quantity.less a b = true ↔ value a < value b)
  nought : fits 0 Quantity.nought
  nought_le : ∀ {k d}, fits k d → value Quantity.nought ≤ value d
  later : ∀ {k d}, fits k d → fits (k + 1) d
  allowed : ∀ {u}, ∀ step ∈ steps u, Quantity.less step.length Quantity.nought = false
  add : ∀ {k d u}, k < n → fits k d → ∀ step ∈ steps u,
    ∃ c, Quantity.add d step.length = .ok c ∧ fits (k + 1) c ∧ value d ≤ value c

theorem Steady.fits_le {steps : Fin n → List (Step n μ α)} {value : α → V}
    {fits : Nat → α → Prop} (steady : Steady steps value fits) {j k : Nat} {d : α} (le : j ≤ k)
    (fit : fits j d) : fits k d := by
  induction k, le using Nat.le_induction with
  | base => exact fit
  | succ k _ ih => exact steady.later ih

/-! ### The least of the frontier -/

/-- Taking out the least only reorders the frontier. -/
theorem takeLeast_perm (x : α × Fin n) (rest : List (α × Fin n)) :
    ((takeLeast x rest).1 :: (takeLeast x rest).2).Perm (x :: rest) := by
  induction rest generalizing x with
  | nil => exact List.Perm.refl _
  | cons y rest ih =>
    rw [takeLeast]
    dsimp only
    split
    · exact (List.Perm.swap x _ _).trans ((ih y).cons x)
    · exact List.Perm.refl _

/-- Entries are ranked by value, and of one value by index. -/
def rank (value : α → V) (x : α × Fin n) : V ×ₗ Fin n := toLex (value x.1, x.2)

omit [Quantity α] in
theorem value_le_of_rank_le {value : α → V} {x y : α × Fin n} (le : rank value x ≤ rank value y) :
    value x.1 ≤ value y.1 :=
  (Prod.Lex.toLex_le_toLex.mp le).elim le_of_lt fun both => both.1.le

/-- The order of the frontier is that of ranks. -/
theorem before_iff {value : α → V} {x y : α × Fin n}
    (there : Quantity.less x.1 y.1 = true ↔ value x.1 < value y.1)
    (back : Quantity.less y.1 x.1 = true ↔ value y.1 < value x.1) :
    before x y = true ↔ rank value x < rank value y := by
  rw [rank, rank, Prod.Lex.toLex_lt_toLex]
  simp only [before, Bool.or_eq_true, Bool.and_eq_true, Bool.not_eq_true', ← Bool.not_eq_true,
    there, back, decide_eq_true_eq, not_lt]
  constructor
  · rintro (lower | ⟨le, index⟩)
    · exact .inl lower
    · exact le.lt_or_eq.imp id fun same => ⟨same, index⟩
  · rintro (lower | ⟨same, index⟩)
    · exact .inl lower
    · exact .inr ⟨same.le, index⟩

/-- Nothing in the frontier has a lower rank than what is taken out of it. -/
theorem takeLeast_least {value : α → V} (x : α × Fin n) (rest : List (α × Fin n))
    (less_iff : ∀ y ∈ x :: rest, ∀ z ∈ x :: rest,
      (Quantity.less y.1 z.1 = true ↔ value y.1 < value z.1)) :
    ∀ z ∈ x :: rest, rank value (takeLeast x rest).1 ≤ rank value z := by
  induction rest generalizing x with
  | nil =>
    intro z mem
    rw [List.mem_singleton.mp mem]
    exact le_rfl
  | cons y rest ih =>
    have least := ih y fun a ha b hb =>
      less_iff a (List.mem_cons_of_mem _ ha) b (List.mem_cons_of_mem _ hb)
    have taken : (takeLeast y rest).1 ∈ x :: y :: rest :=
      List.mem_cons_of_mem _ ((takeLeast_perm y rest).subset List.mem_cons_self)
    have first := before_iff (less_iff _ taken x List.mem_cons_self)
      (less_iff x List.mem_cons_self _ taken)
    intro z mem
    rw [takeLeast]
    dsimp only
    split
    · next lower =>
      rcases List.mem_cons.mp mem with rfl | later
      · exact (first.mp lower).le
      · exact least z later
    · next keep =>
      rcases List.mem_cons.mp mem with rfl | later
      · exact le_rfl
      · exact (not_lt.mp (first.not.mp keep)).trans (least z later)

/-! ### Relaxing the steps of a node -/

/-- What relaxing steps from a node `u` at distance `d` makes of a state. -/
structure Relaxed (value : α → V) (steps : List (Step n μ α)) (u : Fin n) (d : α)
    (s s' : State n μ α) : Prop where
  done : s'.done = s.done
  settled : s'.settled = s.settled
  label : ∀ v, (s'.distance.get v = s.distance.get v ∧ s'.parent.get v = s.parent.get v) ∨
    ∃ step ∈ steps, ∃ c, Quantity.add d step.length = .ok c ∧ step.head = v ∧
      s'.distance.get v = some c ∧ s'.parent.get v = some (u, step.mark) ∧
      (c, v) ∈ s'.frontier ∧ ∀ old, s.distance.get v = some old → value c < value old
  reached : ∀ step ∈ steps, ∃ c, Quantity.add d step.length = .ok c ∧
    ∃ new, s'.distance.get step.head = some new ∧ value new ≤ value c
  entered : ∀ x ∈ s'.frontier, x ∈ s.frontier ∨ ∃ step ∈ steps, step.head = x.2 ∧
    Quantity.add d step.length = .ok x.1 ∧
      ∃ new, s'.distance.get x.2 = some new ∧ Lowered value x.1 new
  frontier_subset : s.frontier ⊆ s'.frontier
  length_le : s'.frontier.length ≤ s.frontier.length + steps.length

section Relaxed

variable {value : α → V} {steps : List (Step n μ α)} {u : Fin n} {d : α}
  {s s' s'' : State n μ α}

/-- Labels never go up. -/
theorem Relaxed.lowered (relaxed : Relaxed value steps u d s s') {v : Fin n} {old : α}
    (labelled : s.distance.get v = some old) :
    ∃ new, s'.distance.get v = some new ∧ Lowered value old new := by
  rcases relaxed.label v with ⟨same, _⟩ | ⟨step, _, c, _, _, now, _, _, lower⟩
  · exact ⟨old, same.trans labelled, .inl rfl⟩
  · exact ⟨c, now, .inr (lower old labelled)⟩

theorem Relaxed.nil (u : Fin n) (d : α) (s : State n μ α) : Relaxed value [] u d s s :=
  ⟨rfl, rfl, fun _ => .inl ⟨rfl, rfl⟩, nofun, fun _ => .inl, List.Subset.refl _, le_rfl⟩

theorem Relaxed.append {later : List (Step n μ α)} (first : Relaxed value steps u d s s')
    (second : Relaxed value later u d s' s'') : Relaxed value (steps ++ later) u d s s'' := by
  refine ⟨second.done.trans first.done, second.settled.trans first.settled, fun v => ?_,
    fun step mem => ?_, fun x mem => ?_,
    List.Subset.trans first.frontier_subset second.frontier_subset, ?_⟩
  · rcases second.label v with ⟨same, parent⟩ | ⟨step, mem, c, sum, head, now, parent, waits, lower⟩
    · rcases first.label v with
        ⟨same', parent'⟩ | ⟨step, mem, c, sum, head, now, parent', waits, lower⟩
      · exact .inl ⟨same.trans same', parent.trans parent'⟩
      · exact .inr ⟨step, List.mem_append_left _ mem, c, sum, head, same.trans now,
          parent.trans parent', second.frontier_subset waits, lower⟩
    · refine .inr ⟨step, List.mem_append_right _ mem, c, sum, head, now, parent, waits,
        fun old labelled => ?_⟩
      obtain ⟨middle, labelled', lowered⟩ := first.lowered labelled
      exact (lower middle labelled').trans_le lowered.le
  · rcases List.mem_append.mp mem with early | late
    · obtain ⟨c, sum, middle, labelled, le⟩ := first.reached step early
      obtain ⟨new, labelled', lowered⟩ := second.lowered labelled
      exact ⟨c, sum, new, labelled', lowered.le.trans le⟩
    · exact second.reached step late
  · rcases second.entered x mem with old | ⟨step, late, head, sum, new⟩
    · rcases first.entered x old with older | ⟨step, early, head, sum, middle, labelled, lowered⟩
      · exact .inl older
      · obtain ⟨new, labelled', lowered'⟩ := second.lowered labelled
        exact .inr ⟨step, List.mem_append_left _ early, head, sum, new, labelled',
          lowered.trans lowered'⟩
    · exact .inr ⟨step, List.mem_append_right _ late, head, sum, new⟩
  · have := first.length_le
    have := second.length_le
    rw [List.length_append]
    omega

/-- A step that is allowed, to a label that can be compared, is relaxed. -/
theorem relax_ok (refuse : μ → α → Failure) {step : Step n μ α} {c : α}
    (allowed : Quantity.less step.length Quantity.nought = false)
    (sum : Quantity.add d step.length = .ok c)
    (less_iff : ∀ old, s.distance.get step.head = some old →
      (Quantity.less c old = true ↔ value c < value old)) :
    ∃ s', relax refuse u d s step = .ok s' ∧ Relaxed value [step] u d s s' := by
  by_cases shorter : ∀ old, s.distance.get step.head = some old → value c < value old
  · refine ⟨{ s with
        distance := s.distance.update step.head (some c)
        parent := s.parent.update step.head (some (u, step.mark))
        frontier := (c, step.head) :: s.frontier }, ?_, rfl, rfl, fun v => ?_,
      fun other mem => ?_, fun x mem => ?_, List.subset_cons_self _ _, ?_⟩
    · cases label : s.distance.get step.head with
      | none =>
        simp [relax, allowed, sum, label, Failure.arith, Except.mapError, bind, Except.bind, pure,
          Except.pure]
      | some old =>
        have less := (less_iff old label).mpr (shorter old label)
        simp [relax, allowed, sum, label, less, Failure.arith, Except.mapError, bind, Except.bind,
          pure, Except.pure]
    · by_cases same : step.head = v
      · subst same
        exact .inr ⟨step, List.mem_singleton_self _, c, sum, rfl, by simp, by simp,
          List.mem_cons_self .., shorter⟩
      · exact .inl ⟨by simp [same], by simp [same]⟩
    · rw [List.mem_singleton.mp mem]
      exact ⟨c, sum, c, by simp, le_rfl⟩
    · rcases List.mem_cons.mp mem with rfl | old
      · exact .inr ⟨step, List.mem_singleton_self _, rfl, sum, c, by simp, .inl rfl⟩
      · exact .inl old
    · simp
  · push Not at shorter
    obtain ⟨old, label, le⟩ := shorter
    refine ⟨s, ?_, rfl, rfl, fun v => .inl ⟨rfl, rfl⟩, fun other mem => ?_, fun x => .inl,
      List.Subset.refl _, Nat.le_add_right ..⟩
    · have keep : Quantity.less c old = false := by
        rw [← Bool.not_eq_true, less_iff old label]
        exact not_lt.mpr le
      simp [relax, allowed, sum, label, keep, Failure.arith, Except.mapError, bind, Except.bind,
        pure, Except.pure]
    · rw [List.mem_singleton.mp mem]
      exact ⟨c, sum, old, label, le⟩

end Relaxed

section Exploring

variable {steps : Fin n → List (Step n μ α)} {value : α → V} {fits : Nat → α → Prop}
  {source u : Fin n} {time : Fin n → Nat} {d : α} {others : List (α × Fin n)} {s : State n μ α}

theorem foldlM_relax_ok (steady : Steady steps value fits) (refuse : μ → α → Failure)
    {k : Nat} (room : k < n) (fit : fits k d) {due : List (Step n μ α)} (part : due ⊆ steps u)
    (s : State n μ α) (labels : ∀ {v e}, s.distance.get v = some e → fits n e) :
    ∃ s', due.foldlM (relax refuse u d) s = .ok s' ∧ Relaxed value due u d s s' := by
  induction due generalizing s with
  | nil => exact ⟨s, rfl, .nil u d s⟩
  | cons step due ih =>
    have known := part List.mem_cons_self
    obtain ⟨c, sum, fit', _⟩ := steady.add room fit step known
    have fits_c := steady.fits_le (Nat.succ_le_of_lt room) fit'
    obtain ⟨s', result, first⟩ := relax_ok (u := u) (s := s) refuse (steady.allowed step known) sum
      fun old label => steady.less_iff fits_c (labels label)
    have labels' : ∀ {v e}, s'.distance.get v = some e → fits n e := by
      intro v e label
      rcases first.label v with ⟨same, _⟩ | ⟨other, mem, c', sum', _, now, _⟩
      · exact labels (same.symm.trans label)
      · obtain rfl := List.mem_singleton.mp mem
        rw [sum] at sum'
        cases sum'
        rw [now] at label
        cases label
        exact fits_c
    obtain ⟨s'', result', second⟩ := ih (fun _ mem => part (List.mem_cons_of_mem _ mem)) s' labels'
    refine ⟨s'', ?_, first.append second⟩
    rw [List.foldlM_cons, result]
    exact result'

/-! ### Settling nodes -/

/-- What holds of a search between two nodes that leave the frontier; nodes are settled at
times. -/
structure Exploring (steps : Fin n → List (Step n μ α)) (value : α → V) (fits : Nat → α → Prop)
    (source : Fin n) (time : Fin n → Nat) (s : State n μ α) : Prop where
  source_label : s.distance.get source = some Quantity.nought
  source_parent : s.parent.get source = none
  unlabelled : ∀ {v}, s.distance.get v = none → s.parent.get v = none
  label_fits : ∀ {v d}, s.distance.get v = some d → fits s.settled d
  entry_fits : ∀ x ∈ s.frontier, fits s.settled x.1
  waits : ∀ {v d}, s.distance.get v = some d → s.done.get v = false → (d, v) ∈ s.frontier
  labelled : ∀ x ∈ s.frontier, ∃ d, s.distance.get x.2 = some d ∧ Lowered value x.1 d
  settled_le : ∀ {v}, s.done.get v = true → ∃ d, s.distance.get v = some d ∧
    ∀ x ∈ s.frontier, value d ≤ value x.1
  relaxed : ∀ {u d}, s.done.get u = true → s.distance.get u = some d → ∀ step ∈ steps u,
    ∃ c, Quantity.add d step.length = .ok c ∧
      ∃ new, s.distance.get step.head = some new ∧ value new ≤ value c
  parent : ∀ {v d}, v ≠ source → s.distance.get v = some d → ∃ u step du,
    s.parent.get v = some (u, step.mark) ∧ step ∈ steps u ∧ step.head = v ∧
      s.distance.get u = some du ∧ Quantity.add du step.length = .ok d ∧ s.done.get u = true ∧
      (s.done.get v = true → time u < time v)
  time_lt : ∀ {v}, s.done.get v = true → time v < s.settled
  settled_eq : s.settled = (Finset.univ.filter fun v => s.done.get v = true).card

/-- How often nodes can still leave the frontier. -/
def departures (steps : Fin n → List (Step n μ α)) (s : State n μ α) : Nat :=
  s.frontier.length + ∑ v, if s.done.get v = true then 0 else (steps v).length

/-- A node that was settled before leaves the frontier for nothing. -/
theorem Exploring.skip (inv : Exploring steps value fits source time s)
    (leaves : ((d, u) :: others).Perm s.frontier) (done : s.done.get u = true) :
    Exploring steps value fits source time { s with frontier := others } := by
  have kept : ∀ x ∈ others, x ∈ s.frontier :=
    fun x mem => leaves.mem_iff.mp (List.mem_cons_of_mem _ mem)
  refine ⟨inv.source_label, inv.source_parent, inv.unlabelled, inv.label_fits,
    fun x mem => inv.entry_fits x (kept x mem), fun {v e} label open_ => ?_,
    fun x mem => inv.labelled x (kept x mem),
    fun settled => ?_, inv.relaxed, inv.parent, inv.time_lt, inv.settled_eq⟩
  · rcases List.mem_cons.mp (leaves.mem_iff.mpr (inv.waits label open_)) with same | mem
    · obtain ⟨rfl, rfl⟩ := Prod.mk.inj same
      rw [show s.done.get v = false from open_] at done
      cases done
    · exact mem
  · obtain ⟨e, label, le⟩ := inv.settled_le settled
    exact ⟨e, label, fun x mem => le x (kept x mem)⟩

/-- A node leaves the frontier for the first time with the label it has. -/
theorem Exploring.label_eq (inv : Exploring steps value fits source time s)
    (mem : (d, u) ∈ s.frontier) (least : ∀ x ∈ s.frontier, value d ≤ value x.1)
    (fresh : s.done.get u = false) : s.distance.get u = some d := by
  obtain ⟨label, labelled, same | lower⟩ := inv.labelled _ mem
  · rw [labelled, show label = d from same]
  · exact absurd (least _ (inv.waits labelled fresh)) (not_le.mpr lower)

/-- Before a node is settled that was not settled yet, not all are. -/
theorem Exploring.settled_lt (inv : Exploring steps value fits source time s)
    (fresh : s.done.get u = false) : s.settled < n := by
  have fewer : (Finset.univ.filter fun v => s.done.get v = true) ⊂ Finset.univ := by
    refine Finset.ssubset_univ_iff.mpr fun all => ?_
    have known := Finset.mem_univ u
    rw [← all, Finset.mem_filter, fresh] at known
    cases known.2
  have card := Finset.card_lt_card fewer
  rwa [← inv.settled_eq, Finset.card_fin] at card

/-! #### The nearest node is settled -/

variable {s' : State n μ α} (steady : Steady steps value fits)
  (inv : Exploring steps value fits source time s)
  (leaves : ((d, u) :: others).Perm s.frontier) (least : ∀ x ∈ s.frontier, value d ≤ value x.1)
  (fresh : s.done.get u = false)
  (relaxed : Relaxed value (steps u) u d { s with
    frontier := others, done := s.done.update u true, settled := s.settled + 1 } s')

include relaxed in
theorem done_iff_of_relaxed (v : Fin n) : s'.done.get v = true ↔ v = u ∨ s.done.get v = true := by
  rw [relaxed.done, Table.get_update]
  by_cases same : u = v
  · simp [same]
  · simp [same, show ¬ v = u from fun h => same h.symm]

include steady inv leaves fresh in
/-- What a step from the nearest node leads to. -/
theorem Exploring.sum_of_step {step : Step n μ α} (mem : step ∈ steps u) {c : α}
    (sum : Quantity.add d step.length = .ok c) : fits (s.settled + 1) c ∧ value d ≤ value c := by
  have fit := inv.entry_fits _ (leaves.mem_iff.mp List.mem_cons_self)
  obtain ⟨c', sum', fit', le⟩ := steady.add (inv.settled_lt fresh) fit step mem
  rw [sum] at sum'
  cases sum'
  exact ⟨fit', le⟩

include steady inv leaves fresh relaxed in
/-- A label of at most the value of the node's stays, and its parent with it. -/
theorem Exploring.firm {v : Fin n} {e : α} (label : s.distance.get v = some e)
    (le : value e ≤ value d) :
    s'.distance.get v = some e ∧ s'.parent.get v = s.parent.get v := by
  rcases relaxed.label v with ⟨same, parent⟩ | ⟨step, mem, c, sum, _, _, _, _, lower⟩
  · exact ⟨same.trans label, parent⟩
  · have above := (inv.sum_of_step steady leaves fresh mem sum).2
    exact absurd (le.trans above) (not_le.mpr (lower e label))

include steady inv leaves least fresh relaxed

/-- Settled nodes are labelled with at most the value of the node's label, and stay so. -/
theorem Exploring.settled_label {v : Fin n} (done : s'.done.get v = true) :
    ∃ e, value e ≤ value d ∧ s.distance.get v = some e ∧ s'.distance.get v = some e := by
  have leaving := leaves.mem_iff.mp (List.mem_cons_self ..)
  rcases (done_iff_of_relaxed relaxed v).mp done with rfl | done
  · have here := inv.label_eq leaving least fresh
    exact ⟨d, le_rfl, here, (inv.firm steady leaves fresh relaxed here le_rfl).1⟩
  · obtain ⟨e, label, le⟩ := inv.settled_le done
    have le := le _ leaving
    exact ⟨e, le, label, (inv.firm steady leaves fresh relaxed label le).1⟩

/-- A label that stays keeps its parent, and one that changes has the settled node for parent. -/
theorem Exploring.parent_settle {v : Fin n} {e : α} (apart : v ≠ source)
    (label : s'.distance.get v = some e) : ∃ w step dw,
      s'.parent.get v = some (w, step.mark) ∧ step ∈ steps w ∧ step.head = v ∧
        s'.distance.get w = some dw ∧ Quantity.add dw step.length = .ok e ∧
        s'.done.get w = true ∧ (s'.done.get v = true →
          Function.update time u s.settled w < Function.update time u s.settled v) := by
  have here := inv.label_eq (leaves.mem_iff.mp (List.mem_cons_self ..)) least fresh
  have settled_ne : ∀ {w}, s.done.get w = true → w ≠ u := by
    rintro w done rfl
    rw [done] at fresh
    cases fresh
  have done_iff := done_iff_of_relaxed relaxed
  rcases relaxed.label v with ⟨same, kept⟩ | ⟨step, mem, c, sum, head, now, parent, _, lower⟩
  · obtain ⟨w, step, dw, parent, mem, head, label', sum, done, earlier⟩ :=
      inv.parent apart (same.symm.trans label)
    have settled := (done_iff w).mpr (.inr done)
    obtain ⟨e', _, old, label''⟩ := inv.settled_label steady leaves least fresh relaxed settled
    obtain rfl := Option.some.inj (label'.symm.trans old)
    refine ⟨w, step, dw, kept.trans parent, mem, head, label'', sum, settled, fun done' => ?_⟩
    rw [Function.update_of_ne (settled_ne done)]
    rcases (done_iff v).mp done' with rfl | before
    · rw [Function.update_self]
      exact inv.time_lt done
    · rw [Function.update_of_ne (settled_ne before)]
      exact earlier before
  · obtain rfl := Option.some.inj (now.symm.trans label)
    refine ⟨u, step, d, parent, mem, head, (inv.firm steady leaves fresh relaxed here le_rfl).1,
      sum, (done_iff u).mpr (.inl rfl), fun done => ?_⟩
    -- A settled node keeps its label, which this one has just changed.
    obtain ⟨e', le, old, _⟩ := inv.settled_label steady leaves least fresh relaxed done
    have above := (inv.sum_of_step steady leaves fresh mem sum).2
    exact absurd (le.trans above) (not_le.mpr (lower e' old))

/-- Settling the nearest node of the frontier keeps the invariant. -/
theorem Exploring.settle :
    Exploring steps value fits source (Function.update time u s.settled) s' := by
  have leaving := leaves.mem_iff.mp (List.mem_cons_self ..)
  have here := inv.label_eq leaving least fresh
  have done_iff := done_iff_of_relaxed relaxed
  obtain ⟨source_label, source_parent⟩ := inv.firm steady leaves fresh relaxed inv.source_label
    (steady.nought_le (inv.entry_fits _ leaving))
  have kept : ∀ x ∈ others, x ∈ s.frontier :=
    fun x mem => leaves.mem_iff.mp (List.mem_cons_of_mem _ mem)
  have settled : s'.settled = s.settled + 1 := relaxed.settled
  have frontier_ge : ∀ x ∈ s'.frontier, value d ≤ value x.1 := by
    intro x inside
    rcases relaxed.entered x inside with old | ⟨step, mem, _, sum, _⟩
    · exact least x (kept x old)
    · exact (inv.sum_of_step steady leaves fresh mem sum).2
  refine ⟨source_label, source_parent.trans inv.source_parent, fun {v} none => ?_,
    fun {v e} label => ?_, fun x inside => ?_, fun {v e} label unsettled => ?_,
    fun x inside => ?_, fun {v} done => ?_,
    fun {v e} done label step mem => ?_,
    inv.parent_settle steady leaves least fresh relaxed, fun {v} done => ?_, ?_⟩
  · rcases relaxed.label v with ⟨same, parent⟩ | ⟨_, _, _, _, _, now, _⟩
    · exact parent.trans (inv.unlabelled (same.symm.trans none))
    · rw [now] at none
      cases none
  · rw [settled]
    rcases relaxed.label v with ⟨same, _⟩ | ⟨step, mem, c, sum, _, now, _, _, _⟩
    · exact steady.later (inv.label_fits (same.symm.trans label))
    · obtain rfl := Option.some.inj (now.symm.trans label)
      exact (inv.sum_of_step steady leaves fresh mem sum).1
  · rw [settled]
    rcases relaxed.entered x inside with old | ⟨step, mem, _, sum, _⟩
    · exact steady.later (inv.entry_fits x (kept x old))
    · exact (inv.sum_of_step steady leaves fresh mem sum).1
  · have unsettled := (done_iff v).not.mp (by simp [unsettled])
    rcases relaxed.label v with ⟨same, _⟩ | ⟨step, _, c, _, _, now, _, waits, _⟩
    · have waits := inv.waits (same.symm.trans label)
        (Bool.eq_false_iff.mpr fun done => unsettled (.inr done))
      rcases List.mem_cons.mp (leaves.mem_iff.mpr waits) with now | mem
      · exact absurd (.inl (Prod.mk.inj now).2) unsettled
      · exact relaxed.frontier_subset mem
    · obtain rfl := Option.some.inj (now.symm.trans label)
      exact waits
  · rcases relaxed.entered x inside with old | ⟨step, _, _, _, new⟩
    · obtain ⟨e, label, lowered⟩ := inv.labelled x (kept x old)
      obtain ⟨new, label', lowered'⟩ := relaxed.lowered label
      exact ⟨new, label', lowered.trans lowered'⟩
    · exact new
  · obtain ⟨e, le, _, label⟩ := inv.settled_label steady leaves least fresh relaxed done
    exact ⟨e, label, fun x mem => le.trans (frontier_ge x mem)⟩
  · obtain ⟨e', _, old, label'⟩ := inv.settled_label steady leaves least fresh relaxed done
    obtain rfl := Option.some.inj (label'.symm.trans label)
    rcases (done_iff v).mp done with rfl | done
    · obtain rfl := Option.some.inj (here.symm.trans old)
      exact relaxed.reached step mem
    · obtain ⟨c, sum, new, head, le⟩ := inv.relaxed done old step mem
      obtain ⟨newer, head', lowered⟩ := relaxed.lowered head
      exact ⟨c, sum, newer, head', lowered.le.trans le⟩
  · rw [settled]
    rcases (done_iff v).mp done with rfl | before
    · rw [Function.update_self]
      exact Nat.lt_succ_self _
    · by_cases same : v = u
      · rw [same, Function.update_self]
        exact Nat.lt_succ_self _
      · rw [Function.update_of_ne same]
        exact (inv.time_lt before).trans (Nat.lt_succ_self _)
  · have grown : (Finset.univ.filter fun v => s'.done.get v = true) =
        insert u (Finset.univ.filter fun v => s.done.get v = true) := by
      ext v
      simp [done_iff]
    rw [settled, grown, Finset.card_insert_of_notMem (by simp [fresh]), inv.settled_eq]

end Exploring

/-! ### The whole search -/

section Grown

variable {steps : Fin n → List (Step n μ α)} {value : α → V} {fits : Nat → α → Prop}
  {source : Fin n} {time : Fin n → Nat} {s : State n μ α}

/-- What a search has found when its frontier is empty. -/
structure Grown (steps : Fin n → List (Step n μ α)) (value : α → V) (fits : Nat → α → Prop)
    (source : Fin n) (time : Fin n → Nat) (s : State n μ α) : Prop where
  source_label : s.distance.get source = some Quantity.nought
  source_parent : s.parent.get source = none
  unlabelled : ∀ {v}, s.distance.get v = none → s.parent.get v = none
  label_fits : ∀ {v d}, s.distance.get v = some d → fits n d
  relaxed : ∀ {u d}, s.distance.get u = some d → ∀ step ∈ steps u,
    ∃ c, Quantity.add d step.length = .ok c ∧
      ∃ new, s.distance.get step.head = some new ∧ value new ≤ value c
  parent : ∀ {v d}, v ≠ source → s.distance.get v = some d → ∃ u step du,
    s.parent.get v = some (u, step.mark) ∧ step ∈ steps u ∧ step.head = v ∧
      s.distance.get u = some du ∧ Quantity.add du step.length = .ok d ∧ time u < time v
  time_lt : ∀ {v d}, s.distance.get v = some d → time v < n

/-- With nothing left in the frontier every node with a label is settled. -/
theorem Exploring.done_of_label (inv : Exploring steps value fits source time s)
    (empty : s.frontier = []) {v : Fin n} {d : α} (label : s.distance.get v = some d) :
    s.done.get v = true := by
  by_contra unsettled
  have waits := inv.waits label (by simpa using unsettled)
  rw [empty] at waits
  cases waits

theorem Exploring.grown (steady : Steady steps value fits)
    (inv : Exploring steps value fits source time s) (empty : s.frontier = []) :
    Grown steps value fits source time s := by
  have done : ∀ {v d}, s.distance.get v = some d → s.done.get v = true :=
    inv.done_of_label empty
  have few : s.settled ≤ n := by
    have card := (Finset.univ.filter fun v => s.done.get v = true).card_le_univ
    rwa [← inv.settled_eq, Fintype.card_fin] at card
  refine ⟨inv.source_label, inv.source_parent, inv.unlabelled,
    fun label => steady.fits_le few (inv.label_fits label),
    fun label => inv.relaxed (done label) label, fun apart label => ?_,
    fun label => (inv.time_lt (done label)).trans_le few⟩
  obtain ⟨u, step, du, parent, mem, head, label', sum, _, earlier⟩ := inv.parent apart label
  exact ⟨u, step, du, parent, mem, head, label', sum, earlier (done label)⟩

theorem Exploring.start (steady : Steady steps value fits) (source : Fin n) (time : Fin n → Nat) :
    Exploring steps value fits source time (State.start source) := by
  have label : ∀ {v d}, (State.start source : State n μ α).distance.get v = some d →
      source = v ∧ d = Quantity.nought := by
    intro v d label
    by_cases same : source = v
    · exact ⟨same, by simpa [State.start, same, eq_comm] using label⟩
    · simp [State.start, same] at label
  have entry : ∀ x ∈ (State.start source : State n μ α).frontier,
      x = (Quantity.nought, source) := by
    intro x mem
    simpa [State.start] using mem
  have done : ∀ v, (State.start source : State n μ α).done.get v = false := by
    intro v
    simp [State.start]
  refine ⟨by simp [State.start], by simp [State.start], fun {v} _ => by simp [State.start],
    fun known => ?_, fun x mem => ?_, fun known _ => ?_, fun x mem => ?_,
    fun {v} settled => ?_, fun {v _} settled => ?_,
    fun apart known => absurd (label known).1.symm apart, fun {v} settled => ?_, ?_⟩
  · rw [(label known).2]
    exact steady.nought
  · rw [entry x mem]
    exact steady.nought
  · obtain ⟨rfl, rfl⟩ := label known
    simp [State.start]
  · rw [entry x mem]
    exact ⟨_, by simp [State.start], .inl rfl⟩
  · simp [done] at settled
  · simp [done] at settled
  · simp [done] at settled
  · simp [State.start]

omit [Quantity α] in
/-- Every node that leaves the frontier leaves fewer departures. -/
theorem departures_settle {u : Fin n} {d : α} {others : List (α × Fin n)} {s' : State n μ α}
    (leaves : ((d, u) :: others).Perm s.frontier) (fresh : s.done.get u = false)
    (done : s'.done = s.done.update u true)
    (longer : s'.frontier.length ≤ others.length + (steps u).length) :
    departures steps s' < departures steps s := by
  have length := leaves.length_eq
  have sum := Table.sum_update s.done u true
    fun v done => if done = true then 0 else (steps v).length
  rw [List.length_cons] at length
  simp only [fresh, Bool.false_eq_true, if_false, if_true, add_zero] at sum
  unfold departures
  rw [done]
  omega

/-- A search has as many departures before it as its fuel. -/
theorem departures_start (source : Fin n) :
    departures steps (State.start source) = bound steps := by
  have sum : bound steps = (∑ u, (steps u).length) + 1 := by
    rw [Fin.sum_univ_def, bound]
    induction List.finRange n with
    | nil => rfl
    | cons u us ih => rw [List.foldr_cons, ih, List.map_cons, List.sum_cons, Nat.add_assoc]
  rw [sum]
  simp [departures, State.start, Nat.add_comm]

/-- What becomes of a state when the first node of the frontier leaves it: a node that was settled
before is dropped, and any other is settled. -/
inductive Departs (steps : Fin n → List (Step n μ α)) (value : α → V) (s : State n μ α) :
    State n μ α → Prop
  | skip {d : α} {u : Fin n} {others : List (α × Fin n)}
      (leaves : ((d, u) :: others).Perm s.frontier) (done : s.done.get u = true) :
      Departs steps value s { s with frontier := others }
  | settle {d : α} {u : Fin n} {others : List (α × Fin n)} {s' : State n μ α}
      (leaves : ((d, u) :: others).Perm s.frontier)
      (least : ∀ x ∈ s.frontier, rank value (d, u) ≤ rank value x) (fresh : s.done.get u = false)
      (relaxed : Relaxed value (steps u) u d { s with
        frontier := others, done := s.done.update u true, settled := s.settled + 1 } s') :
      Departs steps value s s'

/-- The frontier becomes empty before the fuel ends, and what every departure keeps holds then. -/
theorem explore_keeps (steady : Steady steps value fits) (refuse : μ → α → Failure)
    {point : Run Failure Unit} (passes : point.outcome = .ok ()) {P : State n μ α → Prop}
    (keeps : ∀ {s s' time}, Exploring steps value fits source time s → Departs steps value s s' →
      P s → P s') (fuel : Nat) (inv : Exploring steps value fits source time s) (kept : P s)
    (enough : departures steps s ≤ fuel) :
    ∃ s' time', (explore steps refuse point fuel s).outcome = .ok s' ∧ s'.frontier = [] ∧
      Exploring steps value fits source time' s' ∧ P s' := by
  induction fuel generalizing s time with
  | zero =>
    have empty : s.frontier = [] := by
      unfold departures at enough
      exact List.eq_nil_of_length_eq_zero (by omega)
    exact ⟨s, time, by simp [explore, empty], empty, inv, kept⟩
  | succ fuel ih =>
    cases frontier : s.frontier with
    | nil => exact ⟨s, time, by simp [explore, frontier], frontier, inv, kept⟩
    | cons x rest =>
      have few : s.settled ≤ n := by
        have card := (Finset.univ.filter fun v => s.done.get v = true).card_le_univ
        rwa [← inv.settled_eq, Fintype.card_fin] at card
      have fit : ∀ y ∈ x :: rest, fits n y.1 :=
        fun y mem => steady.fits_le few (inv.entry_fits y (frontier ▸ mem))
      have perm := takeLeast_perm x rest
      have first := takeLeast_least x rest fun y hy z hz => steady.less_iff (fit y hy) (fit z hz)
      rw [explore.eq_def]
      simp only [frontier, Run.outcome_bind_of_ok passes]
      rcases taken : takeLeast x rest with ⟨⟨d, u⟩, others⟩
      rw [taken] at perm first
      dsimp only at perm first ⊢
      have leaves : ((d, u) :: others).Perm s.frontier := frontier ▸ perm
      have least : ∀ z ∈ s.frontier, rank value (d, u) ≤ rank value z :=
        fun z mem => first z (frontier ▸ mem)
      by_cases done : s.done.get u = true
      · have fewer : departures steps { s with frontier := others } < departures steps s := by
          have length := leaves.length_eq
          rw [List.length_cons] at length
          unfold departures
          dsimp only
          omega
        have settled : settle steps refuse d u { s with frontier := others } =
            .ok { s with frontier := others } := if_pos done
        obtain ⟨s', time', result, rest⟩ :=
          ih (inv.skip leaves done) (keeps inv (.skip leaves done) kept) (by omega)
        refine ⟨s', time', ?_, rest⟩
        rw [Run.outcome_bind_of_ok (a := { s with frontier := others })]
        · exact result
        · rw [Run.outcome_ofExcept, settled]
      · have fresh : s.done.get u = false := by simpa using done
        obtain ⟨s', relaxed_ok, relaxed⟩ := foldlM_relax_ok (u := u) steady refuse
          (inv.settled_lt fresh) (inv.entry_fits _ (leaves.mem_iff.mp List.mem_cons_self))
          (List.Subset.refl (steps u))
          { s with frontier := others, done := s.done.update u true, settled := s.settled + 1 }
          fun label => steady.fits_le few (inv.label_fits label)
        have settled : settle steps refuse d u { s with frontier := others } = .ok s' :=
          (if_neg done).trans relaxed_ok
        have fewer := departures_settle leaves fresh relaxed.done relaxed.length_le
        have nearest : ∀ z ∈ s.frontier, value d ≤ value z.1 :=
          fun z mem => value_le_of_rank_le (least z mem)
        obtain ⟨s'', time', result, rest⟩ := ih (inv.settle steady leaves nearest fresh relaxed)
          (keeps inv (.settle leaves least fresh relaxed) kept) (by omega)
        refine ⟨s'', time', ?_, rest⟩
        rw [Run.outcome_bind_of_ok (a := s')]
        · exact result
        · rw [Run.outcome_ofExcept, settled]

/-- A search over steady labels ends with a tree, and what every departure keeps holds then. -/
theorem Steady.run_keeps (steady : Steady steps value fits) (refuse : μ → α → Failure)
    {point : Run Failure Unit} (passes : point.outcome = .ok ()) (source : Fin n)
    {P : State n μ α → Prop}
    (keeps : ∀ {s s' time}, Exploring steps value fits source time s → Departs steps value s s' →
      P s → P s') (start : P (State.start source)) :
    ∃ s time, (run steps refuse point source).outcome = .ok s ∧
      (∀ {v d}, s.distance.get v = some d → s.done.get v = true) ∧
      Grown steps value fits source time s ∧ P s := by
  obtain ⟨s, time, ok, empty, inv, kept⟩ := explore_keeps steady refuse passes keeps _
    (.start steady source fun _ => 0) start (departures_start source).le
  exact ⟨s, time, ok, inv.done_of_label empty, inv.grown steady empty, kept⟩

/-- A search over steady labels ends with a tree. -/
theorem Steady.run_grown (steady : Steady steps value fits) (refuse : μ → α → Failure)
    {point : Run Failure Unit} (passes : point.outcome = .ok ()) (source : Fin n) :
    ∃ s time, (run steps refuse point source).outcome = .ok s ∧
      Grown steps value fits source time s := by
  obtain ⟨s, time, ok, -, grown, -⟩ :=
    steady.run_keeps refuse passes source (P := fun _ => True) (fun _ _ _ => trivial) trivial
  exact ⟨s, time, ok, grown⟩

end Grown

/-! ### Integers -/

section Integers

variable {steps : Fin n → List (Step n μ Int)} {source : Fin n} {time : Fin n → Nat}
  {s : State n μ Int}

@[simp] theorem nought_int : (Quantity.nought : Int) = 0 := rfl

@[simp] theorem add_int (i j : Int) : Quantity.add i j = .ok (i + j) := rfl

@[simp] theorem less_int (i j : Int) : Quantity.less i j = decide (i < j) := rfl

/-- What a search in integers has found when its frontier is empty. -/
structure Tree (steps : Fin n → List (Step n μ Int)) (source : Fin n) (time : Fin n → Nat)
    (s : State n μ Int) : Prop where
  source_label : s.distance.get source = some 0
  source_parent : s.parent.get source = none
  nonneg : ∀ {v d}, s.distance.get v = some d → 0 ≤ d
  relaxed : ∀ {u d}, s.distance.get u = some d →
    ∀ step ∈ steps u, ∃ new ≤ d + step.length, s.distance.get step.head = some new
  parent : ∀ {v d}, v ≠ source → s.distance.get v = some d → ∃ u step du,
    s.parent.get v = some (u, step.mark) ∧ step ∈ steps u ∧ step.head = v ∧
      s.distance.get u = some du ∧ d = du + step.length ∧ time u < time v
  time_lt : ∀ {v d}, s.distance.get v = some d → time v < n

/-- Integers that are not negative are steady labels. -/
theorem steady_int (lengths : ∀ v, ∀ step ∈ steps v, 0 ≤ step.length) :
    Steady steps (id : Int → Int) fun _ d => 0 ≤ d where
  less_iff _ _ := by simp
  nought := le_rfl
  nought_le nonneg := nonneg
  later nonneg := nonneg
  allowed {u} step mem := by simp [lengths u step mem]
  add {_ d u} _ nonneg step mem := by
    have length := lengths u step mem
    exact ⟨d + step.length, rfl, add_nonneg nonneg length, le_add_of_nonneg_right length⟩

theorem Grown.tree {fits : Nat → Int → Prop} (grown : Grown steps id fits source time s)
    (nonneg : ∀ {k d}, fits k d → 0 ≤ d) : Tree steps source time s := by
  refine ⟨grown.source_label, grown.source_parent, fun label => nonneg (grown.label_fits label),
    fun {u d} label step mem => ?_, fun {v d} apart label => ?_, grown.time_lt⟩
  · obtain ⟨c, sum, new, head, le⟩ := grown.relaxed label step mem
    cases sum
    exact ⟨new, le, head⟩
  · obtain ⟨u, step, du, parent, mem, head, label', sum, earlier⟩ := grown.parent apart label
    cases sum
    exact ⟨u, step, du, parent, mem, head, label', rfl, earlier⟩

/-- A search over lengths that are not negative ends with a tree. -/
theorem run_ends (refuse : μ → Int → Failure) {point : Run Failure Unit}
    (passes : point.outcome = .ok ()) (lengths : ∀ v, ∀ step ∈ steps v, 0 ≤ step.length)
    (source : Fin n) :
    ∃ s time, (run steps refuse point source).outcome = .ok s ∧ Tree steps source time s := by
  obtain ⟨s, time, ok, grown⟩ := (steady_int lengths).run_grown refuse passes source
  exact ⟨s, time, ok, grown.tree id⟩

end Integers

end Optima.Graph.Search
