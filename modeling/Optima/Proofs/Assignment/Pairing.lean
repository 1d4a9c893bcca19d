import Mathlib.Algebra.BigOperators.Fin
import Mathlib.Algebra.BigOperators.Group.Finset.Piecewise
import Mathlib.Data.Fintype.Fin
import Mathlib.Data.Fintype.Sum
import Mathlib.Data.List.Lex

/-!
Pairs of agents and tasks as parts of permutations of a square. As many pairs as there can be use up
the smaller side, so a permutation that contains them gives the remaining agents numbers beyond the
last task, and pairs outside the matrix cost nothing. Which of those numbers an agent gets is of no
account for the order of the tasks, and `Fits.extend` makes use of the choice: it extends pairs in
such a way that agents without a task agree with a given permutation for as long as that has none
for them either.
-/

namespace Optima.Assignment

variable {agents tasks n : Nat} {cost : Nat → Nat → Nat}

/-- As many pairs of an agent and a task as there can be, with no agent and no task in two. -/
structure Pairing (agents tasks : Nat) (pairs : List (Nat × Nat)) : Prop where
  agents_lt : ∀ p ∈ pairs, p.1 < agents
  tasks_lt : ∀ p ∈ pairs, p.2 < tasks
  agents_distinct : (pairs.map Prod.fst).Nodup
  tasks_distinct : (pairs.map Prod.snd).Nodup
  complete : pairs.length = min agents tasks

/-- The cost of pairs. -/
def charge (cost : Nat → Nat → Nat) (pairs : List (Nat × Nat)) : Nat :=
  (pairs.map fun p => cost p.1 p.2).sum

/-- The task of an agent. An agent without one has a number after all tasks. -/
def taskOf (tasks : Nat) (pairs : List (Nat × Nat)) (agent : Nat) : Nat :=
  (pairs.lookup agent).getD tasks

/-- The tasks of all agents in turn. -/
def taskSequence (agents tasks : Nat) (pairs : List (Nat × Nat)) : List Nat :=
  (List.range agents).map (taskOf tasks pairs)

/-! ### Choices of tasks -/

/-- Tasks chosen for agents, where a number beyond the tasks stands for none. -/
structure Fits (agents tasks : Nat) (choice : Nat → Nat) : Prop where
  distinct : ∀ a < agents, ∀ b < agents, choice a < tasks → choice a = choice b → a = b
  full : ((Finset.range agents).filter (choice · < tasks)).card = min agents tasks

/-- The cost of the tasks chosen. -/
def chargeOf (agents tasks : Nat) (cost : Nat → Nat → Nat) (choice : Nat → Nat) : Nat :=
  ∑ a ∈ Finset.range agents, if choice a < tasks then cost a (choice a) else 0

/-- An entry of the matrix filled up with zeros. -/
def padded (agents tasks : Nat) (cost : Nat → Nat → Nat) (i j : Nat) : Nat :=
  if i < agents ∧ j < tasks then cost i j else 0

/-- No agent goes without a task if there are enough. -/
theorem Fits.chosen {choice : Nat → Nat} (fits : Fits agents tasks choice)
    (enough : agents ≤ tasks) {a : Nat} (known : a < agents) : choice a < tasks := by
  have all : (Finset.range agents).filter (choice · < tasks) = Finset.range agents := by
    apply Finset.eq_of_subset_of_card_le (Finset.filter_subset _ _)
    rw [fits.full, Finset.card_range, min_eq_left enough]
  have member : a ∈ Finset.range agents := Finset.mem_range.mpr known
  rw [← all] at member
  exact (Finset.mem_filter.mp member).2

/-- No task is left if there are enough agents. -/
theorem Fits.taken {choice : Nat → Nat} (fits : Fits agents tasks choice)
    (enough : tasks ≤ agents) {b : Nat} (known : b < tasks) : ∃ a < agents, choice a = b := by
  have injective : Set.InjOn choice ((Finset.range agents).filter (choice · < tasks)) := by
    intro a first b second same
    obtain ⟨a_lt, chosen⟩ := Finset.mem_filter.mp (Finset.mem_coe.mp first)
    obtain ⟨b_lt, _⟩ := Finset.mem_filter.mp (Finset.mem_coe.mp second)
    exact fits.distinct a (Finset.mem_range.mp a_lt) b (Finset.mem_range.mp b_lt) chosen same
  have all : ((Finset.range agents).filter (choice · < tasks)).image choice =
      Finset.range tasks := by
    refine Finset.eq_of_subset_of_card_le ?_ ?_
    · intro c member
      obtain ⟨a, inside, rfl⟩ := Finset.mem_image.mp member
      exact Finset.mem_range.mpr (Finset.mem_filter.mp inside).2
    · rw [Finset.card_image_of_injOn injective, fits.full, Finset.card_range, min_eq_right enough]
  have member : b ∈ Finset.range tasks := Finset.mem_range.mpr known
  rw [← all] at member
  obtain ⟨a, inside, same⟩ := Finset.mem_image.mp member
  exact ⟨a, Finset.mem_range.mp (Finset.mem_filter.mp inside).1, same⟩

/-- The costs of a permutation that contains the tasks chosen. -/
theorem Fits.sum_padded {choice : Nat → Nat} (fits : Fits agents tasks choice)
    (side : n = max agents tasks) {τ : Fin n → Fin n} (injective : Function.Injective τ)
    (contains : ∀ k : Fin n, k.val < agents → choice k.val < tasks → (τ k).val = choice k.val) :
    ∑ k : Fin n, padded agents tasks cost k.val (τ k).val = chargeOf agents tasks cost choice := by
  have each : ∀ k : Fin n, padded agents tasks cost k.val (τ k).val =
      if k.val < agents ∧ choice k.val < tasks then cost k.val (choice k.val) else 0 := by
    intro k
    rw [padded]
    by_cases agent : k.val < agents
    · by_cases chosen : choice k.val < tasks
      · rw [contains k agent chosen]
      · have beyond : ¬ (τ k).val < tasks := by
          intro inside
          have enough : tasks ≤ agents := by
            by_contra fewer
            exact chosen (fits.chosen (not_le.mp fewer).le agent)
          obtain ⟨a, a_lt, same⟩ := fits.taken enough inside
          have fits_in : a < n := side ▸ lt_max_of_lt_left a_lt
          have twice := contains ⟨a, fits_in⟩ a_lt (by rw [same]; exact inside)
          have equal : (⟨a, fits_in⟩ : Fin n) = k := injective (Fin.ext (twice.trans same))
          rw [← equal] at chosen
          exact chosen (by rw [same]; exact inside)
        rw [if_neg fun both => beyond both.2, if_neg fun both => chosen both.2]
    · rw [if_neg fun both => agent both.1, if_neg fun both => agent both.1]
  rw [Finset.sum_congr rfl fun k _ => each k,
    Fin.sum_univ_eq_sum_range (fun a =>
      if a < agents ∧ choice a < tasks then cost a (choice a) else 0) n, chargeOf]
  symm
  refine Finset.sum_subset_zero_on_sdiff ?_ ?_ ?_
  · exact Finset.range_subset_range.mpr (side ▸ le_max_left agents tasks)
  · intro a outside
    have beyond := (Finset.mem_sdiff.mp outside).2
    rw [Finset.mem_range] at beyond
    exact if_neg fun both => beyond both.1
  · intro a inside
    rw [Finset.mem_range] at inside
    simp only [inside, true_and]

/-- Tasks chosen are part of a permutation, in which the first few of the agents without a task may
be given what another permutation gives them beyond the tasks. -/
theorem Fits.extend {choice : Nat → Nat} (fits : Fits agents tasks choice)
    (side : n = max agents tasks) {σ : Fin n → Fin n} (injective : Function.Injective σ) (few : Nat)
    (beyond : ∀ k : Fin n, k.val < few → tasks ≤ choice k.val → tasks ≤ (σ k).val) :
    ∃ τ : Fin n → Fin n, Function.Injective τ ∧
      (∀ k : Fin n, k.val < agents → choice k.val < tasks → (τ k).val = choice k.val) ∧
      ∀ k : Fin n, k.val < agents → k.val < few → tasks ≤ choice k.val → τ k = σ k := by
  have tasks_le : tasks ≤ n := side ▸ le_max_right agents tasks
  let wish : Fin n → Fin n := fun k =>
    if chosen : choice k.val < tasks then ⟨choice k.val, chosen.trans_le tasks_le⟩ else σ k
  let bound : Finset (Fin n) := Finset.univ.filter fun k =>
    k.val < agents ∧ (choice k.val < tasks ∨ k.val < few)
  have wish_chosen : ∀ k, choice k.val < tasks → (wish k).val = choice k.val := by
    intro k chosen
    simp only [wish, dif_pos chosen]
  have wish_other : ∀ k, ¬ choice k.val < tasks → wish k = σ k := by
    intro k unchosen
    simp only [wish, dif_neg unchosen]
  have apart : Set.InjOn wish bound := by
    have mixed : ∀ k l : Fin n, choice k.val < tasks → ¬ choice l.val < tasks → l.val < few →
        wish k ≠ wish l := by
      intro k l chosen unchosen soon same
      have high := beyond l soon (not_lt.mp unchosen)
      rw [← wish_other l unchosen, ← same, wish_chosen k chosen] at high
      exact absurd chosen (not_lt.mpr high)
    intro k first l second same
    obtain ⟨_, k_lt, k_case⟩ := Finset.mem_filter.mp (Finset.mem_coe.mp first)
    obtain ⟨_, l_lt, l_case⟩ := Finset.mem_filter.mp (Finset.mem_coe.mp second)
    by_cases k_chosen : choice k.val < tasks
    · by_cases l_chosen : choice l.val < tasks
      · have values := congrArg Fin.val same
        rw [wish_chosen k k_chosen, wish_chosen l l_chosen] at values
        exact Fin.ext (fits.distinct _ k_lt _ l_lt k_chosen values)
      · exact absurd same (mixed k l k_chosen l_chosen (l_case.resolve_left l_chosen))
    · by_cases l_chosen : choice l.val < tasks
      · exact absurd same.symm (mixed l k l_chosen k_chosen (k_case.resolve_left k_chosen))
      · rw [wish_other k k_chosen, wish_other l l_chosen] at same
        exact injective same
  obtain ⟨τ, agrees⟩ := Finset.exists_equiv_extend_of_card_eq (α := Fin n) (t := Finset.univ)
    Finset.card_univ.symm (Finset.subset_univ (bound.image wish)) apart
  refine ⟨fun k => (τ k).val, fun k l same => τ.injective (Subtype.ext same), ?_, ?_⟩
  · intro k agent chosen
    have given := agrees k (Finset.mem_filter.mpr ⟨Finset.mem_univ k, agent, .inl chosen⟩)
    exact (congrArg Fin.val given).trans (wish_chosen k chosen)
  · intro k agent soon unchosen
    have given := agrees k (Finset.mem_filter.mpr ⟨Finset.mem_univ k, agent, .inr soon⟩)
    exact given.trans (wish_other k (not_lt.mpr unchosen))

/-! ### Pairs as choices -/

theorem lookup_eq_some_iff {pairs : List (Nat × Nat)} (distinct : (pairs.map Prod.fst).Nodup)
    {a b : Nat} : pairs.lookup a = some b ↔ (a, b) ∈ pairs := by
  induction pairs with
  | nil => simp
  | cons p rest ih =>
    obtain ⟨k, v⟩ := p
    obtain ⟨once, later⟩ := List.nodup_cons.mp distinct
    rw [List.lookup_cons, List.mem_cons, Prod.mk.injEq]
    by_cases same : a = k
    · subst same
      have absent : (a, b) ∉ rest := fun known => once (List.mem_map.mpr ⟨_, known, rfl⟩)
      simp [absent, eq_comm]
    · have differs : (a == k) = false := beq_false_of_ne same
      rw [differs, ih later]
      simp [same]

theorem Pairing.taskOf_eq {pairs : List (Nat × Nat)} (pairing : Pairing agents tasks pairs)
    {p : Nat × Nat} (known : p ∈ pairs) : taskOf tasks pairs p.1 = p.2 := by
  rw [taskOf, (lookup_eq_some_iff pairing.agents_distinct).mpr known]
  rfl

theorem Pairing.taskOf_lt_iff {pairs : List (Nat × Nat)} (pairing : Pairing agents tasks pairs)
    {a : Nat} : taskOf tasks pairs a < tasks ↔ a ∈ pairs.map Prod.fst := by
  constructor
  · intro chosen
    cases found : pairs.lookup a with
    | none =>
      rw [taskOf, found] at chosen
      exact absurd chosen (lt_irrefl _)
    | some b =>
      exact List.mem_map.mpr ⟨_, (lookup_eq_some_iff pairing.agents_distinct).mp found, rfl⟩
  · intro known
    obtain ⟨p, member, rfl⟩ := List.mem_map.mp known
    rw [pairing.taskOf_eq member]
    exact pairing.tasks_lt p member

theorem Pairing.taskOf_le {pairs : List (Nat × Nat)} (pairing : Pairing agents tasks pairs)
    (a : Nat) : taskOf tasks pairs a ≤ tasks := by
  cases found : pairs.lookup a with
  | none =>
    rw [taskOf, found]
    exact le_refl _
  | some b =>
    rw [taskOf, found]
    exact (pairing.tasks_lt _ ((lookup_eq_some_iff pairing.agents_distinct).mp found)).le

theorem Pairing.filter_eq {pairs : List (Nat × Nat)} (pairing : Pairing agents tasks pairs) :
    (Finset.range agents).filter (taskOf tasks pairs · < tasks) =
      (pairs.map Prod.fst).toFinset := by
  ext a
  rw [Finset.mem_filter, List.mem_toFinset, pairing.taskOf_lt_iff, Finset.mem_range]
  constructor
  · exact fun both => both.2
  · intro known
    obtain ⟨p, member, rfl⟩ := List.mem_map.mp known
    exact ⟨pairing.agents_lt p member, known⟩

/-- Pairs are tasks chosen for agents. -/
theorem Pairing.fits {pairs : List (Nat × Nat)} (pairing : Pairing agents tasks pairs) :
    Fits agents tasks (taskOf tasks pairs) := by
  constructor
  · intro a _ b _ chosen same
    obtain ⟨p, first, rfl⟩ := List.mem_map.mp (pairing.taskOf_lt_iff.mp chosen)
    obtain ⟨q, second, rfl⟩ := List.mem_map.mp (pairing.taskOf_lt_iff.mp (same ▸ chosen))
    rw [pairing.taskOf_eq first, pairing.taskOf_eq second] at same
    rw [List.inj_on_of_nodup_map pairing.tasks_distinct first second same]
  · rw [pairing.filter_eq, List.toFinset_card_of_nodup pairing.agents_distinct, List.length_map,
      pairing.complete]

theorem Pairing.charge_eq {pairs : List (Nat × Nat)} (pairing : Pairing agents tasks pairs) :
    charge cost pairs = chargeOf agents tasks cost (taskOf tasks pairs) := by
  rw [chargeOf, ← Finset.sum_filter, pairing.filter_eq,
    List.sum_toFinset _ pairing.agents_distinct, List.map_map, charge]
  refine congrArg List.sum (List.map_congr_left fun p member => ?_)
  simp only [Function.comp_apply, pairing.taskOf_eq member]

/-! ### The pairs of a permutation -/

/-- The pairs of a permutation that lie inside the matrix. -/
def pairsOf (agents tasks : Nat) (σ : Fin n → Fin n) : List (Nat × Nat) :=
  (List.finRange n).filterMap fun i =>
    if i.val < agents ∧ (σ i).val < tasks then some (i.val, (σ i).val) else none

theorem mem_pairsOf {σ : Fin n → Fin n} {p : Nat × Nat} : p ∈ pairsOf agents tasks σ ↔
    ∃ i : Fin n, i.val < agents ∧ (σ i).val < tasks ∧ p = (i.val, (σ i).val) := by
  rw [pairsOf, List.mem_filterMap]
  constructor
  · rintro ⟨i, _, inside⟩
    split at inside
    · rename_i both
      cases inside
      exact ⟨i, both.1, both.2, rfl⟩
    · cases inside
  · rintro ⟨i, agent, task, rfl⟩
    exact ⟨i, List.mem_finRange i, if_pos ⟨agent, task⟩⟩

/-- Pairs are listed by increasing agent. -/
theorem pairsOf_sorted (agents tasks : Nat) (σ : Fin n → Fin n) :
    ((pairsOf agents tasks σ).map Prod.fst).Pairwise (· < ·) := by
  rw [List.pairwise_map, pairsOf, List.pairwise_filterMap]
  refine (List.pairwise_lt_finRange n).imp fun {i k} less p first q second => ?_
  split at first
  · split at second
    · cases first
      cases second
      exact less
    · cases second
  · cases first

theorem card_inside (side : n = max agents tasks) {σ : Fin n → Fin n}
    (injective : Function.Injective σ) :
    (Finset.univ.filter fun i : Fin n => i.val < agents ∧ (σ i).val < tasks).card =
      min agents tasks := by
  rcases le_total agents tasks with fewer | more
  · have agents_only : (Finset.univ.filter fun i : Fin n => i.val < agents ∧ (σ i).val < tasks) =
        Finset.univ.filter fun i : Fin n => i.val < agents := by
      refine Finset.filter_congr fun i _ => and_iff_left ?_
      rw [max_eq_right fewer] at side
      exact side ▸ (σ i).isLt
    rw [agents_only, Fin.card_filter_val_lt, side, max_eq_right fewer, min_comm]
  · have tasks_only : (Finset.univ.filter fun i : Fin n => i.val < agents ∧ (σ i).val < tasks) =
        Finset.univ.filter fun i : Fin n => (σ i).val < tasks := by
      refine Finset.filter_congr fun i _ => and_iff_right ?_
      rw [max_eq_left more] at side
      exact side ▸ i.isLt
    have onto : Function.Bijective σ := Finite.injective_iff_bijective.mp injective
    have moved := onto.sum_comp fun j : Fin n => if j.val < tasks then 1 else 0
    rw [← Finset.card_filter, ← Finset.card_filter] at moved
    rw [tasks_only, moved, Fin.card_filter_val_lt, side, max_eq_left more]

/-- A permutation has as many pairs inside the matrix as there can be. -/
theorem pairing_pairsOf (side : n = max agents tasks) {σ : Fin n → Fin n}
    (injective : Function.Injective σ) : Pairing agents tasks (pairsOf agents tasks σ) := by
  constructor
  · intro p known
    obtain ⟨i, agent, _, rfl⟩ := mem_pairsOf.mp known
    exact agent
  · intro p known
    obtain ⟨i, _, task, rfl⟩ := mem_pairsOf.mp known
    exact task
  · exact (pairsOf_sorted agents tasks σ).imp fun less => less.ne
  · rw [List.Nodup, List.pairwise_map, pairsOf, List.pairwise_filterMap]
    refine (List.nodup_finRange n).imp fun {i k} apart p first q second => ?_
    split at first
    · split at second
      · cases first
        cases second
        exact fun same => apart (injective (Fin.ext same))
      · cases second
    · cases first
  · rw [← card_inside side injective, pairsOf, List.length_filterMap_eq_countP]
    have listed : (Finset.univ.filter fun i : Fin n => i.val < agents ∧ (σ i).val < tasks).card =
        ((List.finRange n).filter fun i => i.val < agents ∧ (σ i).val < tasks).length := rfl
    rw [listed, List.countP_eq_length_filter]
    refine congrArg List.length (List.filter_congr fun i _ => ?_)
    by_cases both : i.val < agents ∧ (σ i).val < tasks
    · rw [if_pos both, decide_eq_true both]
      rfl
    · rw [if_neg both, decide_eq_false both]
      rfl

theorem taskOf_pairsOf (side : n = max agents tasks) {σ : Fin n → Fin n}
    (injective : Function.Injective σ) {k : Fin n} (agent : k.val < agents) :
    taskOf tasks (pairsOf agents tasks σ) k.val = min (σ k).val tasks := by
  have pairing : Pairing agents tasks (pairsOf agents tasks σ) := pairing_pairsOf side injective
  by_cases task : (σ k).val < tasks
  · rw [min_eq_left task.le]
    exact pairing.taskOf_eq (mem_pairsOf.mpr ⟨k, agent, task, rfl⟩)
  · rw [min_eq_right (not_lt.mp task)]
    refine le_antisymm (pairing.taskOf_le _) (not_lt.mp fun chosen => task ?_)
    obtain ⟨p, known, same⟩ := List.mem_map.mp (pairing.taskOf_lt_iff.mp chosen)
    obtain ⟨i, _, inside, rfl⟩ := mem_pairsOf.mp known
    rwa [Fin.ext same] at inside

/-! ### Order -/

/-- A sequence is not greater if it is not greater at the first place where it differs. -/
theorem map_range_le {s t : Nat → Nat} {len : Nat}
    (first : ∀ i < len, (∀ k < i, t k = s k) → s i ≤ t i) :
    (List.range len).map s ≤ (List.range len).map t := by
  induction len generalizing s t with
  | zero => exact le_refl _
  | succ len ih =>
    rw [List.range_succ_eq_map, List.map_cons, List.map_cons, List.map_map, List.map_map]
    have head := first 0 (Nat.succ_pos len) fun k below => absurd below (Nat.not_lt_zero k)
    rcases head.lt_or_eq with less | same
    · exact le_of_lt (List.Lex.rel less)
    · rw [same]
      refine List.cons_le_cons _ (ih fun i below agrees => ?_)
      apply first (i + 1) (Nat.succ_lt_succ below)
      intro k smaller
      cases k with
      | zero => exact same.symm
      | succ k => exact agrees k (Nat.lt_of_succ_lt_succ smaller)

end Optima.Assignment
