import Optima.Proofs.Flow.LeastCost.Slackness
import Optima.Proofs.Graph.Levels

/-!
Walks along links without capacity. A walk loads its links as often as it takes them, and so moves
a unit from its beginning to its end (`netOut_loads`). A walk of as many links as there are nodes
goes round somewhere, so if no closed walk has a negative cost, a shorter one costs no more
(`FreeWalk.shorten`).

After a number of rounds no label is above the cost of a walk of so many links, while every label is
the cost of some walk. Therefore labels that still change in the last round belong to a closed walk
of negative cost (`exists_negative_walk`); labels that do not are potentials
(`exists_potentials`).
-/

namespace Optima.Flow.LeastCost

open Optima.Graph

variable {n : Nat} {links : List (Link n)}

/-! ### Walks -/

/-- Links without capacity that lead from one node to another in turn, the last one first. -/
inductive FreeWalk (links : List (Link n)) : List (Fin links.length) → Fin n → Fin n → Prop where
  | nil {v : Fin n} : FreeWalk links [] v v
  | cons {ks : List (Fin links.length)} {u : Fin n} {k : Fin links.length} :
      (links.get k).capacity = none → FreeWalk links ks u (links.get k).tail →
      FreeWalk links (k :: ks) u (links.get k).head

/-- The costs of the links of a walk. -/
def walkCost (links : List (Link n)) (ks : List (Fin links.length)) : Int :=
  (ks.map fun k => (links.get k).cost).sum

/-- How often a walk takes each link. -/
def loads (ks : List (Fin links.length)) (k : Fin links.length) : Int := ks.count k

variable {ks ls : List (Fin links.length)} {u v w : Fin n}

theorem FreeWalk.append (first : FreeWalk links ks u v) (second : FreeWalk links ls v w) :
    FreeWalk links (ls ++ ks) u w := by
  induction second with
  | nil => exact first
  | cons free _ ih => exact .cons free (ih first)

theorem FreeWalk.capacity_eq_none (walk : FreeWalk links ks u v) {k : Fin links.length}
    (mem : k ∈ ks) : (links.get k).capacity = none := by
  induction walk with
  | nil => cases mem
  | cons free _ ih =>
    rcases List.mem_cons.mp mem with rfl | later
    · exact free
    · exact ih later

/-- Where links without capacity lead there is a walk. -/
theorem exists_walk (path : Relation.ReflTransGen (Free links) u v) :
    ∃ ks, FreeWalk links ks u v := by
  induction path with
  | refl => exact ⟨[], .nil⟩
  | tail _ step ih =>
    obtain ⟨k, free, rfl, rfl⟩ := step
    obtain ⟨ks, walk⟩ := ih
    exact ⟨k :: ks, .cons free walk⟩

theorem loads_cons (k : Fin links.length) :
    loads (k :: ks) = fun j => loads ks j + if j = k then 1 else 0 := by
  funext j
  rw [loads, loads, List.count_cons]
  by_cases same : k = j
  · simp [same]
  · simp [same, show ¬ j = k from fun h => same h.symm]

/-- A walk moves a unit from its beginning to its end. -/
theorem netOut_loads (walk : FreeWalk links ks u v) (w : Fin n) :
    netOut links (loads ks) w = transfer u v 1 w := by
  induction walk with
  | nil =>
    have empty : (loads [] : Fin links.length → Int) = fun _ => 0 := rfl
    rw [netOut, empty, outflow_zero, transfer, sub_self]
  | @cons ks u k _ _ ih =>
    rw [netOut] at ih ⊢
    rw [loads_cons, outflow_add, outflow_single, ih]
    simp only [transfer, eq_comm (a := w)]
    omega

theorem cost_loads (ks : List (Fin links.length)) : cost links (loads ks) = walkCost links ks := by
  induction ks with
  | nil =>
    have empty : (loads [] : Fin links.length → Int) = fun _ => 0 := rfl
    simp [cost, empty, walkCost]
  | cons k ks ih =>
    rw [walkCost, List.map_cons, List.sum_cons, ← walkCost, ← ih, cost, cost, loads_cons]
    simp only [add_mul, ite_mul, one_mul, zero_mul, Finset.sum_add_distrib, Finset.sum_ite_eq',
      Finset.mem_univ, if_true]
    exact add_comm _ _

/-- Going along a walk any number of times more leaves fitting amounts fitting. -/
theorem Fits.add_loads {f : Fin links.length → Int} (fits : Fits links f)
    (walk : FreeWalk links ks u v) {times : Int} (nonneg : 0 ≤ times) :
    Fits links fun k => f k + times * loads ks k := by
  intro k
  obtain ⟨low, high⟩ := fits k
  refine ⟨add_nonneg low (mul_nonneg nonneg (Int.natCast_nonneg _)), fun c capacity => ?_⟩
  have absent : k ∉ ks := by
    intro mem
    rw [walk.capacity_eq_none mem] at capacity
    cases capacity
  have unloaded : loads ks k = 0 := congrArg Nat.cast (List.count_eq_zero_of_not_mem absent)
  dsimp only
  rw [unloaded, mul_zero, add_zero]
  exact high c capacity

theorem netOut_add_loads (f : Fin links.length → Int) (walk : FreeWalk links ks u v) (times : Int)
    (w : Fin n) :
    netOut links (fun k => f k + times * loads ks k) w =
      netOut links f w + transfer u v times w := by
  have moved := netOut_loads walk w
  rw [netOut] at moved ⊢
  rw [outflow_add, outflow_mul, moved]
  simp only [transfer, mul_sub, mul_ite, mul_one, mul_zero]
  rfl

theorem cost_add_loads (f : Fin links.length → Int) (ks : List (Fin links.length)) (times : Int) :
    cost links (fun k => f k + times * loads ks k) = cost links f + times * walkCost links ks := by
  rw [← cost_loads, cost, cost, cost, Finset.mul_sum, ← Finset.sum_add_distrib]
  apply Finset.sum_congr rfl
  intro k _
  ring

/-! ### Going round -/

/-- The nodes of a walk, the last one first. -/
def nodes (links : List (Link n)) (u : Fin n) (ks : List (Fin links.length)) : List (Fin n) :=
  ks.map (fun k => (links.get k).head) ++ [u]

/-- A walk can be parted at each of its nodes. -/
theorem FreeWalk.part (walk : FreeWalk links ks u v) (mem : w ∈ nodes links u ks) :
    ∃ later earlier, ks = later ++ earlier ∧ FreeWalk links earlier u w ∧
      FreeWalk links later w v := by
  induction walk with
  | nil =>
    obtain rfl := List.mem_singleton.mp mem
    exact ⟨[], [], rfl, .nil, .nil⟩
  | @cons ks u k free walk ih =>
    rcases List.mem_cons.mp mem with rfl | mem
    · exact ⟨[], k :: ks, rfl, .cons free walk, .nil⟩
    · obtain ⟨later, earlier, rfl, first, second⟩ := ih mem
      exact ⟨k :: later, earlier, rfl, first, .cons free second⟩

/-- A walk that visits a node twice goes round there. -/
theorem FreeWalk.exists_round (walk : FreeWalk links ks u v)
    (again : ¬ (nodes links u ks).Nodup) : ∃ w later round earlier,
      ks = later ++ round ++ earlier ∧ round ≠ [] ∧ FreeWalk links earlier u w ∧
        FreeWalk links round w w ∧ FreeWalk links later w v := by
  induction walk with
  | nil => exact absurd (List.nodup_singleton _) again
  | @cons ks u k free walk ih =>
    by_cases before : (nodes links u ks).Nodup
    · have mem : (links.get k).head ∈ nodes links u ks := by
        by_contra fresh
        exact again (List.nodup_cons.mpr ⟨fresh, before⟩)
      obtain ⟨later, earlier, rfl, first, second⟩ := walk.part mem
      exact ⟨_, [], k :: later, earlier, rfl, List.cons_ne_nil _ _, first, .cons free second, .nil⟩
    · obtain ⟨w, later, round, earlier, rfl, nonempty, first, second, third⟩ := ih before
      exact ⟨w, k :: later, round, earlier, rfl, nonempty, first, second, .cons free third⟩

/-- If going round never saves cost, a walk shorter than the number of nodes costs no more. -/
theorem FreeWalk.shorten
    (rounds : ∀ round w, FreeWalk links round w w → 0 ≤ walkCost links round) (length : Nat)
    (walk : FreeWalk links ks u v) (length_eq : ks.length = length) :
    ∃ ks', FreeWalk links ks' u v ∧ ks'.length < n ∧ walkCost links ks' ≤ walkCost links ks := by
  induction length using Nat.strong_induction_on generalizing ks with
  | _ length ih =>
    by_cases short : ks.length < n
    · exact ⟨ks, walk, short, le_rfl⟩
    · have again : ¬ (nodes links u ks).Nodup := by
        intro nodup
        have le := nodup.length_le_card
        rw [nodes, List.length_append, List.length_map, List.length_singleton,
          Fintype.card_fin] at le
        omega
      obtain ⟨w, later, round, earlier, rfl, nonempty, first, second, third⟩ :=
        walk.exists_round again
      have fewer : (later ++ earlier).length < length := by
        have := List.length_pos_iff.mpr nonempty
        simp only [List.length_append] at length_eq ⊢
        omega
      obtain ⟨ks', walk', short', le⟩ := ih _ fewer (first.append third) rfl
      refine ⟨ks', walk', short', le.trans ?_⟩
      have saves := rounds round w second
      simp only [walkCost, List.map_append, List.sum_append] at saves ⊢
      omega

/-! ### Relaxing -/

theorem mem_uncapacitated {link : Link n} :
    link ∈ uncapacitated links ↔ ∃ k : Fin links.length, (links.get k).capacity = none ∧
      links.get k = link := by
  simp only [uncapacitated, List.mem_filter, Option.isNone_iff_eq_none]
  constructor
  · rintro ⟨mem, free⟩
    obtain ⟨k, inside, rfl⟩ := List.getElem_of_mem mem
    exact ⟨⟨k, inside⟩, free, rfl⟩
  · rintro ⟨k, free, rfl⟩
    exact ⟨List.getElem_mem k.isLt, free⟩

/-- Links without capacity lead from the source to the sink just when the search finds that they
do. -/
theorem unboundedPath_iff (source sink : Fin n) :
    unboundedPath links source sink = true ↔ Relation.ReflTransGen (Free links) source sink := by
  have same : (fun u v => v ∈ (((uncapacitated links).filter (·.tail = u)).map (·.head))) =
      Free links := by
    funext x y
    simp only [List.mem_map, List.mem_filter, mem_uncapacitated, decide_eq_true_eq, Free,
      eq_iff_iff]
    constructor
    · rintro ⟨_, ⟨⟨k, free, rfl⟩, rfl⟩, rfl⟩
      exact ⟨k, free, rfl, rfl⟩
    · rintro ⟨k, free, rfl, rfl⟩
      exact ⟨_, ⟨⟨k, free, rfl⟩, rfl⟩, rfl⟩
  rw [unboundedPath, reachable_iff, same]

/-- What one round over some links makes of the labels. -/
structure Round (pass : List (Link n)) (labels labels' : Table n Int) (changed : Bool) : Prop where
  le : ∀ v, labels'.get v ≤ labels.get v
  relaxed : ∀ link ∈ pass, labels'.get link.head ≤ labels.get link.tail + link.cost
  lower : changed = true → ∃ v, labels'.get v < labels.get v
  same : changed = false → labels' = labels
  /-- Whatever extends along the links and holds of the labels goes on holding. -/
  keeps : ∀ P : Fin n → Int → Prop,
    (∀ link ∈ pass, ∀ d, P link.tail d → P link.head (d + link.cost)) →
    (∀ v, P v (labels.get v)) → ∀ v, P v (labels'.get v)

theorem foldl_relaxLink (pass : List (Link n)) (labels : Table n Int) :
    Round pass labels (pass.foldl relaxLink (labels, false)).1
      (pass.foldl relaxLink (labels, false)).2 := by
  induction pass using List.reverseRecOn with
  | nil =>
    exact ⟨fun _ => le_rfl, nofun, nofun, fun _ => rfl, fun _ _ holds => holds⟩
  | append_singleton pass link ih =>
    rw [List.foldl_append, List.foldl_cons, List.foldl_nil]
    generalize pass.foldl relaxLink (labels, false) = result at ih ⊢
    obtain ⟨labels', changed⟩ := result
    rw [relaxLink]
    dsimp only at ih ⊢
    split
    · next shorter =>
      have le : ∀ v, (labels'.update link.head (labels'.get link.tail + link.cost)).get v ≤
          labels'.get v := by
        intro v
        rw [Table.get_update]
        split
        · next same => exact same ▸ shorter.le
        · exact le_rfl
      refine ⟨fun v => (le v).trans (ih.le v), fun other mem => ?_, fun _ => ⟨link.head, ?_⟩, nofun,
        fun P extends_ holds v => ?_⟩
      · rcases List.mem_append.mp mem with early | last
        · exact (le _).trans (ih.relaxed other early)
        · obtain rfl := List.mem_singleton.mp last
          rw [Table.get_update, if_pos rfl]
          exact Int.add_le_add_right (ih.le _) _
      · have lower := ih.le link.head
        rw [Table.get_update, if_pos rfl]
        omega
      · have kept := ih.keeps P
          (fun other mem => extends_ other (List.mem_append_left _ mem)) holds
        rw [Table.get_update]
        split
        · next same =>
          subst same
          exact extends_ link (List.mem_append_right _ (List.mem_singleton_self _)) _ (kept _)
        · exact kept v
    · next keep =>
      refine ⟨ih.le, fun other mem => ?_, ih.lower, ih.same, fun P extends_ holds =>
        ih.keeps P (fun other mem => extends_ other (List.mem_append_left _ mem)) holds⟩
      rcases List.mem_append.mp mem with early | last
      · exact ih.relaxed other early
      · obtain rfl := List.mem_singleton.mp last
        exact (not_lt.mp keep).trans (Int.add_le_add_right (ih.le _) _)

/-! ### Cycles of negative cost -/

/-- When labels stop changing they are potentials. -/
theorem exists_potentials_of_quiet (rounds : Nat) (labels : Table n Int)
    (quiet : neverQuiet (uncapacitated links) rounds labels = false) :
    ∃ h, Potentials links h := by
  induction rounds generalizing labels with
  | zero => cases quiet
  | succ rounds ih =>
    have round := foldl_relaxLink (uncapacitated links) labels
    rw [neverQuiet] at quiet
    generalize (uncapacitated links).foldl relaxLink (labels, false) = result at round quiet
    obtain ⟨labels', changed⟩ := result
    dsimp only at round quiet
    cases changed with
    | true => exact ih labels' quiet
    | false =>
      refine ⟨labels.get, fun k free => ?_⟩
      have le := round.relaxed _ (mem_uncapacitated.mpr ⟨k, free, rfl⟩)
      rw [round.same rfl, Int.add_comm] at le
      exact sub_nonneg.mpr le

/-- Every label is the cost of a walk, and no walk of some number of links costs less. -/
structure Labels (links : List (Link n)) (rounds : Nat) (labels : Table n Int) : Prop where
  attained : ∀ v, ∃ ks u, FreeWalk links ks u v ∧ walkCost links ks = labels.get v
  le : ∀ {ks u v}, FreeWalk links ks u v → ks.length ≤ rounds → labels.get v ≤ walkCost links ks

theorem Labels.round {labels labels' : Table n Int} {rounds : Nat} {changed : Bool}
    (inv : Labels links rounds labels)
    (round : Round (uncapacitated links) labels labels' changed) :
    Labels links (rounds + 1) labels' := by
  refine ⟨round.keeps (fun v d => ∃ ks u, FreeWalk links ks u v ∧ walkCost links ks = d) ?_
    inv.attained, fun {ks u v} walk short => ?_⟩
  · intro link mem d extends_
    obtain ⟨k, free, rfl⟩ := mem_uncapacitated.mp mem
    obtain ⟨ks, u, walk, rfl⟩ := extends_
    exact ⟨k :: ks, u, .cons free walk, add_comm _ _⟩
  · cases walk with
    | nil => exact (round.le _).trans (inv.le .nil (Nat.zero_le _))
    | @cons ks _ k free walk =>
      have before := inv.le walk (Nat.le_of_succ_le_succ short)
      have le := round.relaxed _ (mem_uncapacitated.mpr ⟨k, free, rfl⟩)
      rw [walkCost, List.map_cons, List.sum_cons, ← walkCost]
      omega

/-- Labels that change in as many rounds as there are nodes give away a closed walk of negative
cost. -/
theorem exists_negative_walk_of_neverQuiet (rounds : Nat) {passed : Nat} {labels : Table n Int}
    (inv : Labels links passed labels) (all : n ≤ passed + rounds) (more : 0 < rounds)
    (never : neverQuiet (uncapacitated links) rounds labels = true) :
    ∃ ks v, FreeWalk links ks v v ∧ walkCost links ks < 0 := by
  induction rounds generalizing passed labels with
  | zero => exact absurd more (Nat.lt_irrefl _)
  | succ rounds ih =>
    have round := foldl_relaxLink (uncapacitated links) labels
    rw [neverQuiet] at never
    generalize (uncapacitated links).foldl relaxLink (labels, false) = result at round never
    obtain ⟨labels', changed⟩ := result
    dsimp only at round never
    obtain ⟨rfl, never⟩ := Bool.and_eq_true_iff.mp never
    by_cases last : rounds = 0
    · subst last
      by_contra rounds_
      push Not at rounds_
      -- The label that changed last is the cost of a walk, and a shorter walk costs no more.
      obtain ⟨v, lower⟩ := round.lower rfl
      obtain ⟨ks, u, walk, same⟩ := (inv.round round).attained v
      obtain ⟨ks', walk', short, le⟩ := walk.shorten (fun r w closed => rounds_ r w closed) _ rfl
      have before := inv.le walk' (by omega)
      omega
    · exact ih (inv.round round) (by omega) (by omega) never

/-- The test for cycles of negative cost finds a closed walk of negative cost. -/
theorem exists_negative_walk (negative : negativeCycle links = true) :
    ∃ ks v, FreeWalk links ks v v ∧ walkCost links ks < 0 := by
  simp only [negativeCycle, Bool.and_eq_true, Bool.not_eq_true'] at negative
  obtain ⟨nonempty, never⟩ := negative
  have start : Labels links 0 (Table.fill n 0) := by
    refine ⟨fun v => ⟨[], v, .nil, by simp [walkCost]⟩, fun {ks u v} walk short => ?_⟩
    obtain rfl := List.eq_nil_of_length_eq_zero (Nat.le_zero.mp short)
    simp [walkCost]
  have pos : 0 < n := by
    obtain ⟨link, _⟩ := List.exists_mem_of_ne_nil _ (by simpa using nonempty)
    exact link.tail.pos
  exact exists_negative_walk_of_neverQuiet n start (by omega) pos never

/-- Where it finds none, there are potentials. -/
theorem exists_potentials (none_ : negativeCycle links = false) : ∃ h, Potentials links h := by
  simp only [negativeCycle, Bool.and_eq_false_iff, Bool.not_eq_false'] at none_
  rcases none_ with empty | quiet
  · refine ⟨fun _ => 0, fun k free => ?_⟩
    have mem := mem_uncapacitated.mpr ⟨k, free, rfl⟩
    rw [List.isEmpty_iff.mp empty] at mem
    cases mem
  · exact exists_potentials_of_quiet n _ quiet

end Optima.Flow.LeastCost
