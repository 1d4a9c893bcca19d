import Optima.Proofs.Flow.LeastCost.Cycle

/-!
The test for cycles of negative cost is exact. A walk costs at least what potentials gain along it
(`Potentials.gain_le_walkCost`), so where labels come to rest and leave potentials, nothing that
leads round has a negative cost. Labels that never rest belong to a closed walk of negative cost;
it may visit nodes again, but then it falls into two shorter ones, of which one has a negative cost
as well, and this ends with a cycle (`FreeWalk.exists_cycle`).

Nothing is said about the number of rounds beyond this: as many as there are nodes decide the
question, whatever the order of the links.
-/

namespace Optima.Flow.LeastCost

variable {n : Nat} {links : List (Link n)} {ks : List (Fin links.length)} {u v : Fin n}

/-- Links without capacity that lead round and enter no node twice. A link from a node to itself
does. -/
structure FreeCycle (links : List (Link n)) (ks : List (Fin links.length)) : Prop where
  nonempty : ks ≠ []
  closed : ∃ v, FreeWalk links ks v v
  once : (ks.map fun k => (links.get k).head).Nodup

theorem walkCost_cons (k : Fin links.length) (ks : List (Fin links.length)) :
    walkCost links (k :: ks) = (links.get k).cost + walkCost links ks :=
  List.sum_cons

theorem walkCost_append (ks ls : List (Fin links.length)) :
    walkCost links (ks ++ ls) = walkCost links ks + walkCost links ls := by
  rw [walkCost, List.map_append, List.sum_append, ← walkCost, ← walkCost]

/-- What potentials gain along a walk it costs at least. -/
theorem Potentials.gain_le_walkCost {h : Fin n → Int} (potentials : Potentials links h)
    (walk : FreeWalk links ks u v) : h v - h u ≤ walkCost links ks := by
  induction walk with
  | nil => exact (sub_self _).le
  | @cons ks u k free _ ih =>
    have step := potentials k free
    rw [excess] at step
    rw [walkCost_cons]
    omega

/-- A closed walk is a cycle, or falls into two shorter closed walks. -/
theorem FreeWalk.cycle_or_split (walk : FreeWalk links ks u v) (closed : u = v)
    (nonempty : ks ≠ []) :
    FreeCycle links ks ∨ ∃ round rest w, FreeWalk links round w w ∧ FreeWalk links rest v v ∧
      round.length < ks.length ∧ rest.length < ks.length ∧
      walkCost links ks = walkCost links round + walkCost links rest := by
  cases walk with
  | nil => exact absurd rfl nonempty
  | @cons ks _ k free walk =>
    subst closed
    -- The walk begins where its last link ends, so the nodes that it enters are those of the walk
    -- without this link.
    have entered : ((k :: ks).map fun k => (links.get k).head).Nodup ↔
        (nodes links (links.get k).head ks).Nodup :=
      (List.perm_append_singleton _ _).symm.nodup_iff
    by_cases once : (nodes links (links.get k).head ks).Nodup
    · exact .inl ⟨nonempty, ⟨_, .cons free walk⟩, entered.mpr once⟩
    · obtain ⟨w, later, round, earlier, rfl, some_, first, second, third⟩ :=
        walk.exists_round once
      refine .inr ⟨round, k :: (later ++ earlier), w, second, .cons free (first.append third),
        ?_, ?_, ?_⟩
      · simp only [List.length_cons, List.length_append]
        omega
      · have := List.length_pos_iff.mpr some_
        simp only [List.length_cons, List.length_append]
        omega
      · simp only [walkCost_cons, walkCost_append]
        ring

/-- A closed walk of negative cost goes round a cycle of negative cost. -/
theorem FreeWalk.exists_cycle (length : Nat) (walk : FreeWalk links ks v v)
    (length_eq : ks.length = length) (negative : walkCost links ks < 0) :
    ∃ ls, FreeCycle links ls ∧ walkCost links ls < 0 := by
  induction length using Nat.strong_induction_on generalizing ks v with
  | _ length ih =>
    have nonempty : ks ≠ [] := by
      rintro rfl
      exact absurd negative (lt_irrefl _)
    rcases walk.cycle_or_split rfl nonempty with cycle | split
    · exact ⟨ks, cycle, negative⟩
    · obtain ⟨round, rest, w, first, second, shorter, shorter', sum⟩ := split
      by_cases saves : walkCost links round < 0
      · exact ih _ (length_eq ▸ shorter) first rfl saves
      · exact ih _ (length_eq ▸ shorter') second rfl (by omega)

/-- The test answers yes just when the links without capacity contain a cycle of negative cost. -/
theorem negativeCycle_iff (links : List (Link n)) :
    negativeCycle links = true ↔ ∃ ks, FreeCycle links ks ∧ walkCost links ks < 0 := by
  constructor
  · intro found
    obtain ⟨ks, v, walk, negative⟩ := exists_negative_walk found
    exact walk.exists_cycle _ rfl negative
  · rintro ⟨ks, cycle, negative⟩
    obtain ⟨v, walk⟩ := cycle.closed
    by_contra quiet
    obtain ⟨h, potentials⟩ := exists_potentials (Bool.eq_false_iff.mpr quiet)
    have gain := potentials.gain_le_walkCost walk
    omega

/-- A link that leads back to its own node and saves cost is enough. -/
example :
    negativeCycle [⟨1, 1, none, -1⟩, ⟨0, 1, some 2, 3⟩, (⟨0, 1, none, 4⟩ : Link 2)] = true := by
  decide

end Optima.Flow.LeastCost
