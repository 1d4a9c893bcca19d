import Optima.Proofs.Assignment.Reroute
import Optima.Proofs.Run

/-!
Rerouting taken one turn at a time, on the matching that it changes. First rows are looked at until
the column that is looked for turns up or no row is left; then columns are handed back until the row
that lost its own has one (`advance`). These are the turns that the search and the handing back run
through (`explore_turns`, `handBack_turns`), and the bounds that those carry have no part in it: the
turns come to an end by themselves, because the search comes to every column at most once and the
rank of the column to be handed back falls.

The end is success just when some perfect matching of tight edges gives the row the column it asks
for and leaves the rows before it as they are. The matching is changed only once that is certain, so
a failed attempt leaves it as it was (`reroute?_complete`).
-/

namespace Optima.Assignment.Lexicographic

variable {n : Nat}

/-! ### Turns -/

/-- How far rerouting has come. -/
inductive Stage (n : Nat) where
  /-- Rows wait to be looked at, and columns were reached. -/
  | looking (queue : List (Fin n)) (parent : Table n (Option (Fin n)))
  /-- A column is to be handed back. -/
  | handing (column : Fin n) (parent : Table n (Option (Fin n)))
  /-- It is over, and the row was given its column or not. -/
  | over (given : Bool)

/-- Where rerouting stands: the matching as it is, and the stage. -/
structure Place (n : Nat) where
  matching : Matching n
  stage : Stage n

/-- One turn of rerouting, which was asked on the matching `m` for the column `j` on behalf of the
row `i`. -/
def advance (tight : Table n (List (Fin n))) (fixed : Table n Bool) (m : Matching n) (i j : Fin n)
    (p : Place n) : Option (Place n) :=
  match p.stage with
  | .looking [] _ => some ⟨p.matching, .over false⟩
  | .looking (row :: queue) parent =>
      let columns := fresh tight fixed j parent row
      let parent := adopt row columns parent
      if columns.contains (m.columnOf.get i) then
        some ⟨p.matching.assign i j, .handing (m.columnOf.get i) parent⟩
      else some ⟨p.matching, .looking (queue ++ columns.map p.matching.rowOf.get) parent⟩
  | .handing column parent => (parent.get column).map fun row =>
      let previous := p.matching.columnOf.get row
      ⟨p.matching.assign row column,
        if row = m.rowOf.get j then .over true else .handing previous parent⟩
  | .over _ => none

/-- Rerouting as it begins. -/
def Place.start (m : Matching n) (j : Fin n) : Place n :=
  ⟨m, .looking [m.rowOf.get j] (Table.fill n none)⟩

variable {tight : Table n (List (Fin n))} {fixed : Table n Bool} {m m' : Matching n}
  {i j c : Fin n} {queue : List (Fin n)} {parent found : Table n (Option (Fin n))} {fuel : Nat}

/-- The turns of a search that finds its column: the last of them is the first to change the
matching. -/
theorem explore_turns
    (ok : explore tight fixed m.rowOf j (m.columnOf.get i) fuel queue parent = some found) :
    Turns (advance tight fixed m i j) ⟨m, .looking queue parent⟩
      ⟨m.assign i j, .handing (m.columnOf.get i) found⟩ := by
  induction fuel generalizing queue parent with
  | zero =>
    unfold explore at ok
    cases ok
  | succ fuel ih =>
    cases queue with
    | nil =>
      unfold explore at ok
      cases ok
    | cons row queue =>
      rw [explore_cons] at ok
      by_cases there : m.columnOf.get i ∈ fresh tight fixed j parent row
      · rw [if_pos there] at ok
        cases ok
        exact .single (if_pos (List.contains_iff_mem.mpr there))
      · rw [if_neg there] at ok
        exact (ih ok).head (if_neg (mt List.contains_iff_mem.mp there))

/-- The turns of a search that does not find it leave the matching alone. -/
theorem explore_turns_none (enough : queue.length + unreached parent ≤ fuel)
    (failed : explore tight fixed m.rowOf j (m.columnOf.get i) fuel queue parent = none) :
    Turns (advance tight fixed m i j) ⟨m, .looking queue parent⟩ ⟨m, .over false⟩ := by
  induction fuel generalizing queue parent with
  | zero =>
    obtain rfl : queue = [] := List.eq_nil_of_length_eq_zero (by omega)
    exact .single rfl
  | succ fuel ih =>
    cases queue with
    | nil => exact .single rfl
    | cons row queue =>
      have count : unreached (adopt row (fresh tight fixed j parent row) parent) +
          (fresh tight fixed j parent row).length = unreached parent :=
        unreached_adopt (nodup_eraseDups _) fun c new => (mem_fresh.mp new).2.2.2
      rw [explore_cons] at failed
      by_cases there : m.columnOf.get i ∈ fresh tight fixed j parent row
      · rw [if_pos there] at failed
        cases failed
      · rw [if_neg there] at failed
        have fewer : (queue ++ (fresh tight fixed j parent row).map m.rowOf.get).length +
            unreached (adopt row (fresh tight fixed j parent row) parent) ≤ fuel := by
          rw [List.length_cons] at enough
          rw [List.length_append, List.length_map]
          omega
        exact (ih fewer failed).head (if_neg (mt List.contains_iff_mem.mp there))

/-- The turns of handing back. -/
theorem handBack_turns {rank : Fin n → Nat} (guides : Guides tight fixed m j rank parent)
    (paired : m.Paired) (enough : rank c < fuel)
    (back : HandingBack tight fixed m i j rank parent c m') :
    Turns (advance tight fixed m i j) ⟨m', .handing c parent⟩
      ⟨handBack parent (m.rowOf.get j) fuel c m', .over true⟩ := by
  induction fuel generalizing c m' with
  | zero => exact absurd enough (Nat.not_lt_zero _)
  | succ fuel ih =>
    obtain ⟨r, from_⟩ := Option.isSome_iff_exists.mp back.reached
    have turn : advance tight fixed m i j ⟨m', .handing c parent⟩ = some ⟨m'.assign r c,
        if r = m.rowOf.get j then .over true else .handing (m'.columnOf.get r) parent⟩ := by
      simp only [advance, from_, Option.map_some]
    unfold handBack
    rw [from_]
    by_cases last : r = m.rowOf.get j
    · simp only [if_pos last] at turn ⊢
      exact .single turn
    · simp only [if_neg last] at turn ⊢
      obtain ⟨lower, next⟩ := back.next guides paired from_ last
      exact (ih (by omega) next).head turn

/-! ### The end -/

/-- The matching and the fixed columns when the turn of a row has come: each row has one of its
tight columns, and the columns of the rows before it are fixed and no others. -/
structure Ready (tight : Table n (List (Fin n))) (fixed : Table n Bool) (m : Matching n)
    (i : Fin n) : Prop where
  paired : m.Paired
  tightIn : m.TightIn tight
  fixed_iff : ∀ r, fixed.get (m.columnOf.get r) = true ↔ r < i

/-- Rerouting comes to its end, all its turns lead there, and it is what `reroute?` says. -/
theorem Ready.reroute_turns (ready : Ready tight fixed m i) (edge : j ∈ tight.get i)
    (other : m.columnOf.get i ≠ j) :
    Turns (advance tight fixed m i j) (.start m j)
      ⟨(reroute? tight fixed m i j).getD m, .over (reroute? tight fixed m i j).isSome⟩ := by
  have paired := ready.paired
  have parts : reroute? tight fixed m i j =
      (explore tight fixed m.rowOf j (m.columnOf.get i) (n + 1) [m.rowOf.get j]
        (Table.fill n none)).map fun parent =>
          handBack parent (m.rowOf.get j) (n + 1) (m.columnOf.get i) (m.assign i j) := rfl
  cases search : explore tight fixed m.rowOf j (m.columnOf.get i) (n + 1) [m.rowOf.get j]
      (Table.fill n none) with
  | none =>
    rw [parts, search]
    apply explore_turns_none _ search
    rw [unreached_fill, List.length_singleton, Nat.add_comm]
  | some parent =>
    rw [parts, search]
    obtain ⟨rank, guides, reached, bound⟩ :=
      explore_eq_some paired (explored_start paired i j) search
    rw [Nat.zero_add] at bound
    exact (explore_turns search).trans (handBack_turns guides paired bound
      (HandingBack.start paired ready.tightIn edge other reached))

/-- What rerouting leaves: whether the row was given the column it asked for, and the matching. -/
structure Completed (tight : Table n (List (Fin n))) (fixed : Table n Bool) (m : Matching n)
    (i j : Fin n) (given : Bool) (m' : Matching n) : Prop where
  result : reroute? tight fixed m i j = if given then some m' else none
  ends : Turns (advance tight fixed m i j) (.start m j) ⟨m', .over given⟩
  /-- There is no other end, and no way past it. -/
  onward : ∀ p, Turns (advance tight fixed m i j) (.start m j) p →
    Turns (advance tight fixed m i j) p ⟨m', .over given⟩
  given_iff : given = true ↔ ∃ columnOf, Perfect tight columnOf ∧
    (∀ r < i, columnOf r = m.columnOf.get r) ∧ columnOf i = j
  matched : given = true → m'.Paired ∧ m'.TightIn tight ∧ m'.columnOf.get i = j ∧
    ∀ r < i, m'.columnOf.get r = m.columnOf.get r
  untouched : given = false → m' = m

/-- Rerouting, for a row whose turn has come and a tight column that neither is fixed nor its own,
comes to an end, where all its turns lead. The row is given the column just when some perfect
matching of tight edges does this and leaves the rows before it their columns; then the matching is
such a one. Otherwise it is as it was. -/
theorem reroute?_complete (tight : Table n (List (Fin n))) (fixed : Table n Bool) (m : Matching n)
    (i j : Fin n) (ready : Ready tight fixed m i) (edge : j ∈ tight.get i)
    (free : fixed.get j = false) (other : m.columnOf.get i ≠ j) :
    ∃ given m', Completed tight fixed m i j given m' := by
  have turns := ready.reroute_turns edge other
  cases result : reroute? tight fixed m i j with
  | none =>
    rw [result] at turns
    have never := reroute?_eq_none ready.paired other free result
    refine ⟨false, m, result, turns, fun p passed => turns.ends rfl passed, iff_of_false nofun ?_,
      nofun, fun _ => rfl⟩
    rintro ⟨columnOf, perfect, agrees, gives⟩
    exact never columnOf perfect (fun r held => agrees r ((ready.fixed_iff r).mp held)) gives
  | some m' =>
    rw [result] at turns
    obtain ⟨paired, tightIn, own, kept⟩ :=
      reroute?_eq_some ready.paired ready.tightIn edge other free result
    have before : ∀ r < i, m'.columnOf.get r = m.columnOf.get r := fun r less =>
      kept r less.ne ((ready.fixed_iff r).mpr less)
    have perfect : Perfect tight m'.columnOf.get := ⟨fun _ _ => paired.column_injective, tightIn⟩
    exact ⟨true, m', result, turns, fun p passed => turns.ends rfl passed,
      iff_of_true rfl ⟨_, perfect, before, own⟩, fun _ => ⟨paired, tightIn, own, before⟩, nofun⟩

/-- Each of four rows has the column of its own number. With the first row fixed, the second one is
given the third column, and the rows behind it move on; the third one cannot go back to the column
that is fixed. -/
theorem reroute?_complete_fourRows :
    let tight : Table 4 (List (Fin 4)) := #v[[0, 2], [1, 2], [0, 2, 3], [1, 3]]
    let fixed : Table 4 Bool := #v[true, false, false, false]
    let straight : Matching 4 := ⟨#v[0, 1, 2, 3], #v[0, 1, 2, 3]⟩
    Ready tight fixed straight 1 ∧
      Completed tight fixed straight 1 2 true ⟨#v[0, 2, 3, 1], #v[0, 3, 1, 2]⟩ := by
  intro tight fixed straight
  have ready : Ready tight fixed straight 1 :=
    ⟨⟨by decide +zetaReduce, by decide +zetaReduce⟩,
      by unfold Matching.TightIn; decide +zetaReduce, by decide +zetaReduce⟩
  refine ⟨ready, ?_⟩
  obtain ⟨given, m', completed⟩ := reroute?_complete tight fixed straight 1 2 ready
    (by decide +zetaReduce) (by decide +zetaReduce) (by decide +zetaReduce)
  have result : reroute? tight fixed straight 1 2 =
    some ⟨#v[0, 2, 3, 1], #v[0, 3, 1, 2]⟩ := by rfl
  rw [completed.result] at result
  cases given with
  | false => cases result
  | true =>
    cases result
    exact completed

end Optima.Assignment.Lexicographic
