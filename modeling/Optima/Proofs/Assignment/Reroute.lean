import Mathlib.Data.Fintype.Card
import Mathlib.Tactic.Ring
import Optima.Assignment.Lexicographic
import Optima.Proofs.Table

/-!
Rerouting. A search from the row that loses its column reaches columns along tight edges that are
neither fixed nor the column taken. The round in which a column was reached ranks it, and the rank
falls along parents (`Guides`), so handing columns back along them ends at the row that lost its own
and leaves a matching (`handBack_rerouted`).

If the search ends without the column that it looks for, the rows it came to have one usable tight
column too few between them, and no perfect matching of tight edges gives the taken column to the
row that asked for it (`reroute?_eq_none`).
-/

namespace Optima.Assignment.Lexicographic

variable {n : Nat}

/-- The two tables of a matching are inverse to each other. -/
structure Matching.Paired (m : Matching n) : Prop where
  row_column : ∀ i, m.rowOf.get (m.columnOf.get i) = i
  column_row : ∀ j, m.columnOf.get (m.rowOf.get j) = j

@[simp] theorem Matching.columnOf_assign (m : Matching n) (i j r : Fin n) :
    (m.assign i j).columnOf.get r = if i = r then j else m.columnOf.get r :=
  Table.get_update _ _ _ _

@[simp] theorem Matching.rowOf_assign (m : Matching n) (i j c : Fin n) :
    (m.assign i j).rowOf.get c = if j = c then i else m.rowOf.get c :=
  Table.get_update _ _ _ _

/-- Every row has one of its tight columns. -/
def Matching.TightIn (tight : Table n (List (Fin n))) (m : Matching n) : Prop :=
  ∀ i, m.columnOf.get i ∈ tight.get i

theorem Matching.Paired.column_injective {m : Matching n} (paired : m.Paired) {i k : Fin n}
    (same : m.columnOf.get i = m.columnOf.get k) : i = k := by
  rw [← paired.row_column i, same, paired.row_column k]

/-- Columns of tight edges, a different one for each row. -/
structure Perfect (tight : Table n (List (Fin n))) (columnOf : Fin n → Fin n) : Prop where
  injective : Function.Injective columnOf
  tight : ∀ i, columnOf i ∈ tight.get i

/-- The columns of fixed rows are as in a matching. -/
def Agrees (fixed : Table n Bool) (m : Matching n) (columnOf : Fin n → Fin n) : Prop :=
  ∀ i, fixed.get (m.columnOf.get i) = true → columnOf i = m.columnOf.get i

/-! ### The search -/

/-- What is known of the parents that a search has found so far, in terms of the round in which
columns were reached. -/
structure Guides (tight : Table n (List (Fin n))) (fixed : Table n Bool) (m : Matching n)
    (taken : Fin n) (rank : Fin n → Nat) (parent : Table n (Option (Fin n))) : Prop where
  usable : ∀ c r, parent.get c = some r → c ∈ tight.get r ∧ fixed.get c = false ∧ c ≠ taken
  back : ∀ c r, parent.get c = some r → m.columnOf.get r = taken ∨
    (parent.get (m.columnOf.get r)).isSome ∧ rank (m.columnOf.get r) < rank c

/-- A row that the search comes to: the one that loses the column `taken`, or one whose column was
reached. -/
def Met (m : Matching n) (taken : Fin n) (parent : Table n (Option (Fin n))) (r : Fin n) : Prop :=
  m.columnOf.get r = taken ∨ (parent.get (m.columnOf.get r)).isSome

/-- What the search keeps. -/
structure Explored (tight : Table n (List (Fin n))) (fixed : Table n Bool) (m : Matching n)
    (taken target : Fin n) (rank : Fin n → Nat) (round : Nat) (queue : List (Fin n))
    (parent : Table n (Option (Fin n))) : Prop where
  guides : Guides tight fixed m taken rank parent
  rank_lt : ∀ c, (parent.get c).isSome → rank c < round
  met : ∀ r ∈ queue, Met m taken parent r
  closed : ∀ r, Met m taken parent r → r ∈ queue ∨ ∀ c ∈ tight.get r, fixed.get c = false →
    c ≠ taken → (parent.get c).isSome
  missing : parent.get target = none

/-- The columns that a row adds to the search. -/
def fresh (tight : Table n (List (Fin n))) (fixed : Table n Bool) (taken : Fin n)
    (parent : Table n (Option (Fin n))) (row : Fin n) : List (Fin n) :=
  ((tight.get row).filter fun c => !fixed.get c && c ≠ taken && (parent.get c).isNone).eraseDups

/-- The parents after a row has added columns. -/
def adopt (row : Fin n) (columns : List (Fin n)) (parent : Table n (Option (Fin n))) :
    Table n (Option (Fin n)) :=
  columns.foldl (fun parent c => parent.update c (some row)) parent

theorem mem_fresh {tight : Table n (List (Fin n))} {fixed : Table n Bool} {taken : Fin n}
    {parent : Table n (Option (Fin n))} {row c : Fin n} :
    c ∈ fresh tight fixed taken parent row ↔
      c ∈ tight.get row ∧ fixed.get c = false ∧ c ≠ taken ∧ parent.get c = none := by
  simp [fresh, and_assoc]

/-- Each entry occurs once when repetitions are erased; by induction on the length, since they are
erased from the rest before it is looked at. -/
theorem nodup_eraseDups {α : Type} [DecidableEq α] (xs : List α) : xs.eraseDups.Nodup := by
  induction length : xs.length using Nat.strong_induction_on generalizing xs with
  | h size ih =>
    cases xs with
    | nil => exact List.nodup_nil
    | cons x xs =>
      rw [List.eraseDups_cons, List.nodup_cons]
      have shorter := List.length_filter_le (fun y => !y == x) xs
      rw [List.length_cons] at length
      exact ⟨by simp, ih _ (by omega) _ rfl⟩

theorem get_adopt (row : Fin n) (columns : List (Fin n)) (parent : Table n (Option (Fin n)))
    (c : Fin n) : (adopt row columns parent).get c =
      if c ∈ columns then some row else parent.get c := by
  induction columns generalizing parent with
  | nil => simp [adopt]
  | cons first rest ih =>
    have step : adopt row (first :: rest) parent =
      adopt row rest (parent.update first (some row)) := rfl
    rw [step, ih, Table.get_update]
    by_cases later : c ∈ rest
    · simp [later]
    · by_cases same : first = c
      · simp [same]
      · simp [later, same, Ne.symm same]

theorem isSome_adopt {row : Fin n} {columns : List (Fin n)} {parent : Table n (Option (Fin n))}
    {c : Fin n} : ((adopt row columns parent).get c).isSome ↔
      c ∈ columns ∨ (parent.get c).isSome := by
  rw [get_adopt]
  split
  · simp [*]
  · simp [*]

/-- One row looked at: the search ends with the column looked for, or goes on with the rows of the
columns that were reached. -/
theorem explore_cons (tight : Table n (List (Fin n))) (fixed : Table n Bool)
    (rowOf : Table n (Fin n)) (taken target : Fin n) (fuel : Nat) (row : Fin n)
    (queue : List (Fin n)) (parent : Table n (Option (Fin n))) :
    explore tight fixed rowOf taken target (fuel + 1) (row :: queue) parent =
      if target ∈ fresh tight fixed taken parent row then
        some (adopt row (fresh tight fixed taken parent row) parent)
      else explore tight fixed rowOf taken target fuel
        (queue ++ (fresh tight fixed taken parent row).map rowOf.get)
        (adopt row (fresh tight fixed taken parent row) parent) := by
  simp only [← List.contains_iff_mem]
  rfl

/-- The columns that were not reached yet. -/
def unreached (parent : Table n (Option (Fin n))) : Nat :=
  ∑ c, if parent.get c = none then 1 else 0

theorem unreached_fill (n : Nat) : unreached (Table.fill n (none : Option (Fin n))) = n := by
  simp [unreached]

theorem unreached_adopt {row : Fin n} {columns : List (Fin n)}
    {parent : Table n (Option (Fin n))} (nodup : columns.Nodup)
    (new : ∀ c ∈ columns, parent.get c = none) :
    unreached (adopt row columns parent) + columns.length = unreached parent := by
  induction columns generalizing parent with
  | nil => rfl
  | cons first rest ih =>
    obtain ⟨once, distinct⟩ := List.nodup_cons.mp nodup
    have later : ∀ c ∈ rest, (parent.update first (some row)).get c = none := by
      intro c member
      have other : first ≠ c := fun same => once (same ▸ member)
      rw [Table.get_update, if_neg other]
      exact new c (List.mem_cons_of_mem _ member)
    have change := Table.sum_update parent first (some row) fun _ a => if a = none then 1 else 0
    rw [new first List.mem_cons_self] at change
    have next := ih distinct later
    simp only [if_true, reduceCtorEq, if_false, add_zero] at change
    change unreached (parent.update first (some row)) + 1 = unreached parent at change
    rw [List.length_cons, ← change, ← next]
    exact (add_assoc _ _ _).symm

variable {tight : Table n (List (Fin n))} {fixed : Table n Bool} {m : Matching n}
  {taken target : Fin n}

/-- The ranks after columns were reached in a round. -/
def rankAfter (columns : List (Fin n)) (round : Nat) (rank : Fin n → Nat) (c : Fin n) : Nat :=
  if c ∈ columns then round else rank c

section Round

variable {rank : Fin n → Nat} {round : Nat} {row : Fin n} {queue : List (Fin n)}
  {parent : Table n (Option (Fin n))}

/-- Columns reached before keep their ranks. -/
theorem rankAfter_of_isSome {c : Fin n} (reached : (parent.get c).isSome) :
    rankAfter (fresh tight fixed taken parent row) round rank c = rank c := by
  apply if_neg
  intro new
  rw [(mem_fresh.mp new).2.2.2] at reached
  cases reached

theorem Explored.guides_step
    (explored : Explored tight fixed m taken target rank round (row :: queue) parent) :
    Guides tight fixed m taken (rankAfter (fresh tight fixed taken parent row) round rank)
      (adopt row (fresh tight fixed taken parent row) parent) := by
  constructor
  · intro c r found
    rw [get_adopt] at found
    split at found
    · rename_i new
      cases found
      obtain ⟨edge, free, other, _⟩ := mem_fresh.mp new
      exact ⟨edge, free, other⟩
    · exact explored.guides.usable c r found
  · intro c r found
    rw [get_adopt] at found
    split at found
    · rename_i new
      cases found
      apply (explored.met row List.mem_cons_self).imp_right
      intro reached
      refine ⟨isSome_adopt.mpr (.inr reached), ?_⟩
      rw [rankAfter_of_isSome reached, rankAfter, if_pos new]
      exact explored.rank_lt _ reached
    · apply (explored.guides.back c r found).imp_right
      rintro ⟨reached, lower⟩
      refine ⟨isSome_adopt.mpr (.inr reached), ?_⟩
      rw [rankAfter_of_isSome reached, rankAfter_of_isSome (by rw [found]; rfl)]
      exact lower

theorem Explored.rank_lt_step
    (explored : Explored tight fixed m taken target rank round (row :: queue) parent) {c : Fin n}
    (reached : ((adopt row (fresh tight fixed taken parent row) parent).get c).isSome) :
    rankAfter (fresh tight fixed taken parent row) round rank c < round + 1 := by
  rcases isSome_adopt.mp reached with new | before
  · rw [rankAfter, if_pos new]
    exact Nat.lt_succ_self round
  · rw [rankAfter_of_isSome before]
    exact Nat.lt_succ_of_lt (explored.rank_lt c before)

/-- A round that does not reach the column looked for. The row has been looked at, and the rows of
the columns that it added wait. -/
theorem Explored.step (paired : m.Paired)
    (explored : Explored tight fixed m taken target rank round (row :: queue) parent)
    (still : target ∉ fresh tight fixed taken parent row) :
    Explored tight fixed m taken target
      (rankAfter (fresh tight fixed taken parent row) round rank) (round + 1)
      (queue ++ (fresh tight fixed taken parent row).map m.rowOf.get)
      (adopt row (fresh tight fixed taken parent row) parent) := by
  refine ⟨explored.guides_step, fun c reached => explored.rank_lt_step reached, ?_, ?_, ?_⟩
  · intro r member
    rcases List.mem_append.mp member with old | new
    · exact (explored.met r (List.mem_cons_of_mem _ old)).imp_right fun reached =>
        isSome_adopt.mpr (.inr reached)
    · obtain ⟨c, found, rfl⟩ := List.mem_map.mp new
      right
      rw [paired.column_row]
      exact isSome_adopt.mpr (.inl found)
  · intro r meets
    by_cases own : r = row
    · subst own
      right
      intro c edge free other
      rw [isSome_adopt]
      by_cases reached : (parent.get c).isSome
      · exact .inr reached
      · exact .inl (mem_fresh.mpr ⟨edge, free, other, Option.not_isSome_iff_eq_none.mp reached⟩)
    · by_cases before : Met m taken parent r
      · rcases explored.closed r before with waits | done
        · have behind := (List.mem_cons.mp waits).resolve_left own
          exact .inl (List.mem_append_left _ behind)
        · exact .inr fun c edge free other => isSome_adopt.mpr (.inr (done c edge free other))
      · left
        have new : m.columnOf.get r ∈ fresh tight fixed taken parent row := by
          rcases meets with lost | reached
          · exact absurd (.inl lost) before
          · exact (isSome_adopt.mp reached).resolve_right fun old => before (.inr old)
        exact List.mem_append_right _ (List.mem_map.mpr ⟨_, new, paired.row_column r⟩)
  · rw [get_adopt, if_neg still]
    exact explored.missing

end Round

/-- A search that finds its column leaves parents that lead from it back to the beginning. -/
theorem explore_eq_some {fuel round : Nat} {rank : Fin n → Nat} {queue : List (Fin n)}
    {parent found : Table n (Option (Fin n))} (paired : m.Paired)
    (explored : Explored tight fixed m taken target rank round queue parent)
    (ok : explore tight fixed m.rowOf taken target fuel queue parent = some found) :
    ∃ rank, Guides tight fixed m taken rank found ∧ (found.get target).isSome ∧
      rank target < round + fuel := by
  induction fuel generalizing round rank queue parent with
  | zero =>
    unfold explore at ok
    cases ok
  | succ fuel ih =>
    cases queue with
    | nil =>
      unfold explore at ok
      cases ok
    | cons row queue =>
      rw [explore_cons] at ok
      by_cases there : target ∈ fresh tight fixed taken parent row
      · rw [if_pos there] at ok
        cases ok
        have bound := explored.rank_lt_step (isSome_adopt.mpr (.inl there))
        exact ⟨_, explored.guides_step, isSome_adopt.mpr (.inl there), by omega⟩
      · rw [if_neg there] at ok
        obtain ⟨rank', last, reached, bound⟩ := ih (explored.step paired there) ok
        exact ⟨rank', last, reached, by omega⟩

/-- A search that does not find its column has looked at every row that it could come to. -/
theorem explore_eq_none {fuel round : Nat} {rank : Fin n → Nat} {queue : List (Fin n)}
    {parent : Table n (Option (Fin n))} (paired : m.Paired)
    (explored : Explored tight fixed m taken target rank round queue parent)
    (enough : queue.length + unreached parent ≤ fuel)
    (ok : explore tight fixed m.rowOf taken target fuel queue parent = none) :
    ∃ rank round found, Explored tight fixed m taken target rank round [] found := by
  induction fuel generalizing round rank queue parent with
  | zero =>
    have empty : queue = [] := List.eq_nil_of_length_eq_zero (by omega)
    exact ⟨rank, round, parent, empty ▸ explored⟩
  | succ fuel ih =>
    cases queue with
    | nil => exact ⟨rank, round, parent, explored⟩
    | cons row queue =>
      have count : unreached (adopt row (fresh tight fixed taken parent row) parent) +
          (fresh tight fixed taken parent row).length = unreached parent :=
        unreached_adopt (nodup_eraseDups _) fun c new => (mem_fresh.mp new).2.2.2
      rw [explore_cons] at ok
      by_cases there : target ∈ fresh tight fixed taken parent row
      · rw [if_pos there] at ok
        cases ok
      · rw [if_neg there] at ok
        refine ih (explored.step paired there) ?_ ok
        rw [List.length_cons] at enough
        rw [List.length_append, List.length_map]
        omega

/-- The search as it begins. -/
theorem explored_start (paired : m.Paired) (i j : Fin n) :
    Explored tight fixed m j (m.columnOf.get i) (fun _ => 0) 0 [m.rowOf.get j]
      (Table.fill n none) := by
  have nothing : ∀ c, ¬ ((Table.fill n (none : Option (Fin n))).get c).isSome := by
    intro c reached
    rw [Table.get_fill] at reached
    cases reached
  constructor
  · constructor
    · intro c r found
      rw [Table.get_fill] at found
      cases found
    · intro c r found
      rw [Table.get_fill] at found
      cases found
  · exact fun c reached => absurd reached (nothing c)
  · intro r member
    rw [List.mem_singleton.mp member]
    exact .inl (paired.column_row j)
  · rintro r (lost | reached)
    · left
      rw [← lost, paired.row_column]
      exact List.mem_singleton_self r
    · exact absurd reached (nothing _)
  · exact Table.get_fill _ _

/-! ### Handing back -/

/-- A matching that lacks a row for the column `c` and a column for the row that lost `taken`, on
the way back along parents. -/
structure HandingBack (tight : Table n (List (Fin n))) (fixed : Table n Bool) (m : Matching n)
    (i taken : Fin n) (rank : Fin n → Nat) (parent : Table n (Option (Fin n))) (c : Fin n)
    (m' : Matching n) : Prop where
  reached : (parent.get c).isSome
  rank_le : rank c ≤ rank (m.columnOf.get i)
  rows : ∀ r, r ≠ m.rowOf.get taken →
    m'.columnOf.get r ≠ c ∧ m'.rowOf.get (m'.columnOf.get r) = r
  columns : ∀ d, d ≠ c → m'.rowOf.get d ≠ m.rowOf.get taken ∧ m'.columnOf.get (m'.rowOf.get d) = d
  intact : ∀ r, r ≠ m.rowOf.get taken → rank (m.columnOf.get r) < rank c →
    m'.columnOf.get r = m.columnOf.get r
  tight : ∀ r, r ≠ m.rowOf.get taken → m'.columnOf.get r ∈ tight.get r
  own : m'.columnOf.get i = taken
  kept : ∀ r, r ≠ i → fixed.get (m.columnOf.get r) = true → m'.columnOf.get r = m.columnOf.get r

/-- What a row is given, and that fixed rows keep their columns. -/
structure Rerouted (tight : Table n (List (Fin n))) (fixed : Table n Bool) (m : Matching n)
    (i taken : Fin n) (m' : Matching n) : Prop where
  paired : m'.Paired
  tightIn : m'.TightIn tight
  own : m'.columnOf.get i = taken
  kept : ∀ r, r ≠ i → fixed.get (m.columnOf.get r) = true → m'.columnOf.get r = m.columnOf.get r

theorem HandingBack.start {i : Fin n} {rank : Fin n → Nat} {parent : Table n (Option (Fin n))}
    (paired : m.Paired) (tightIn : m.TightIn tight) (member : taken ∈ tight.get i)
    (other : m.columnOf.get i ≠ taken) (reached : (parent.get (m.columnOf.get i)).isSome) :
    HandingBack tight fixed m i taken rank parent (m.columnOf.get i) (m.assign i taken) := by
  have row_ne : ∀ r, r ≠ m.rowOf.get taken → m.columnOf.get r ≠ taken := by
    intro r apart same
    exact apart (by rw [← same, paired.row_column])
  constructor
  · exact reached
  · exact le_refl _
  · intro r apart
    simp only [Matching.columnOf_assign, Matching.rowOf_assign]
    by_cases same : i = r
    · subst same
      simp only [if_true]
      exact ⟨other.symm, trivial⟩
    · simp only [if_neg same, if_neg (row_ne r apart).symm]
      exact ⟨fun equal => same (paired.column_injective equal.symm), paired.row_column r⟩
  · intro d apart
    simp only [Matching.columnOf_assign, Matching.rowOf_assign]
    by_cases same : taken = d
    · subst same
      simp only [if_true]
      refine ⟨fun equal => other ?_, trivial⟩
      rw [equal, paired.column_row]
    · have row : i ≠ m.rowOf.get d := fun equal => apart (by rw [equal, paired.column_row])
      simp only [if_neg same, if_neg row]
      refine ⟨fun equal => same ?_, paired.column_row d⟩
      rw [← paired.column_row taken, ← equal, paired.column_row]
  · intro r apart lower
    have row : i ≠ r := fun equal => absurd lower (by rw [equal]; exact lt_irrefl _)
    simp only [Matching.columnOf_assign, if_neg row]
  · intro r apart
    simp only [Matching.columnOf_assign]
    split
    · rename_i same
      exact same ▸ member
    · exact tightIn r
  · simp only [Matching.columnOf_assign, if_true]
  · intro r apart _
    simp only [Matching.columnOf_assign, if_neg (Ne.symm apart)]

/-- The parent of the column is the row that lost its own: the matching is whole again. -/
theorem HandingBack.last {i c : Fin n} {rank : Fin n → Nat} {parent : Table n (Option (Fin n))}
    {m' : Matching n} (guides : Guides tight fixed m taken rank parent) (paired : m.Paired)
    (free : fixed.get taken = false) (other : m.columnOf.get i ≠ taken)
    (back : HandingBack tight fixed m i taken rank parent c m')
    (found : parent.get c = some (m.rowOf.get taken)) :
    Rerouted tight fixed m i taken (m'.assign (m.rowOf.get taken) c) := by
  obtain ⟨edge, _, _⟩ := guides.usable c _ found
  constructor
  · constructor
    · intro r
      simp only [Matching.columnOf_assign, Matching.rowOf_assign]
      by_cases same : m.rowOf.get taken = r
      · simp [same]
      · have rows := back.rows r (Ne.symm same)
        simp only [if_neg same, if_neg rows.1.symm]
        exact rows.2
    · intro d
      simp only [Matching.columnOf_assign, Matching.rowOf_assign]
      by_cases same : c = d
      · simp [same]
      · have columns := back.columns d (Ne.symm same)
        simp only [if_neg same, if_neg columns.1.symm]
        exact columns.2
  · intro r
    simp only [Matching.columnOf_assign]
    by_cases same : m.rowOf.get taken = r
    · rw [if_pos same, ← same]
      exact edge
    · rw [if_neg same]
      exact back.tight r (Ne.symm same)
  · have apart : m.rowOf.get taken ≠ i := by
      intro same
      exact other (by rw [← same, paired.column_row])
    simp only [Matching.columnOf_assign, if_neg apart]
    exact back.own
  · intro r apart settled
    have row : m.rowOf.get taken ≠ r := by
      intro same
      rw [← same, paired.column_row, free] at settled
      cases settled
    simp only [Matching.columnOf_assign, if_neg row]
    exact back.kept r apart settled

/-- The parent of the column is another row, whose own column is the next to be handed back. -/
theorem HandingBack.next {i c r : Fin n} {rank : Fin n → Nat}
    {parent : Table n (Option (Fin n))} {m' : Matching n}
    (guides : Guides tight fixed m taken rank parent) (paired : m.Paired)
    (back : HandingBack tight fixed m i taken rank parent c m')
    (found : parent.get c = some r) (further : r ≠ m.rowOf.get taken) :
    rank (m'.columnOf.get r) < rank c ∧
      HandingBack tight fixed m i taken rank parent (m'.columnOf.get r) (m'.assign r c) := by
  obtain ⟨edge, _, _⟩ := guides.usable c r found
  have lost : m.columnOf.get r ≠ taken := fun same => further (by rw [← same, paired.row_column])
  obtain ⟨before, lower⟩ := (guides.back c r found).resolve_left lost
  have same := back.intact r further lower
  obtain ⟨hole, _⟩ := back.rows r further
  have unfixed : fixed.get (m.columnOf.get r) = false := by
    obtain ⟨p, parent_eq⟩ := Option.isSome_iff_exists.mp before
    exact (guides.usable _ p parent_eq).2.1
  have not_own : r ≠ i := by
    intro equal
    rw [equal] at lower
    exact absurd (lower.trans_le back.rank_le) (lt_irrefl _)
  rw [same]
  refine ⟨lower, ⟨before, lower.le.trans back.rank_le, ?_, ?_, ?_, ?_, ?_, ?_⟩⟩
  · intro s apart
    simp only [Matching.columnOf_assign, Matching.rowOf_assign]
    by_cases equal : r = s
    · subst equal
      simp only [if_true]
      exact ⟨fun clash => hole (same.trans clash.symm), trivial⟩
    · obtain ⟨there, inverse⟩ := back.rows s apart
      simp only [if_neg equal, if_neg there.symm]
      refine ⟨fun clash => equal ?_, inverse⟩
      rw [← (back.rows r further).2, same, ← clash, inverse]
  · intro d apart
    simp only [Matching.columnOf_assign, Matching.rowOf_assign]
    by_cases equal : c = d
    · subst equal
      simp only [if_true]
      exact ⟨further, trivial⟩
    · obtain ⟨there, inverse⟩ := back.columns d (Ne.symm equal)
      have row : r ≠ m'.rowOf.get d := by
        intro clash
        rw [← clash, same] at inverse
        exact apart inverse.symm
      simp only [if_neg equal, if_neg row]
      exact ⟨there, inverse⟩
  · intro s apart below
    have row : r ≠ s := fun equal => absurd below (by rw [equal]; exact lt_irrefl _)
    simp only [Matching.columnOf_assign, if_neg row]
    exact back.intact s apart (below.trans lower)
  · intro s apart
    simp only [Matching.columnOf_assign]
    split
    · rename_i equal
      exact equal ▸ edge
    · exact back.tight s apart
  · simp only [Matching.columnOf_assign, if_neg not_own]
    exact back.own
  · intro s apart settled
    have row : r ≠ s := by
      intro equal
      rw [← equal, unfixed] at settled
      cases settled
    simp only [Matching.columnOf_assign, if_neg row]
    exact back.kept s apart settled

/-- Handing back ends with a matching. -/
theorem handBack_rerouted {fuel : Nat} {i c : Fin n} {rank : Fin n → Nat}
    {parent : Table n (Option (Fin n))} {m' : Matching n}
    (guides : Guides tight fixed m taken rank parent) (paired : m.Paired)
    (free : fixed.get taken = false) (other : m.columnOf.get i ≠ taken) (enough : rank c < fuel)
    (back : HandingBack tight fixed m i taken rank parent c m') :
    Rerouted tight fixed m i taken (handBack parent (m.rowOf.get taken) fuel c m') := by
  induction fuel generalizing c m' with
  | zero => exact absurd enough (Nat.not_lt_zero _)
  | succ fuel ih =>
    obtain ⟨r, found⟩ := Option.isSome_iff_exists.mp back.reached
    unfold handBack
    rw [found]
    by_cases last : r = m.rowOf.get taken
    · simp only [if_pos last]
      subst last
      exact back.last guides paired free other found
    · simp only [if_neg last]
      obtain ⟨lower, next⟩ := back.next guides paired found last
      exact ih (by omega) next

/-! ### Rerouting as a whole -/

/-- A row that is given another column is given it in a matching of tight edges, in which fixed rows
keep theirs. -/
theorem reroute?_eq_some {i j : Fin n} {m' : Matching n} (paired : m.Paired)
    (tightIn : m.TightIn tight) (member : j ∈ tight.get i) (other : m.columnOf.get i ≠ j)
    (free : fixed.get j = false) (ok : reroute? tight fixed m i j = some m') :
    Rerouted tight fixed m i j m' := by
  obtain ⟨parent, found, rfl⟩ := Option.map_eq_some_iff.mp ok
  obtain ⟨rank, guides, reached, bound⟩ :=
    explore_eq_some paired (explored_start paired i j) found
  rw [Nat.zero_add] at bound
  exact handBack_rerouted guides paired free other bound
    (HandingBack.start paired tightIn member other reached)

section Blocked

variable {i : Fin n} {rank : Fin n → Nat} {round : Nat} {parent : Table n (Option (Fin n))}
  {columnOf : Fin n → Fin n}

/-- The rows that a search comes to are not fixed. -/
theorem Explored.unfixed {queue : List (Fin n)}
    (explored : Explored tight fixed m taken target rank round queue parent)
    (free : fixed.get taken = false) {r : Fin n} (meets : Met m taken parent r) :
    fixed.get (m.columnOf.get r) = false := by
  rcases meets with lost | found
  · rw [lost, free]
  · obtain ⟨p, parent_eq⟩ := Option.isSome_iff_exists.mp found
    exact (explored.guides.usable _ p parent_eq).2.1

/-- Where a search has come to its end, a row that it came to has a column that was reached, in any
matching that gives the column taken to a row that it did not come to. -/
theorem Explored.maps_reached (paired : m.Paired)
    (explored : Explored tight fixed m taken target rank round [] parent)
    (free : fixed.get taken = false) (perfect : Perfect tight columnOf)
    (agrees : Agrees fixed m columnOf) (gives : columnOf i = taken) (unmet : ¬ Met m taken parent i)
    {r : Fin n} (meets : Met m taken parent r) : (parent.get (columnOf r)).isSome := by
  rcases explored.closed r meets with waits | closed
  · cases waits
  · refine closed _ (perfect.tight r) ?_ fun same => ?_
    · by_contra held
      rw [Bool.not_eq_false] at held
      have holder : columnOf (m.rowOf.get (columnOf r)) = columnOf r := by
        rw [agrees _ (by rw [paired.column_row]; exact held), paired.column_row]
      have unfixed := explored.unfixed free meets
      rw [← perfect.injective holder, paired.column_row, held] at unfixed
      cases unfixed
    · exact unmet (perfect.injective (gives.trans same.symm) ▸ meets)

/-- The rows that a search came to are one more than the columns it reached. -/
theorem Explored.not_perfect (paired : m.Paired)
    (explored : Explored tight fixed m taken target rank round [] parent)
    (free : fixed.get taken = false) (perfect : Perfect tight columnOf)
    (agrees : Agrees fixed m columnOf) (unmet : ¬ Met m taken parent i) : columnOf i ≠ taken := by
  intro gives
  let reached : Finset (Fin n) := Finset.univ.filter fun c => (parent.get c).isSome
  have mem_reached : ∀ c, c ∈ reached ↔ (parent.get c).isSome := fun c => by simp [reached]
  have apart : taken ∉ reached := by
    intro found
    obtain ⟨p, parent_eq⟩ := Option.isSome_iff_exists.mp ((mem_reached taken).mp found)
    exact (explored.guides.usable _ p parent_eq).2.2 rfl
  have maps : ∀ r ∈ (insert taken reached).image m.rowOf.get, columnOf r ∈ reached := by
    intro r member
    obtain ⟨c, inside, rfl⟩ := Finset.mem_image.mp member
    have meets : Met m taken parent (m.rowOf.get c) := by
      rw [Met, paired.column_row]
      exact (Finset.mem_insert.mp inside).imp_right (mem_reached c).mp
    exact (mem_reached _).mpr
      (explored.maps_reached paired free perfect agrees gives unmet meets)
  have row_injective : Function.Injective m.rowOf.get := by
    intro c d same
    rw [← paired.column_row c, same, paired.column_row]
  have few := Finset.card_le_card_of_injOn columnOf maps perfect.injective.injOn
  rw [Finset.card_image_of_injective _ row_injective, Finset.card_insert_of_notMem apart] at few
  exact absurd few (Nat.not_succ_le_self _)

end Blocked

/-- A row that is not given another column has it in no perfect matching of tight edges in which
fixed rows keep theirs. -/
theorem reroute?_eq_none {i j : Fin n} (paired : m.Paired) (other : m.columnOf.get i ≠ j)
    (free : fixed.get j = false) (failed : reroute? tight fixed m i j = none)
    (columnOf : Fin n → Fin n) (perfect : Perfect tight columnOf)
    (agrees : Agrees fixed m columnOf) : columnOf i ≠ j := by
  obtain ⟨rank, round, parent, explored⟩ := explore_eq_none paired
    (explored_start paired i j) (by rw [unreached_fill, List.length_singleton, Nat.add_comm])
    (Option.map_eq_none_iff.mp failed)
  apply explored.not_perfect paired free perfect agrees
  rintro (lost | reached)
  · exact other lost
  · rw [explored.missing] at reached
    cases reached

end Optima.Assignment.Lexicographic
